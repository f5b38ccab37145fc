import SymbolicDex.Opcode.Info
import SymbolicDex.Proofs.Instruction.Tiling

/- Which instructions have a target. A target is decoded from the units of a branch,
   a switch or a table load, and from no others.

   What is proved:
     1. `decodeOperands_target`: a decoded target belongs to one of the formats with
        targets, and `Opcode.jumps_of_format`: to a branch, a switch or a table load.
     2. `jumpsByBranches_of_decode`: so it does in every body that was decoded. -/
namespace SymbolicDex

/-- Only gotos, branches, switches and table loads have a target. -/
def Code.JumpsByBranches (code : Code) : Prop :=
  ∀ i ∈ code.instructions, i.target.isSome → i.opcode.isGoto = true ∨
    i.opcode.isConditional = true ∨ i.opcode.isSwitch = true ∨ i.opcode = .fillArrayData

instance (code : Code) : Decidable code.JumpsByBranches :=
  inferInstanceAs (Decidable (∀ i ∈ code.instructions, _))

theorem Code.JumpsByBranches.no_target {code : Code} (h : code.JumpsByBranches) {ix : Nat}
    {i : Instruction} (hi : code.instructions[ix]? = some i)
    (hopcode : ¬(i.opcode.isGoto = true ∨ i.opcode.isConditional = true ∨
      i.opcode.isSwitch = true ∨ i.opcode = .fillArrayData)) : i.target = none := by
  cases htarget : i.target with
  | none => rfl
  | some d => exact absurd (h i (List.mem_of_getElem? hi) (by rw [htarget]; rfl)) hopcode

/-! ## Decoded targets -/

/-- Formats with a distance to another instruction. -/
def Format.HasTarget (f : Format) : Prop :=
  f = .f10t ∨ f = .f20t ∨ f = .f21t ∨ f = .f22t ∨ f = .f30t ∨ f = .f31t

theorem Opcode.jumps_of_format {o : Opcode} (h : o.format.HasTarget) :
    o.isGoto = true ∨ o.isConditional = true ∨ o.isSwitch = true ∨ o = .fillArrayData := by
  unfold Format.HasTarget at h
  cases o <;> revert h <;> decide

namespace Instruction

open CodeUnits Checked

variable {t : OpcodeTable} {r : Resolver} {units : List UInt16} {opcode : Opcode} {u0 : Nat}

theorem decodeOperands_target :
    Gives (decodeOperands r (.ofUnits units) opcode u0) fun i =>
      i.target.isSome → opcode.format.HasTarget := by
  unfold decodeOperands Format.HasTarget
  cases opcode.format <;> simp only
  case f10t => exact gives_ok fun _ => by decide
  case f20t | f21t | f22t | f30t | f31t =>
    apply gives_bind
    intro _ _
    exact gives_ok fun _ => by decide
  -- no other format leaves a target
  case f10x | f11n | f11x | f12x => exact gives_ok nofun
  case f21c | f22c | f31c | f32x | f51l =>
    apply gives_bind
    intro _ _
    apply gives_bind
    intro _ _
    exact gives_ok nofun
  case f35c | f35mi | f35ms | f45cc =>
    split
    · exact gives_fail
    · apply gives_bind
      intro packed _
      apply gives_bind
      intro reference _
      apply gives_bind
      intro reference2 _
      exact gives_ok nofun
  case f3rc | f3rmi | f3rms | f4rcc =>
    apply gives_bind
    intro first _
    apply gives_bind
    intro reference _
    apply gives_bind
    intro reference2 _
    exact gives_ok nofun
  all_goals
    apply gives_bind
    intro _ _
    exact gives_ok nofun

theorem decodeHead_target {i : Instruction} (h : decodeHead t r units = .ok i)
    (htarget : i.target.isSome) : i.opcode.format.HasTarget := by
  have hgives : Gives (decodeHead t r units) fun i =>
      i.target.isSome → i.opcode.format.HasTarget := by
    have hoperands {opcode : Opcode} {u0 : Nat} :
        Gives (decodeOperands r (.ofUnits units) opcode u0) fun i =>
          i.target.isSome → i.opcode.format.HasTarget := by
      intro i hi
      rw [decodeOperands_opcode i hi]
      exact decodeOperands_target i hi
    apply gives_bind
    intro u0 _
    cases t.opcode? (opcodeValue u0) with
    | none => exact gives_fail
    | some opcode =>
      cases hsize : opcode.format.codeUnits with
      | none => simpa only [hsize] using hoperands
      | some size =>
        simp only [hsize]
        split
        · exact gives_fail
        · exact hoperands
  exact hgives i h htarget

/-- Whatever body is made of decoded instructions jumps by branches alone. -/
theorem jumpsByBranches_of_decode {code : Code} (h : decode t r units = .ok code.instructions) :
    code.JumpsByBranches := by
  have htiles := decode_eq_ok_iff.1 h
  unfold Code.JumpsByBranches
  clear h
  generalize code.instructions = is at htiles ⊢
  induction htiles with
  | nil => exact fun _ hi => absurd hi List.not_mem_nil
  | cons _ hhead _ ih =>
    refine List.forall_mem_cons.2 ⟨fun htarget => ?_, ih⟩
    exact Opcode.jumps_of_format (decodeHead_target hhead htarget)

end Instruction

end SymbolicDex
