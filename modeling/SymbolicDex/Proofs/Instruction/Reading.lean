import SymbolicDex.Instruction.Decoder
import Mathlib.Data.List.GetD

/- What decoding one instruction reads. The decoder is one definition over every
   source of code units, so its reading is studied by running it on other sources
   than a list. `Follows` is what such a source has to satisfy, step by step; a
   source that follows a list decodes its head as the list does.

   What is proved:
     1. `Follows.decodeFirst`: the contract of the single reads carries over to the
        decoder, one case per format.
     2. `decodeFirst_guarded`: on a source that crashes when it is read past the end,
        or asked for a size beyond a machine word, the decoder never crashes.
     3. `decodeHead_append`: what is decoded does not depend on what follows it.
     4. `codeUnits_le_of_decodeHead`: the size of what is decoded was there. -/
namespace SymbolicDex

namespace CodeUnits

namespace Source

/-! ## Sources that follow a list of units -/

variable {m : Type → Type} [Monad m]

/-- `R` relates what is computed on `units` to what is computed on `s`. It holds of
    reads within the units, and goes through the steps of a computation. -/
structure Follows (R : (α : Type) → Checked α → m α → Prop) (units : List UInt16)
    (s : Source m) : Prop where
  pure {α : Type} (a : α) : R α (.ok a) (pure a)
  bind {α β : Type} {x : Checked α} {y : m α} {f : α → Checked β} {g : α → m β} :
    R α x y → (∀ a, x = .ok a → R β (f a) (g a)) → R β (x >>= f) (y >>= g)
  settle {α : Type} (x : Checked α) : R α x (s.settle x)
  unit {k : Nat} : k < units.length → R Nat ((ofUnits units).unit k) (s.unit k)
  block {start count : Nat} : start + count ≤ units.length →
    R (List UInt16) ((ofUnits units).block start count) (s.block start count)
  size {n : Nat} : n < 0x10000000000000000 → R Nat ((ofUnits units).size n) (s.size n)
  length : units.length ≤ s.length
  /-- Checking that there are `n` units. -/
  check {α : Type} {n : Nat} {fault : Fault} {x : Checked α} {y : m α} :
    (n ≤ units.length → R α x y) →
      R α (if units.length < n then (ofUnits units).fail fault else x)
        (if s.length < n then s.fail fault else y)
  /-- A sparse table marked by the last unit: its count is missing. -/
  cut : units.length < 2 →
    R Payload (Payload.decodeSparse (ofUnits units)) (Payload.decodeSparse s)

namespace Follows

variable {R : (α : Type) → Checked α → m α → Prop} {units : List UInt16} {s : Source m}

theorem word (h : Follows R units s) {k : Nat} (hk : k + 1 < units.length) :
    R Nat ((ofUnits units).word k) (s.word k) := by
  apply h.bind (h.unit (by omega))
  intro low _
  apply h.bind (h.unit hk)
  intro high _
  exact h.pure _

theorem signedWord (h : Follows R units s) {k : Nat} (hk : k + 1 < units.length) :
    R Int (signedWord (ofUnits units) k) (signedWord s k) := by
  apply h.bind (h.word hk)
  intro n _
  exact h.pure _

theorem mapM [LawfulMonad m] (h : Follows R units s) {α β : Type} {f : α → Checked β}
    {g : α → m β} {as : List α} (hf : ∀ a ∈ as, R β (f a) (g a)) :
    R (List β) (as.mapM f) (as.mapM g) := by
  induction as with
  | nil => exact h.pure []
  | cons a as ih =>
    rw [List.mapM_cons, List.mapM_cons]
    apply h.bind (hf a List.mem_cons_self)
    intro b _
    apply h.bind (ih fun c hc => hf c (List.mem_cons_of_mem a hc))
    intro bs _
    exact h.pure _

theorem signedWords [LawfulMonad m] (h : Follows R units s) {k count : Nat}
    (hk : k + 2 * count ≤ units.length) :
    R (List Int) (signedWords (ofUnits units) k count) (signedWords s k count) := by
  apply h.mapM
  intro j hj
  have hj := List.mem_range.1 hj
  exact h.signedWord (by omega)

end Follows

theorem ofUnits_unit_lt {units : List UInt16} {k u : Nat}
    (h : (ofUnits units).unit k = .ok u) : u < 0x10000 := by
  cases h
  exact UInt16.toNat_lt _

theorem ofUnits_word_lt {units : List UInt16} {k n : Nat}
    (h : (ofUnits units).word k = .ok n) : n < 0x100000000 := by
  have hlow : (units.getD k 0).toNat < 0x10000 := UInt16.toNat_lt _
  have hhigh : (units.getD (k + 1) 0).toNat < 0x10000 := UInt16.toNat_lt _
  cases h
  omega

namespace Follows

variable [LawfulMonad m] {R : (α : Type) → Checked α → m α → Prop} {units : List UInt16}
  {s : Source m}

theorem decodePacked (h : Follows R units s) :
    R Payload (Payload.decodePacked (ofUnits units)) (Payload.decodePacked s) := by
  apply h.check
  intro hheader
  apply h.bind (h.unit (by omega))
  intro count hcount
  have hcount := ofUnits_unit_lt hcount
  apply h.bind (h.size (by omega))
  intro n hn
  cases hn
  apply h.check
  intro htable
  apply h.bind (h.signedWord (by omega))
  intro key _
  apply h.bind (h.signedWords (by omega))
  intro targets _
  exact h.pure _

theorem decodeSparse (h : Follows R units s) :
    R Payload (Payload.decodeSparse (ofUnits units)) (Payload.decodeSparse s) := by
  by_cases hcut : units.length < 2
  · exact h.cut hcut
  have hunits : 1 < (ofUnits units).length := by
    show 1 < units.length
    omega
  have hlength : 1 < s.length := Nat.lt_of_lt_of_le hunits h.length
  simp only [Payload.decodeSparse, unitOrZero, if_pos hunits, if_pos hlength]
  apply h.bind (h.unit hunits)
  intro count hcount
  have hcount := ofUnits_unit_lt hcount
  apply h.bind (h.size (by omega))
  intro n hn
  cases hn
  apply h.check
  intro htable
  apply h.bind (h.signedWords (by omega))
  intro keys _
  apply h.bind (h.signedWords (by omega))
  intro targets _
  exact h.pure _

omit [LawfulMonad m] in
theorem decodeArray (h : Follows R units s) :
    R Payload (Payload.decodeArray (ofUnits units)) (Payload.decodeArray s) := by
  apply h.check
  intro hheader
  apply h.bind (h.unit (by omega))
  intro width hwidth
  have hwidth := ofUnits_unit_lt hwidth
  apply h.bind (h.word (by omega))
  intro n hn
  have hn := ofUnits_word_lt hn
  have hbytes : n * width < 0x1000000000000 := by
    calc n * width < 0x100000000 * 0x10000 := Nat.mul_lt_mul'' hn hwidth
      _ = 0x1000000000000 := by decide
  apply h.bind (h.size (by omega))
  intro byteCount hbyteCount
  cases hbyteCount
  apply h.bind (h.size (by omega))
  intro unitCount hunitCount
  cases hunitCount
  apply h.bind (h.size (by omega))
  intro total htotal
  cases htotal
  apply h.check
  intro htable
  apply h.bind (h.block htable)
  intro data _
  exact h.pure _

omit [LawfulMonad m] in
theorem calledReference (h : Follows R units s) {r : Resolver} {opcode : Opcode}
    (hunits : 3 ≤ units.length) :
    R (Option Reference) (Instruction.calledReference r (ofUnits units) opcode)
      (Instruction.calledReference r s opcode) := by
  apply h.bind (h.unit (by omega))
  intro u1 _
  split
  · exact h.pure _
  · exact h.pure _
  · exact h.pure _
  · exact h.pure _
  · exact h.settle _

omit [LawfulMonad m] in
/-- The fourth unit is read in two formats only, which have it. -/
theorem calledPrototype (h : Follows R units s) {r : Resolver} {opcode : Opcode} {size : Nat}
    (hsize : opcode.format.codeUnits = some size) (hunits : size ≤ units.length) :
    R (Option Reference) (Instruction.calledPrototype r (ofUnits units) opcode)
      (Instruction.calledPrototype r s opcode) := by
  unfold Instruction.calledPrototype
  split
  case h_1 hformat | h_2 hformat =>
    rw [hformat] at hsize
    cases hsize
    apply h.bind (h.unit (by omega))
    intro u3 _
    exact h.settle _
  case h_3 => exact h.pure _

omit [LawfulMonad m] in
/-- The operands of a format of fixed size lie within that size. -/
theorem decodeOperands_fixed (h : Follows R units s) {r : Resolver} {opcode : Opcode}
    {u0 size : Nat} (hsize : opcode.format.codeUnits = some size)
    (hunits : size ≤ units.length) :
    R Instruction (Instruction.decodeOperands r (ofUnits units) opcode u0)
      (Instruction.decodeOperands r s opcode u0) := by
  have hprototype := h.calledPrototype (r := r) hsize hunits
  unfold Instruction.decodeOperands
  cases hformat : opcode.format <;> rw [hformat] at hsize <;> cases hsize <;> simp only
  case f10x | f10t | f11n | f11x | f12x => exact h.pure _
  case f20bc | f20t | f21ih | f21lh | f21s | f21t | f22b | f22cs | f22s | f22t | f22x | f23x =>
    apply h.bind (h.unit (by omega))
    intro u1 _
    exact h.pure _
  case f21c | f22c =>
    apply h.bind (h.unit (by omega))
    intro u1 _
    apply h.bind (h.settle _)
    intro reference _
    exact h.pure _
  case f30t | f31i | f31t =>
    apply h.bind (h.signedWord (by omega))
    intro n _
    exact h.pure _
  case f31c =>
    apply h.bind (h.word (by omega))
    intro n _
    apply h.bind (h.settle _)
    intro reference _
    exact h.pure _
  case f32x =>
    apply h.bind (h.unit (by omega))
    intro u1 _
    apply h.bind (h.unit (by omega))
    intro u2 _
    exact h.pure _
  case f35c | f35mi | f35ms | f45cc =>
    split
    · exact h.settle _
    · apply h.bind (h.unit (by omega))
      intro packed _
      apply h.bind (h.calledReference (by omega))
      intro reference _
      apply h.bind hprototype
      intro reference2 _
      exact h.pure _
  case f3rc | f3rmi | f3rms | f4rcc =>
    apply h.bind (h.unit (by omega))
    intro first _
    apply h.bind (h.calledReference (by omega))
    intro reference _
    apply h.bind hprototype
    intro reference2 _
    exact h.pure _
  case f51l =>
    apply h.bind (h.word (by omega))
    intro low _
    apply h.bind (h.word (by omega))
    intro high _
    exact h.pure _

theorem decodeOperands_payload (h : Follows R units s) {r : Resolver} {opcode : Opcode}
    {u0 : Nat} (hsize : opcode.format.codeUnits = none) :
    R Instruction (Instruction.decodeOperands r (ofUnits units) opcode u0)
      (Instruction.decodeOperands r s opcode u0) := by
  unfold Instruction.decodeOperands
  cases hformat : opcode.format <;> rw [hformat] at hsize <;> cases hsize <;> simp only
  case packedSwitchPayload =>
    apply h.bind h.decodePacked
    intro payload _
    exact h.pure _
  case sparseSwitchPayload =>
    apply h.bind h.decodeSparse
    intro payload _
    exact h.pure _
  case arrayPayload =>
    apply h.bind h.decodeArray
    intro payload _
    exact h.pure _

/-- A source that follows the units step by step follows them in a whole
    instruction. -/
theorem decodeFirst (h : Follows R units s) {t : OpcodeTable} {r : Resolver}
    (hunits : 0 < units.length) :
    R Instruction (Instruction.decodeHead t r units) (Instruction.decodeFirst r s t) := by
  apply h.bind (h.unit hunits)
  intro u0 _
  cases t.opcode? (Instruction.opcodeValue u0) with
  | none => exact h.settle _
  | some opcode =>
    cases hsize : opcode.format.codeUnits with
    | none => simpa only [hsize] using h.decodeOperands_payload hsize
    | some size =>
      simp only [hsize]
      apply h.check
      intro hsize'
      exact h.decodeOperands_fixed hsize hsize'

end Follows

/-- Without a second unit a sparse table is cut short whatever the source is. -/
theorem decodeSparse_cut [LawfulMonad m] {s : Source m} (hlength : s.length < 2)
    (hsize : s.size 2 = pure 2) :
    Payload.decodeSparse s = s.fail (.truncatedSparse 0) := by
  have hcount : ¬ 1 < s.length := by omega
  simp [Payload.decodeSparse, unitOrZero, hcount, hsize, hlength]

/-! ## Reading past the end -/

/-- What is known without reading, where reading can crash. -/
def settled {α : Type} (x : Checked α) : ExceptT Failure Option α := ExceptT.mk (some x)

/-- The units of a list, where it is a crash to read past the end or to ask for a
    size that a 64-bit word does not hold. -/
def guarded (units : List UInt16) : Source (ExceptT Failure Option) where
  length := units.length
  unit k := if h : k < units.length then pure units[k].toNat else ExceptT.mk none
  block start count :=
    if start + count ≤ units.length then pure ((units.drop start).take count)
    else ExceptT.mk none
  size n := if n < 0x10000000000000000 then pure n else ExceptT.mk none
  settle := settled

theorem follows_guarded (units : List UInt16) :
    Follows (fun _ x y => y = settled x) units (guarded units) where
  pure _ := rfl
  bind {_ _ x _ f _} hx hf := by
    cases x with
    | error e => rw [hx]; rfl
    | ok a =>
      rw [hx]
      exact hf a rfl
  settle _ := rfl
  unit {k} hk := by
    simp only [guarded, dif_pos hk, ofUnits, List.getD_eq_getElem _ _ hk]
    rfl
  block h := by
    simp only [guarded, if_pos h]
    rfl
  size h := by
    simp only [guarded, if_pos h]
    rfl
  length := Nat.le_refl _
  check {_ n fault x y} h := by
    show (if units.length < n then _ else _) = _
    split
    · rfl
    · exact h (by omega)
  cut h := by
    rw [decodeSparse_cut (s := guarded units) h rfl, decodeSparse_cut (s := ofUnits units) h rfl]
    rfl

/-- Decoding reads inside the stream, and the sizes it computes are machine
    words. -/
theorem decodeFirst_guarded {t : OpcodeTable} {r : Resolver} {units : List UInt16}
    (h : 0 < units.length) :
    Instruction.decodeFirst r (guarded units) t = settled (Instruction.decodeHead t r units) :=
  (follows_guarded units).decodeFirst h

/-! ## What follows an instruction -/

theorem follows_append (units more : List UInt16) :
    Follows (fun _ x y => ∀ a, x = .ok a → y = .ok a) units (ofUnits (units ++ more)) where
  pure _ _ h := h
  bind {_ _ x _ f _} hx hf b hb := by
    cases x with
    | error e => cases hb
    | ok a =>
      rw [hx a rfl]
      exact hf a rfl b hb
  settle _ _ h := h
  unit {k} hk a ha := by
    rw [← ha]
    simp only [ofUnits, List.getD_append _ _ _ _ hk]
  block {start count} h a ha := by
    rw [← ha]
    have hdrop : count ≤ (units.drop start).length := by
      rw [List.length_drop]
      omega
    simp only [ofUnits, List.drop_append_of_le_length (Nat.le_trans (Nat.le_add_right ..) h),
      List.take_append_of_le_length hdrop]
  size _ _ h := h
  length := by simp [ofUnits]
  check {_ n fault x y} h a ha := by
    split at ha
    · cases ha
    · next hn =>
      have hmore : ¬ (ofUnits (units ++ more)).length < n := by
        simp only [ofUnits, List.length_append]
        omega
      rw [if_neg hmore]
      exact h (by omega) a ha
  cut h p hp := by
    rw [decodeSparse_cut (s := ofUnits units) h rfl] at hp
    cases hp

end Source

end CodeUnits

/-! ## The size of what is decoded -/

namespace Checked

variable {α β : Type}

/-- What is computed without a fault satisfies `P`. -/
def Gives (x : Checked α) (P : α → Prop) : Prop := ∀ a, x = .ok a → P a

theorem gives_ok {P : α → Prop} {a : α} (h : P a) : Gives (.ok a) P := by
  intro b hb
  cases hb
  exact h

theorem gives_bind {P : β → Prop} {x : Checked α} {f : α → Checked β}
    (h : ∀ a, x = .ok a → Gives (f a) P) : Gives (x >>= f) P := by
  intro b hb
  cases x with
  | error e => cases hb
  | ok a => exact h a rfl b hb

theorem gives_fail {P : α → Prop} {fault : Fault} : Gives (fail fault) P := by
  intro b hb
  cases hb

end Checked

namespace Payload

open CodeUnits Checked

theorem length_signedWords {units : List UInt16} {k count : Nat} :
    Gives (signedWords (.ofUnits units) k count) fun ws => ws.length = count := by
  intro ws h
  have hpure : signedWords (.ofUnits units) k count = .ok ((List.range count).map fun j =>
      asSigned 32 ((units.getD (k + 2 * j) 0).toNat +
        (units.getD (k + 2 * j + 1) 0).toNat * 0x10000)) := List.mapM_pure
  rw [hpure] at h
  cases h
  simp

theorem length_bytesOf (units : List UInt16) : (bytesOf units).length = 2 * units.length := by
  induction units with
  | nil => rfl
  | cons u units ih =>
    simp only [bytesOf, List.flatMap_cons, List.length_append, List.length_cons] at ih ⊢
    simp only [ih, List.length_nil]
    omega

theorem decodePacked_fits {units : List UInt16} :
    Gives (decodePacked (.ofUnits units)) fun p => ∃ key targets,
      p = .packedSwitch key targets ∧ 4 + targets.length * 2 ≤ units.length := by
  unfold decodePacked
  split
  · exact gives_fail
  apply gives_bind
  intro count _
  apply gives_bind
  intro n hn
  cases hn
  split
  · exact gives_fail
  next htable =>
    apply gives_bind
    intro key _
    apply gives_bind
    intro targets htargets
    refine gives_ok ⟨key, targets, rfl, ?_⟩
    rw [length_signedWords targets htargets]
    exact Nat.le_of_not_lt htable

theorem decodeSparse_fits {units : List UInt16} :
    Gives (decodeSparse (.ofUnits units)) fun p => ∃ keys targets,
      p = .sparseSwitch keys targets ∧ 2 + keys.length * 4 ≤ units.length := by
  apply gives_bind
  intro count _
  apply gives_bind
  intro n hn
  cases hn
  split
  · exact gives_fail
  next htable =>
    apply gives_bind
    intro keys hkeys
    apply gives_bind
    intro targets _
    refine gives_ok ⟨keys, targets, rfl, ?_⟩
    rw [length_signedWords keys hkeys]
    exact Nat.le_of_not_lt htable

theorem decodeArray_fits {units : List UInt16} :
    Gives (decodeArray (.ofUnits units)) fun p => ∃ width data,
      p = .arrayData width data ∧ 4 + (data.length + 1) / 2 ≤ units.length := by
  unfold decodeArray
  split
  · exact gives_fail
  apply gives_bind
  intro width _
  apply gives_bind
  intro count _
  apply gives_bind
  intro byteCount _
  apply gives_bind
  intro unitCount hunitCount
  cases hunitCount
  apply gives_bind
  intro n hn
  cases hn
  split
  · exact gives_fail
  next htable =>
    have htable : 4 + (byteCount + 1) / 2 ≤ units.length := Nat.le_of_not_lt htable
    apply gives_bind
    intro block hblock
    cases hblock
    refine gives_ok ⟨width, _, rfl, ?_⟩
    rw [List.length_take, length_bytesOf, List.length_take, List.length_drop]
    omega

end Payload

namespace Instruction

open CodeUnits Checked

variable {t : OpcodeTable} {r : Resolver} {units : List UInt16} {opcode : Opcode} {u0 : Nat}

theorem decodeOperands_opcode :
    Gives (decodeOperands r (.ofUnits units) opcode u0) fun i => i.opcode = opcode := by
  unfold decodeOperands
  cases opcode.format <;> simp only
  case f10x | f10t | f11n | f11x | f12x => exact gives_ok rfl
  case f21c | f22c | f31c | f32x | f51l =>
    apply gives_bind
    intro _ _
    apply gives_bind
    intro _ _
    exact gives_ok rfl
  case f35c | f35mi | f35ms | f45cc =>
    split
    · exact gives_fail
    · apply gives_bind
      intro packed _
      apply gives_bind
      intro reference _
      apply gives_bind
      intro reference2 _
      exact gives_ok rfl
  case f3rc | f3rmi | f3rms | f4rcc =>
    apply gives_bind
    intro first _
    apply gives_bind
    intro reference _
    apply gives_bind
    intro reference2 _
    exact gives_ok rfl
  all_goals
    apply gives_bind
    intro _ _
    exact gives_ok rfl

theorem decodeOperands_fits (hsize : opcode.format.codeUnits = none) :
    Gives (decodeOperands r (.ofUnits units) opcode u0) fun i =>
      i.codeUnits ≤ units.length := by
  unfold decodeOperands
  cases hformat : opcode.format <;> rw [hformat] at hsize <;> cases hsize <;> simp only
  case packedSwitchPayload =>
    apply gives_bind
    intro p hp
    obtain ⟨key, targets, rfl, hfits⟩ := Payload.decodePacked_fits p hp
    apply gives_ok
    simpa only [codeUnits, hformat, Format.codeUnits] using hfits
  case sparseSwitchPayload =>
    apply gives_bind
    intro p hp
    obtain ⟨keys, targets, rfl, hfits⟩ := Payload.decodeSparse_fits p hp
    apply gives_ok
    simpa only [codeUnits, hformat, Format.codeUnits] using hfits
  case arrayPayload =>
    apply gives_bind
    intro p hp
    obtain ⟨width, data, rfl, hfits⟩ := Payload.decodeArray_fits p hp
    apply gives_ok
    simpa only [codeUnits, hformat, Format.codeUnits] using hfits

/-- The units an instruction is the size of are there. -/
theorem codeUnits_le_of_decodeHead {i : Instruction} (h : decodeHead t r units = .ok i) :
    i.codeUnits ≤ units.length := by
  have hgives : Gives (decodeHead t r units) fun i => i.codeUnits ≤ units.length := by
    apply gives_bind
    intro u0 _
    cases t.opcode? (opcodeValue u0) with
    | none => exact gives_fail
    | some opcode =>
      cases hsize : opcode.format.codeUnits with
      | none => simpa only [hsize] using decodeOperands_fits hsize
      | some size =>
        simp only [hsize]
        split
        · exact gives_fail
        next hunits =>
          intro i hi
          simp only [codeUnits, decodeOperands_opcode i hi, hsize]
          exact Nat.le_of_not_lt hunits
  exact hgives i h

/-- An instruction is decoded from its own units: what follows does not matter. -/
theorem decodeHead_append {i : Instruction} (more : List UInt16) (hunits : units ≠ [])
    (h : decodeHead t r units = .ok i) : decodeHead t r (units ++ more) = .ok i :=
  (Source.follows_append units more).decodeFirst (List.length_pos_iff.2 hunits) i h

end Instruction

end SymbolicDex
