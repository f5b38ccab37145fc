import SymbolicDex.Proofs.Analysis.RestoredCode
import SymbolicDex.Proofs.Quickening.RoundTrip

/- Code addresses under unquickening. Branches, payloads and try blocks name code
   addresses, so code that is put back has to take the units of the code it stands
   for. An access and a return do; a check-cast takes two, one for the nop it comes
   from and one for the nop after it. The table does not say whether that nop is
   there, and without it the code grows by a unit.

   What is proved:
     1. `Unquicken.run_eq_trace`: the replay, told with the fate of each instruction.
     2. `Unquicken.Follows.units`, `Unquicken.Follows.lands`: what follows a check-cast
        without a second nop starts one unit further on.
     3. `unquicken_addresses`: so the code takes the units it took, and what is still
        there starts where it did, exactly when a nop follows every nop that became
        a check-cast. -/
namespace SymbolicDex

namespace Unquicken

/-- What becomes of one instruction. -/
inductive Fate where
  /-- It was the second half of the check-cast before it. -/
  | absorbed
  /-- A nop that is a check-cast now. -/
  | cast (out : Instruction)
  | kept (out : Instruction)
deriving DecidableEq

def Fate.out? : Fate → Option Instruction
  | absorbed => none
  | cast i | kept i => some i

/-- The code that is left. -/
def outputs (fates : List Fate) : List Instruction := fates.filterMap Fate.out?

/-- The replay, with the fate of each instruction. -/
def trace (r : Resolver) : Nat → Bool → QuickeningTable → List Instruction →
    Checked (List Fate × QuickeningTable)
  | _, _, t, [] => .ok ([], t)
  | address, absorb, t, i :: is =>
    if absorb ∧ i.opcode = .nop then
      (trace r (address + i.codeUnits) false t is).map fun (fates, t) => (.absorbed :: fates, t)
    else do
      let s ← step r t address i
      let (fates, t) ← trace r (address + i.codeUnits) s.absorbs s.table is
      return ((if s.absorbs then .cast s.out else .kept s.out) :: fates, t)

/-- Check-casts that no absorbed nop follows. -/
def loneCasts : List Fate → Nat
  | [] => 0
  | .cast _ :: fates => loneCasts fates + if fates.head? = some .absorbed then 0 else 1
  | _ :: fates => loneCasts fates

/-- Fates that instructions may have one after the other; with `absorb` set, they
    follow a check-cast. -/
inductive Follows : Bool → List Instruction → List Fate → Prop where
  | nil {absorb : Bool} : Follows absorb [] []
  | absorbed {i : Instruction} {is : List Instruction} {fates : List Fate}
    (hnop : i.opcode = .nop) (tail : Follows false is fates) :
    Follows true (i :: is) (.absorbed :: fates)
  | cast {absorb : Bool} {i out : Instruction} {is : List Instruction} {fates : List Fate}
    (hnop : i.opcode = .nop) (habsorb : absorb = false) (hcast : out.opcode = .checkCast)
    (tail : Follows true is fates) : Follows absorb (i :: is) (.cast out :: fates)
  | kept {absorb : Bool} {i out : Instruction} {is : List Instruction} {fates : List Fate}
    (hnop : absorb = true → i.opcode ≠ .nop) (hsize : out.codeUnits = i.codeUnits)
    (tail : Follows false is fates) : Follows absorb (i :: is) (.kept out :: fates)

/-- The instruction at `ix` is `out` now and starts `shift` units further on. -/
def Lands (is : List Instruction) (fates : List Fate) (ix : Nat) (out : Instruction)
    (shift : Nat) : Prop :=
  let place := (outputs (fates.take ix)).length
  (outputs fates)[place]? = some out ∧
    ∃ address, (Instruction.addressesFrom 0 is)[ix]? = some address ∧
      (Instruction.addressesFrom 0 (outputs fates))[place]? = some (address + shift)

section

variable {r : Resolver} {t : QuickeningTable} {address : Nat} {i : Instruction} {s : Step}

/-! ## One instruction -/

theorem nopStep_inv (h : nopStep r t address i = .ok s) :
    s.absorbs = true ∧ s.out.opcode = .checkCast ∨ s.absorbs = false ∧ s.out = i := by
  unfold nopStep at h
  split at h
  · cases h
    exact .inr ⟨rfl, rfl⟩
  · split at h
    · cases h
      exact .inr ⟨rfl, rfl⟩
    · obtain ⟨⟨index, t⟩, -, h⟩ := FlowGraph.bind_eq_ok h
      obtain ⟨type, -, h⟩ := FlowGraph.bind_eq_ok h
      split at h
      · cases h
      · cases h
        exact .inl ⟨rfl, rfl⟩

theorem accessStep_inv {plain : Opcode} (hplain : i.opcode.unquickened? = some plain)
    (h : accessStep r t address i plain = .ok s) :
    s.absorbs = false ∧ s.out.codeUnits = i.codeUnits := by
  unfold accessStep at h
  split at h
  · cases h
    exact ⟨rfl, rfl⟩
  · have hsize (reference : Reference) :
        ((i.withOpcode plain).withReference reference).codeUnits = i.codeUnits := by
      simp only [Instruction.codeUnits, Instruction.withReference, Instruction.withOpcode,
        Opcode.codeUnits_unquickened? hplain]
    obtain ⟨⟨index, t⟩, -, h⟩ := FlowGraph.bind_eq_ok h
    -- a call names a method, an access a field
    dsimp only at h
    split at h
    · obtain ⟨reference, -, h⟩ := FlowGraph.bind_eq_ok h
      cases h
      exact ⟨rfl, hsize reference⟩
    · obtain ⟨reference, -, h⟩ := FlowGraph.bind_eq_ok h
      cases h
      exact ⟨rfl, hsize reference⟩

/-- A nop may become a check-cast; anything else keeps its size. -/
theorem step_inv (h : step r t address i = .ok s) :
    s.absorbs = true ∧ i.opcode = .nop ∧ s.out.opcode = .checkCast ∨
      s.absorbs = false ∧ s.out.codeUnits = i.codeUnits := by
  by_cases hnop : i.opcode = .nop
  · rw [step_nop hnop] at h
    rcases nopStep_inv h with ⟨habsorbs, hcast⟩ | ⟨habsorbs, hout⟩
    · exact .inl ⟨habsorbs, hnop, hcast⟩
    · exact .inr ⟨habsorbs, by rw [hout]⟩
  · refine .inr ?_
    cases hplain : i.opcode.unquickened? with
    | some plain =>
      rw [step_access hplain] at h
      exact accessStep_inv hplain h
    | none =>
      unfold step at h
      split at h
      · rename_i hopcode
        cases h
        exact ⟨rfl, by simp only [Instruction.codeUnits, Instruction.withOpcode, hopcode]; rfl⟩
      · rename_i hopcode
        cases h
        exact ⟨rfl, by simp only [Instruction.codeUnits, Instruction.withOpcode, hopcode]; rfl⟩
      · contradiction
      · simp only [hplain] at h
        cases h
        exact ⟨rfl, rfl⟩

end

/-! ## The replay -/

section

variable {r : Resolver}

theorem run_eq_trace (address : Nat) (absorb : Bool) (t : QuickeningTable)
    (is : List Instruction) :
    run r address absorb t is =
      (trace r address absorb t is).map fun (fates, t) => (outputs fates, t) := by
  induction is generalizing address absorb t with
  | nil => rfl
  | cons i is ih =>
    rw [run, trace]
    split
    · rw [ih]
      cases trace r (address + i.codeUnits) false t is <;> rfl
    · cases hs : step r t address i with
      | error e => rfl
      | ok s =>
        change (run r _ s.absorbs s.table is >>= _) = (trace r _ s.absorbs s.table is >>= _).map _
        rw [ih]
        cases trace r (address + i.codeUnits) s.absorbs s.table is with
        | error e => rfl
        | ok traced => cases s.absorbs <;> rfl

theorem trace_follows {address : Nat} {absorb : Bool} {t t' : QuickeningTable}
    {is : List Instruction} {fates : List Fate}
    (h : trace r address absorb t is = .ok (fates, t')) : Follows absorb is fates := by
  induction is generalizing address absorb t fates with
  | nil =>
    cases h
    exact .nil
  | cons i is ih =>
    rw [trace] at h
    split at h
    · rename_i hhalf
      obtain ⟨rfl, hnop⟩ := hhalf
      cases htrace : trace r (address + i.codeUnits) false t is with
      | error e =>
        rw [htrace] at h
        cases h
      | ok traced =>
        rw [htrace] at h
        cases h
        exact .absorbed hnop (ih htrace)
    · rename_i hhalf
      have hnop : absorb = true → i.opcode ≠ .nop := fun habsorb hnop => hhalf ⟨habsorb, hnop⟩
      obtain ⟨s, hs, h⟩ := FlowGraph.bind_eq_ok h
      obtain ⟨⟨rest, t''⟩, hrest, h⟩ := FlowGraph.bind_eq_ok h
      cases h
      rcases step_inv hs with ⟨habsorbs, hi, hcast⟩ | ⟨habsorbs, hsize⟩
      · rw [if_pos habsorbs]
        rw [habsorbs] at hrest
        exact .cast hi (Bool.eq_false_iff.2 fun habsorb => hnop habsorb hi) hcast (ih hrest)
      · rw [habsorbs] at hrest ⊢
        exact .kept hnop hsize (ih hrest)

end

/-! ## Sizes and addresses -/

theorem codeUnits_of_nop {i : Instruction} (h : i.opcode = .nop) : i.codeUnits = 1 := by
  rw [Instruction.codeUnits, h]
  rfl

theorem codeUnits_of_checkCast {i : Instruction} (h : i.opcode = .checkCast) :
    i.codeUnits = 2 := by
  rw [Instruction.codeUnits, h]
  rfl

theorem getElem?_addressesFrom {is : List Instruction} {ix : Nat} (hix : ix < is.length)
    (start : Nat) : (Instruction.addressesFrom start is)[ix]? =
      some (start + Instruction.totalUnits (is.take ix)) := by
  induction is generalizing start ix with
  | nil => simp at hix
  | cons i is ih =>
    cases ix with
    | zero => rfl
    | succ ix =>
      rw [Instruction.addressesFrom, List.getElem?_cons_succ, ih (by simpa using hix),
        List.take_succ_cons, Instruction.totalUnits, Nat.add_assoc]

namespace Follows

variable {absorb : Bool} {is : List Instruction} {fates : List Fate}

theorem length_eq (h : Follows absorb is fates) : fates.length = is.length := by
  induction h <;> simp [*]

theorem take (h : Follows absorb is fates) (n : Nat) :
    Follows absorb (is.take n) (fates.take n) := by
  induction h generalizing n with
  | nil => simpa using Follows.nil
  | absorbed hnop _ ih =>
    cases n with
    | zero => exact .nil
    | succ n => exact .absorbed hnop (ih n)
  | cast hnop habsorb hcast _ ih =>
    cases n with
    | zero => exact .nil
    | succ n => exact .cast hnop habsorb hcast (ih n)
  | kept hnop hsize _ ih =>
    cases n with
    | zero => exact .nil
    | succ n => exact .kept hnop hsize (ih n)

theorem head?_ne_absorbed (h : Follows false is fates) : fates.head? ≠ some .absorbed := by
  cases h <;> simp

/-- After a check-cast, a nop is absorbed. -/
theorem head?_absorbed_iff (h : Follows true is fates) :
    fates.head? = some .absorbed ↔ ∃ j, is.head? = some j ∧ j.opcode = .nop := by
  cases h with
  | nil => simp
  | absorbed hnop => simpa using hnop
  | cast _ habsorb => cases habsorb
  | kept hnop => simpa using hnop rfl

/-- Every check-cast without its second half is a unit too long. An absorbed nop
    at the head is the half of a check-cast further up. -/
theorem units (h : Follows absorb is fates) :
    Instruction.totalUnits (outputs fates) + (if fates.head? = some .absorbed then 1 else 0) =
      Instruction.totalUnits is + loneCasts fates := by
  induction h with
  | nil => rfl
  | absorbed hnop tail ih =>
    have hone := codeUnits_of_nop hnop
    rw [if_neg tail.head?_ne_absorbed] at ih
    simp only [outputs, Fate.out?, List.filterMap_cons, Instruction.totalUnits, loneCasts,
      List.head?_cons, if_true] at ih ⊢
    omega
  | @cast absorb i out is fates hnop _ hcast _ ih =>
    have hone := codeUnits_of_nop hnop
    have htwo := codeUnits_of_checkCast hcast
    have hhead : (Fate.cast out :: fates).head? ≠ some .absorbed := by simp
    rw [if_neg hhead]
    simp only [outputs, Fate.out?, List.filterMap_cons, Instruction.totalUnits, loneCasts] at ih ⊢
    split at ih <;> rename_i habsorbed <;> simp only [habsorbed, if_true, if_false] <;> omega
  | @kept absorb i out is fates _ hsize tail ih =>
    have hhead : (Fate.kept out :: fates).head? ≠ some .absorbed := by simp
    rw [if_neg tail.head?_ne_absorbed] at ih
    rw [if_neg hhead]
    simp only [outputs, Fate.out?, List.filterMap_cons, Instruction.totalUnits, loneCasts] at ih ⊢
    omega

/-- What is still there starts further on by the check-casts before it that lack
    their second half. -/
theorem lands (h : Follows false is fates) {ix : Nat} {out : Instruction}
    (hfate : fates[ix]? = some (.kept out)) :
    Lands is fates ix out (loneCasts (fates.take ix)) := by
  have hix : ix < fates.length := (List.getElem?_eq_some_iff.1 hfate).1
  have hsplit : fates = fates.take ix ++ .kept out :: fates.drop (ix + 1) := by
    rw [← (List.getElem?_eq_some_iff.1 hfate).2, List.getElem_cons_drop,
      List.take_append_drop]
  have houtputs : outputs fates =
      outputs (fates.take ix) ++ out :: outputs (fates.drop (ix + 1)) := by
    conv_lhs => rw [hsplit]
    simp [outputs, Fate.out?]
  have hplace : (outputs (fates.take ix)).length < (outputs fates).length := by
    rw [houtputs]
    simp
  have htake : (outputs fates).take (outputs (fates.take ix)).length =
      outputs (fates.take ix) := by
    rw [houtputs]
    simp
  have hunits := (h.take ix).units
  rw [if_neg (h.take ix).head?_ne_absorbed] at hunits
  refine ⟨by rw [houtputs]; simp, _, getElem?_addressesFrom (h.length_eq ▸ hix) 0, ?_⟩
  rw [getElem?_addressesFrom hplace, htake]
  exact congrArg some (by omega)

/-- A nop that follows a check-cast is absorbed, and nothing else is. -/
theorem absorbed_iff (h : Follows absorb is fates) {ix : Nat} {out : Instruction}
    (hfate : fates[ix]? = some (.cast out)) :
    fates[ix + 1]? = some .absorbed ↔ ∃ j, is[ix + 1]? = some j ∧ j.opcode = .nop := by
  induction h generalizing ix with
  | nil => simp at hfate
  | cast _ _ _ tail ih =>
    cases ix with
    | zero => simpa [List.head?_eq_getElem?] using tail.head?_absorbed_iff
    | succ ix => exact ih hfate
  | absorbed _ _ ih | kept _ _ _ ih =>
    cases ix with
    | zero => simp at hfate
    | succ ix => exact ih hfate

end Follows

/-- No check-cast is alone if every one of them has its second half. -/
theorem loneCasts_eq_zero_iff {fates : List Fate} : loneCasts fates = 0 ↔
    ∀ ix out, fates[ix]? = some (.cast out) → fates[ix + 1]? = some .absorbed := by
  induction fates with
  | nil => simp [loneCasts]
  | cons fate fates ih =>
    have htail : (∀ ix out, (fate :: fates)[ix]? = some (.cast out) →
          (fate :: fates)[ix + 1]? = some .absorbed) ↔
        (∀ out, fate = .cast out → fates.head? = some .absorbed) ∧ loneCasts fates = 0 := by
      rw [ih]
      constructor
      · intro h
        refine ⟨fun out hout => ?_, fun ix out hout => h (ix + 1) out hout⟩
        simpa [List.head?_eq_getElem?] using h 0 out (by simp [hout])
      · rintro ⟨hfirst, hrest⟩ ix out hout
        cases ix with
        | zero => simpa [List.head?_eq_getElem?] using hfirst out (by simpa using hout)
        | succ ix => exact hrest ix out hout
    rw [htail]
    cases fate <;> simp [loneCasts, and_comm]

/-- In front of what is still there, every check-cast has its second half if all of
    them have. -/
theorem loneCasts_take {fates : List Fate} (h : loneCasts fates = 0) {ix : Nat}
    {out : Instruction} (hfate : fates[ix]? = some (.kept out)) :
    loneCasts (fates.take ix) = 0 := by
  rw [loneCasts_eq_zero_iff] at h ⊢
  intro k cast hcast
  have hk : k < ix := by
    by_contra hge
    rw [List.getElem?_eq_none (by simp; omega)] at hcast
    cases hcast
  rw [List.getElem?_take_of_lt hk] at hcast
  have hnext := h k cast hcast
  have hne : k + 1 ≠ ix := by
    rintro rfl
    cases hfate.symm.trans hnext
  rw [List.getElem?_take_of_lt (by omega), hnext]

end Unquicken

open Unquicken in
theorem unquicken_inv {r : Resolver} {t : QuickeningTable} {is out : List Instruction}
    (h : unquicken r t is = .ok out) :
    ∃ fates, trace r 0 false t is = .ok (fates, ⟨[]⟩) ∧ outputs fates = out := by
  unfold unquicken at h
  obtain ⟨⟨out', ⟨entries⟩⟩, hrun, h⟩ := FlowGraph.bind_eq_ok h
  dsimp only at h
  split at h
  · rename_i hempty
    obtain rfl : entries = [] := List.isEmpty_iff.1 hempty
    cases h
    rw [run_eq_trace] at hrun
    cases htrace : trace r 0 false t is with
    | error e =>
      rw [htrace] at hrun
      cases hrun
    | ok traced =>
      obtain ⟨fates, t'⟩ := traced
      rw [htrace] at hrun
      cases hrun
      exact ⟨fates, rfl, rfl⟩
  · cases h

open Unquicken in
/-- The code grows by a unit for each nop that became a check-cast without a nop
    after it, and what is still there moves by those before it. So sizes and
    addresses stay as they are exactly when there is none. -/
theorem unquicken_addresses {r : Resolver} {t : QuickeningTable} {is out : List Instruction}
    (h : unquicken r t is = .ok out) :
    ∃ fates, trace r 0 false t is = .ok (fates, ⟨[]⟩) ∧ outputs fates = out ∧
      Follows false is fates ∧
      Instruction.totalUnits out = Instruction.totalUnits is + loneCasts fates ∧
      (∀ ix i, fates[ix]? = some (.kept i) → Lands is fates ix i (loneCasts (fates.take ix))) ∧
      ((Instruction.totalUnits out = Instruction.totalUnits is ∧
          ∀ ix i, fates[ix]? = some (.kept i) → Lands is fates ix i 0) ↔
        ∀ ix i, fates[ix]? = some (.cast i) → ∃ j, is[ix + 1]? = some j ∧ j.opcode = .nop) := by
  obtain ⟨fates, htrace, rfl⟩ := unquicken_inv h
  have hfollows := trace_follows htrace
  have hunits := hfollows.units
  rw [if_neg hfollows.head?_ne_absorbed, Nat.add_zero] at hunits
  refine ⟨fates, htrace, rfl, hfollows, hunits, fun ix i => hfollows.lands, ?_⟩
  constructor
  · rintro ⟨hsize, -⟩ ix i hcast
    have hnone : loneCasts fates = 0 := by omega
    exact (hfollows.absorbed_iff hcast).1 (loneCasts_eq_zero_iff.1 hnone ix i hcast)
  · intro hcasts
    have hnone : loneCasts fates = 0 := loneCasts_eq_zero_iff.2 fun ix i hcast =>
      (hfollows.absorbed_iff hcast).2 (hcasts ix i hcast)
    refine ⟨by omega, fun ix i hkept => ?_⟩
    have hlands := hfollows.lands hkept
    rwa [loneCasts_take hnone hkept] at hlands

namespace Sample

/-- What becomes of the instructions of `viewQuick`. -/
def viewFates : List Unquicken.Fate :=
  (viewCode.take 1).map .cast ++ [.absorbed] ++ ((viewCode.drop 1).take 4).map .kept ++
    ((viewCode.drop 5).take 1).map .cast ++ [.absorbed] ++ (viewCode.drop 6).map .kept

/-- A nop with nothing behind it but a return. -/
def shortQuick : List Instruction := [{ opcode := .nop }, { opcode := .returnVoid }]

def shortCast : List Instruction :=
  [{ opcode := .checkCast, registers := [1], reference := some (.type "Lview/Node;") },
   { opcode := .returnVoid }]

end Sample

open Sample in
/-- Every nop that becomes a check-cast has its second half, so the code keeps its
    size, and the return stays where it was. -/
theorem viewQuick_addresses :
    unquicken viewPools.resolver (.ofIndices [2, 1, 0xffff, 0, 0xffff, 3, 0, 0]) viewQuick =
        .ok viewCode ∧
      Instruction.totalUnits viewCode = Instruction.totalUnits viewQuick ∧
      Unquicken.Lands viewQuick viewFates 9 { opcode := .returnVoid } 0 := by
  have h : unquicken viewPools.resolver (.ofIndices [2, 1, 0xffff, 0, 0xffff, 3, 0, 0])
      viewQuick = .ok viewCode := rfl
  obtain ⟨fates, htrace, -, -, hunits, hlands, -⟩ := unquicken_addresses h
  obtain rfl : fates = viewFates := by
    cases htrace
    rfl
  have hnone : Unquicken.loneCasts viewFates = 0 := by decide
  have hbefore : Unquicken.loneCasts (viewFates.take 9) = 0 := by decide
  have hreturn := hlands 9 { opcode := .returnVoid } rfl
  rw [hbefore] at hreturn
  exact ⟨h, by rw [hunits, hnone, Nat.add_zero], hreturn⟩

open Sample in
/-- The return that starts at 1 starts at 2 afterwards. -/
theorem shortQuick_grows :
    unquicken viewPools.resolver (.ofIndices [1, 0]) shortQuick = .ok shortCast ∧
      Instruction.addressesFrom 0 shortQuick = [0, 1] ∧
      Instruction.addressesFrom 0 shortCast = [0, 2] ∧
      ¬∀ (r : Resolver) (t : QuickeningTable) (is out : List Instruction),
        unquicken r t is = .ok out →
          Instruction.totalUnits out = Instruction.totalUnits is := by
  have h : unquicken viewPools.resolver (.ofIndices [1, 0]) shortQuick = .ok shortCast := rfl
  refine ⟨h, by decide, by decide, fun hall => ?_⟩
  exact absurd (hall _ _ _ _ h) (by decide)

end SymbolicDex
