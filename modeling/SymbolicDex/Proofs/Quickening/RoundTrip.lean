import Mathlib.Data.List.Forall2
import SymbolicDex.Quickening

/- Quickening as a compiler does it, and its undoing. The compiler decides for
   each instruction whether to change it, and records what the change loses.
   `Quickened` relates code, what became of it and the record, for every way to
   decide; replaying the record in either form gives the code back.

   What is proved:
     1. `Unquicken.run_quickens`: in front of any further code, what the compiler put
        in place of an instruction turns into the instruction again and uses up
        exactly what was recorded for it.
     2. `Quickened.run_eq`: hence all of the code comes back and nothing of the table
        is left. A nop without an entry is safe in a table with addresses, since
        whatever follows was recorded further on (`Quickened.address_le`).
     3. `unquicken_quickened`: both forms of table. -/
namespace SymbolicDex

/-! ## What the compiler may do -/

namespace Opcode

/-- The access by offset for an access by name. -/
def quickAccess? : Opcode → Option Opcode
  | .iget => some .igetQuick
  | .igetWide => some .igetWideQuick
  | .igetObject => some .igetObjectQuick
  | .igetBoolean => some .igetBooleanQuick
  | .igetByte => some .igetByteQuick
  | .igetChar => some .igetCharQuick
  | .igetShort => some .igetShortQuick
  | .iput => some .iputQuick
  | .iputWide => some .iputWideQuick
  | .iputObject => some .iputObjectQuick
  | .iputBoolean => some .iputBooleanQuick
  | .iputByte => some .iputByteQuick
  | .iputChar => some .iputCharQuick
  | .iputShort => some .iputShortQuick
  | _ => none

/-- The call by table index for a call by name. -/
def quickCall? : Opcode → Option Opcode
  | .invokeVirtual => some .invokeVirtualQuick
  | .invokeVirtualRange => some .invokeVirtualQuickRange
  | _ => none

end Opcode

/-- `Quickens r silent i is indices`: the compiler may put `is` in place of `i`
    and record `indices`. A nop that stays is recorded as one, or not at all if
    `silent` permits that. -/
inductive Quickens (r : Resolver) (silent : Bool) :
    Instruction → List Instruction → List UInt32 → Prop where
  | kept {i : Instruction} (hnop : i.opcode ≠ .nop) : Quickens r silent i [i] []
  | nop {i : Instruction} (hnop : i.opcode = .nop) :
    Quickens r silent i [i] [QuickeningTable.noIndex]
  | silentNop {i : Instruction} (hsilent : silent = true) (hnop : i.opcode = .nop) :
    Quickens r silent i [i] []
  | access {i : Instruction} {quick : Opcode} {f : FieldRef} {index : UInt32} (offset : Nat)
    (hquick : i.opcode.quickAccess? = some quick) (hfield : i.reference = some (.field f))
    (hindex : r.field index.toNat = .ok f) :
    Quickens r silent i [(i.withOpcode quick).withReference (.fieldOffset offset)] [index]
  | call {i : Instruction} {quick : Opcode} {m : MethodRef} {index : UInt32} (slot : Nat)
    (hquick : i.opcode.quickCall? = some quick) (hmethod : i.reference = some (.method m))
    (hindex : r.method index.toNat = .ok m) :
    Quickens r silent i [(i.withOpcode quick).withReference (.vtableIndex slot)] [index]
  | cast {register index : UInt32} {type : Descriptor}
    (hregister : register < QuickeningTable.noIndex) (hindex : r.type index.toNat = .ok type) :
    Quickens r silent
      { opcode := .checkCast, registers := [register.toNat], reference := some (.type type) }
      [{ opcode := .nop }, { opcode := .nop }] [register, index]
  | returnVoid {i : Instruction} (hreturn : i.opcode = .returnVoid) :
    Quickens r silent i [i.withOpcode .returnVoidNoBarrier] []

/-- Code that starts at an address, what the compiler made of it, and the record:
    indices in instruction order, each with the address it was recorded at. -/
inductive Quickened (r : Resolver) (silent : Bool) :
    Nat → List Instruction → List Instruction → List (Nat × UInt32) → Prop where
  | nil {address : Nat} : Quickened r silent address [] [] []
  | cons {address : Nat} {i : Instruction} {is code quick : List Instruction}
    {indices : List UInt32} {record : List (Nat × UInt32)} (head : Quickens r silent i is indices)
    (tail : Quickened r silent (address + i.codeUnits) code quick record) :
    Quickened r silent address (i :: code) (is ++ quick)
      (indices.map (fun index => (address, index)) ++ record)

/-! ## Opcodes and instructions -/

namespace Opcode

theorem unquickened?_quickAccess? {o quick : Opcode} (h : o.quickAccess? = some quick) :
    quick.unquickened? = some o := by
  unfold quickAccess? at h
  split at h <;> cases h <;> rfl

theorem unquickened?_quickCall? {o quick : Opcode} (h : o.quickCall? = some quick) :
    quick.unquickened? = some o := by
  unfold quickCall? at h
  split at h <;> cases h <;> rfl

theorem quickAccess?_not_call {o quick : Opcode} (h : o.quickAccess? = some quick) :
    ¬(o = .invokeVirtual ∨ o = .invokeVirtualRange) := by
  rintro (rfl | rfl) <;> cases h

theorem quickCall?_call {o quick : Opcode} (h : o.quickCall? = some quick) :
    o = .invokeVirtual ∨ o = .invokeVirtualRange := by
  unfold quickCall? at h
  split at h <;> simp_all

theorem isOdex_of_unquickened? {o plain : Opcode} (h : o.unquickened? = some plain) :
    o.isOdex = true := by
  unfold unquickened? at h
  split at h <;> cases h <;> rfl

theorem codeUnits_unquickened? {o plain : Opcode} (h : o.unquickened? = some plain) :
    o.format.codeUnits = plain.format.codeUnits := by
  unfold unquickened? at h
  split at h <;> cases h <;> rfl

end Opcode

namespace Instruction

variable {i : Instruction} {quick : Opcode}

theorem codeUnits_quickened (h : quick.unquickened? = some i.opcode) (reference : Reference) :
    ((i.withOpcode quick).withReference reference).codeUnits = i.codeUnits := by
  simp only [codeUnits, withReference, withOpcode, Opcode.codeUnits_unquickened? h]

/-- Opcode and reference put back are all that was changed. -/
theorem withReference_withOpcode_self {reference : Reference}
    (h : i.reference = some reference) (other : Reference) :
    (((i.withOpcode quick).withReference other).withOpcode i.opcode).withReference reference =
      i := by
  simp only [withReference, withOpcode, ← h]

end Instruction

/-! ## Tables -/

namespace QuickeningTable

/-- The entry holds a recorded index, at its address if it keeps one. -/
def Entered (e : QuickenedIndex) (recorded : Nat × UInt32) : Prop :=
  e.index = recorded.2 ∧ ∀ a ∈ e.address, a.toNat = recorded.1

variable {e : QuickenedIndex} {es : List QuickenedIndex} {address : Nat} {index : UInt32}

theorem peekAt?_entered (h : Entered e (address, index)) :
    peekAt? ⟨e :: es⟩ address = some index := by
  obtain ⟨rfl, haddress⟩ := h
  have hall : e.address.all (·.toNat = address) = true := by
    simpa [Option.all_eq_true] using haddress
  exact if_pos hall

theorem take_entered (h : Entered e (address, index)) (opcode : Opcode) :
    take ⟨e :: es⟩ address opcode = .ok (index, ⟨es⟩) := by
  rw [take, peekAt?_entered h]
  rfl

/-- A table with addresses has nothing to say where nothing was recorded. -/
theorem peekAt?_eq_none {record : List (Nat × UInt32)} (hes : List.Forall₂ Entered es record)
    (haddresses : ∀ e ∈ es, e.address ≠ none) (hlater : ∀ recorded ∈ record, address < recorded.1) :
    peekAt? ⟨es⟩ address = none := by
  cases hes with
  | nil => rfl
  | @cons e recorded es record he _ =>
    obtain ⟨a, ha⟩ := Option.ne_none_iff_exists'.1 (haddresses e List.mem_cons_self)
    have hat : a.toNat = recorded.1 := he.2 a ha
    have hlt := hlater recorded List.mem_cons_self
    refine if_neg ?_
    simp only [ha, Option.all_some, decide_eq_true_eq]
    omega

theorem entered_ofIndices {indices : List UInt16} {record : List (Nat × UInt32)}
    (h : indices.map (·.toUInt32) = record.map (·.2)) :
    List.Forall₂ Entered (ofIndices indices).entries record := by
  rw [← List.forall₂_eq_eq_eq, List.forall₂_map_left_iff, List.forall₂_map_right_iff] at h
  rw [ofIndices, List.forall₂_map_left_iff]
  exact h.imp fun index recorded heq => ⟨heq, by simp⟩

theorem entered_ofPairs (pairs : List (UInt32 × UInt32)) :
    List.Forall₂ Entered (ofPairs pairs).entries
      (pairs.map fun pair => (pair.1.toNat, pair.2)) := by
  rw [ofPairs, List.forall₂_map_left_iff, List.forall₂_map_right_iff, List.forall₂_same]
  exact fun pair _ => ⟨rfl, by simp⟩

theorem address_ofPairs {pairs : List (UInt32 × UInt32)} :
    ∀ e ∈ (ofPairs pairs).entries, e.address ≠ none := by
  intro e he
  obtain ⟨pair, -, rfl⟩ := List.mem_map.1 he
  exact Option.some_ne_none pair.1

end QuickeningTable

/-! ## One instruction -/

namespace Unquicken

open QuickeningTable

variable {r : Resolver} {t : QuickeningTable} {address : Nat} {i : Instruction}

theorem step_plain (hodex : i.opcode.isOdex = false) (hnop : i.opcode ≠ .nop) :
    step r t address i = .ok ⟨i, false, t⟩ := by
  unfold step
  split
  · rename_i h
    rw [h] at hodex
    cases hodex
  · rename_i h
    rw [h] at hodex
    cases hodex
  · contradiction
  · split
    · rename_i h
      rw [Opcode.isOdex_of_unquickened? h] at hodex
      cases hodex
    · rfl

theorem step_nop (hnop : i.opcode = .nop) : step r t address i = nopStep r t address i := by
  unfold step
  simp only [hnop]

theorem step_access {plain : Opcode} (h : i.opcode.unquickened? = some plain) :
    step r t address i = accessStep r t address i plain := by
  unfold step
  split <;> simp_all [Opcode.unquickened?]

variable {e e' : QuickenedIndex} {es : List QuickenedIndex} {index : UInt32} {plain : Opcode}

theorem nopStep_entered (h : Entered e (address, noIndex)) :
    nopStep r ⟨e :: es⟩ address i = .ok ⟨i, false, ⟨es⟩⟩ := by
  rw [nopStep, peekAt?_entered h]
  rfl

theorem nopStep_skipped (h : peekAt? t address = none) :
    nopStep r t address i = .ok ⟨i, false, t⟩ := by
  rw [nopStep, h]

theorem nopStep_cast {register : UInt32} {type : Descriptor} (h : Entered e (address, register))
    (h' : Entered e' (address, index)) (hregister : register < noIndex)
    (hindex : r.type index.toNat = .ok type) :
    nopStep r ⟨e :: e' :: es⟩ address i =
      .ok ⟨{ opcode := .checkCast, registers := [register.toNat], reference := some (.type type) },
        true, ⟨es⟩⟩ := by
  have hlt : register.toNat < 0xffff := hregister
  have hne : register ≠ noIndex := by
    rintro rfl
    exact absurd hlt (by decide)
  have hwide : ¬0x10000 ≤ register.toNat := by omega
  rw [nopStep, peekAt?_entered h]
  simp only [hne, if_false, dropFirst, List.tail_cons, take_entered h']
  change (Checked.within _ (r.type index.toNat) >>= _) = _
  rw [hindex]
  exact if_neg hwide

theorem accessStep_field {f : FieldRef} (h : Entered e (address, index))
    (hplain : ¬(plain = .invokeVirtual ∨ plain = .invokeVirtualRange))
    (hindex : r.field index.toNat = .ok f) :
    accessStep r ⟨e :: es⟩ address i plain =
      .ok ⟨(i.withOpcode plain).withReference (.field f), false, ⟨es⟩⟩ := by
  rw [accessStep, peekAt?_entered h, take_entered h, if_neg (by simp)]
  simp only [hplain, if_false]
  change (((r.field index.toNat).within _).map Reference.field >>= _) = _
  rw [hindex]
  rfl

theorem accessStep_method {m : MethodRef} (h : Entered e (address, index))
    (hplain : plain = .invokeVirtual ∨ plain = .invokeVirtualRange)
    (hindex : r.method index.toNat = .ok m) :
    accessStep r ⟨e :: es⟩ address i plain =
      .ok ⟨(i.withOpcode plain).withReference (.method m), false, ⟨es⟩⟩ := by
  rw [accessStep, peekAt?_entered h, take_entered h, if_neg (by simp)]
  simp only [hplain, if_true]
  change (((r.method index.toNat).within _).map Reference.method >>= _) = _
  rw [hindex]
  rfl

theorem step_quickAccess {quick : Opcode} {f : FieldRef} (h : Entered e (address, index))
    (hquick : i.opcode.quickAccess? = some quick) (hfield : i.reference = some (.field f))
    (hindex : r.field index.toNat = .ok f) (other : Reference) :
    step r ⟨e :: es⟩ address ((i.withOpcode quick).withReference other) =
      .ok ⟨i, false, ⟨es⟩⟩ := by
  rw [step_access (Opcode.unquickened?_quickAccess? hquick),
    accessStep_field h (Opcode.quickAccess?_not_call hquick) hindex,
    Instruction.withReference_withOpcode_self hfield]

theorem step_quickCall {quick : Opcode} {m : MethodRef} (h : Entered e (address, index))
    (hquick : i.opcode.quickCall? = some quick) (hmethod : i.reference = some (.method m))
    (hindex : r.method index.toNat = .ok m) (other : Reference) :
    step r ⟨e :: es⟩ address ((i.withOpcode quick).withReference other) =
      .ok ⟨i, false, ⟨es⟩⟩ := by
  rw [step_access (Opcode.unquickened?_quickCall? hquick),
    accessStep_method h (Opcode.quickCall?_call hquick) hindex,
    Instruction.withReference_withOpcode_self hmethod]

theorem step_noBarrier (hreturn : i.opcode = .returnVoid) :
    step r t address (i.withOpcode .returnVoidNoBarrier) = .ok ⟨i, false, t⟩ := by
  have hback : (i.withOpcode .returnVoidNoBarrier).withOpcode .returnVoid = i := by
    rw [← hreturn]
    rfl
  rw [← hback]
  rfl

/-- One instruction in the place of one of the same size. -/
theorem run_step {i' : Instruction} {t' : QuickeningTable} {quick : List Instruction}
    (hstep : step r t address i' = .ok ⟨i, false, t'⟩) (hsize : i'.codeUnits = i.codeUnits) :
    run r address false t (i' :: quick) = do
      let (out, t) ← run r (address + i.codeUnits) false t' quick
      return (i :: out, t) := by
  rw [run, hstep, hsize]
  rfl

theorem run_cast {nop nop' : Instruction} {t' : QuickeningTable} {quick : List Instruction}
    (hnop : nop.opcode = .nop) (hnop' : nop'.opcode = .nop) (hcast : i.opcode = .checkCast)
    (hstep : step r t address nop = .ok ⟨i, true, t'⟩) :
    run r address false t (nop :: nop' :: quick) = do
      let (out, t) ← run r (address + i.codeUnits) false t' quick
      return (i :: out, t) := by
  have hone : nop.codeUnits = 1 := by rw [Instruction.codeUnits, hnop]; rfl
  have hone' : nop'.codeUnits = 1 := by rw [Instruction.codeUnits, hnop']; rfl
  have htwo : i.codeUnits = 2 := by rw [Instruction.codeUnits, hcast]; rfl
  rw [run, hstep, hone, htwo]
  change (run r (address + 1) true t' (nop' :: quick) >>= _) = _
  rw [run, if_pos ⟨rfl, hnop'⟩, hone']

/-- Whatever the compiler put in place of an instruction, the instruction comes
    back and exactly what was recorded for it is used. -/
theorem run_quickens {silent : Bool} {is quick : List Instruction} {indices : List UInt32}
    {rest : List QuickenedIndex} (h : Quickens r silent i is indices)
    (hodex : i.opcode.isOdex = false)
    (hes : List.Forall₂ Entered es (indices.map fun index => (address, index)))
    (hrest : silent = true → peekAt? ⟨rest⟩ address = none) :
    run r address false ⟨es ++ rest⟩ (is ++ quick) = do
      let (out, t) ← run r (address + i.codeUnits) false ⟨rest⟩ quick
      return (i :: out, t) := by
  cases h with
  | kept hnop =>
    obtain ⟨⟩ := hes
    exact run_step (step_plain hodex hnop) rfl
  | nop hnop =>
    obtain - | ⟨he, ⟨⟩⟩ := hes
    exact run_step ((step_nop hnop).trans (nopStep_entered he)) rfl
  | silentNop hsilent hnop =>
    obtain ⟨⟩ := hes
    exact run_step ((step_nop hnop).trans (nopStep_skipped (hrest hsilent))) rfl
  | access offset hquick hfield hindex =>
    obtain - | ⟨he, ⟨⟩⟩ := hes
    exact run_step (step_quickAccess he hquick hfield hindex _)
      (Instruction.codeUnits_quickened (Opcode.unquickened?_quickAccess? hquick) _)
  | call slot hquick hmethod hindex =>
    obtain - | ⟨he, ⟨⟩⟩ := hes
    exact run_step (step_quickCall he hquick hmethod hindex _)
      (Instruction.codeUnits_quickened (Opcode.unquickened?_quickCall? hquick) _)
  | cast hregister hindex =>
    obtain - | ⟨he, - | ⟨he', ⟨⟩⟩⟩ := hes
    exact run_cast rfl rfl rfl ((step_nop rfl).trans (nopStep_cast he he' hregister hindex))
  | returnVoid hreturn =>
    obtain ⟨⟩ := hes
    have hsize : (i.withOpcode .returnVoidNoBarrier).codeUnits = i.codeUnits := by
      simp only [Instruction.codeUnits, hreturn, Instruction.withOpcode]
      rfl
    exact run_step (step_noBarrier hreturn) hsize

end Unquicken

/-! ## The whole code -/

namespace Quickened

variable {r : Resolver} {silent : Bool} {address : Nat} {code quick : List Instruction}
  {record : List (Nat × UInt32)}

theorem address_le (h : Quickened r silent address code quick record) :
    ∀ recorded ∈ record, address ≤ recorded.1 := by
  induction h with
  | nil => simp
  | @cons address i is code quick indices record head tail ih =>
    intro recorded hmem
    rcases List.mem_append.1 hmem with hmem | hmem
    · obtain ⟨index, -, rfl⟩ := List.mem_map.1 hmem
      exact Nat.le_refl address
    · exact Nat.le_trans (Nat.le_add_right address i.codeUnits) (ih recorded hmem)

open QuickeningTable in
theorem run_eq (h : Quickened r silent address code quick record)
    (hodex : ∀ i ∈ code, i.opcode.isOdex = false) {es : List QuickenedIndex}
    (hes : List.Forall₂ Entered es record)
    (haddresses : silent = true → ∀ e ∈ es, e.address ≠ none) :
    Unquicken.run r address false ⟨es⟩ quick = .ok (code, ⟨[]⟩) := by
  induction h generalizing es with
  | nil =>
    cases hes
    rfl
  | @cons address i is code quick indices record head tail ih =>
    obtain ⟨hi, hcode⟩ := List.forall_mem_cons.1 hodex
    have hfirst := List.forall₂_take_append es _ _ hes
    have hrest := List.forall₂_drop_append es _ _ hes
    rw [← es.take_append_drop (indices.map fun index => (address, index)).length]
      at haddresses ⊢
    -- no entry of a later instruction can be taken for one of this instruction
    have hlater : ∀ recorded ∈ record, address < recorded.1 := by
      intro recorded hmem
      have hle := tail.address_le recorded hmem
      have hpos := i.codeUnits_pos
      omega
    rw [Unquicken.run_quickens head hi hfirst fun hsilent => peekAt?_eq_none hrest
        (fun e he => haddresses hsilent e (List.mem_append_right _ he)) hlater,
      ih hcode hrest fun hsilent e he => haddresses hsilent e (List.mem_append_right _ he)]
    rfl

open QuickeningTable in
theorem unquicken_eq (h : Quickened r silent 0 code quick record)
    (hodex : ∀ i ∈ code, i.opcode.isOdex = false) {es : List QuickenedIndex}
    (hes : List.Forall₂ Entered es record)
    (haddresses : silent = true → ∀ e ∈ es, e.address ≠ none) :
    unquicken r ⟨es⟩ quick = .ok code := by
  rw [unquicken, h.run_eq hodex hes haddresses]
  rfl

end Quickened

/-- Replaying what a compiler recorded gives back the code it quickened, from a
    table of bare indices that marks every nop left in place, and from a table with
    addresses, which need not mark them. -/
theorem unquicken_quickened {r : Resolver} {code quick : List Instruction}
    {record : List (Nat × UInt32)} (hodex : ∀ i ∈ code, i.opcode.isOdex = false) :
    (∀ indices : List UInt16, Quickened r false 0 code quick record →
      indices.map (·.toUInt32) = record.map (·.2) →
      unquicken r (.ofIndices indices) quick = .ok code) ∧
    (∀ pairs : List (UInt32 × UInt32), Quickened r true 0 code quick record →
      pairs.map (fun pair => (pair.1.toNat, pair.2)) = record →
      unquicken r (.ofPairs pairs) quick = .ok code) := by
  constructor
  · intro indices h hrecord
    exact h.unquicken_eq hodex (QuickeningTable.entered_ofIndices hrecord)
      fun hsilent => nomatch hsilent
  · rintro pairs h rfl
    exact h.unquicken_eq hodex (QuickeningTable.entered_ofPairs pairs)
      fun _ => QuickeningTable.address_ofPairs

/-! ## A body with casts among nops and an access left alone -/

namespace Sample

def viewPools : Pools where
  types := ["Lview/Node;", "Lview/Leaf;"]
  fields := [⟨"Lview/Node;", "depth", "I"⟩]
  methods := [⟨"Lview/Node;", "draw", ⟨[], "V"⟩⟩]

def viewCode : List Instruction :=
  [{ opcode := .checkCast, registers := [2], reference := some (.type "Lview/Leaf;") },
   { opcode := .nop },
   { opcode := .iget, registers := [0, 2],
     reference := some (.field ⟨"Lview/Node;", "depth", "I"⟩) },
   { opcode := .iget, registers := [1, 2],
     reference := some (.field ⟨"Lview/Node;", "depth", "I"⟩) },
   { opcode := .nop },
   { opcode := .checkCast, registers := [3], reference := some (.type "Lview/Node;") },
   { opcode := .invokeVirtual, registers := [3],
     reference := some (.method ⟨"Lview/Node;", "draw", ⟨[], "V"⟩⟩) },
   { opcode := .returnVoid }]

def viewQuick : List Instruction :=
  [{ opcode := .nop }, { opcode := .nop },
   { opcode := .nop },
   { opcode := .igetQuick, registers := [0, 2], reference := some (.fieldOffset 8) },
   { opcode := .iget, registers := [1, 2],
     reference := some (.field ⟨"Lview/Node;", "depth", "I"⟩) },
   { opcode := .nop },
   { opcode := .nop }, { opcode := .nop },
   { opcode := .invokeVirtualQuick, registers := [3], reference := some (.vtableIndex 3) },
   { opcode := .returnVoidNoBarrier }]

theorem viewCode_marked : Quickened viewPools.resolver false 0 viewCode viewQuick
    [(0, 2), (0, 1), (2, 0xffff), (3, 0), (7, 0xffff), (8, 3), (8, 0), (10, 0)] := by
  refine .cons (@Quickens.cast _ _ 2 1 _ (by decide) rfl) ?_
  refine .cons (.nop rfl) ?_
  refine .cons (.access 8 rfl rfl rfl) ?_
  refine .cons (.kept (by decide)) ?_
  refine .cons (.nop rfl) ?_
  refine .cons (@Quickens.cast _ _ 3 0 _ (by decide) rfl) ?_
  refine .cons (.call 3 rfl rfl rfl) ?_
  exact .cons (.returnVoid rfl) .nil

theorem viewCode_silent : Quickened viewPools.resolver true 0 viewCode viewQuick
    [(0, 2), (0, 1), (3, 0), (7, 0xffff), (8, 3), (8, 0), (10, 0)] := by
  refine .cons (@Quickens.cast _ _ 2 1 _ (by decide) rfl) ?_
  refine .cons (.silentNop rfl rfl) ?_
  refine .cons (.access 8 rfl rfl rfl) ?_
  refine .cons (.kept (by decide)) ?_
  refine .cons (.nop rfl) ?_
  refine .cons (@Quickens.cast _ _ 3 0 _ (by decide) rfl) ?_
  refine .cons (.call 3 rfl rfl rfl) ?_
  exact .cons (.returnVoid rfl) .nil

end Sample

open Sample in
/-- With every nop marked in a table of indices, and with one of them passed over
    in a table with addresses. -/
theorem viewCode_restored :
    unquicken viewPools.resolver (.ofIndices [2, 1, 0xffff, 0, 0xffff, 3, 0, 0]) viewQuick =
      .ok viewCode ∧
    unquicken viewPools.resolver
      (.ofPairs [(0, 2), (0, 1), (3, 0), (7, 0xffff), (8, 3), (8, 0), (10, 0)]) viewQuick =
      .ok viewCode := by
  have hodex : ∀ i ∈ viewCode, i.opcode.isOdex = false := by decide
  exact ⟨(unquicken_quickened hodex).1 _ viewCode_marked rfl,
    (unquicken_quickened hodex).2 _ viewCode_silent rfl⟩

end SymbolicDex
