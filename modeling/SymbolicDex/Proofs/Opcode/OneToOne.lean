import Mathlib.Data.List.Pairwise
import Mathlib.Data.List.Sort
import SymbolicDex.Instruction.Decoder

/- Opcodes and their values on one runtime. Values are reused from one version to
   the next, and a runtime on which two opcodes had one value at once could find only
   the later one. Over all opcodes this is a matter of some thirty
   thousand pairs of version spans; sorted by value they need to be compared only
   with their neighbours.

   What is proved:
     1. `precedes_trans`, `not_contains_of_precedes`: the order of spans under which
        neighbours decide, and that it keeps versions apart.
     2. `value?_injective`: on no runtime do two opcodes have the same value.
     3. `value?_range`: values are bytes, but for the three payload marks.
     4. `values_one_to_one`: the table is a bijection, and every opcode in it is
        the one that the decoder finds in some first unit. -/
namespace SymbolicDex

/-! ## Spans of versions -/

namespace VersionSpan

variable {s t u : VersionSpan}

/-- `t` has a version and comes after `s`: its value is greater, or the value is the
    same and `s` is over before `t` begins. -/
def precedes (s t : VersionSpan) : Bool :=
  t.least.all (fun w => t.greatest.all (w ≤ ·)) &&
    (s.value < t.value ||
      (s.value == t.value && s.greatest.any fun v => t.least.any (v < ·)))

theorem precedes_iff : s.precedes t = true ↔
    (∀ v w, t.least = some v → t.greatest = some w → v ≤ w) ∧
      (s.value < t.value ∨
        s.value = t.value ∧ ∃ v w, s.greatest = some v ∧ t.least = some w ∧ v < w) := by
  simp only [precedes, Bool.and_eq_true, Option.all_eq_true, Bool.or_eq_true,
    Option.any_eq_true, decide_eq_true_eq, beq_iff_eq]
  apply and_congr
  · constructor
    · intro h v w hv hw
      exact h v hv w hw
    · intro h v hv w hw
      exact h v w hv hw
  · simp

theorem precedes_trans (hst : s.precedes t = true) (htu : t.precedes u = true) :
    s.precedes u = true := by
  rw [precedes_iff] at hst htu ⊢
  obtain ⟨ht, hst⟩ := hst
  obtain ⟨hu, htu⟩ := htu
  refine ⟨hu, ?_⟩
  rcases hst with hlt | ⟨heq, v, w, hv, hw, hvw⟩ <;>
    rcases htu with hlt' | ⟨heq', v', w', hv', hw', hvw'⟩
  · exact .inl (Nat.lt_trans hlt hlt')
  · exact .inl (heq' ▸ hlt)
  · exact .inl (heq ▸ hlt')
  · -- the span between the two has a version, so it does not turn them round
    have hbetween := ht w v' hw hv'
    exact .inr ⟨heq.trans heq', v, w', hv, hw', by omega⟩

/-- Spans in this order share no version if they share the value. -/
theorem not_contains_of_precedes {version : Int} (h : s.precedes t = true)
    (hvalue : s.value = t.value) (hs : s.contains version = true) :
    t.contains version = false := by
  obtain ⟨-, hlt | ⟨-, v, w, hv, hw, hvw⟩⟩ := precedes_iff.1 h
  · omega
  · simp only [contains, hv, Option.all_some, Bool.and_eq_true, decide_eq_true_eq] at hs
    simp only [contains, hw, Option.all_some, Bool.and_eq_false_iff, decide_eq_false_iff_not]
    left
    omega

/-- Two spans that give the same value to no version. -/
def Apart (s t : VersionSpan) : Prop := s.precedes t = true ∨ t.precedes s = true

theorem Apart.symm (h : s.Apart t) : t.Apart s := Or.symm h

theorem Apart.ne_value {version : Int} (h : s.Apart t) (hs : s.contains version = true)
    (ht : t.contains version = true) : s.value ≠ t.value := by
  intro hvalue
  rcases h with h | h
  · rw [not_contains_of_precedes h hvalue hs] at ht
    cases ht
  · rw [not_contains_of_precedes h hvalue.symm ht] at hs
    cases hs

/-- It is enough to compare neighbours in the order of values. -/
theorem pairwise_apart {spans : List VersionSpan}
    (h : (spans.insertionSort fun s t => s.value ≤ t.value).IsChain
      fun s t => s.precedes t = true) : spans.Pairwise Apart := by
  have htrans : IsTrans VersionSpan fun s t => s.precedes t = true :=
    ⟨fun _ _ _ => precedes_trans⟩
  have hsorted := (List.isChain_iff_pairwise.1 h).imp (S := Apart) Or.inl
  exact (List.perm_insertionSort _ spans).pairwise_iff Apart.symm |>.1 hsorted

end VersionSpan

/-! ## All opcodes -/

namespace Opcode

theorem mem_all (o : Opcode) : o ∈ all := by
  have hall : all = (List.range 264).map Opcode.ofNat := by decide +kernel
  have hindex : o.ctorIdx < 264 := by cases o <;> decide
  rw [hall, ← ofNat_ctorIdx o]
  exact List.mem_map_of_mem (List.mem_range.2 hindex)

/-- Different opcodes have spans apart, those of API levels and those of ART
    versions. -/
theorem spans_apart {o o' : Opcode} (hne : o ≠ o') {s t : VersionSpan}
    (h : o.info.encoding.api = some s ∧ o'.info.encoding.api = some t ∨
      o.info.encoding.art = some s ∧ o'.info.encoding.art = some t) : s.Apart t := by
  have hpairs (spanOf : Opcode → Option VersionSpan)
      (hchain : ((all.filterMap spanOf).insertionSort fun s t => s.value ≤ t.value).IsChain
        fun s t => s.precedes t = true)
      (hs : spanOf o = some s) (ht : spanOf o' = some t) : s.Apart t := by
    have hapart := List.pairwise_filterMap.1 (VersionSpan.pairwise_apart hchain)
    have hsymm : Std.Symm fun a b : Opcode =>
        ∀ s, spanOf a = some s → ∀ t, spanOf b = some t → s.Apart t :=
      ⟨fun _ _ hab s hs t ht => (hab t ht s hs).symm⟩
    exact hapart.forall o.mem_all o'.mem_all hne s hs t ht
  rcases h with ⟨hs, ht⟩ | ⟨hs, ht⟩
  · exact hpairs (·.info.encoding.api) (by decide +kernel) hs ht
  · exact hpairs (·.info.encoding.art) (by decide +kernel) hs ht

/-- The three opcodes that are marked by a whole unit. -/
def payloadMarks : List (Opcode × Nat) :=
  [(.packedSwitchPayload, 0x100), (.sparseSwitchPayload, 0x200), (.arrayPayload, 0x300)]

theorem span_range (o : Opcode) {s : VersionSpan}
    (h : s ∈ o.info.encoding.api.toList ++ o.info.encoding.art.toList) :
    s.value < 0x100 ∧ o.format.isPayload = false ∨ (o, s.value) ∈ payloadMarks := by
  have hall : ∀ o ∈ all, ∀ s ∈ o.info.encoding.api.toList ++ o.info.encoding.art.toList,
      s.value < 0x100 ∧ o.format.isPayload = false ∨ (o, s.value) ∈ payloadMarks := by
    decide +kernel
  exact hall o o.mem_all s h

end Opcode

/-! ## Tables -/

namespace OpcodeTable

variable {t : OpcodeTable} {o o' : Opcode} {v : Nat}

/-- Where a value comes from: the span that decides on this runtime. -/
theorem value?_eq_some (h : t.value? o = some v) : ∃ s : VersionSpan, s.value = v ∧
    (t.art = noArt ∧ o.info.encoding.api = some s ∧ s.contains t.api = true ∨
      t.art ≠ noArt ∧ o.info.encoding.art = some s ∧ s.contains t.art = true) := by
  simp only [value?, Encoding.value?] at h
  split at h
  · next hart =>
    obtain ⟨s, hs, hvalue⟩ := Option.map_eq_some_iff.1 h
    obtain ⟨hspan, hin⟩ := Option.filter_eq_some_iff.1 hs
    exact ⟨s, hvalue, .inr ⟨hart, hspan, hin⟩⟩
  · next hart =>
    obtain ⟨s, hs, hvalue⟩ := Option.map_eq_some_iff.1 h
    obtain ⟨hspan, hin⟩ := Option.filter_eq_some_iff.1 hs
    exact ⟨s, hvalue, .inl ⟨not_not.1 hart, hspan, hin⟩⟩

theorem value?_injective (h : t.value? o = some v) (h' : t.value? o' = some v) : o = o' := by
  by_contra hne
  obtain ⟨s, hs, hfrom⟩ := value?_eq_some h
  obtain ⟨s', hs', hfrom'⟩ := value?_eq_some h'
  rcases hfrom with ⟨hart, hspan, hin⟩ | ⟨hart, hspan, hin⟩ <;>
    rcases hfrom' with ⟨hart', hspan', hin'⟩ | ⟨hart', hspan', hin'⟩
  · exact (Opcode.spans_apart hne (.inl ⟨hspan, hspan'⟩)).ne_value hin hin' (hs.trans hs'.symm)
  · exact hart' hart
  · exact hart hart'
  · exact (Opcode.spans_apart hne (.inr ⟨hspan, hspan'⟩)).ne_value hin hin' (hs.trans hs'.symm)

theorem opcode?_eq_some_iff : t.opcode? v = some o ↔ t.value? o = some v := by
  constructor
  · intro h
    simpa using List.find?_some h
  · intro h
    have hfound : (t.opcode? v).isSome = true :=
      List.find?_isSome.2 ⟨o, List.mem_reverse.2 o.mem_all, by simpa using h⟩
    obtain ⟨o', ho'⟩ := Option.isSome_iff_exists.1 hfound
    have hvalue : t.value? o' = some v := by simpa using List.find?_some ho'
    rw [ho', value?_injective hvalue h]

theorem value?_range (h : t.value? o = some v) :
    v < 0x100 ∧ o.format.isPayload = false ∨ (o, v) ∈ Opcode.payloadMarks := by
  obtain ⟨s, rfl, ⟨-, hspan, -⟩ | ⟨-, hspan, -⟩⟩ := value?_eq_some h
  · exact o.span_range (by simp [hspan])
  · exact o.span_range (by simp [hspan])

theorem value?_payload {e : Opcode × Nat} (he : e ∈ Opcode.payloadMarks) :
    t.value? e.1 = some e.2 := by
  have heverywhere : ∀ e ∈ Opcode.payloadMarks,
      e.1.info.encoding = Encoding.everywhere e.2 := by decide +kernel
  simp only [value?, heverywhere e he, Encoding.everywhere, Encoding.value?]
  split <;> rfl

/-- A value stands for itself in the unit that has nothing else. -/
theorem opcodeValue_value (h : t.value? o = some v) : Instruction.opcodeValue v = v := by
  rcases value?_range h with ⟨hv, -⟩ | hmark
  · simp only [Instruction.opcodeValue, CodeUnits.lowByte]
    split
    · rfl
    · exact Nat.mod_eq_of_lt hv
  · have hmarks : ∀ e ∈ Opcode.payloadMarks, Instruction.opcodeValue e.2 = e.2 := by decide
    exact hmarks _ hmark

/-- On every runtime the table pairs opcodes with values one to one. Values are
    bytes, but for the three payload marks, which are the same everywhere; and for
    every opcode of the table there is a first unit in which the decoder finds it. -/
theorem values_one_to_one (api art : Int) (o : Opcode) (v : Nat) :
    ((ofVersions api art).opcode? v = some o ↔ (ofVersions api art).value? o = some v) ∧
      ((ofVersions api art).value? o = some v →
        (v < 0x100 ∧ o.format.isPayload = false ∨ (o, v) ∈ Opcode.payloadMarks) ∧
          ∃ u : UInt16, Instruction.opcodeValue u.toNat = v ∧
            (ofVersions api art).opcode? (Instruction.opcodeValue u.toNat) = some o) ∧
      ((o, v) ∈ Opcode.payloadMarks → (ofVersions api art).value? o = some v) := by
  refine ⟨opcode?_eq_some_iff, fun h => ⟨value?_range h, ?_⟩, value?_payload⟩
  have hword : v < 2 ^ 16 := by
    rcases value?_range h with ⟨hv, -⟩ | hmark
    · omega
    · have hmarks : ∀ e ∈ Opcode.payloadMarks, e.2 < 2 ^ 16 := by decide
      exact hmarks _ hmark
  have hunit : (UInt16.ofNat v).toNat = v := UInt16.toNat_ofNat_of_lt' hword
  refine ⟨UInt16.ofNat v, ?_⟩
  rw [hunit, opcodeValue_value h]
  exact ⟨rfl, opcode?_eq_some_iff.2 h⟩

/-- The value 0xf0 passed from one opcode to another between Android 3 and 4, and
    on ART it is a third one's; the payload mark stays. -/
theorem values_one_to_one_reused :
    (ofVersions 13 noArt).opcode? 0xf0 = some .invokeDirectEmpty ∧
      (ofVersions 14 noArt).opcode? 0xf0 = some .invokeObjectInitRange ∧
      (ofVersions 14 64).opcode? 0xf0 = some .igetByteQuick ∧
      (∃ u : UInt16, Instruction.opcodeValue u.toNat = 0xf0 ∧
        (ofVersions 14 64).opcode? (Instruction.opcodeValue u.toNat) = some .igetByteQuick) ∧
      (ofVersions 14 64).value? .arrayPayload = some 0x300 :=
  ⟨(values_one_to_one 13 noArt .invokeDirectEmpty 0xf0).1.2 (by decide),
    (values_one_to_one 14 noArt .invokeObjectInitRange 0xf0).1.2 (by decide),
    (values_one_to_one 14 64 .igetByteQuick 0xf0).1.2 (by decide),
    ((values_one_to_one 14 64 .igetByteQuick 0xf0).2.1 (by decide)).2,
    (values_one_to_one 14 64 .arrayPayload 0x300).2.2 (by decide)⟩

end OpcodeTable

end SymbolicDex
