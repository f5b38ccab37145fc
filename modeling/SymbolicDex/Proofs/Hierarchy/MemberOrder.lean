import Mathlib.Data.List.Pairwise
import SymbolicDex.Hierarchy.Tables
import SymbolicDex.Proofs.Partition.ReferenceSets

/- The orders in which the members of a class get their places in its tables. The
   runtimes order fields in three ways, and all of them order virtual methods in
   one. Each is a total order of what a table shows of a member, which for a field
   is its name and type.

   What is proved:
     1. `FieldDef.instTransCmp`, `ArtLayout.instTransCmp`, `MethodDef.instTransCmp`:
        the orders are transitive and total, so sorting by them sorts.
     2. `ArtLayout.reference_of_order`, `ArtLayout.isWide_of_order`,
        `ArtLayout.fieldSize_of_order`: what comes first in the ART orders.
     3. `mergeSort_eq_of_perm`, `mergeSort_eq_of_ascending`: a sorted list does not
        show the order that it was given in, if no two of its elements are tied. -/
namespace SymbolicDex

section Sorting

variable {α : Type} {order : α → α → Ordering} [Std.TransCmp order] {as bs : List α}

theorem pairwise_mergeSort_order (as : List α) :
    (as.mergeSort fun a b => (order a b).isLE).Pairwise fun a b => (order a b).isLE :=
  List.pairwise_mergeSort (fun _ _ _ => Std.TransCmp.isLE_trans) order_total as

theorem mergeSort_eq_of_perm (h : as.Perm bs)
    (htied : ∀ a ∈ as, ∀ b ∈ as, order a b = .eq → a = b) :
    (as.mergeSort fun a b => (order a b).isLE) = bs.mergeSort fun a b => (order a b).isLE := by
  refine List.Perm.eq_of_pairwise ?_ (pairwise_mergeSort_order as)
    (pairwise_mergeSort_order bs) ?_
  · intro a b ha hb hab hba
    rw [List.mem_mergeSort] at ha hb
    exact htied a ha b (h.mem_iff.2 hb) (Std.OrientedCmp.isLE_antisymm hab hba)
  · calc List.Perm _ as := List.mergeSort_perm _ _
      List.Perm _ bs := h
      List.Perm _ _ := (List.mergeSort_perm _ _).symm

/-- A list sorted by hand is what sorting gives. -/
theorem mergeSort_eq_of_ascending (h : as.Perm bs) (hbs : Ascending order bs) :
    (as.mergeSort fun a b => (order a b).isLE) = bs := by
  have hsorted : bs.Pairwise fun a b => (order a b).isLE := by
    refine hbs.imp ?_
    intro a b hab
    rw [hab]
    rfl
  have huntied : bs.Pairwise fun a b => order a b ≠ .eq := by
    refine hbs.imp ?_
    intro a b hab heq
    rw [hab] at heq
    cases heq
  have hsymm : Std.Symm fun a b => order a b ≠ .eq :=
    ⟨fun a b hab hba => hab (Std.OrientedCmp.eq_symm hba)⟩
  have htied : ∀ a ∈ as, ∀ b ∈ as, order a b = .eq → a = b := by
    intro a ha b hb hab
    by_contra hne
    exact huntied.forall (h.mem_iff.1 ha) (h.mem_iff.1 hb) hne hab
  rw [mergeSort_eq_of_perm h htied, List.mergeSort_of_pairwise hsorted]

theorem isLE_of_then {o o' : Ordering} (h : (o.then o').isLE) : o.isLE := by
  cases o with
  | lt => rfl
  | eq => rfl
  | gt => exact h

end Sorting

/-! ## Fields -/

namespace FieldDef

/-- What a table shows of a field. -/
def plain (f : FieldDef) : FieldDef := { f with access := ⟨0⟩ }

@[simp] theorem plain_type (f : FieldDef) : f.plain.type = f.type := rfl

@[simp] theorem ref_plain (f : FieldDef) (owner : Descriptor) : f.plain.ref owner = f.ref owner :=
  rfl

@[simp] theorem compare_plain (a b : FieldDef) : a.plain.compare b.plain = a.compare b := rfl

instance instTransCmp : Std.TransCmp FieldDef.compare :=
  inferInstanceAs (Std.TransCmp (compareLex (compareOn FieldDef.name) (compareOn FieldDef.type)))

theorem plain_eq_of_compare {a b : FieldDef} (h : a.compare b = .eq) : a.plain = b.plain := by
  simp only [FieldDef.compare, Ordering.then_eq_eq, Std.LawfulEqCmp.compare_eq_iff_eq] at h
  simp only [plain, h.1, h.2]

end FieldDef

namespace ArtLayout

theorem fieldSize_cases (d : Descriptor) :
    fieldSize d = 8 ∨ fieldSize d = 4 ∨ fieldSize d = 2 ∨ fieldSize d = 1 := by
  unfold fieldSize
  split <;> simp

theorem fieldSize_wide {d : Descriptor} (h : d.isWide) : fieldSize d = 8 := by
  simp only [Descriptor.isWide, Bool.or_eq_true, beq_iff_eq] at h
  rcases h with rfl | rfl <;> decide +kernel

/-- References have the least rank, larger fields a smaller one. -/
def sizeRank (f : FieldDef) : Nat :=
  if f.type.isReference then 0 else 9 - fieldSize f.type

def typeRank (f : FieldDef) : Nat :=
  if f.type.isReference then 0 else primitiveRank f.type

/-- The order of the current generation compares one rank after the other. -/
theorem compareCurrent_eq (a b : FieldDef) :
    compareCurrent a b = ((compare (sizeRank a) (sizeRank b)).then
      (compare (typeRank a) (typeRank b))).then (a.compare b) := by
  have ha := fieldSize_cases a.type
  have hb := fieldSize_cases b.type
  unfold compareCurrent sizeRank typeRank
  cases a.type.isReference <;> cases b.type.isReference
  · have hswap : compare (9 - fieldSize a.type) (9 - fieldSize b.type) =
        compare (fieldSize b.type) (fieldSize a.type) := by
      cases h : compare (fieldSize b.type) (fieldSize a.type) with
      | lt =>
        rw [Nat.compare_eq_lt] at h ⊢
        omega
      | eq =>
        rw [Nat.compare_eq_eq] at h ⊢
        omega
      | gt =>
        rw [Nat.compare_eq_gt] at h ⊢
        omega
    simp only [Bool.false_eq_true, if_false, hswap]
  · have hgt : compare (9 - fieldSize a.type) 0 = .gt := by
      rw [Nat.compare_eq_gt]
      omega
    simp [hgt]
  · have hlt : compare 0 (9 - fieldSize b.type) = .lt := by
      rw [Nat.compare_eq_lt]
      omega
    simp [hlt]
  · simp

instance instTransCmp (v : ArtLayout) : Std.TransCmp (order v) :=
  match v with
  | .legacy => inferInstanceAs (Std.TransCmp
      (compareLex (compareOn fun f : FieldDef => legacyGroup f.type) FieldDef.compare))
  | .current => by
    have heq : order .current = compareLex (compareLex (compareOn sizeRank) (compareOn typeRank))
        FieldDef.compare := funext fun a => funext fun b => compareCurrent_eq a b
    rw [heq]
    infer_instance

theorem plain_eq_of_order {v : ArtLayout} {a b : FieldDef} (h : order v a b = .eq) :
    a.plain = b.plain := by
  cases v with
  | legacy => exact FieldDef.plain_eq_of_compare (Ordering.then_eq_eq.1 h).2
  | current =>
    simp only [order, compareCurrent_eq] at h
    exact FieldDef.plain_eq_of_compare (Ordering.then_eq_eq.1 h).2

theorem order_plain (v : ArtLayout) (a b : FieldDef) : order v a.plain b.plain = order v a b := by
  cases v <;> rfl

section Precedence

variable {v : ArtLayout} {a b : FieldDef}

theorem legacyGroup_le (h : (order .legacy a b).isLE) :
    legacyGroup a.type ≤ legacyGroup b.type :=
  Nat.isLE_compare.1 (isLE_of_then h)

theorem reference_of_order (h : (order v a b).isLE) (hb : b.type.isReference) :
    a.type.isReference := by
  cases v with
  | legacy =>
    have hle := legacyGroup_le h
    by_contra ha
    unfold legacyGroup at hle
    rw [if_neg ha, if_pos hb] at hle
    split at hle <;> omega
  | current =>
    by_contra ha
    rw [Bool.not_eq_true] at ha
    simp [order, compareCurrent, ha, hb] at h

theorem isWide_of_order (h : (order .legacy a b).isLE) (ha : ¬ a.type.isReference)
    (hb : b.type.isWide) : a.type.isWide := by
  have hle := legacyGroup_le h
  by_contra hwide
  unfold legacyGroup at hle
  rw [if_neg ha, if_neg hwide, if_pos hb] at hle
  split at hle <;> omega

theorem fieldSize_of_order (h : (order .current a b).isLE) (ha : ¬ a.type.isReference) :
    fieldSize b.type ≤ fieldSize a.type := by
  by_cases hb : b.type.isReference
  · exact absurd (reference_of_order h hb) ha
  · rw [Bool.not_eq_true] at ha hb
    simp only [order, compareCurrent, ha, hb] at h
    exact Nat.isLE_compare.1 (isLE_of_then (isLE_of_then h))

end Precedence

end ArtLayout

/-! ## Methods -/

namespace MethodDef

instance instTransCmp : Std.TransCmp MethodDef.compare :=
  let _ : Ord Prototype := ⟨Prototype.compare⟩
  have : Std.TransOrd Prototype := Prototype.instTransCmp
  inferInstanceAs (Std.TransCmp
    (compareLex (compareOn MethodDef.name) (compareOn MethodDef.prototype)))

theorem signature_of_compare {a b : MethodDef} (h : a.compare b = .eq) :
    a.name = b.name ∧ a.prototype = b.prototype := by
  obtain ⟨hname, hprototype⟩ := Ordering.then_eq_eq.1 h
  exact ⟨Std.LawfulEqCmp.eq_of_compare hname, Std.LawfulEqCmp.eq_of_compare hprototype⟩

end MethodDef

end SymbolicDex
