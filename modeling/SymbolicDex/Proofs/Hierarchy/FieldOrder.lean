import SymbolicDex.Proofs.Hierarchy.FieldAlignment

/- A layout does not show the order in which a class declares its fields. All strategies
   sort the fields first, and no two that are tied can be told apart by their places:
   what is done with a field after that depends on its name and type alone
   (`FieldDef.plain`).

   What is proved:
     1. `DalvikLayout.ordered_plain`, `DalvikLayout.place_plain`: ordering and placing
        the fields look at nothing else of them.
     2. `ArtLayout.placeReferences_plain`, `ArtLayout.placePass_plain`: nor do the loops.
     3. `layoutOver_perm`: classes with the same fields have the same layout over any
        other. -/
namespace SymbolicDex

/-- A list of fields as a table shows it. -/
def plainFields (own : List FieldDef) : List FieldDef := own.map FieldDef.plain

section Sorting

variable {order : FieldDef → FieldDef → Ordering}
  (hplain : ∀ a b, order a.plain b.plain = order a b)
include hplain

theorem mergeSort_plainFields (own : List FieldDef) :
    (plainFields own).mergeSort (fun a b => (order a b).isLE) =
      plainFields (own.mergeSort fun a b => (order a b).isLE) := by
  refine (List.map_mergeSort ?_).symm
  intro a _ b _
  rw [hplain]

/-- Sorted fields do not show the order in which they were declared. -/
theorem mergeSort_plainFields_of_perm [Std.TransCmp order]
    (htied : ∀ a b, order a b = .eq → a.plain = b.plain) {own own' : List FieldDef}
    (h : own.Perm own') :
    (plainFields own).mergeSort (fun a b => (order a b).isLE) =
      (plainFields own').mergeSort fun a b => (order a b).isLE := by
  refine mergeSort_eq_of_perm (h.map _) ?_
  intro a ha b hb heq
  obtain ⟨a, -, rfl⟩ := List.mem_map.1 ha
  obtain ⟨b, -, rfl⟩ := List.mem_map.1 hb
  rw [hplain] at heq
  exact htied a b heq

end Sorting

/-! ## Dalvik -/

namespace DalvikLayout

section Renaming

variable {α β : Type} {f : α → β} {p : α → Bool} {q : β → Bool}

theorem refill_map (h : ∀ x, q (f x) = p x) (xs supply : List α) :
    refill q (xs.map f) (supply.map f) = (refill p xs supply).map f := by
  induction xs generalizing supply with
  | nil => rfl
  | cons x xs ih =>
    simp only [List.map_cons, refill, h]
    split
    · cases supply with
      | nil => simpa using ih []
      | cons y ys => simpa using ih ys
    · simpa using ih supply

theorem gather_map (h : ∀ x, q (f x) = p x) (xs : List α) :
    gather q (xs.map f) = (gather p xs).map f := by
  have hq : q ∘ f = p := funext h
  have hn : (fun y => !q y) ∘ f = fun x => !p x := funext fun x => congrArg (!·) (h x)
  simp only [gather, List.filter_map, List.length_map, ← List.map_take, ← List.map_drop,
    ← List.map_reverse, List.map_append, hq, hn]
  have hneg (x : α) : (!q (f x)) = !p x := by rw [h]
  rw [refill_map (q := fun y => !q y) (p := fun x => !p x) hneg, refill_map h, List.map_reverse]

theorem exchangeLast_map (h : ∀ x, q (f x) = p x) (x : α) (ys : List α) :
    exchangeLast q (f x) (ys.map f) =
      (exchangeLast p x ys).map fun r => (f r.1, r.2.map f) := by
  induction ys with
  | nil => rfl
  | cons y ys ih =>
    simp only [List.map_cons, exchangeLast, ih, h]
    cases exchangeLast p x ys with
    | some r => rfl
    | none =>
      simp only [Option.map_none]
      split <;> rfl

end Renaming

theorem isKind_plain (k : FieldKind) (f : FieldDef) : isKind k f.plain = isKind k f := rfl

theorem afterReferences_plain (odd : Bool) (rest : List FieldDef) :
    afterReferences odd (plainFields rest) = plainFields (afterReferences odd rest) := by
  have hgather (xs : List FieldDef) :
      gather (isKind .wide) (plainFields xs) = plainFields (gather (isKind .wide) xs) :=
    gather_map (isKind_plain .wide) xs
  cases rest with
  | nil => rfl
  | cons f fs =>
    have hexchange := exchangeLast_map (isKind_plain .other) f fs
    have hcons := hgather (f :: fs)
    simp only [plainFields, List.map_cons] at hgather hcons ⊢
    simp only [afterReferences, isKind_plain, hexchange, hcons]
    split
    · split
      · cases exchangeLast (isKind .other) f fs with
        | none => rfl
        | some r => simp [hgather]
      · simp [hgather]
    · rfl

theorem ordered_plain (start : Nat) (own : List FieldDef) :
    ordered start (plainFields own) = plainFields (ordered start own) := by
  have hsort := mergeSort_plainFields FieldDef.compare_plain own
  have hcount (xs : List FieldDef) : ((plainFields xs).filter (isKind .reference)).length =
      (xs.filter (isKind .reference)).length := by
    rw [plainFields, List.filter_map, List.length_map]
    rfl
  have hgather (xs : List FieldDef) :
      gather (isKind .reference) (plainFields xs) = plainFields (gather (isKind .reference) xs) :=
    gather_map (isKind_plain .reference) xs
  have htake (n : Nat) (xs : List FieldDef) : (plainFields xs).take n = plainFields (xs.take n) :=
    (List.map_take ..).symm
  have hdrop (n : Nat) (xs : List FieldDef) : (plainFields xs).drop n = plainFields (xs.drop n) :=
    (List.map_drop ..).symm
  simp only [ordered, hsort, hcount, hgather, htake, hdrop, afterReferences_plain]
  exact (List.map_append ..).symm

theorem place_plain (owner : Descriptor) (own : List FieldDef) (seenWide : Bool) (offset : Nat)
    (l : FieldLayout) :
    place owner seenWide offset l (plainFields own) = place owner seenWide offset l own := by
  induction own generalizing seenWide offset l with
  | nil => rfl
  | cons f fs ih => exact ih ..

theorem layout_perm (owner : Descriptor) (inherited : FieldLayout) {own own' : List FieldDef}
    (h : own.Perm own') : layout owner inherited own = layout owner inherited own' := by
  have hsort := mergeSort_plainFields_of_perm FieldDef.compare_plain
    (fun _ _ => FieldDef.plain_eq_of_compare) h
  have hplain (start : Nat) :
      plainFields (ordered start own) = plainFields (ordered start own') := by
    rw [← ordered_plain, ← ordered_plain]
    simp only [ordered, hsort]
  unfold layout
  dsimp only
  rw [← place_plain, hplain, place_plain]

end DalvikLayout

/-! ## ART -/

namespace ArtLayout

theorem placeReferences_plain (owner : Descriptor) (s : State) (own : List FieldDef) :
    placeReferences owner s (plainFields own) =
      ((placeReferences owner s own).1, plainFields (placeReferences owner s own).2) := by
  induction own generalizing s with
  | nil => rfl
  | cons f fs ih =>
    simp only [plainFields, List.map_cons, placeReferences, FieldDef.plain_type, FieldDef.ref_plain]
    by_cases href : f.type.isReference
    · simp only [href, if_true]
      exact ih _
    · simp only [href]
      rfl

theorem placePass_plain (v : ArtLayout) (owner : Descriptor) (n : Nat) (s : State)
    (own : List FieldDef) :
    placePass v owner n s (plainFields own) =
      ((placePass v owner n s own).1, plainFields (placePass v owner n s own).2) := by
  induction own generalizing s with
  | nil => rfl
  | cons f fs ih =>
    simp only [plainFields, List.map_cons, placePass, FieldDef.plain_type, FieldDef.ref_plain]
    by_cases hsize : fieldSize f.type < n
    · simp only [hsize, if_true]
      rfl
    · simp only [hsize, if_false]
      exact ih _

theorem layout_plain (v : ArtLayout) (owner : Descriptor) (inherited : FieldLayout)
    (own : List FieldDef) :
    layout v owner inherited (plainFields own) = layout v owner inherited own := by
  have hsort := mergeSort_plainFields (order_plain v) own
  simp only [layout, hsort, placeReferences_plain, placePass_plain]

theorem layout_perm (v : ArtLayout) (owner : Descriptor) (inherited : FieldLayout)
    {own own' : List FieldDef} (h : own.Perm own') :
    layout v owner inherited own = layout v owner inherited own' := by
  rw [← layout_plain v owner inherited own, ← layout_plain v owner inherited own']
  simp only [layout, mergeSort_plainFields_of_perm (order_plain v) (fun _ _ => plain_eq_of_order) h]

end ArtLayout

/-! ## All strategies -/

theorem ClassPath.layoutOver_perm {p p' : ClassPath} (hruntime : p.runtime = p'.runtime)
    {c c' : ClassDef} (hname : c.descriptor = c'.descriptor)
    (hfields : c.instanceFields.Perm c'.instanceFields) (inherited : FieldLayout) :
    p.layoutOver inherited c = p'.layoutOver inherited c' := by
  unfold ClassPath.layoutOver
  rw [hruntime, hname]
  split
  · exact DalvikLayout.layout_perm _ _ hfields
  · exact ArtLayout.layout_perm _ _ _ hfields

end SymbolicDex
