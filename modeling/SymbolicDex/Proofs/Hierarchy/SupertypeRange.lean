import Mathlib.Data.List.TakeWhile
import SymbolicDex.Hierarchy.Ancestry
import SymbolicDex.Proofs.Hierarchy.MemoGrowth

/- What a common supertype can be. It is one of the two types, a name that some
   class on the path extends, or an array of such, so merging types over and
   over leads to no new element types, and to no deeper arrays unless some class
   extends an array.

   What is proved:
     1. `dimensions_arrayOf`, `element_arrayOf`, `length_eq`: a descriptor is its
        element under its dimensions.
     2. `commonOfClasses_mem`, `commonSuperclass_cases`: where a common supertype
        comes from.
     3. `element_closed`, `dimensions_closed`: the length of the element and the
        number of dimensions stay within bounds. -/
namespace SymbolicDex

/-! ## Elements and dimensions -/

namespace Descriptor

theorem toList_eq (d : Descriptor) :
    d.toList = List.replicate d.dimensions '[' ++ d.element.toList := by
  unfold dimensions element
  have hbrackets : d.toList.takeWhile (· = '[') =
      List.replicate (d.toList.takeWhile (· = '[')).length '[' := by
    refine List.eq_replicate_of_mem fun c hc => ?_
    simpa using List.mem_takeWhile_imp hc
  rw [← hbrackets, String.toList_ofList, List.takeWhile_append_dropWhile]

theorem length_eq (d : Descriptor) :
    d.toList.length = d.dimensions + d.element.toList.length := by
  have h := congrArg List.length d.toList_eq
  rwa [List.length_append, List.length_replicate] at h

theorem dimensions_arrayOf (n : Nat) (d : Descriptor) :
    (arrayOf n d).dimensions = n + d.dimensions := by
  unfold arrayOf dimensions
  rw [String.toList_ofList]
  induction n with
  | zero => simp
  | succ n ih =>
    rw [List.replicate_succ, List.cons_append, List.takeWhile_cons_of_pos (by simp),
      List.length_cons, ih]
    omega

theorem element_arrayOf (n : Nat) (d : Descriptor) : (arrayOf n d).element = d.element := by
  unfold arrayOf element
  rw [String.toList_ofList]
  induction n with
  | zero => rfl
  | succ n ih =>
    rw [List.replicate_succ, List.cons_append, List.dropWhile_cons_of_pos (by simp), ih]

theorem element_element (d : Descriptor) : d.element.element = d.element := by
  unfold element
  rw [String.toList_ofList,
    List.dropWhile_eq_self_iff.2 fun hl => List.dropWhile_get_zero_not _ _ hl]

theorem dimensions_element (d : Descriptor) : d.element.dimensions = 0 := by
  have h := d.element.length_eq
  rw [element_element] at h
  omega

theorem component_cases (d : Descriptor) :
    d.component = d ∨
      (d.component.element = d.element ∧ d.dimensions = d.component.dimensions + 1) := by
  unfold component
  split
  · exact .inl rfl
  · rename_i c cs hlist
    split
    · rename_i hc
      refine .inr ?_
      unfold element dimensions
      rw [hlist, String.toList_ofList, List.dropWhile_cons_of_pos (by simpa using hc),
        List.takeWhile_cons_of_pos (by simpa using hc)]
      exact ⟨rfl, rfl⟩
    · exact .inl rfl

theorem dimensions_of_not_isArray {d : Descriptor} (h : d.isArray = false) :
    d.dimensions = 0 := by
  unfold isArray at h
  unfold dimensions
  cases hlist : d.toList with
  | nil => rfl
  | cons c cs =>
    rw [hlist] at h
    rw [List.takeWhile_cons_of_neg (by simpa using h)]
    rfl

end Descriptor

/-! ## Where a common supertype comes from -/

namespace ClassPath

variable (p : ClassPath)

/-- The names that definitions extend. -/
def superclasses : List Descriptor :=
  p.sets.flatMap fun s => s.classes.filterMap (·.superclass)

/-- Names that come up by themselves as types are merged. -/
def roots : List Descriptor := Descriptor.object :: Descriptor.unknown :: p.superclasses

theorem superclasses_length_le : p.superclasses.length ≤ p.size := by
  simp only [superclasses, size]
  induction p.sets with
  | nil => exact Nat.le_refl 0
  | cons set sets ih =>
    rw [List.flatMap_cons, List.length_append, List.map_cons, List.foldr_cons]
    exact Nat.add_le_add (List.length_filterMap_le _ _) ih

/-- What is extended is named by a definition, or is Object. -/
theorem superclass_named {d : Descriptor} {s : Descriptor} (h : p.superclass d = .ok (some s)) :
    s ∈ Descriptor.object :: p.superclasses := by
  unfold superclass shape at h
  split at h
  · rename_i c hshape
    split at hshape
    · cases hshape
    · split at hshape
      · cases hshape
      · split at hshape
        · rename_i hdefinition
          cases hshape
          obtain ⟨set, hset, hfind⟩ := List.exists_of_findSome?_eq_some hdefinition
          have hs : c.superclass = some s := Except.ok.inj h
          refine List.mem_cons_of_mem _ ?_
          exact List.mem_flatMap.2
            ⟨set, hset, List.mem_filterMap.2 ⟨c, List.mem_of_find?_eq_some hfind, hs⟩⟩
        · cases hshape
  · cases h
  · cases h
    exact List.mem_cons_self
  · cases h

theorem superclass_mem {d : Descriptor} {s : Descriptor} (h : p.superclass d = .ok (some s)) :
    s ∈ p.roots := by
  rcases List.mem_cons.1 (p.superclass_named h) with rfl | hs
  · exact List.mem_cons_self
  · exact List.mem_cons_of_mem _ (List.mem_cons_of_mem _ hs)

theorem chainAfter_subset (self : Descriptor) (count : Nat) (seen : List Descriptor)
    (d : Descriptor) : ∀ x ∈ p.chainAfter self count seen d, x ∈ p.roots := by
  induction count generalizing seen d with
  | zero => exact fun x hx => nomatch hx
  | succ count ih =>
    intro x hx
    unfold chainAfter at hx
    -- a chain that breaks off, and one that goes round, end in the unknown class
    split at hx
    · rw [List.mem_singleton.1 hx]
      exact List.mem_cons_of_mem _ List.mem_cons_self
    · cases hx
    · rename_i s hs
      split at hx
      · rw [List.mem_singleton.1 hx]
        exact List.mem_cons_of_mem _ List.mem_cons_self
      · rcases List.mem_cons.1 hx with rfl | hx
        · exact p.superclass_mem hs
        · exact ih _ _ x hx

theorem lastShared_mem {as bs : List Descriptor} {d : Descriptor}
    (h : lastShared as bs = some d) : d ∈ as := by
  induction as generalizing bs with
  | nil => cases h
  | cons a as ih =>
    cases bs with
    | nil => cases h
    | cons b bs =>
      unfold lastShared at h
      split at h
      · rename_i hrest
        cases h
        exact List.mem_cons_of_mem _ (ih hrest)
      · split at h
        · cases h
          exact List.mem_cons_self
        · cases h

theorem commonAncestor_mem (a b : Descriptor) : p.commonAncestor a b ∈ a :: p.roots := by
  unfold commonAncestor
  cases h : lastShared (a :: p.superclassChain a).reverse (b :: p.superclassChain b).reverse with
  | none => exact List.mem_cons_of_mem _ (List.mem_cons_of_mem _ List.mem_cons_self)
  | some d =>
    rcases List.mem_cons.1 (List.mem_reverse.1 (lastShared_mem h)) with rfl | hd
    · exact List.mem_cons_self
    · exact List.mem_cons_of_mem _ (p.chainAfter_subset a _ [] a d hd)

theorem object_mem_roots : Descriptor.object ∈ p.roots := List.mem_cons_self

theorem unknown_mem_roots : Descriptor.unknown ∈ p.roots :=
  List.mem_cons_of_mem _ List.mem_cons_self

theorem commonWithInterface_mem (iface other : Descriptor) (m : Memo) :
    ((p.commonWithInterface iface other).run m).1 ∈ iface :: p.roots := by
  unfold commonWithInterface
  rw [Query.run_bind]
  split
  · exact List.mem_cons_self
  · exact List.mem_cons_of_mem _ p.object_mem_roots
  · exact List.mem_cons_of_mem _ p.unknown_mem_roots

theorem commonOfClasses_mem (a b : Descriptor) (m : Memo) :
    ((p.commonOfClasses a b).run m).1 ∈ a :: b :: p.roots := by
  have hroots {d : Descriptor} (hd : d ∈ p.roots) : d ∈ a :: b :: p.roots :=
    List.mem_cons_of_mem _ (List.mem_cons_of_mem _ hd)
  unfold commonOfClasses
  split
  · exact List.mem_cons_self
  · split
    · exact hroots p.object_mem_roots
    · split
      · rcases List.mem_cons.1 (p.commonWithInterface_mem a b m) with h | h
        · rw [h]
          exact List.mem_cons_self
        · exact hroots h
      · rcases List.mem_cons.1 (p.commonWithInterface_mem b a m) with h | h
        · rw [h]
          exact List.mem_cons_of_mem _ List.mem_cons_self
        · exact hroots h
      · rcases List.mem_cons.1 (p.commonAncestor_mem a b) with h | h
        · refine h.symm ▸ ?_
          exact List.mem_cons_self
        · exact hroots h
      · exact hroots p.unknown_mem_roots

theorem commonOfArrayAndClass_mem (array cls : Descriptor) (m : Memo) :
    ((p.commonOfArrayAndClass array cls).run m).1 ∈ cls :: p.roots := by
  unfold commonOfArrayAndClass
  split
  · rw [Query.run_bind]
    split
    · exact List.mem_cons_self
    · exact List.mem_cons_of_mem _ p.object_mem_roots
  · exact List.mem_cons_of_mem _ p.object_mem_roots

theorem objectDimensions_le (array : Descriptor) : objectDimensions array ≤ array.dimensions := by
  unfold objectDimensions
  split
  · exact Nat.sub_le _ _
  · exact Nat.le_refl _

theorem commonOfArrays_cases (a b : Descriptor) (m : Memo) :
    ((p.commonOfArrays a b).run m).1 = Descriptor.unknown ∨
      ∃ n x, n ≤ a.dimensions ∧ x ∈ a.element :: b.element :: p.roots ∧
        ((p.commonOfArrays a b).run m).1 = Descriptor.arrayOf n x := by
  unfold commonOfArrays
  split
  · rw [Query.run_bind, Query.run_pure]
    dsimp only
    split
    · exact .inl rfl
    · exact .inr ⟨_, _, Nat.le_refl _, p.commonOfClasses_mem _ _ m, rfl⟩
  · refine .inr ⟨_, _, ?_, ?_, rfl⟩
    · exact Nat.le_trans (Nat.min_le_left _ _) (objectDimensions_le a)
    · exact List.mem_cons_of_mem _ (List.mem_cons_of_mem _ p.object_mem_roots)

/-- A common supertype is one of the two, a root, or an array of the element of
    one of the two or of a root, no deeper than the first. -/
theorem commonSuperclass_cases (a b : Descriptor) (m : Memo) :
    ((p.commonSuperclass a b).run m).1 ∈ a :: b :: p.roots ∨
      ∃ n x, n ≤ a.dimensions ∧ x ∈ a.element :: b.element :: p.roots ∧
        ((p.commonSuperclass a b).run m).1 = Descriptor.arrayOf n x := by
  have hroots {d : Descriptor} (hd : d ∈ p.roots) : d ∈ a :: b :: p.roots :=
    List.mem_cons_of_mem _ (List.mem_cons_of_mem _ hd)
  unfold commonSuperclass
  split
  · exact .inl List.mem_cons_self
  · split
    · refine .inl (hroots ?_)
      rw [Query.run_pure]
      dsimp only
      split
      · exact p.object_mem_roots
      · exact p.unknown_mem_roots
    · split
      · split
        -- only here does a name come up that is not one of the two or a root
        · rcases p.commonOfArrays_cases a b m with h | h
          · rw [h]
            exact .inl (hroots p.unknown_mem_roots)
          · exact .inr h
        · exact .inl (List.mem_cons_of_mem _ (p.commonOfArrayAndClass_mem a b m))
      · split
        · rcases List.mem_cons.1 (p.commonOfArrayAndClass_mem b a m) with h | h
          · rw [h]
            exact .inl List.mem_cons_self
          · exact .inl (hroots h)
        · exact .inl (p.commonOfClasses_mem a b m)

/-! ## Bounds that merging keeps -/

/-- A set of descriptors that taking common supertypes and elements of arrays
    does not leave. -/
structure Closed (U : Descriptor → Prop) : Prop where
  object : U Descriptor.object
  common : ∀ a b m, U a → U b → U ((p.commonSuperclass a b).run m).1
  component : ∀ d : Descriptor, U d → U d.component

/-- A set with the roots is closed if it has arrays of what is in it, and their
    elements. -/
theorem closed_of_roots {U : Descriptor → Prop} (hroots : ∀ d ∈ p.roots, U d)
    (harrays : ∀ a b n x, U a → U b → n ≤ a.dimensions →
      x ∈ a.element :: b.element :: p.roots → U (Descriptor.arrayOf n x))
    (hcomponent : ∀ d : Descriptor, U d → U d.component) : p.Closed U where
  object := hroots _ p.object_mem_roots
  common := by
    intro a b m ha hb
    rcases p.commonSuperclass_cases a b m with hd | ⟨n, x, hn, hx, hd⟩
    · exact List.forall_mem_cons.2 ⟨ha, List.forall_mem_cons.2 ⟨hb, hroots⟩⟩ _ hd
    · rw [hd]
      exact harrays a b n x ha hb hn hx
  component := hcomponent

theorem element_closed {bound : Nat} (h : ∀ d ∈ p.roots, d.element.toList.length ≤ bound) :
    p.Closed fun d => d.element.toList.length ≤ bound := by
  refine p.closed_of_roots h ?_ ?_
  · intro a b n x ha hb _ hx
    rw [Descriptor.element_arrayOf]
    refine List.forall_mem_cons.2 ⟨?_, List.forall_mem_cons.2 ⟨?_, h⟩⟩ x hx
    · rw [Descriptor.element_element]
      exact ha
    · rw [Descriptor.element_element]
      exact hb
  · intro d hd
    rcases d.component_cases with hsame | ⟨helement, -⟩
    · rw [hsame]
      exact hd
    · rw [helement]
      exact hd

/-- Arrays get no deeper if no class extends an array. -/
theorem dimensions_closed (h : ∀ d ∈ p.superclasses, d.isArray = false) (bound : Nat) :
    p.Closed fun d => d.dimensions ≤ bound := by
  have hroots : ∀ d ∈ p.roots, d.dimensions = 0 := List.forall_mem_cons.2 ⟨rfl,
    List.forall_mem_cons.2 ⟨rfl, fun d hd => Descriptor.dimensions_of_not_isArray (h d hd)⟩⟩
  refine p.closed_of_roots (fun d hd => ?_) ?_ ?_
  · rw [hroots d hd]
    exact Nat.zero_le _
  · intro a b n x ha _ hn hx
    have hflat : ∀ x ∈ a.element :: b.element :: p.roots, x.dimensions = 0 :=
      List.forall_mem_cons.2 ⟨a.dimensions_element,
        List.forall_mem_cons.2 ⟨b.dimensions_element, hroots⟩⟩
    rw [Descriptor.dimensions_arrayOf, hflat x hx]
    exact Nat.le_trans hn ha
  · intro d hd
    rcases d.component_cases with hsame | ⟨-, hdeeper⟩
    · rw [hsame]
      exact hd
    · omega

end ClassPath

end SymbolicDex
