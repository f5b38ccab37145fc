import SymbolicDex.Proofs.Hierarchy.CommonSupertypes
import SymbolicDex.Proofs.RegisterType.CategoryLattice
import SymbolicDex.RegisterType.Merge

/- Whether it matters which of two types comes first when they are merged. Every
   case of a common supertype treats both sides alike but one: of two interfaces
   the first is asked for among those of the second, never the other way round. So
   the answer depends on the side for two interfaces one of which extends the other,
   and for two that are unrelated if something is missing above only one of them.

   What is proved:
     1. `commonAncestor_comm`: the least common class is symmetric.
     2. `commonOfClasses_symm_iff`, `commonSuperclass_symm_iff`: which common
        supertypes are.
     3. `opposed_iff`: what it takes of the declarations.
     4. `merge_symm_iff`: which merges are symmetric. -/
namespace SymbolicDex

namespace ClassPath

variable (p : ClassPath)

/-- Neither implements the other, or it is left open for both. -/
def Undecided (m : Memo) (i j : Descriptor) : Prop :=
  (((p.implements i j).run m).1 = .ok false ∧ ((p.implements j i).run m).1 = .ok false) ∨
    (∃ e, ((p.implements i j).run m).1 = .error e) ∧ ∃ e, ((p.implements j i).run m).1 = .error e

/-- Two interfaces that are told apart by their order. -/
structure Opposed (m : Memo) (i j : Descriptor) : Prop where
  ne : i ≠ j
  notObject : i ≠ Descriptor.object ∧ j ≠ Descriptor.object
  interfaces : p.isInterface i = .ok true ∧ p.isInterface j = .ok true
  decided : ¬ p.Undecided m i j

/-- Opposed interfaces, or arrays of such under the same dimensions. -/
def Torn (m : Memo) (a b : Descriptor) : Prop :=
  p.Opposed m a b ∨
    (a.isArray = true ∧ b.isArray = true) ∧ a.dimensions = b.dimensions ∧
      (a.element.isReference = true ∧ b.element.isReference = true) ∧
      p.Opposed m a.element b.element

variable {p} {m : Memo} {a b d i j : Descriptor}

/-! ## The least common class -/

theorem lastShared_comm (as bs : List Descriptor) : lastShared as bs = lastShared bs as := by
  induction as generalizing bs with
  | nil => cases bs <;> rfl
  | cons a as ih =>
    cases bs with
    | nil => rfl
    | cons b bs =>
      simp only [lastShared, ih bs]
      cases lastShared bs as with
      | some d => rfl
      | none =>
        by_cases hab : a = b
        · simp [hab]
        · simp [hab, Ne.symm hab]

theorem commonAncestor_comm (a b : Descriptor) : p.commonAncestor a b = p.commonAncestor b a := by
  simp only [commonAncestor, lastShared_comm]

theorem exists_of_isInterface (h : p.isInterface d = .ok true) :
    ∃ c, p.classDefinition d = .ok c ∧ c.isInterface = true := by
  simp only [isInterface] at h
  split at h
  · next c hshape => exact ⟨c, classDefinition_ok_iff.2 hshape, Except.ok.inj h⟩
  · cases h
  · cases h

theorem namesClass_of_isInterface (h : p.isInterface d = .ok true) : d.NamesClass := by
  obtain ⟨c, hc, -⟩ := exists_of_isInterface h
  exact namesClass_of_classDefinition hc

/-! ## Common supertypes -/

theorem commonWithInterface_run :
    ((p.commonWithInterface i d).run m).1 =
      match ((p.implements d i).run m).1 with
      | .ok true => i
      | .ok false => Descriptor.object
      | .error _ => Descriptor.unknown := by
  simp only [commonWithInterface, Query.run_bind]
  rcases ((p.implements d i).run m).1 with e | _ | _ <;> rfl

theorem commonWithInterface_symm_iff (hij : i ≠ j)
    (hobject : i ≠ Descriptor.object ∧ j ≠ Descriptor.object) (hi : i ≠ Descriptor.unknown)
    (hj : j ≠ Descriptor.unknown) :
    ((p.commonWithInterface i j).run m).1 = ((p.commonWithInterface j i).run m).1 ↔
      p.Undecided m i j := by
  have hknown : Descriptor.object ≠ Descriptor.unknown := by decide
  rw [commonWithInterface_run, commonWithInterface_run, Undecided]
  rcases ((p.implements i j).run m).1 with e | _ | _ <;>
    rcases ((p.implements j i).run m).1 with e' | _ | _ <;>
    simp [hij, hobject, hobject.2.symm, hi, hj.symm, hknown, hknown.symm]

theorem commonOfClasses_symm_iff :
    ((p.commonOfClasses a b).run m).1 = ((p.commonOfClasses b a).run m).1 ↔ ¬ p.Opposed m a b := by
  by_cases hab : a = b
  · subst hab
    simp only [true_iff]
    exact fun h => h.ne rfl
  by_cases hobject : a = Descriptor.object ∨ b = Descriptor.object
  · have hpure : ((p.commonOfClasses a b).run m).1 = ((p.commonOfClasses b a).run m).1 := by
      simp only [commonOfClasses, hab, Ne.symm hab, hobject, hobject.symm, if_true, if_false]
    refine iff_of_true hpure fun h => ?_
    exact hobject.elim h.notObject.1 h.notObject.2
  · simp only [commonOfClasses, hab, Ne.symm hab, hobject, mt Or.symm hobject, if_false]
    obtain ⟨ha, hb⟩ := not_or.1 hobject
    -- only if both are interfaces does each order ask another question
    by_cases hboth : p.isInterface a = .ok true ∧ p.isInterface b = .ok true
    · have hsymm := commonWithInterface_symm_iff (p := p) (m := m) hab ⟨ha, hb⟩
        (namesClass_of_isInterface hboth.1).1 (namesClass_of_isInterface hboth.2).1
      rw [hboth.1, hboth.2]
      refine hsymm.trans ⟨fun h hopposed => hopposed.decided h, fun h => ?_⟩
      by_contra hundecided
      exact h ⟨hab, ⟨ha, hb⟩, hboth, hundecided⟩
    · refine iff_of_true ?_ fun h => hboth h.interfaces
      rcases hia : p.isInterface a with e | _ | _ <;> rcases hib : p.isInterface b with e' | _ | _
      case ok.false.ok.false => exact commonAncestor_comm a b
      case ok.true.ok.true => exact absurd ⟨hia, hib⟩ hboth
      all_goals rfl

theorem commonOfArrays_symm_iff (ha : a.isArray = true) :
    ((p.commonOfArrays a b).run m).1 = ((p.commonOfArrays b a).run m).1 ↔
      ¬ (a.dimensions = b.dimensions ∧ (a.element.isReference = true ∧ b.element.isReference = true) ∧
        p.Opposed m a.element b.element) := by
  by_cases hsame : a.dimensions = b.dimensions ∧ a.element.isReference = true ∧
      b.element.isReference = true
  · obtain ⟨hdims, hra, hrb⟩ := hsame
    obtain ⟨n, hn⟩ : ∃ n, a.dimensions = n + 1 :=
      ⟨a.dimensions - 1, by have := Descriptor.dimensions_pos_of_isArray ha; omega⟩
    have hknown (d : Descriptor) : Descriptor.arrayOf (n + 1) d ≠ Descriptor.unknown := fun h => by
      have harray := Descriptor.isArray_arrayOf_succ n d
      rw [h] at harray
      cases harray
    simp only [commonOfArrays, ← hdims, hra, hrb, and_true, if_true, Query.run_bind, hn, true_and,
      Query.run_pure]
    rw [← commonOfClasses_symm_iff]
    generalize ((p.commonOfClasses a.element b.element).run m).1 = r
    generalize ((p.commonOfClasses b.element a.element).run m).1 = r'
    by_cases hr : r = Descriptor.unknown <;> by_cases hr' : r' = Descriptor.unknown
    · simp [hr, hr']
    · simp [hr, hr', (hknown r').symm, Ne.symm hr']
    · simp [hr, hr', hknown r]
    · simp only [hr, hr', if_false]
      exact ⟨Descriptor.arrayOf_inj, fun h => h ▸ rfl⟩
  · have hsame' : ¬ (b.dimensions = a.dimensions ∧ b.element.isReference = true ∧
        a.element.isReference = true) := by
      rintro ⟨hdims, hrb, hra⟩
      exact hsame ⟨hdims.symm, hra, hrb⟩
    simp only [commonOfArrays, hsame, hsame', if_false]
    refine iff_of_true ?_ fun h => hsame ⟨h.1, h.2.1⟩
    rw [Nat.min_comm]

theorem not_torn_self : ¬ p.Torn m a a := by
  rintro (h | ⟨-, -, -, h⟩)
  · exact h.ne rfl
  · exact h.ne rfl

/-- What is torn are two classes by name, or two arrays. -/
theorem Torn.kinds (h : p.Torn m a b) :
    a.NamesClass ∧ b.NamesClass ∨ a.isArray = true ∧ b.isArray = true := by
  rcases h with h | ⟨harrays, -⟩
  · exact .inl ⟨namesClass_of_isInterface h.interfaces.1, namesClass_of_isInterface h.interfaces.2⟩
  · exact .inr harrays

theorem torn_iff_opposed (ha : a.isArray = false) : p.Torn m a b ↔ p.Opposed m a b := by
  simp [Torn, ha]

theorem commonSuperclass_symm_iff :
    ((p.commonSuperclass a b).run m).1 = ((p.commonSuperclass b a).run m).1 ↔ ¬ p.Torn m a b := by
  by_cases hab : a = b
  · subst hab
    exact iff_of_true rfl not_torn_self
  by_cases hunknown : a = Descriptor.unknown ∨ b = Descriptor.unknown
  · have hsame : ((p.commonSuperclass a b).run m).1 = ((p.commonSuperclass b a).run m).1 := by
      simp only [commonSuperclass, hab, Ne.symm hab, hunknown, hunknown.symm, if_true, if_false,
        or_comm]
    refine iff_of_true hsame fun h => ?_
    rcases h.kinds with ⟨ha, hb⟩ | ⟨ha, hb⟩
    · exact hunknown.elim ha.1 hb.1
    · rcases hunknown with rfl | rfl
      · cases ha
      · cases hb
  simp only [commonSuperclass, hab, Ne.symm hab, hunknown, mt Or.symm hunknown, if_false]
  cases ha : a.isArray <;> cases hb : b.isArray
  · exact commonOfClasses_symm_iff.trans (torn_iff_opposed ha).not.symm
  · refine iff_of_true rfl fun h => ?_
    rcases h.kinds with ⟨-, hclass⟩ | ⟨harray, -⟩
    · simp [hclass.2] at hb
    · simp [harray] at ha
  · refine iff_of_true rfl fun h => ?_
    rcases h.kinds with ⟨hclass, -⟩ | ⟨-, harray⟩
    · simp [hclass.2] at ha
    · simp [harray] at hb
  · refine (commonOfArrays_symm_iff ha).trans (not_congr ?_)
    refine ⟨fun h => .inr ⟨⟨ha, hb⟩, h⟩, fun h => ?_⟩
    rcases h with h | ⟨-, h⟩
    · simp [(namesClass_of_isInterface h.interfaces.1).2] at ha
    · exact h

/-! ## Declarations -/

/-- An interface that is defined is had by whatever it is above. -/
theorem offers_iff_reaches (hi : p.isInterface i = .ok true) : p.Offers d i ↔ p.Reaches d i := by
  obtain ⟨c, hc, hflag⟩ := exists_of_isInterface hi
  exact ⟨Offers.reaches, fun h => .inr ⟨h, c, definition?_of_classDefinition hc, hflag⟩⟩

theorem defined_of_isInterface (hi : p.isInterface i = .ok true) : p.Defined i := by
  obtain ⟨c, hc, -⟩ := exists_of_isInterface hi
  exact ⟨c, definition?_of_classDefinition hc⟩

/-- Where nothing is circular, two interfaces are opposed if one is above the other,
    or if something is missing above just one of them. -/
theorem opposed_iff (history : List (Facet × Descriptor))
    (hacyclic : ∀ d, ¬ Relation.TransGen p.Declares d d)
    (hnames : ∀ d s, p.Declares d s → d.NamesClass ∧ s.NamesClass) :
    p.Opposed (p.memoAfter history) i j ↔
      i ≠ j ∧ (i ≠ Descriptor.object ∧ j ≠ Descriptor.object) ∧
        (p.isInterface i = .ok true ∧ p.isInterface j = .ok true) ∧
        (p.Reaches i j ∨ p.Reaches j i ∨ ¬ (p.Whole i ↔ p.Whole j)) := by
  have hdecided (hi : p.isInterface i = .ok true) (hj : p.isInterface j = .ok true) :
      ¬ p.Undecided (p.memoAfter history) i j ↔
        (p.Reaches i j ∨ p.Reaches j i ∨ ¬ (p.Whole i ↔ p.Whole j)) := by
    have hij := (lists_after hacyclic hnames history (namesClass_of_isInterface hi)).implements
      (i := j)
    have hji := (lists_after hacyclic hnames history (namesClass_of_isInterface hj)).implements
      (i := i)
    rw [Undecided, hij.2.1, hij.2.2, hji.2.1, hji.2.2, offers_iff_reaches hi, offers_iff_reaches hj]
    simp only [defined_of_isInterface hi, defined_of_isInterface hj, not_true_eq_false, and_false,
      false_or]
    by_cases hij : p.Reaches i j <;> by_cases hji : p.Reaches j i <;>
      by_cases hwi : p.Whole i <;> by_cases hwj : p.Whole j <;> simp [hij, hji, hwi, hwj]
  constructor
  · intro h
    exact ⟨h.ne, h.notObject, h.interfaces, (hdecided h.interfaces.1 h.interfaces.2).1 h.decided⟩
  · rintro ⟨hne, hobject, hinterfaces, hreaches⟩
    exact ⟨hne, hobject, hinterfaces, (hdecided hinterfaces.1 hinterfaces.2).2 hreaches⟩

end ClassPath

/-! ## Register types -/

namespace RegisterType

variable {p : ClassPath} {m : Memo} {a b : RegisterType}

theorem mergeClass_symm_iff :
    ((mergeClass p a b).run m).1 = ((mergeClass p b a).run m).1 ↔
      ∀ c d, a.cls = some c → b.cls = some d → ¬ p.Torn m c d := by
  simp only [mergeClass]
  cases ha : a.cls with
  | none =>
    cases hb : b.cls with
    | none => simp
    | some d => simp
  | some c =>
    cases hb : b.cls with
    | none => simp
    | some d =>
      rw [Query.run_bind, Query.run_bind, Query.run_pure, Query.run_pure]
      simp [ClassPath.commonSuperclass_symm_iff]

/-- Merging is symmetric but for two unknown types with different classes, and for
    two that merge to a reference and have torn classes. -/
theorem merge_symm :
    ((merge p a b).run m).1 = ((merge p b a).run m).1 ↔
      (a.category = .unknown → b.category = .unknown → a = b) ∧
      (a.category ≠ .unknown → b.category ≠ .unknown → a.category.join b.category = .reference →
        ∀ c d, a.cls = some c → b.cls = some d → ¬ p.Torn m c d) := by
  by_cases hab : a = b
  · subst hab
    refine iff_of_true rfl ⟨fun _ _ => rfl, fun _ _ _ c d hc hd => ?_⟩
    cases hc.symm.trans hd
    exact ClassPath.commonSuperclass_symm_iff.1 rfl
  by_cases hb : b.category = .unknown <;> by_cases ha : a.category = .unknown
  · simp only [merge, ha, hb, or_true, if_true, Query.run_pure]
    simp
  · simp [merge, hab, Ne.symm hab, ha, hb]
  · simp [merge, hab, Ne.symm hab, ha, hb]
  · simp only [merge, hab, Ne.symm hab, ha, hb, or_self, if_false, Category.join_comm b.category]
    cases hjoin : a.category.join b.category
    case reference =>
      simp only [Query.run_bind, Query.run_pure]
      simp [← mergeClass_symm_iff, ha, hb]
    all_goals simp

/-- Two types merge to the same in either order unless both are unknown and differ, or
    their classes are torn. Where nothing is circular, two interfaces are opposed if
    one is above the other, or if something is missing above just one of them. -/
theorem merge_symm_iff (p : ClassPath) (history : List (Facet × Descriptor)) :
    let m := p.memoAfter history
    (∀ c d, ((p.commonSuperclass c d).run m).1 = ((p.commonSuperclass d c).run m).1 ↔
      ¬ p.Torn m c d) ∧
    (∀ a b, ((merge p a b).run m).1 = ((merge p b a).run m).1 ↔
      (a.category = .unknown → b.category = .unknown → a = b) ∧
      (a.category ≠ .unknown → b.category ≠ .unknown → a.category.join b.category = .reference →
        ∀ c d, a.cls = some c → b.cls = some d → ¬ p.Torn m c d)) ∧
    ((∀ d, ¬ Relation.TransGen p.Declares d d) →
      (∀ d s, p.Declares d s → d.NamesClass ∧ s.NamesClass) →
      ∀ i j, p.Opposed m i j ↔
        i ≠ j ∧ (i ≠ Descriptor.object ∧ j ≠ Descriptor.object) ∧
          (p.isInterface i = .ok true ∧ p.isInterface j = .ok true) ∧
          (p.Reaches i j ∨ p.Reaches j i ∨ ¬ (p.Whole i ↔ p.Whole j))) := by
  intro m
  refine ⟨fun c d => ClassPath.commonSuperclass_symm_iff, fun a b => merge_symm, ?_⟩
  exact fun hacyclic hnames i j => ClassPath.opposed_iff history hacyclic hnames

end RegisterType

/-! ## An interface and one that extends it -/

namespace Sample

def lineReader : ClassDef := { named "Lq/Reader;" none 513 [] [] with interfaces := ["Lq/Source;"] }

def sources : ClassPath := pathOf [named "Lq/Source;" none 513 [] [], lineReader]

def sourcesRank (d : Descriptor) : Nat := if d = "Lq/Reader;" then 1 else 0

theorem sources_acyclic (d : Descriptor) : ¬ Relation.TransGen sources.Declares d d :=
  ClassPath.not_declares_self sourcesRank (by decide +kernel) d

end Sample

open Sample in
theorem source_and_reader_opposed :
    sources.Opposed (sources.memoAfter []) "Lq/Source;" "Lq/Reader;" := by
  have hnames : ∀ d s, sources.Declares d s → d.NamesClass ∧ s.NamesClass :=
    ClassPath.forall_declares (R := fun d s => d.NamesClass ∧ s.NamesClass) (by decide +kernel)
  refine ((RegisterType.merge_symm_iff sources []).2.2 sources_acyclic hnames _ _).2
    ⟨by decide, by decide, by decide +kernel, .inr (.inl (.single ?_))⟩
  exact ⟨lineReader, by decide +kernel, by decide⟩

open Sample in
/-- Nothing is circular, and still the order decides. -/
theorem source_and_reader_merge :
    (∀ d, ¬ Relation.TransGen sources.Declares d d) ∧
    ((RegisterType.merge sources (.reference "Lq/Source;") (.reference "Lq/Reader;")).run
      (sources.memoAfter [])).1 = .reference "Lq/Source;" ∧
    ((RegisterType.merge sources (.reference "Lq/Reader;") (.reference "Lq/Source;")).run
      (sources.memoAfter [])).1 = .reference Descriptor.object ∧
    ((sources.commonSuperclass "Lq/Source;" "Lq/Reader;").run (sources.memoAfter [])).1 ≠
      ((sources.commonSuperclass "Lq/Reader;" "Lq/Source;").run (sources.memoAfter [])).1 :=
  ⟨sources_acyclic, by decide +kernel, by decide +kernel, by decide +kernel⟩

end SymbolicDex
