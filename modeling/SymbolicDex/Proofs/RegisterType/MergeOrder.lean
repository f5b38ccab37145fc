import SymbolicDex.Proofs.Hierarchy.TypeOrder
import SymbolicDex.Proofs.RegisterType.CategoryLattice
import SymbolicDex.RegisterType.Merge

/- The order that register types are merged in. A type is below another if its
   category is and, for references, its class is; merging gives the least upper
   bound of two types. What many types merge to is therefore settled by which types
   they are, and neither their order nor their number has a part in it.

   What is proved:
     1. `Under.trans`, `Under.antisymm`: register types are ordered.
     2. `mergeClass_under_iff`, `merge_under_iff`: merging gives least upper bounds.
     3. `foldlM_merge_bounds`: so does merging one after the other.
     4. `merge_order_irrelevant`: the same types in any order, repeated or not, merge
        to the same. -/
namespace SymbolicDex

/-! ## Categories -/

namespace Category

/-- Values that are kept apart by their class until they are initialized. -/
def IsUninit (c : Category) : Prop := c = .uninitRef ∨ c = .uninitThis

variable {a c : Category}

theorem eq_unknown_of_narrower (h : c.narrowerOrEqual .unknown = true) : c = .unknown := by
  revert h
  cases c <;> decide

theorem narrower_of_unknown (h : a = .unknown) : a.narrowerOrEqual c = true := by
  simp [narrowerOrEqual, h]

theorem narrower_of_conflict (h : c = .conflict) : a.narrowerOrEqual c = true := by
  simp [narrowerOrEqual, h]

theorem eq_conflict_of_narrower (h : Category.conflict.narrowerOrEqual c = true) :
    c = .conflict := by
  revert h
  cases c <;> decide

theorem narrower_null (h : c.narrowerOrEqual .null = true) : c = .unknown ∨ c = .null := by
  revert h
  cases c <;> decide

theorem narrower_reference (h : c.narrowerOrEqual .reference = true) :
    c = .unknown ∨ c = .null ∨ c = .reference := by
  revert h
  cases c <;> decide

theorem narrower_uninit (hc : c.IsUninit) (h : a.narrowerOrEqual c = true) :
    a = .unknown ∨ a = c := by
  revert h
  rcases hc with rfl | rfl <;> cases a <;> decide

theorem uninit_narrower (ha : a.IsUninit) (h : a.narrowerOrEqual c = true) :
    c = a ∨ c = .conflict := by
  revert h
  rcases ha with rfl | rfl <;> cases c <;> decide

end Category

namespace RegisterType

/-- Types as they are made: references have a class with the property or none,
    uninitialized values any class or none, and nothing else has one. -/
inductive Built (R : Descriptor → Prop) : RegisterType → Prop where
  | ofCategory (c : Category) : Built R (ofCategory c)
  | reference {d : Descriptor} (h : R d) : Built R (reference d)
  | uninit {c : Category} (h : c.IsUninit) (d : Descriptor) : Built R ⟨c, some d⟩

/-- The order of classes; no class is above every one. -/
def ClassUnder (p : ClassPath) (c d : Option Descriptor) : Prop :=
  d = none ∨ ∃ x y, c = some x ∧ d = some y ∧ p.Within x y

/-- The order of register types. -/
structure Under (p : ClassPath) (t u : RegisterType) : Prop where
  category : t.category.narrowerOrEqual u.category = true
  cls : t.category ≠ .unknown → u.category = .reference →
    t.category = .null ∨ ClassUnder p t.cls u.cls
  same : t.category ≠ .unknown → u.category.IsUninit → t.cls = u.cls

attribute [ext] RegisterType

variable {p : ClassPath} {m : Memo} {R : Descriptor → Prop} {a b t u v : RegisterType}

/-! ## The order -/

theorem under_of_unknown (h : t.category = .unknown) : Under p t u :=
  ⟨Category.narrower_of_unknown h, fun hne => absurd h hne, fun hne => absurd h hne⟩

theorem under_of_conflict (h : u.category = .conflict) : Under p t u := by
  refine ⟨Category.narrower_of_conflict h, fun _ hu => ?_, fun _ hu => ?_⟩
  · rw [h] at hu
    cases hu
  · rw [h] at hu
    rcases hu with hu | hu <;> cases hu

theorem ClassUnder.trans {c d e : Option Descriptor} (hcd : ClassUnder p c d)
    (hde : ClassUnder p d e) : ClassUnder p c e := by
  rcases hde with rfl | ⟨y, z, rfl, rfl, hyz⟩
  · exact .inl rfl
  · rcases hcd with hcd | ⟨x, y', rfl, hy, hxy⟩
    · cases hcd
    · cases hy
      exact .inr ⟨x, z, rfl, rfl, hxy.trans hyz⟩

theorem ClassUnder.antisymm {c d : Option Descriptor} (hcd : ClassUnder p c d)
    (hdc : ClassUnder p d c) : c = d := by
  rcases hcd with rfl | ⟨x, y, rfl, rfl, hxy⟩
  · rcases hdc with hc | ⟨_, _, h, -⟩
    · exact hc
    · cases h
  · rcases hdc with h | ⟨y', x', hy, hx, hyx⟩
    · cases h
    · cases hy
      cases hx
      rw [hxy.antisymm hyx]

theorem classUnder_none_iff {d : Option Descriptor} : ClassUnder p none d ↔ d = none := by
  simp [ClassUnder]

theorem classUnder_some_iff {x : Descriptor} {d : Option Descriptor} :
    ClassUnder p (some x) d ↔ ∀ y, d = some y → p.Within x y := by
  cases d <;> simp [ClassUnder]

theorem Under.refl (t : RegisterType) : Under p t t := by
  refine ⟨Category.narrower_refl _, fun _ _ => .inr ?_, fun _ _ => rfl⟩
  cases hcls : t.cls with
  | none => exact .inl rfl
  | some d => exact .inr ⟨d, d, rfl, rfl, .refl d⟩

theorem Under.trans (htu : Under p t u) (huv : Under p u v) : Under p t v := by
  have hknown (ht : t.category ≠ .unknown) : u.category ≠ .unknown := by
    intro hu
    exact ht (Category.eq_unknown_of_narrower (hu ▸ htu.category))
  refine ⟨Category.narrower_trans htu.category huv.category, fun ht hv => ?_, fun ht hv => ?_⟩
  · rcases Category.narrower_reference (hv ▸ huv.category) with h | h | h
    · exact absurd h (hknown ht)
    · exact .inl ((Category.narrower_null (h ▸ htu.category)).resolve_left ht)
    · have hclass := (huv.cls (hknown ht) hv).resolve_left (by simp [h])
      exact (htu.cls ht h).imp_right fun hc => hc.trans hclass
  · have hsame := (Category.narrower_uninit hv huv.category).resolve_left (hknown ht)
    exact (htu.same ht (hsame ▸ hv)).trans (huv.same (hknown ht) hv)

/-- Nothing but references and uninitialized values has a class. -/
theorem Built.cls_eq_none (h : Built R t) (href : t.category ≠ .reference)
    (huninit : ¬ t.category.IsUninit) : t.cls = none := by
  cases h with
  | ofCategory c => rfl
  | reference => exact absurd rfl href
  | uninit h => exact absurd h huninit

/-- Null has no class, and that of a reference has the property. -/
theorem Built.reference_of_cls {d : Descriptor} (h : Built R t) (hd : t.cls = some d)
    (hc : t.category = .null ∨ t.category = .reference) : t.category = .reference ∧ R d := by
  cases h with
  | ofCategory => cases hd
  | reference h =>
    cases hd
    exact ⟨rfl, h⟩
  | uninit h => rcases h with rfl | rfl <;> simp at hc

theorem Under.antisymm (ht : Built R t) (hu : Built R u) (htu : Under p t u) (hut : Under p u t) :
    t = u := by
  have hcategory := Category.narrower_antisymm htu.category hut.category
  have hcls : t.cls = u.cls := by
    by_cases href : t.category = .reference
    · have hclass := (htu.cls (by simp [href]) (hcategory ▸ href)).resolve_left (by simp [href])
      have hclass' := (hut.cls (by simp [← hcategory, href]) href).resolve_left
        (by simp [← hcategory, href])
      exact hclass.antisymm hclass'
    · by_cases huninit : t.category.IsUninit
      · refine htu.same (fun h => ?_) (hcategory ▸ huninit)
        rw [h] at huninit
        rcases huninit with h | h <;> cases h
      · rw [ht.cls_eq_none href huninit, hu.cls_eq_none (hcategory ▸ href) (hcategory ▸ huninit)]
  exact RegisterType.ext hcategory hcls

/-! ## Merging two types -/

/-- What merging does, case by case. -/
theorem merge_cases (p : ClassPath) (m : Memo) (a b : RegisterType) :
    (((merge p a b).run m).1 = a ∧ (a = b ∨ b.category = .unknown)) ∨
    (((merge p a b).run m).1 = b ∧ a.category = .unknown) ∨
    (a ≠ b ∧ a.category ≠ .unknown ∧ b.category ≠ .unknown) ∧
      ((a.category.join b.category = .reference ∧
          ((merge p a b).run m).1 = ⟨.reference, ((mergeClass p a b).run m).1⟩) ∨
        ((a.category.join b.category).IsUninit ∧ ((merge p a b).run m).1 = conflict) ∨
        (a.category.join b.category ≠ .reference ∧ ¬ (a.category.join b.category).IsUninit ∧
          ((merge p a b).run m).1 = ofCategory (a.category.join b.category))) := by
  simp only [merge]
  split
  · next h => exact .inl ⟨rfl, h⟩
  · next h =>
    obtain ⟨hab, hb⟩ := not_or.1 h
    split
    · next ha => exact .inr (.inl ⟨rfl, ha⟩)
    · next ha =>
      refine .inr (.inr ⟨⟨hab, ha, hb⟩, ?_⟩)
      split
      · next hjoin => exact .inl ⟨hjoin, rfl⟩
      · next hjoin => exact .inr (.inl ⟨.inl hjoin, rfl⟩)
      · next hjoin => exact .inr (.inl ⟨.inr hjoin, rfl⟩)
      · next href hinit hthis =>
        exact .inr (.inr ⟨href, fun h => h.elim hinit hthis, rfl⟩)

/-- The category of what merges to a reference. -/
theorem null_or_reference (hjoin : a.category.join b.category = .reference)
    (ha : a.category ≠ .unknown) (hb : b.category ≠ .unknown) :
    (a.category = .null ∨ a.category = .reference) ∧
      (b.category = .null ∨ b.category = .reference) ∧
      ¬ (a.category = .null ∧ b.category = .null) := by
  have hleft := Category.narrower_join_left a.category b.category
  have hright := Category.narrower_join_right a.category b.category
  rw [hjoin] at hleft hright
  refine ⟨(Category.narrower_reference hleft).resolve_left ha,
    (Category.narrower_reference hright).resolve_left hb, fun ⟨hna, hnb⟩ => ?_⟩
  rw [hna, hnb] at hjoin
  revert hjoin
  decide

/-- The class of two references, or of one and null, is the least upper bound. -/
theorem mergeClass_under_iff (ha : Built p.Regular a) (hb : Built p.Regular b)
    (hca : a.category = .null ∨ a.category = .reference)
    (hcb : b.category = .null ∨ b.category = .reference)
    (hone : ¬ (a.category = .null ∧ b.category = .null)) :
    (∀ d, ((mergeClass p a b).run m).1 = some d → p.Regular d) ∧
    ∀ k, ClassUnder p ((mergeClass p a b).run m).1 k ↔
      (a.category = .null ∨ ClassUnder p a.cls k) ∧ (b.category = .null ∨ ClassUnder p b.cls k) := by
  simp only [mergeClass]
  cases hda : a.cls with
  | none =>
    cases hdb : b.cls with
    | none =>
      simp only [Query.run_pure, classUnder_none_iff]
      refine ⟨nofun, fun k => ?_⟩
      rcases hca with hca | hca <;> rcases hcb with hcb | hcb <;> simp_all
    | some d =>
      obtain ⟨hcb, hd⟩ := hb.reference_of_cls hdb hcb
      rcases hca with hca | hca
      · simp only [hca, hcb, if_true, Query.run_pure, Option.some.injEq, forall_eq', reduceCtorEq,
          true_or, false_or, true_and]
        exact ⟨hd, fun k => trivial⟩
      · simp only [hca, hcb, if_false, Query.run_pure, reduceCtorEq, false_or, classUnder_none_iff]
        exact ⟨nofun, fun k => (and_iff_left_of_imp .inl).symm⟩
  | some c =>
    obtain ⟨hca, hc⟩ := ha.reference_of_cls hda hca
    cases hdb : b.cls with
    | none =>
      rcases hcb with hcb | hcb
      · simp only [hca, hcb, if_true, Query.run_pure, Option.some.injEq, forall_eq', reduceCtorEq,
          true_or, false_or, and_true]
        exact ⟨hc, fun k => trivial⟩
      · simp only [hca, hcb, if_false, Query.run_pure, reduceCtorEq, false_or, classUnder_none_iff]
        exact ⟨nofun, fun k => (and_iff_right_of_imp .inl).symm⟩
    | some d =>
      obtain ⟨hcb, hd⟩ := hb.reference_of_cls hdb hcb
      have hjoins := ClassPath.commonSuperclass_joins (m := m) hc hd
      simp only [Query.run_bind, Query.run_pure, Option.some.injEq, forall_eq', hca, hcb,
        reduceCtorEq, false_or, classUnder_some_iff]
      refine ⟨hjoins.regular, fun k => ?_⟩
      simp only [hjoins.within, forall_and]

theorem merge_built (ha : Built p.Regular a) (hb : Built p.Regular b) :
    Built p.Regular ((merge p a b).run m).1 := by
  rcases merge_cases p m a b with ⟨hr, -⟩ | ⟨hr, -⟩ | ⟨⟨-, hka, hkb⟩, h⟩
  · rwa [hr]
  · rwa [hr]
  · rcases h with ⟨hjoin, hr⟩ | ⟨-, hr⟩ | ⟨-, -, hr⟩
    · obtain ⟨hca, hcb, hone⟩ := null_or_reference hjoin hka hkb
      obtain ⟨hregular, -⟩ := mergeClass_under_iff (m := m) ha hb hca hcb hone
      rw [hr]
      cases hclass : ((mergeClass p a b).run m).1 with
      | none => exact .ofCategory .reference
      | some d => exact .reference (hregular d hclass)
    · rw [hr]
      exact .ofCategory .conflict
    · rw [hr]
      exact .ofCategory _

theorem reference_under_iff (ha : Built p.Regular a) (hb : Built p.Regular b)
    (hka : a.category ≠ .unknown) (hkb : b.category ≠ .unknown)
    (hjoin : a.category.join b.category = .reference) :
    Under p ⟨.reference, ((mergeClass p a b).run m).1⟩ u ↔ Under p a u ∧ Under p b u := by
  obtain ⟨hca, hcb, hone⟩ := null_or_reference hjoin hka hkb
  obtain ⟨-, hclass⟩ := mergeClass_under_iff (m := m) ha hb hca hcb hone
  have hcategory := Category.join_narrower_iff (a := a.category) (b := b.category) (c := u.category)
  rw [hjoin] at hcategory
  have hinit {c : Category} (hc : c = .null ∨ c = .reference) (hu : u.category.IsUninit) :
      c.narrowerOrEqual u.category ≠ true := by
    rcases hc with rfl | rfl <;> rcases hu with hu | hu <;> rw [hu] <;> decide
  constructor
  · intro h
    obtain ⟨hau, hbu⟩ := hcategory.1 h.category
    have hboth (hu : u.category = .reference) :=
      (hclass _).1 ((h.cls nofun hu).resolve_left nofun)
    exact ⟨⟨hau, fun _ hu => (hboth hu).1, fun _ hu => absurd hau (hinit hca hu)⟩,
      ⟨hbu, fun _ hu => (hboth hu).2, fun _ hu => absurd hbu (hinit hcb hu)⟩⟩
  · rintro ⟨hau, hbu⟩
    refine ⟨hcategory.2 ⟨hau.category, hbu.category⟩, fun _ hu => .inr ?_, fun _ hu => ?_⟩
    · exact (hclass _).2 ⟨hau.cls hka hu, hbu.cls hkb hu⟩
    · exact absurd hau.category (hinit hca hu)

/-- Different uninitialized values have nothing but a conflict above them. -/
theorem conflict_under_iff (hab : a ≠ b) (hka : a.category ≠ .unknown)
    (hkb : b.category ≠ .unknown) (hinit : (a.category.join b.category).IsUninit) :
    Under p conflict u ↔ Under p a u ∧ Under p b u := by
  have ha := (Category.narrower_uninit hinit (Category.narrower_join_left _ _)).resolve_left hka
  have hb := (Category.narrower_uninit hinit (Category.narrower_join_right _ _)).resolve_left hkb
  constructor
  · intro h
    have hu := Category.eq_conflict_of_narrower h.category
    exact ⟨under_of_conflict hu, under_of_conflict hu⟩
  · rintro ⟨hau, hbu⟩
    rcases Category.uninit_narrower (ha ▸ hinit) hau.category with hu | hu
    · have hsame := (hau.same hka (hu ▸ ha ▸ hinit)).trans (hbu.same hkb (hu ▸ ha ▸ hinit)).symm
      exact absurd (RegisterType.ext (ha.trans hb.symm) hsame) hab
    · exact under_of_conflict hu

/-- Values without a class are bounded by their category alone. -/
theorem ofCategory_under_iff (hka : a.category ≠ .unknown) (hkb : b.category ≠ .unknown)
    (href : a.category.join b.category ≠ .reference)
    (hinit : ¬ (a.category.join b.category).IsUninit) :
    Under p (ofCategory (a.category.join b.category)) u ↔ Under p a u ∧ Under p b u := by
  have hleft := Category.narrower_join_left a.category b.category
  have hright := Category.narrower_join_right a.category b.category
  have hcategory := Category.join_narrower_iff (a := a.category) (b := b.category) (c := u.category)
  generalize a.category.join b.category = j at *
  have hj : j ≠ .unknown := fun h => hka (Category.eq_unknown_of_narrower (h ▸ hleft))
  -- below a reference there is only null, and below what is uninitialized nothing
  have hnull (h : j.narrowerOrEqual u.category = true) (hu : u.category = .reference) : j = .null :=
    ((Category.narrower_reference (hu ▸ h)).resolve_left hj).resolve_right href
  have huninit (h : j.narrowerOrEqual u.category = true) : ¬ u.category.IsUninit := fun hu =>
    hinit ((Category.narrower_uninit hu h).resolve_left hj ▸ hu)
  constructor
  · intro h
    have hbelow {t : RegisterType} (hkt : t.category ≠ .unknown)
        (ht : t.category.narrowerOrEqual j = true) : Under p t u := by
      refine ⟨Category.narrower_trans ht h.category, fun _ hu => .inl ?_, fun _ hu => ?_⟩
      · exact (Category.narrower_null (hnull h.category hu ▸ ht)).resolve_left hkt
      · exact absurd hu (huninit h.category)
    exact ⟨hbelow hka hleft, hbelow hkb hright⟩
  · rintro ⟨hau, hbu⟩
    have h := hcategory.2 ⟨hau.category, hbu.category⟩
    exact ⟨h, fun _ hu => .inl (hnull h hu), fun _ hu => absurd hu (huninit h)⟩

/-- Merging gives the least upper bound. -/
theorem merge_under_iff (ha : Built p.Regular a) (hb : Built p.Regular b) :
    Under p ((merge p a b).run m).1 u ↔ Under p a u ∧ Under p b u := by
  rcases merge_cases p m a b with ⟨hr, hsame⟩ | ⟨hr, hunknown⟩ | ⟨⟨hab, hka, hkb⟩, h⟩
  · rw [hr]
    refine ⟨fun h => ⟨h, ?_⟩, And.left⟩
    rcases hsame with rfl | hunknown
    · exact h
    · exact under_of_unknown hunknown
  · rw [hr]
    exact ⟨fun h => ⟨under_of_unknown hunknown, h⟩, And.right⟩
  · rcases h with ⟨hjoin, hr⟩ | ⟨huninit, hr⟩ | ⟨href, hinit, hr⟩
    · rw [hr]
      exact reference_under_iff ha hb hka hkb hjoin
    · rw [hr]
      exact conflict_under_iff hab hka hkb huninit
    · rw [hr]
      exact ofCategory_under_iff hka hkb href hinit

/-- Of two types one below the other, the upper one is what they merge to. -/
theorem merge_of_under (ha : Built p.Regular a) (hb : Built p.Regular b) (h : Under p a b) :
    ((merge p a b).run m).1 = b ∧ ((merge p b a).run m).1 = b := by
  constructor
  · exact Under.antisymm (merge_built ha hb) hb ((merge_under_iff ha hb).2 ⟨h, .refl b⟩)
      ((merge_under_iff ha hb).1 (.refl _)).2
  · exact Under.antisymm (merge_built hb ha) hb ((merge_under_iff hb ha).2 ⟨.refl b, h⟩)
      ((merge_under_iff hb ha).1 (.refl _)).1

/-! ## Merging many types -/

/-- What types merge to one after the other is their least upper bound. -/
theorem foldlM_merge_bounds {ts : List RegisterType} (h : ∀ x ∈ t :: ts, Built p.Regular x) :
    Built p.Regular ((ts.foldlM (merge p) t).run m).1 ∧
      ∀ u, Under p ((ts.foldlM (merge p) t).run m).1 u ↔ ∀ x ∈ t :: ts, Under p x u := by
  have hstep := Query.Gives.foldlM (I := fun _ => True) (f := merge p) (l := ts)
    (J := fun done acc => Built p.Regular acc ∧ ∀ u, Under p acc u ↔ ∀ x ∈ t :: done, Under p x u)
    (fun done x acc hx hacc m _ => by
      refine ⟨⟨merge_built hacc.1 (h x (List.mem_cons_of_mem _ hx)), fun u => ?_⟩, trivial⟩
      rw [merge_under_iff hacc.1 (h x (List.mem_cons_of_mem _ hx)), hacc.2, ← List.cons_append,
        List.forall_mem_append, List.forall_mem_singleton])
    [] t ⟨h t List.mem_cons_self, fun u => by simp⟩
  exact (hstep m trivial).1

end RegisterType

/-! ## Classes and arrays over classes -/

namespace ClassPath

variable (p : ClassPath)

/-- From `d` up, what a class with the name of a reference extends has such a name
    too. -/
def Tidy (d : Descriptor) : Prop :=
  ∀ x s, p.Up d x → p.Parent x s → x.isReference = true → s.isReference = true

/-- Ordinary classes, and arrays over them or over primitives. -/
inductive Plain : Descriptor → Prop where
  | cls {d : Descriptor} (h : p.Ordinary d) : Plain d
  | array {d : Descriptor} (n : Nat) (h : p.Ordinary d) (htidy : p.Tidy d) :
      Plain (Descriptor.arrayOf (n + 1) d)
  | primitives {d : Descriptor} (n : Nat) (h : d.isPrimitive = true) :
      Plain (Descriptor.arrayOf (n + 1) d)

variable {p} {d u : Descriptor}

theorem Tidy.isReference (h : p.Tidy d) (hd : d.isReference = true) (hu : p.Up d u) :
    u.isReference = true := by
  induction hu with
  | refl => exact hd
  | tail hx hs ih => exact h _ _ hx hs ih

theorem Plain.regular (h : p.Plain d) : p.Regular d := by
  cases h with
  | cls h =>
    have hclass := h.isClass.namesClass.2
    have helement := Descriptor.element_of_not_isArray hclass
    refine ⟨fun _ => .inr (helement.symm ▸ h), fun _ hpos => ?_⟩
    rw [Descriptor.dimensions_of_not_isArray hclass] at hpos
    exact absurd hpos (Nat.lt_irrefl 0)
  | @array d n h htidy =>
    have helement : (Descriptor.arrayOf (n + 1) d).element = d := by
      rw [Descriptor.element_arrayOf, Descriptor.element_of_not_isArray h.isClass.namesClass.2]
    refine ⟨fun _ => .inr (helement.symm ▸ h), fun hcovariant hpos u hu => ?_⟩
    have hd := hcovariant.resolve_left (Nat.ne_of_gt hpos)
    rw [helement] at hd hu
    rcases hu with rfl | ⟨-, hu⟩
    · decide
    · exact htidy.isReference hd hu
  | @primitives d n h =>
    -- arrays of primitives do not follow their elements
    have hnot : ¬ (Descriptor.arrayOf (n + 1) d).Covariant := by
      rintro (hdims | href)
      · rw [Descriptor.dimensions_arrayOf] at hdims
        omega
      · have hsimple : d.isArray = false := by
          by_contra harray
          have href := Descriptor.isReference_of_isArray (Bool.of_not_eq_false harray)
          simp [Descriptor.not_isPrimitive_of_isReference href] at h
        rw [Descriptor.element_arrayOf, Descriptor.element_of_not_isArray hsimple] at href
        simp [Descriptor.not_isPrimitive_of_isReference href] at h
    exact ⟨fun hc => absurd hc hnot, fun hc => absurd hc hnot⟩

theorem ordinary_of_complete {above : List Descriptor} (h : p.Complete d above)
    (hclasses : ∀ x ∈ d :: above, p.IsClass x) (hobject : Descriptor.object ∈ d :: above)
    (hroot : p.superclass Descriptor.object = .ok none) : p.Ordinary d :=
  ⟨fun x hx => hclasses x (h.mem_iff.2 hx), h.mem_iff.1 hobject, hroot⟩

theorem tidy_of_complete {above : List Descriptor} (h : p.Complete d above)
    (hrefs : ∀ x ∈ d :: above, x.isReference = true) : p.Tidy d :=
  fun _ s hx hs _ => hrefs s (h.mem_iff.2 (hx.tail hs))

end ClassPath

namespace RegisterType

theorem Built.mono {R R' : Descriptor → Prop} {t : RegisterType} (h : Built R t)
    (hR : ∀ d, R d → R' d) : Built R' t := by
  cases h with
  | ofCategory c => exact .ofCategory c
  | reference h => exact .reference (hR _ h)
  | uninit h d => exact .uninit h d

/-- Over ordinary classes types merge to the same in any order and however often each
    comes; unknown adds nothing, and a conflict stays one. -/
theorem merge_order_irrelevant (p : ClassPath) :
    (∀ t ts t' ts', (∀ x ∈ t :: ts, Built p.Plain x) → (∀ x, x ∈ t :: ts ↔ x ∈ t' :: ts') →
      ∀ m m' : Memo, ((ts.foldlM (merge p) t).run m).1 = ((ts'.foldlM (merge p) t').run m').1) ∧
    (∀ x, Built p.Plain x → ∀ m : Memo,
      (((merge p unknown x).run m).1 = x ∧ ((merge p x unknown).run m).1 = x) ∧
      ((merge p x conflict).run m).1 = conflict ∧ ((merge p conflict x).run m).1 = conflict) := by
  constructor
  · intro t ts t' ts' hbuilt hsame m m'
    have hregular : ∀ x ∈ t :: ts, Built p.Regular x := fun x hx =>
      (hbuilt x hx).mono fun _ => ClassPath.Plain.regular
    obtain ⟨hr, hbounds⟩ := foldlM_merge_bounds (m := m) hregular
    obtain ⟨hr', hbounds'⟩ := foldlM_merge_bounds (m := m') fun x hx => hregular x ((hsame x).2 hx)
    refine Under.antisymm (p := p) hr hr' ?_ ?_
    · rw [hbounds]
      intro x hx
      exact (hbounds' _).1 (.refl _) x ((hsame x).1 hx)
    · rw [hbounds']
      intro x hx
      exact (hbounds _).1 (.refl _) x ((hsame x).2 hx)
  · intro x hx m
    have hx := hx.mono fun _ => ClassPath.Plain.regular
    exact ⟨merge_of_under (.ofCategory .unknown) hx (under_of_unknown rfl),
      merge_of_under hx (.ofCategory .conflict) (under_of_conflict rfl)⟩

end RegisterType

/-! ## Arrays over tidy classes, and over others -/

open Sample in
theorem staff_in_any_order :
    (([.null, .reference "[Lq/Guard;"].foldlM (RegisterType.merge staff)
        (.reference "[Lq/Clerk;")).run (staff.memoAfter [])).1 =
      (([.reference "[Lq/Clerk;", .null, .reference "[Lq/Clerk;"].foldlM
        (RegisterType.merge staff) (.reference "[Lq/Guard;")).run (staff.memoAfter [])).1 := by
  have hplain (d array : Descriptor) (harray : array = Descriptor.arrayOf 1 d)
      (hd : staff.Parent d "Lq/Person;") (hclass : staff.IsClass d) (href : d.isReference = true) :
      RegisterType.Built staff.Plain (.reference array) := by
    have hcomplete : staff.Complete d ["Lq/Person;", Descriptor.object] :=
      .step hd (.step (by decide +kernel) (.root (by decide +kernel)))
    have hordinary := ClassPath.ordinary_of_complete hcomplete
      (List.forall_mem_cons.2 ⟨hclass, by decide +kernel⟩) (by simp) (by decide +kernel)
    have htidy := ClassPath.tidy_of_complete hcomplete
      (List.forall_mem_cons.2 ⟨href, by decide +kernel⟩)
    rw [harray]
    exact .reference (.array 0 hordinary htidy)
  have hclerk := hplain "Lq/Clerk;" "[Lq/Clerk;" (by decide +kernel) (by decide +kernel)
    (by decide +kernel) (by decide +kernel)
  have hguard := hplain "Lq/Guard;" "[Lq/Guard;" (by decide +kernel) (by decide +kernel)
    (by decide +kernel) (by decide +kernel)
  refine (RegisterType.merge_order_irrelevant staff).1 _ _ _ _ ?_ ?_ _ _
  · rintro x (_ | ⟨_, _ | ⟨_, _ | ⟨_, ⟨⟩⟩⟩⟩)
    · exact hclerk
    · exact .ofCategory .null
    · exact hguard
  · intro x
    simp only [List.mem_cons, List.not_mem_nil, or_false]
    grind

namespace Sample

/-- Two classes under one whose name is not that of a reference. -/
def oddities : ClassPath :=
  pathOf [named Descriptor.object none 1 [] [], named "X" (some Descriptor.object) 1 [] [],
    named "LA;" (some "X") 1 [] [], named "LB;" (some "X") 1 [] []]

end Sample

open Sample in
/-- Arrays over the two classes become arrays over the third, and these do not follow
    their elements any more: the first type again changes the outcome. -/
theorem oddities_repeated :
    (oddities.Ordinary "LA;" ∧ oddities.Ordinary "LB;") ∧
    (([.reference "[LB;"].foldlM (RegisterType.merge oddities)
      (.reference "[LA;")).run (oddities.memoAfter [])).1 = .reference "[X" ∧
    (([.reference "[LB;", .reference "[LA;"].foldlM (RegisterType.merge oddities)
      (.reference "[LA;")).run (oddities.memoAfter [])).1 = .reference "[Ljava/lang/Object;" := by
  have hordinary (d : Descriptor) (hd : oddities.Parent d "X") (hclass : oddities.IsClass d) :
      oddities.Ordinary d := by
    have hcomplete : oddities.Complete d ["X", Descriptor.object] :=
      .step hd (.step (by decide +kernel) (.root (by decide +kernel)))
    refine ClassPath.ordinary_of_complete hcomplete ?_ (by simp) (by decide +kernel)
    exact List.forall_mem_cons.2 ⟨hclass, by decide +kernel⟩
  refine ⟨⟨?_, ?_⟩, by decide +kernel, by decide +kernel⟩
  · exact hordinary "LA;" (by decide +kernel) (by decide +kernel)
  · exact hordinary "LB;" (by decide +kernel) (by decide +kernel)

end SymbolicDex
