import SymbolicDex.Proofs.Hierarchy.CommonSupertypes

/- The order that common supertypes are taken in where only classes are involved.
   Classes are below their superclasses and arrays of references follow their
   elements; every array is below the arrays of objects it can be seen as. In this
   order the common supertype of two types is their least upper bound, so it does
   not matter in which order, or how often, types are brought together.

   What is proved:
     1. `above_commonOfClasses`: least upper bounds of classes.
     2. `Within.trans`, `Within.antisymm`: types are ordered.
     3. `commonSuperclass_joins`: least upper bounds of types. -/
namespace SymbolicDex

/-! ## Elements -/

namespace Descriptor

/-- Classes, and arrays of what passes for a reference. -/
def Covariant (d : Descriptor) : Prop := d.dimensions = 0 ∨ d.element.isReference = true

theorem element_of_not_isArray {d : Descriptor} (h : d.isArray = false) : d.element = d := by
  have heq := d.eq_arrayOf
  rw [dimensions_of_not_isArray h] at heq
  simpa [arrayOf] using heq.symm

theorem eq_of_element {a b : Descriptor} (hdims : a.dimensions = b.dimensions)
    (helement : a.element = b.element) : a = b := by
  rw [a.eq_arrayOf, b.eq_arrayOf, hdims, helement]

theorem not_isPrimitive_of_isReference {d : Descriptor} (h : d.isReference = true) :
    d.isPrimitive = false := by
  simp only [isReference, isArray, Bool.or_eq_true, beq_iff_eq] at h
  simp only [isPrimitive]
  split
  · next c hlist =>
    rw [hlist] at h
    rcases h with h | h
    · cases h
      decide
    · cases h
      decide
  · rfl

theorem object_arrayOf (n : Nat) :
    (arrayOf n object).dimensions = n ∧ (arrayOf n object).element = object := by
  rw [dimensions_arrayOf, element_arrayOf]
  exact ⟨rfl, by decide⟩

end Descriptor

namespace ClassPath

theorem objectDimensions_of_covariant {d : Descriptor} (h : d.Covariant) :
    objectDimensions d = d.dimensions := by
  simp only [objectDimensions]
  split
  · next hprimitive =>
    rcases h with h | h
    · rw [h]
    · rw [Descriptor.not_isPrimitive_of_isReference h] at hprimitive
      cases hprimitive
  · rfl

theorem covariant_of_object {d : Descriptor} (h : d.element = Descriptor.object) : d.Covariant :=
  .inr (by rw [h]; decide)

variable (p : ClassPath)

/-- A class with a chain of defined classes, none of them an interface, up to an
    Object that extends nothing. -/
structure Ordinary (d : Descriptor) : Prop where
  classes : ∀ x, p.Up d x → p.IsClass x
  rooted : p.Up d Descriptor.object
  root : p.superclass Descriptor.object = .ok none

/-- `u` is Object, or a superclass of an ordinary class. -/
def Above (d u : Descriptor) : Prop := u = Descriptor.object ∨ p.Ordinary d ∧ p.Up d u

/-- The order that common supertypes are taken in. -/
def Within (d u : Descriptor) : Prop :=
  d = u ∨ (u.element = Descriptor.object ∧ u.dimensions ≤ objectDimensions d) ∨
    (d.dimensions = u.dimensions ∧ (d.Covariant ∧ u.Covariant) ∧ p.Above d.element u.element)

/-- Types whose elements have a place in the order. -/
structure Regular (d : Descriptor) : Prop where
  ordinary : d.Covariant → d.element = Descriptor.object ∨ p.Ordinary d.element
  references : d.Covariant → 0 < d.dimensions → ∀ u, p.Above d.element u → u.isReference = true

/-- `r` is the least upper bound of two types. -/
structure Joins (a b r : Descriptor) : Prop where
  regular : p.Regular r
  within : ∀ u, p.Within r u ↔ p.Within a u ∧ p.Within b u

variable {p} {a b d e r s u v x : Descriptor} {m : Memo}

/-! ## Classes -/

theorem Ordinary.complete (h : p.Ordinary d) : ∃ above, p.Complete d above :=
  complete_of_up h.rooted h.root

theorem Ordinary.isClass (h : p.Ordinary d) : p.IsClass d := h.classes d .refl

theorem Ordinary.superclass (h : p.Ordinary d) (hs : p.Up d s) : p.Ordinary s := by
  refine ⟨fun x hx => h.classes x (hs.trans hx), ?_, h.root⟩
  rcases hs.comparable h.rooted with hup | hdown
  · exact hup
  · rw [(up_root_iff h.root).1 hdown]
    exact .refl

theorem above_object_iff : p.Above Descriptor.object u ↔ u = Descriptor.object := by
  constructor
  · rintro (h | ⟨hobject, hu⟩)
    · exact h
    · exact (up_root_iff hobject.root).1 hu
  · exact .inl

theorem above_refl (h : d = Descriptor.object ∨ p.Ordinary d) : p.Above d d :=
  h.imp_right fun h => ⟨h, .refl⟩

theorem Above.trans (hdu : p.Above d u) (huv : p.Above u v) : p.Above d v := by
  rcases hdu with rfl | ⟨hd, hdu⟩
  · exact .inl (above_object_iff.1 huv)
  · exact huv.imp_right fun h => ⟨hd, hdu.trans h.2⟩

theorem Above.antisymm (hdu : p.Above d u) (hud : p.Above u d) : d = u := by
  rcases hdu with rfl | ⟨hd, hdu⟩
  · exact above_object_iff.1 hud
  · rcases hud with rfl | ⟨-, hud⟩
    · exact ((up_root_iff hd.root).1 hdu).symm
    · obtain ⟨above, habove⟩ := hd.complete
      exact habove.antisymm hdu hud

theorem above_commonOfClasses (ha : a = Descriptor.object ∨ p.Ordinary a)
    (hb : b = Descriptor.object ∨ p.Ordinary b) :
    (((p.commonOfClasses a b).run m).1 = Descriptor.object ∨
      p.Ordinary ((p.commonOfClasses a b).run m).1) ∧
    ∀ u, p.Above ((p.commonOfClasses a b).run m).1 u ↔ p.Above a u ∧ p.Above b u := by
  by_cases hab : a = b
  · subst hab
    simp only [commonOfClasses, if_true, Query.run_pure]
    exact ⟨ha, fun u => (and_self_iff).symm⟩
  by_cases hobject : a = Descriptor.object ∨ b = Descriptor.object
  · simp only [commonOfClasses, hab, hobject, if_true, if_false, Query.run_pure]
    refine ⟨.inl trivial, fun u => ?_⟩
    rw [above_object_iff]
    refine ⟨fun hu => ⟨.inl hu, .inl hu⟩, fun hu => ?_⟩
    rcases hobject with rfl | rfl
    · exact above_object_iff.1 hu.1
    · exact above_object_iff.1 hu.2
  · have ha := ha.resolve_left fun h => hobject (.inl h)
    have hb := hb.resolve_left fun h => hobject (.inr h)
    obtain ⟨la, hla⟩ := ha.complete
    obtain ⟨lb, hlb⟩ := hb.complete
    obtain ⟨hra, hrb, -⟩ := commonAncestor_least hla hlb ha.rooted hb.rooted
    rw [commonOfClasses_run ha.isClass hb.isClass]
    simp only [hab, hobject, if_false]
    refine ⟨.inr (ha.superclass hra), fun u => ⟨?_, ?_⟩⟩
    · exact fun hu => ⟨Above.trans (.inr ⟨ha, hra⟩) hu, Above.trans (.inr ⟨hb, hrb⟩) hu⟩
    · rintro ⟨hau | ⟨-, hau⟩, hbu⟩
      · exact .inl hau
      · rcases hbu with hbu | ⟨-, hbu⟩
        · exact .inl hbu
        · exact .inr ⟨ha.superclass hra, (commonAncestor_least hla hlb hau hbu).2.2⟩

/-! ## Types -/

theorem Within.refl (d : Descriptor) : p.Within d d := .inl rfl

/-- Below an array of objects is what has enough dimensions. -/
theorem within_objects_iff (hu : u.element = Descriptor.object) :
    p.Within d u ↔ u.dimensions ≤ objectDimensions d := by
  constructor
  · rintro (rfl | ⟨-, hle⟩ | ⟨hdims, ⟨hd, -⟩, -⟩)
    · rw [objectDimensions_of_covariant (covariant_of_object hu)]
    · exact hle
    · rw [objectDimensions_of_covariant hd, hdims]
  · exact fun h => .inr (.inl ⟨hu, h⟩)

/-- Above covariant types are arrays of objects and the covariant types above. -/
theorem Regular.within_iff (h : p.Regular d) (hd : d.Covariant) :
    p.Within d u ↔ (u.element = Descriptor.object ∧ u.dimensions ≤ d.dimensions) ∨
      (d.dimensions = u.dimensions ∧ u.Covariant ∧ p.Above d.element u.element) := by
  simp only [Within, objectDimensions_of_covariant hd]
  constructor
  · rintro (rfl | hobjects | ⟨hdims, ⟨-, hu⟩, habove⟩)
    · exact .inr ⟨rfl, hd, above_refl (h.ordinary hd)⟩
    · exact .inl hobjects
    · exact .inr ⟨hdims, hu, habove⟩
  · rintro (hobjects | ⟨hdims, hu, habove⟩)
    · exact .inr (.inl hobjects)
    · exact .inr (.inr ⟨hdims, ⟨hd, hu⟩, habove⟩)

theorem Within.trans (hdu : p.Within d u) (huv : p.Within u v) : p.Within d v := by
  rcases hdu with rfl | ⟨hu, hle⟩ | ⟨hdims, ⟨hd, hu⟩, habove⟩
  · exact huv
  · rcases huv with rfl | ⟨hv, hle'⟩ | ⟨hdims', -, habove'⟩
    · exact .inr (.inl ⟨hu, hle⟩)
    · exact .inr (.inl ⟨hv, hle'.trans ((objectDimensions_le u).trans hle)⟩)
    · rw [hu, above_object_iff] at habove'
      exact .inr (.inl ⟨habove', hdims' ▸ hle⟩)
  · rcases huv with rfl | ⟨hv, hle⟩ | ⟨hdims', ⟨-, hv⟩, habove'⟩
    · exact .inr (.inr ⟨hdims, ⟨hd, hu⟩, habove⟩)
    · refine .inr (.inl ⟨hv, ?_⟩)
      rw [objectDimensions_of_covariant hd, hdims]
      exact hle.trans (objectDimensions_le u)
    · exact .inr (.inr ⟨hdims.trans hdims', ⟨hd, hv⟩, habove.trans habove'⟩)

theorem Within.antisymm (hdu : p.Within d u) (hud : p.Within u d) : d = u := by
  rcases hdu with rfl | ⟨hu, hle⟩ | ⟨hdims, ⟨hd, hu⟩, habove⟩
  · rfl
  · have hdims := hle.trans (objectDimensions_le d)
    rcases hud with rfl | ⟨hd, hle'⟩ | ⟨hdims', -, habove'⟩
    · rfl
    · have hdims' := hle'.trans (objectDimensions_le u)
      exact Descriptor.eq_of_element (Nat.le_antisymm hdims' hdims) (hd.trans hu.symm)
    · rw [hu, above_object_iff] at habove'
      exact Descriptor.eq_of_element hdims'.symm (habove'.trans hu.symm)
  · rcases hud with rfl | ⟨hd', hle⟩ | ⟨-, -, habove'⟩
    · rfl
    · rw [hd', above_object_iff] at habove
      exact Descriptor.eq_of_element hdims (hd'.trans habove.symm)
    · exact Descriptor.eq_of_element hdims (habove.antisymm habove')

/-! ## Least upper bounds -/

theorem joins_self (h : p.Regular a) : p.Joins a a a := ⟨h, fun _ => and_self_iff.symm⟩

theorem Joins.symm (h : p.Joins a b r) : p.Joins b a r :=
  ⟨h.regular, fun u => (h.within u).trans and_comm⟩

theorem joins_of_least (hr : p.Regular r) (har : p.Within a r) (hbr : p.Within b r)
    (hleast : ∀ u, p.Within a u → p.Within b u → p.Within r u) : p.Joins a b r :=
  ⟨hr, fun u => ⟨fun h => ⟨har.trans h, hbr.trans h⟩, fun h => hleast u h.1 h.2⟩⟩

theorem regular_objects (n : Nat) : p.Regular (Descriptor.arrayOf n Descriptor.object) := by
  obtain ⟨-, helement⟩ := Descriptor.object_arrayOf n
  refine ⟨fun _ => .inl helement, fun _ _ u hu => ?_⟩
  rw [helement, above_object_iff] at hu
  subst hu
  decide

/-- Types that meet only as objects have the deepest array of objects above both. -/
theorem joins_objects (hmeet : ∀ u, p.Within a u → p.Within b u → u.element = Descriptor.object) :
    p.Joins a b (Descriptor.arrayOf (min (objectDimensions a) (objectDimensions b))
      Descriptor.object) := by
  obtain ⟨hdims, helement⟩ :=
    Descriptor.object_arrayOf (min (objectDimensions a) (objectDimensions b))
  refine joins_of_least (regular_objects _) ?_ ?_ fun u hau hbu => ?_
  · rw [within_objects_iff helement, hdims]
    exact Nat.min_le_left _ _
  · rw [within_objects_iff helement, hdims]
    exact Nat.min_le_right _ _
  · have hu := hmeet u hau hbu
    rw [within_objects_iff hu] at hau hbu ⊢
    rw [objectDimensions_of_covariant (covariant_of_object helement), hdims]
    exact Nat.le_min.2 ⟨hau, hbu⟩

/-- Other types than covariant ones under the same dimensions meet only as objects. -/
theorem element_of_meet (hab : a ≠ b)
    (hdiffer : ¬ (a.dimensions = b.dimensions ∧ a.Covariant ∧ b.Covariant))
    (hau : p.Within a u) (hbu : p.Within b u) : u.element = Descriptor.object := by
  rcases hau with rfl | ⟨hu, -⟩ | ⟨hdims, ⟨hca, hcu⟩, -⟩
  · rcases hbu with rfl | ⟨hu, -⟩ | ⟨hdims, ⟨hcb, hca⟩, -⟩
    · exact absurd rfl hab
    · exact hu
    · exact absurd ⟨hdims.symm, hca, hcb⟩ hdiffer
  · exact hu
  · rcases hbu with rfl | ⟨hu, -⟩ | ⟨hdims', ⟨hcb, -⟩, -⟩
    · exact absurd ⟨hdims, hca, hcu⟩ hdiffer
    · exact hu
    · exact absurd ⟨hdims.trans hdims'.symm, hca, hcb⟩ hdiffer

/-- Covariant types under the same dimensions join as their elements do. -/
theorem joins_covariant (ha : p.Regular a) (hb : p.Regular b) (hca : a.Covariant)
    (hcb : b.Covariant) (hdims : a.dimensions = b.dimensions) (hrdims : r.dimensions = a.dimensions)
    (hr : r.element = Descriptor.object ∨ p.Ordinary r.element)
    (habove : ∀ u, p.Above r.element u ↔ p.Above a.element u ∧ p.Above b.element u) :
    p.Joins a b r := by
  have har := ((habove _).1 (above_refl hr)).1
  have hcr : r.Covariant := by
    rcases Nat.eq_zero_or_pos a.dimensions with hzero | hpos
    · exact .inl (hrdims.trans hzero)
    · exact .inr (ha.references hca hpos _ har)
  have hregular : p.Regular r :=
    ⟨fun _ => hr, fun _ hpos u hu => ha.references hca (hrdims ▸ hpos) u (har.trans hu)⟩
  refine ⟨hregular, fun u => ?_⟩
  rw [hregular.within_iff hcr, ha.within_iff hca, hb.within_iff hcb, habove, hrdims, ← hdims]
  constructor
  · rintro (h | ⟨hu, hcu, hau, hbu⟩)
    · exact ⟨.inl h, .inl h⟩
    · exact ⟨.inr ⟨hu, hcu, hau⟩, .inr ⟨hu, hcu, hbu⟩⟩
  · rintro ⟨h | ⟨hu, hcu, hau⟩, h' | ⟨-, -, hbu⟩⟩
    · exact .inl h
    · exact .inl h
    · exact .inl h'
    · exact .inr ⟨hu, hcu, hau, hbu⟩

theorem commonOfClasses_joins (ha : p.Regular a) (hb : p.Regular b) (hna : a.isArray = false)
    (hnb : b.isArray = false) : p.Joins a b ((p.commonOfClasses a b).run m).1 := by
  have hda := Descriptor.dimensions_of_not_isArray hna
  have hdb := Descriptor.dimensions_of_not_isArray hnb
  have hoa := ha.ordinary (.inl hda)
  have hob := hb.ordinary (.inl hdb)
  rw [Descriptor.element_of_not_isArray hna] at hoa
  rw [Descriptor.element_of_not_isArray hnb] at hob
  obtain ⟨hr, habove⟩ := above_commonOfClasses (m := m) hoa hob
  have hnr : ((p.commonOfClasses a b).run m).1.isArray = false := by
    rcases hr with hr | hr
    · rw [hr]
      decide
    · exact hr.isClass.namesClass.2
  have helement := Descriptor.element_of_not_isArray hnr
  refine joins_covariant ha hb (.inl hda) (.inl hdb) (hda.trans hdb.symm) ?_ ?_ fun u => ?_
  · rw [hda, Descriptor.dimensions_of_not_isArray hnr]
  · rwa [helement]
  · rw [helement, Descriptor.element_of_not_isArray hna, Descriptor.element_of_not_isArray hnb]
    exact habove u

theorem commonOfArrays_joins (ha : p.Regular a) (hb : p.Regular b) (hab : a ≠ b)
    (haa : a.isArray = true) (hba : b.isArray = true) :
    p.Joins a b ((p.commonOfArrays a b).run m).1 := by
  by_cases hsame : a.dimensions = b.dimensions ∧ a.element.isReference = true ∧
      b.element.isReference = true
  · obtain ⟨hdims, hra, hrb⟩ := hsame
    obtain ⟨hr, habove⟩ := above_commonOfClasses (m := m) (ha.ordinary (.inr hra))
      (hb.ordinary (.inr hrb))
    simp only [commonOfArrays, hdims, hra, hrb, and_self, if_true, Query.run_bind, Query.run_pure]
    generalize ((p.commonOfClasses a.element b.element).run m).1 = e at hr habove
    have he : e ≠ Descriptor.unknown ∧ e.isArray = false := by
      rcases hr with rfl | hr
      · decide
      · exact hr.isClass.namesClass
    rw [if_neg he.1]
    have helement : (Descriptor.arrayOf b.dimensions e).element = e := by
      rw [Descriptor.element_arrayOf, Descriptor.element_of_not_isArray he.2]
    refine joins_covariant ha hb (.inr hra) (.inr hrb) hdims ?_ ?_ fun u => ?_
    · rw [Descriptor.dimensions_arrayOf, Descriptor.dimensions_of_not_isArray he.2, hdims]
      rfl
    · rwa [helement]
    · rw [helement]
      exact habove u
  · simp only [commonOfArrays, hsame, if_false, Query.run_pure]
    refine joins_objects fun u hau hbu => element_of_meet hab ?_ hau hbu
    rintro ⟨hdims, hca, hcb⟩
    have hpos (d : Descriptor) (hd : d.isArray = true) : d.dimensions ≠ 0 :=
      Nat.ne_of_gt (Descriptor.dimensions_pos_of_isArray hd)
    exact hsame ⟨hdims, hca.resolve_left (hpos a haa), hcb.resolve_left (hpos b hba)⟩

/-- An array and a class meet in Object, whatever Object is. -/
theorem commonOfArrayAndClass_joins (hb : p.Regular b) (haa : a.isArray = true)
    (hnb : b.isArray = false) : p.Joins a b ((p.commonOfArrayAndClass a b).run m).1 := by
  have hpos := Descriptor.dimensions_pos_of_isArray haa
  have hzero := Descriptor.dimensions_of_not_isArray hnb
  have hr : ((p.commonOfArrayAndClass a b).run m).1 = Descriptor.object := by
    have hclass := hb.ordinary (.inl hzero)
    rw [Descriptor.element_of_not_isArray hnb] at hclass
    simp only [commonOfArrayAndClass]
    split
    · next hinterface =>
      rcases hclass with rfl | hclass
      · rw [Query.run_bind]
        split <;> rfl
      · rw [hclass.isClass.isInterface] at hinterface
        cases hinterface
    · rfl
  have hobjects := joins_objects (p := p) (a := a) (b := b) fun u hau hbu => by
    refine element_of_meet (fun hab => ?_) (fun hsame => ?_) hau hbu
    · rw [hab, hnb] at haa
      cases haa
    · have hdims := hsame.1
      omega
  rw [objectDimensions_of_covariant (.inl hzero), hzero, Nat.min_zero] at hobjects
  rwa [hr]

theorem Regular.ne_unknown (h : p.Regular d) : d ≠ Descriptor.unknown := by
  rintro rfl
  rcases h.ordinary (.inl (by decide)) with hobject | hordinary
  · exact absurd hobject (by decide)
  · exact hordinary.isClass.namesClass.1 (by decide)

/-- The common supertype of two types is their least upper bound. -/
theorem commonSuperclass_joins (ha : p.Regular a) (hb : p.Regular b) :
    p.Joins a b ((p.commonSuperclass a b).run m).1 := by
  by_cases hab : a = b
  · subst hab
    simp only [commonSuperclass, if_true, Query.run_pure]
    exact joins_self ha
  simp only [commonSuperclass, hab, ha.ne_unknown, hb.ne_unknown, or_self, if_false]
  cases haa : a.isArray with
  | true =>
    cases hba : b.isArray with
    | true => exact commonOfArrays_joins ha hb hab haa hba
    | false => exact commonOfArrayAndClass_joins hb haa hba
  | false =>
    cases hba : b.isArray with
    | true => exact (commonOfArrayAndClass_joins ha hba haa).symm
    | false => exact commonOfClasses_joins ha hb haa hba

end ClassPath

end SymbolicDex
