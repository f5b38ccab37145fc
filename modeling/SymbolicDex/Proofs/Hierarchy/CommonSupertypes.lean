import SymbolicDex.Proofs.Hierarchy.InterfaceMembership
import SymbolicDex.Proofs.Hierarchy.SuperclassChains

/- Common supertypes are supertypes. Declarations put types in an order, in which
   Object is above everything, arrays are below two interfaces and an array of
   references is below the arrays of what its elements are below. The answer to
   the question for a common supertype of two types is above both in that order
   unless it is left open, and for classes it is the least one.

   What is proved:
     1. `collects_isA`, `implements_isA`: what a class is found to implement is
        above it, circular declarations or not.
     2. `IsA.arrayOf`, `isA_objects`: arrays of what is above.
     3. `commonSuperclass_least`: the common supertype of any two well-formed types
        is above both, and of two classes it is the least. -/
namespace SymbolicDex

/-! ## Well-formed types -/

namespace Descriptor

/-- A class or an array, and nothing after it. -/
def WellFormed (d : Descriptor) : Prop := parse d = .ok d ∧ d.isReference = true

theorem splitFieldType_all {cs t : List Char} (h : splitFieldType cs = some (t, [])) :
    ∃ c rest, cs.dropWhile (· = '[') = c :: rest ∧
      (c = 'L' ∨ isPrimitiveLetter c = true ∧ rest = []) := by
  induction cs generalizing t with
  | nil => cases h
  | cons c cs ih =>
    simp only [splitFieldType] at h
    split at h
    · next hc =>
      obtain ⟨⟨t', rest⟩, htail, heq⟩ := Option.map_eq_some_iff.1 h
      cases heq
      rw [List.dropWhile_cons_of_pos (by simpa using hc)]
      exact ih htail
    · next hc =>
      refine ⟨c, cs, List.dropWhile_cons_of_neg (by simpa using hc), ?_⟩
      split at h
      · next hL => exact .inl hL
      · split at h
        · next hletter =>
          cases h
          exact .inr ⟨hletter, rfl⟩
        · cases h

/-- Under its dimensions a well-formed type is a class or a primitive. -/
theorem WellFormed.element {d : Descriptor} (h : d.WellFormed) :
    d.element.isReference = true ∨ d.element.isPrimitive = true := by
  have hparse := h.1
  simp only [parse] at hparse
  split at hparse
  · next t hsplit =>
    obtain ⟨c, rest, hdrop, hc⟩ := splitFieldType_all hsplit
    have hlist : d.element.toList = c :: rest := by
      simp only [Descriptor.element, String.toList_ofList, hdrop]
    rcases hc with rfl | ⟨hletter, rfl⟩
    · exact .inl (by simp [isReference, hlist])
    · exact .inr (by simp [isPrimitive, hlist, hletter])
  · cases hparse

theorem eq_arrayOf (d : Descriptor) : d = arrayOf d.dimensions d.element := by
  simp only [arrayOf, ← d.toList_eq, String.ofList_toList]

theorem arrayOf_add (m n : Nat) (d : Descriptor) : arrayOf (m + n) d = arrayOf m (arrayOf n d) := by
  simp only [arrayOf, String.toList_ofList, ← List.append_assoc, List.replicate_append_replicate]

theorem arrayOf_inj {n : Nat} {a b : Descriptor} (h : arrayOf n a = arrayOf n b) : a = b := by
  have hlist := congrArg String.toList h
  simpa [arrayOf, String.toList_inj] using hlist

theorem isArray_arrayOf_succ (n : Nat) (d : Descriptor) : (arrayOf (n + 1) d).isArray = true := by
  simp [isArray, arrayOf, List.replicate_succ]

theorem isReference_of_isArray {d : Descriptor} (h : d.isArray = true) : d.isReference = true := by
  simp [isReference, h]

theorem isReference_arrayOf {d : Descriptor} (n : Nat) (h : d.isReference = true) :
    (arrayOf n d).isReference = true := by
  cases n with
  | zero => simpa [arrayOf] using h
  | succ n => exact isReference_of_isArray (isArray_arrayOf_succ n d)

theorem dimensions_pos_of_isArray {d : Descriptor} (h : d.isArray = true) : 0 < d.dimensions := by
  simp only [isArray, beq_iff_eq] at h
  obtain ⟨cs, hlist⟩ := List.head?_eq_some_iff.1 h
  simp [dimensions, hlist]

end Descriptor

namespace ClassPath

open Query

variable (p : ClassPath)

/-- The order of types. -/
inductive IsA : Descriptor → Descriptor → Prop where
  | refl (d : Descriptor) : IsA d d
  | trans {a b c : Descriptor} (hab : IsA a b) (hbc : IsA b c) : IsA a c
  | declared {d s : Descriptor} (h : p.Declares d s) : IsA d s
  | object (d : Descriptor) : IsA d Descriptor.object
  | cloneable {d : Descriptor} (h : d.isArray = true) : IsA d Descriptor.cloneable
  | serializable {d : Descriptor} (h : d.isArray = true) : IsA d Descriptor.serializable
  /-- Arrays follow their elements where these are references; what is above a reference
      is one itself. -/
  | elements {a b : Descriptor} (ha : a.isReference = true) (hab : IsA a b) :
      IsA (Descriptor.arrayOf 1 a) (Descriptor.arrayOf 1 b)

/-- `r` is above both, or leaves it open. -/
def Bounds (a b r : Descriptor) : Prop := r = Descriptor.unknown ∨ p.IsA a r ∧ p.IsA b r

/-- Everything in the table is above the class. -/
def OnlyAbove (d : Descriptor) (t : Computed InterfaceMap) : Prop :=
  ∀ i, (t.value.get? i).isSome = true → p.IsA d i

variable {p} {a b d i r s : Descriptor} {c : ClassDef} {t sub : Computed InterfaceMap}

/-! ## Superclasses and interfaces -/

theorem isA_of_parent (h : p.Parent d s) : p.IsA d s := by
  simp only [Parent, superclass] at h
  split at h
  · next c hshape =>
    refine .declared (declares_of_classDefinition (classDefinition_ok_iff.2 hshape) ?_)
    simp [Except.ok.inj h]
  · cases h
  · cases h
    exact .object d
  · cases h

theorem isA_of_up (h : p.Up d s) : p.IsA d s := by
  induction h with
  | refl => exact .refl d
  | tail _ hs ih => exact ih.trans (isA_of_parent hs)

theorem OnlyAbove.insert {e : InterfaceEntry} {complete : Bool} (h : p.OnlyAbove d t)
    (hi : p.IsA d i) : p.OnlyAbove d ⟨t.value.insert i e, complete⟩ := by
  intro j hj
  rw [InterfaceMap.get?_insert, Option.isSome_or, Bool.or_eq_true] at hj
  rcases hj with hj | hj
  · exact h j hj
  · split at hj
    · next hij => exact hij ▸ hi
    · cases hj

theorem OnlyAbove.insertAll {complete : Bool} (h : p.OnlyAbove d t) (hs : p.IsA d s)
    (hsub : p.OnlyAbove s sub) : p.OnlyAbove d ⟨t.value.insertAll sub.value.entries, complete⟩ := by
  intro j hj
  rw [InterfaceMap.get?_insertAll, Option.isSome_or, Bool.or_eq_true] at hj
  rcases hj with hj | hj
  · exact h j hj
  · exact hs.trans (hsub j hj)

theorem OnlyAbove.through (h : p.OnlyAbove d t) :
    p.OnlyAbove d ⟨⟨t.value.entries.map fun e => (e.1, e.2.throughSuperclass)⟩, t.complete⟩ := by
  intro j hj
  rw [InterfaceMap.get?_through, Option.isSome_map] at hj
  exact h j hj

theorem onlyAbove_empty (complete : Bool) : p.OnlyAbove d ⟨InterfaceMap.empty, complete⟩ :=
  fun _ => nofun

theorem addInterface_isA {I : Memo → Prop}
    {interfacesOf : Descriptor → Query (Computed InterfaceMap)} (h : p.OnlyAbove d t)
    (hds : p.Declares d s) (hs : Gives I (p.OnlyAbove s) (interfacesOf s)) :
    Gives I (p.OnlyAbove d) (p.addInterface interfacesOf t s) := by
  simp only [addInterface]
  refine Gives.ite (fun _ => Gives.pure h) fun _ => Gives.bind hs fun sub hsub => Gives.pure ?_
  have hentry (e : InterfaceEntry) : p.OnlyAbove d ⟨t.value.insert s e, t.complete⟩ :=
    h.insert (.declared hds)
  exact (hentry _).insertAll (.declared hds) hsub

/-- Whatever the declarations, an interface is found only above a class. -/
theorem collects_isA : p.Collects p.OnlyAbove where
  unknown := onlyAbove_empty true
  array d hd i hi := by
    simp only [InterfaceMap.ofArray, InterfaceMap.get?, Option.isSome_map, List.find?_isSome,
      List.mem_cons, List.not_mem_nil, or_false, beq_iff_eq] at hi
    obtain ⟨e, rfl | rfl, rfl⟩ := hi
    · exact .cloneable hd
    · exact .serializable hd
  missing d _ := onlyAbove_empty false
  circular d _ := onlyAbove_empty false
  collected d c hc I interfacesOf hof := by
    have hdeclared (s : Descriptor) (hs : s ∈ c.superclass.toList ++ c.interfaces) :
        p.Declares d s := declares_of_classDefinition hc hs
    simp only [collectInterfaces]
    have hinterfaces := Gives.foldlM (I := I) (J := fun _ acc => p.OnlyAbove d acc)
      (l := c.interfaces) (fun _ s acc hs hacc =>
        have hds := hdeclared s (List.mem_append_right _ hs)
        addInterface_isA hacc hds (hof s hds)) [] _ (onlyAbove_empty true)
    refine Gives.bind hinterfaces fun acc hacc => ?_
    have hself : p.OnlyAbove d (if c.isInterface then
        ⟨acc.value.insert c.descriptor .inherited, acc.complete⟩ else acc) := by
      rw [definition?_descriptor (definition?_of_classDefinition hc)]
      split
      · exact hacc.insert (.refl d)
      · exact hacc
    cases hs : c.superclass with
    | none => exact Gives.pure hself
    | some s =>
      have hds := hdeclared s (by simp [hs])
      exact Gives.bind (hof s hds) fun inherited hinherited =>
        Gives.pure (hself.insertAll (.declared hds) hinherited.through)

theorem implements_isA (d i : Descriptor) :
    Gives (Recalling p.OnlyAbove) (fun answer => answer = .ok true → p.IsA d i)
      (p.implements d i) := by
  simp only [implements]
  refine Gives.bind (interfaces_gives collects_isA d) fun t ht => ?_
  cases hi : t.value.get? i with
  | none =>
    refine Gives.pure fun h => ?_
    split at h <;> cases h
  | some e =>
    have habove : p.IsA d i := ht i (by simp [hi])
    cases e <;> exact Gives.pure fun _ => habove

/-! ## Arrays -/

theorem IsA.arrayOf (n : Nat) (ha : a.isReference = true) (h : p.IsA a b) :
    p.IsA (Descriptor.arrayOf n a) (Descriptor.arrayOf n b) := by
  induction n with
  | zero => simpa [Descriptor.arrayOf] using h
  | succ n ih =>
    rw [Nat.add_comm n 1, Descriptor.arrayOf_add, Descriptor.arrayOf_add]
    exact .elements (Descriptor.isReference_arrayOf n ha) ih

/-- As long as what is left under the dimensions is a reference, it is an object. -/
theorem isA_objects {n : Nat} (hd : d.isArray = true)
    (helement : d.element.isReference = true ∨ d.element.isPrimitive = true)
    (hn : n ≤ objectDimensions d) : p.IsA d (Descriptor.arrayOf n Descriptor.object) := by
  have hpos := Descriptor.dimensions_pos_of_isArray hd
  have hle := Nat.le_trans hn (objectDimensions_le d)
  have hsplit : d = Descriptor.arrayOf n (Descriptor.arrayOf (d.dimensions - n) d.element) := by
    rw [← Descriptor.arrayOf_add, Nat.add_sub_cancel' hle]
    exact d.eq_arrayOf
  have href : (Descriptor.arrayOf (d.dimensions - n) d.element).isReference = true := by
    by_cases hprimitive : d.element.isPrimitive = true
    · simp only [objectDimensions, hprimitive, if_true] at hn
      obtain ⟨k, hk⟩ : ∃ k, d.dimensions - n = k + 1 := ⟨d.dimensions - n - 1, by omega⟩
      rw [hk]
      exact Descriptor.isReference_of_isArray (Descriptor.isArray_arrayOf_succ k _)
    · exact Descriptor.isReference_arrayOf _ (helement.resolve_right hprimitive)
  have habove := (IsA.object (p := p) (Descriptor.arrayOf (d.dimensions - n) d.element)).arrayOf n
    href
  rwa [← hsplit] at habove

/-! ## Common supertypes -/

theorem commonWithInterface_bounds (i d : Descriptor) :
    Gives (Recalling p.OnlyAbove) (p.Bounds i d) (p.commonWithInterface i d) := by
  simp only [commonWithInterface]
  refine Gives.bind (implements_isA d i) fun answer hanswer => ?_
  rcases answer with e | _ | _
  · exact Gives.pure (.inl rfl)
  · exact Gives.pure (.inr ⟨.object i, .object d⟩)
  · exact Gives.pure (.inr ⟨.refl i, hanswer rfl⟩)

theorem lastShared_mem_right {as bs : List Descriptor} {x : Descriptor}
    (h : lastShared as bs = some x) : x ∈ bs := by
  obtain ⟨i, -, hi, -⟩ := lastShared_eq_some h
  exact List.mem_of_getElem? hi

theorem isA_of_mem_chain (hr : r ≠ Descriptor.unknown)
    (h : r ∈ (d :: p.superclassChain d).reverse) : p.IsA d r := by
  rcases List.mem_cons.1 (List.mem_reverse.1 h) with rfl | h
  · exact .refl r
  · exact isA_of_up ((up_of_mem_chainAfter h).resolve_left hr)

theorem commonAncestor_bounds (a b : Descriptor) : p.Bounds a b (p.commonAncestor a b) := by
  simp only [commonAncestor]
  cases hshared : lastShared (a :: p.superclassChain a).reverse
    (b :: p.superclassChain b).reverse with
  | none => exact .inl rfl
  | some r =>
    by_cases hr : r = Descriptor.unknown
    · exact .inl hr
    · exact .inr ⟨isA_of_mem_chain hr (lastShared_mem hshared),
        isA_of_mem_chain hr (lastShared_mem_right hshared)⟩

theorem Bounds.symm (h : p.Bounds a b r) : p.Bounds b a r := h.imp_right And.symm

theorem bounds_self : p.Bounds a a a := .inr ⟨.refl a, .refl a⟩

theorem bounds_object : p.Bounds a b Descriptor.object := .inr ⟨.object a, .object b⟩

theorem commonOfClasses_bounds (a b : Descriptor) :
    Gives (Recalling p.OnlyAbove) (p.Bounds a b) (p.commonOfClasses a b) := by
  simp only [commonOfClasses]
  refine Gives.ite (fun hab => Gives.pure (hab ▸ bounds_self)) fun _ =>
    Gives.ite (fun _ => Gives.pure bounds_object) fun _ => ?_
  split
  · exact commonWithInterface_bounds a b
  · exact (commonWithInterface_bounds b a).mono fun _ => Bounds.symm
  · exact Gives.pure (commonAncestor_bounds a b)
  · exact Gives.pure (.inl rfl)

theorem commonOfArrayAndClass_bounds (a b : Descriptor) :
    Gives (Recalling p.OnlyAbove) (p.Bounds a b) (p.commonOfArrayAndClass a b) := by
  simp only [commonOfArrayAndClass]
  split
  · refine Gives.bind (implements_isA a b) fun answer hanswer => ?_
    rcases answer with e | _ | _
    · exact Gives.pure bounds_object
    · exact Gives.pure bounds_object
    · exact Gives.pure (.inr ⟨hanswer rfl, .refl b⟩)
  · exact Gives.pure bounds_object

theorem commonOfArrays_bounds (ha : a.isArray = true) (hb : b.isArray = true)
    (hwa : a.WellFormed) (hwb : b.WellFormed) :
    Gives (Recalling p.OnlyAbove) (p.Bounds a b) (p.commonOfArrays a b) := by
  simp only [commonOfArrays]
  refine Gives.ite (fun hsame => ?_) fun _ => Gives.pure ?_
  · obtain ⟨hdims, hra, hrb⟩ := hsame
    refine Gives.bind (commonOfClasses_bounds a.element b.element) fun e he => Gives.pure ?_
    split
    · exact .inl rfl
    · next hknown =>
      obtain ⟨hea, heb⟩ := he.resolve_left hknown
      have hna := hea.arrayOf a.dimensions hra
      have hnb := heb.arrayOf a.dimensions hrb
      rw [← a.eq_arrayOf] at hna
      rw [hdims, ← b.eq_arrayOf, ← hdims] at hnb
      exact .inr ⟨hna, hnb⟩
  · exact .inr ⟨isA_objects ha hwa.element (Nat.min_le_left _ _),
      isA_objects hb hwb.element (Nat.min_le_right _ _)⟩

theorem commonSuperclass_bounds (hwa : a.WellFormed) (hwb : b.WellFormed) :
    Gives (Recalling p.OnlyAbove) (p.Bounds a b) (p.commonSuperclass a b) := by
  simp only [commonSuperclass]
  refine Gives.ite (fun hab => Gives.pure (hab ▸ bounds_self)) fun _ =>
    Gives.ite (fun _ => Gives.pure ?_) fun _ => Gives.ite (fun ha => Gives.ite (fun hb => ?_)
      fun _ => ?_) fun _ => Gives.ite (fun _ => ?_) fun _ => ?_
  · split
    · exact bounds_object
    · exact .inl rfl
  · exact commonOfArrays_bounds ha hb hwa hwb
  · exact commonOfArrayAndClass_bounds a b
  · exact (commonOfArrayAndClass_bounds b a).mono fun _ => Bounds.symm
  · exact commonOfClasses_bounds a b

/-! ## The least one for classes -/

variable (p) in
/-- `d` is defined, and not as an interface. -/
def IsClass (d : Descriptor) : Prop := ∃ c, p.classDefinition d = .ok c ∧ c.isInterface = false

instance (d : Descriptor) : Decidable (p.IsClass d) :=
  match h : p.classDefinition d with
  | .ok c =>
    if hc : c.isInterface = false then .isTrue ⟨c, h, hc⟩
    else .isFalse fun ⟨_, hc', hflag⟩ => hc (Except.ok.inj (h.symm.trans hc') ▸ hflag)
  | .error _ => .isFalse fun ⟨_, hc, _⟩ => nomatch h.symm.trans hc

theorem namesClass_of_classDefinition (h : p.classDefinition d = .ok c) : d.NamesClass := by
  have hshape := classDefinition_ok_iff.1 h
  simp only [shape] at hshape
  split at hshape
  · cases hshape
  · next hu =>
    split at hshape
    · cases hshape
    · next ha => exact ⟨hu, by simpa using ha⟩

theorem IsClass.namesClass (h : p.IsClass d) : d.NamesClass := by
  obtain ⟨c, hc, -⟩ := h
  exact namesClass_of_classDefinition hc

theorem isInterface_of_classDefinition (h : p.classDefinition d = .ok c) :
    p.isInterface d = .ok c.isInterface := by
  simp only [isInterface, classDefinition_ok_iff.1 h]

theorem IsClass.isInterface (h : p.IsClass d) : p.isInterface d = .ok false := by
  obtain ⟨c, hc, hflag⟩ := h
  rw [isInterface_of_classDefinition hc, hflag]

/-- Of two classes, one that is Object is above the other, else their chains decide. -/
theorem commonOfClasses_run {m : Memo} (ha : p.IsClass a) (hb : p.IsClass b) :
    (p.commonOfClasses a b).run m =
      (if a = b then a else if a = Descriptor.object ∨ b = Descriptor.object then Descriptor.object
        else p.commonAncestor a b, m) := by
  simp only [commonOfClasses, ha.isInterface, hb.isInterface]
  split
  · rfl
  · split <;> rfl

theorem commonSuperclass_eq_commonOfClasses (ha : a.NamesClass) (hb : b.NamesClass) :
    p.commonSuperclass a b = p.commonOfClasses a b := by
  simp only [commonSuperclass, ha.1, ha.2, hb.1, hb.2]
  split
  · next hab => simp [commonOfClasses, hab]
  · simp

/-- What the chains of two classes share is above their common supertype, which is on
    both chains unless it is Object and one of the two. -/
theorem commonOfClasses_least {root : Descriptor} {m : Memo} (ha : p.IsClass a)
    (hb : p.IsClass b) (har : p.Up a root) (hbr : p.Up b root)
    (hroot : p.superclass root = .ok none) :
    (p.Up a ((p.commonOfClasses a b).run m).1 ∧ p.Up b ((p.commonOfClasses a b).run m).1 ∨
      ((p.commonOfClasses a b).run m).1 = Descriptor.object ∧
        (a = Descriptor.object ∨ b = Descriptor.object)) ∧
    ∀ x, p.Up a x → p.Up b x → p.Up ((p.commonOfClasses a b).run m).1 x := by
  rw [commonOfClasses_run ha hb]
  dsimp only
  split
  · next hab =>
    subst hab
    exact ⟨.inl ⟨.refl, .refl⟩, fun x hx _ => hx⟩
  · split
    · next hobject =>
      refine ⟨.inr ⟨rfl, hobject⟩, fun x hax hbx => ?_⟩
      rcases hobject with rfl | rfl
      · exact hax
      · exact hbx
    · obtain ⟨la, hla⟩ := complete_of_up har hroot
      obtain ⟨lb, hlb⟩ := complete_of_up hbr hroot
      obtain ⟨hra, hrb, -⟩ := commonAncestor_least hla hlb har hbr
      exact ⟨.inl ⟨hra, hrb⟩, fun x hax hbx => (commonAncestor_least hla hlb hax hbx).2.2⟩

/-- The common supertype of two well-formed types is above both, or left open; for
    two classes with chains to the same root it is above both and below everything
    on both chains, itself being there unless it is Object and one of the two. -/
theorem commonSuperclass_least (p : ClassPath) (history : List (Facet × Descriptor))
    (a b : Descriptor) :
    let r := ((p.commonSuperclass a b).run (p.memoAfter history)).1
    (a.WellFormed → b.WellFormed → r = Descriptor.unknown ∨ p.IsA a r ∧ p.IsA b r) ∧
    (∀ root, p.IsClass a → p.IsClass b → p.Up a root → p.Up b root →
      p.superclass root = .ok none →
      (p.IsA a r ∧ p.IsA b r) ∧
      (p.Up a r ∧ p.Up b r ∨
        r = Descriptor.object ∧ (a = Descriptor.object ∨ b = Descriptor.object)) ∧
      ∀ x, p.Up a x → p.Up b x → p.Up r x) := by
  intro r
  constructor
  · intro hwa hwb
    exact (commonSuperclass_bounds hwa hwb _ (recalling_after collects_isA history)).1
  · intro root ha hb har hbr hroot
    have hleast := commonOfClasses_least (m := p.memoAfter history) ha hb har hbr hroot
    rw [← commonSuperclass_eq_commonOfClasses ha.namesClass hb.namesClass] at hleast
    refine ⟨?_, hleast⟩
    rcases hleast.1 with ⟨hra, hrb⟩ | ⟨hr, -⟩
    · exact ⟨isA_of_up hra, isA_of_up hrb⟩
    · simp only [r, hr]
      exact ⟨.object a, .object b⟩

end ClassPath

/-! ## Two classes of the same kind -/

namespace Sample

def staff : ClassPath :=
  pathOf [named Descriptor.object none 1 [] [], named "Lq/Person;" (some Descriptor.object) 1 [] [],
    named "Lq/Clerk;" (some "Lq/Person;") 1 [] [], named "Lq/Guard;" (some "Lq/Person;") 1 [] []]

end Sample

open Sample in
theorem clerk_and_guard :
    let r := ((staff.commonSuperclass "Lq/Clerk;" "Lq/Guard;").run (staff.memoAfter [])).1
    r = "Lq/Person;" ∧ staff.Up r Descriptor.object ∧
      staff.IsA "[Lq/Clerk;" "[Lq/Person;" ∧ staff.IsA "[Lq/Guard;" "[Lq/Person;" := by
  have hup (d : Descriptor) (hd : staff.Parent d "Lq/Person;") : staff.Up d Descriptor.object :=
    .head hd (.single (by decide +kernel))
  have hclerk := hup "Lq/Clerk;" (by decide +kernel)
  have hguard := hup "Lq/Guard;" (by decide +kernel)
  have hleast := (staff.commonSuperclass_least [] "Lq/Clerk;" "Lq/Guard;").2 Descriptor.object
    (by decide +kernel) (by decide +kernel) hclerk hguard (by decide +kernel)
  have harrays := (staff.commonSuperclass_least [] "[Lq/Clerk;" "[Lq/Guard;").1
    ⟨by decide +kernel, by decide +kernel⟩ ⟨by decide +kernel, by decide +kernel⟩
  have hr : ((staff.commonSuperclass "[Lq/Clerk;" "[Lq/Guard;").run (staff.memoAfter [])).1 =
      "[Lq/Person;" := by decide +kernel
  rw [hr] at harrays
  exact ⟨by decide +kernel, hleast.2.2 _ hclerk hguard, harrays.resolve_left (by decide)⟩

end SymbolicDex
