import SymbolicDex.Proofs.Hierarchy.LayoutStability
import SymbolicDex.Proofs.Hierarchy.SlotStability

/- Members named through a class above. A lookup whose member belongs to a class
   that the accessor may not name asks for the same offset or slot again in the
   first class above that it may name. Since tables are kept by subclasses, what
   is found there is the same member.

   What is proved:
     1. `firstAccessible_ok`: the walk up ends at a superclass that the accessor
        may name.
     2. `resolveField_ok`, `resolveMethod_ok`: where the answer of a lookup comes
        from.
     3. `fieldAt_kept`, `methodAt_kept`: a table means the same members as that
        of any class below.
     4. `resolution_keeps_member`: so the answer has the name and type of the
        member of the object, and names a class that the accessor may name. This
        needs that no class is above itself and that arrays and the unknown class
        are not defined; `member_changes_on_the_way` shows what happens else. -/
namespace SymbolicDex

namespace ClassPath

open Vtable FieldLayout

variable {p : ClassPath} {m : Memo} {d object accessor : Descriptor} {c c' : ClassDef} {n : Nat}

/-! ## Lookups -/

theorem ask_ok {α : Type} {q : Query (Except MissingClass α)} {a : α}
    (h : ((Lookup.ask q).run.run m).1 = .ok a) :
    (q.run m).1 = .ok a ∧ ((Lookup.ask q).run.run m).2 = (q.run m).2 := by
  obtain ⟨r, hr, h, hend⟩ := Fallible.bind_ok h
  cases r with
  | ok b =>
    cases h
    exact ⟨Except.ok.inj hr, hend⟩
  | error e => cases h

theorem known_ok {α : Type} {x : Except MissingClass α} {a : α}
    (h : ((Lookup.known x).run.run m).1 = .ok a) :
    x = .ok a ∧ ((Lookup.known x).run.run m).2 = m := by
  cases x with
  | ok b =>
    cases h
    exact ⟨rfl, rfl⟩
  | error e => cases h

variable (p) in
/-- `c'` is the definition of the superclass of `c`. -/
def Extends (c c' : ClassDef) : Prop :=
  ∃ s, c.superclass = some s ∧ p.definition s = .ok c'

theorem firstAccessible_ok {member : String} {count : Nat}
    (h : p.firstAccessible accessor member count c = .ok c') :
    c'.accessibleFrom accessor = true ∧ Relation.ReflTransGen p.Extends c c' := by
  induction count generalizing c with
  | zero => cases h
  | succ count ih =>
    simp only [firstAccessible] at h
    split at h
    · next hc =>
      cases h
      exact ⟨hc, .refl⟩
    · split at h
      · cases h
      · next s hs =>
        split at h
        · cases h
        · next c₁ hc₁ =>
          obtain ⟨hacc, hup⟩ := ih h
          exact ⟨hacc, hup.head ⟨s, hs, hc₁⟩⟩

theorem accessibleFrom_ok {member : String}
    (h : ((p.accessibleFrom accessor member object).run.run m).1 = .ok c') :
    c'.accessibleFrom accessor = true ∧
      (∃ c, p.definition object = .ok c ∧ Relation.ReflTransGen p.Extends c c') ∧
      ((p.accessibleFrom accessor member object).run.run m).2 = m := by
  unfold accessibleFrom at h ⊢
  obtain ⟨c, hc, h, hend⟩ := Fallible.bind_ok h
  obtain ⟨hc, hm⟩ := known_ok hc
  rw [hend, hm]
  split at h
  · next c₁ hfirst =>
    cases h
    obtain ⟨hacc, hup⟩ := firstAccessible_ok hfirst
    exact ⟨hacc, ⟨c, hc, hup⟩, rfl⟩
  · cases h

/-- Naming a member `own` of a class `owner`: it is named as it is if the
    accessor may name its class. Else a class above that may be named is asked for
    its member at the same place, and `finish` makes a name of that. -/
theorem named_ok {α β : Type} {own b : β} {owner : Descriptor} {member : String}
    (memberOf : Descriptor → Query (Except MissingClass (Option α)))
    (through : Descriptor → α → β) {finish : ClassDef → Option α → Lookup β}
    (hfinish : ∀ c r m, ((finish c r).run.run m).1 = .ok b →
      ∃ v, r = some v ∧ b = through c.descriptor v)
    (h : ((do
      let o ← Lookup.known (p.definition owner)
      if o.accessibleFrom accessor then return own
      else
        let c ← p.accessibleFrom accessor member object
        let r ← Lookup.ask (memberOf c.descriptor)
        finish c r : Lookup β).run.run m).1 = .ok b) :
    (b = own ∧ ∃ c, p.definition owner = .ok c ∧ c.accessibleFrom accessor = true) ∨
      ∃ c c' v, p.definition object = .ok c ∧ Relation.ReflTransGen p.Extends c c' ∧
        c'.accessibleFrom accessor = true ∧ ((memberOf c'.descriptor).run m).1 = .ok (some v) ∧
        b = through c'.descriptor v := by
  obtain ⟨o, ho, h, -⟩ := Fallible.bind_ok h
  obtain ⟨ho, hm⟩ := known_ok ho
  rw [hm] at h
  split at h
  · next hacc =>
    cases h
    exact .inl ⟨rfl, o, ho, hacc⟩
  · obtain ⟨c', hc', h, -⟩ := Fallible.bind_ok h
    obtain ⟨hacc, ⟨c, hc, hup⟩, hm⟩ := accessibleFrom_ok hc'
    rw [hm] at h
    obtain ⟨r, hr, h, -⟩ := Fallible.bind_ok h
    obtain ⟨hr, -⟩ := ask_ok hr
    obtain ⟨v, rfl, hb⟩ := hfinish c' r _ h
    exact .inr ⟨c, c', v, hc, hup, hacc, hr, hb⟩

theorem resolveField_ok {f : FieldRef}
    (h : ((p.resolveField accessor object n).run.run m).1 = .ok f) :
    ∃ g, ((p.fieldAt object n).run m).1 = .ok (some g) ∧
      ((f = g ∧ ∃ c, p.definition g.owner = .ok c ∧ c.accessibleFrom accessor = true) ∨
        ∃ c c' v, p.definition object = .ok c ∧ Relation.ReflTransGen p.Extends c c' ∧
          c'.accessibleFrom accessor = true ∧
          ((p.fieldAt c'.descriptor n).run ((p.fieldAt object n).run m).2).1 = .ok (some v) ∧
          f = ⟨c'.descriptor, v.name, v.type⟩) := by
  obtain ⟨r, hr, h, -⟩ := Fallible.bind_ok h
  obtain ⟨hr, hm⟩ := ask_ok hr
  rw [hm] at h
  cases r with
  | none => cases h
  | some g =>
    dsimp only at h
    refine ⟨g, hr, named_ok (p.fieldAt · n) (fun d v => FieldRef.mk d v.name v.type)
      (fun c r m hfinish => ?_) h⟩
    cases r with
    | none => cases hfinish
    | some v =>
      cases hfinish
      exact ⟨v, rfl, rfl⟩

theorem resolveMethod_ok {f : MethodRef} (harray : object.isArray = false)
    (h : ((p.resolveMethod accessor object n false).run.run m).1 = .ok f) :
    ∃ e, ((p.methodAt object n).run m).1 = .ok (some e) ∧
      ((f = e.method ∧ ∃ c, p.definition e.method.owner = .ok c ∧
          c.accessibleFrom accessor = true) ∨
        ∃ c c' v, p.definition object = .ok c ∧ Relation.ReflTransGen p.Extends c c' ∧
          c'.accessibleFrom accessor = true ∧
          ((p.methodAt c'.descriptor n).run ((p.methodAt object n).run m).2).1 = .ok (some v) ∧
          f = v.method.withOwner c'.descriptor) := by
  obtain ⟨r, hr, h, -⟩ := Fallible.bind_ok h
  obtain ⟨hr, hm⟩ := ask_ok hr
  rw [hm] at h
  cases r with
  | none => cases h
  | some e =>
    simp only [harray, Bool.or_self, Bool.false_eq_true, if_false] at h
    refine ⟨e, hr, named_ok (p.methodAt · n) (fun d v => v.method.withOwner d)
      (fun c r m hfinish => ?_) h⟩
    cases r with
    | none => cases hfinish
    | some v =>
      cases hfinish
      exact ⟨v, rfl, rfl⟩

/-! ## The class above means the same members -/

theorem fieldAt_of_layout {l : Computed FieldLayout} {r : Option FieldRef}
    (hl : ((p.layout d).run m).1 = .ok l) (h : ((p.fieldAt d n).run m).1 = .ok r) :
    l.value.fieldAt? n = r := by
  change ((p.layout d).run m).1.map (fun l => l.value.fieldAt? n) = .ok r at h
  rw [hl] at h
  exact Except.ok.inj h

theorem methodAt_of_vtable {t : Computed Vtable} {r : Option VtableEntry}
    (ht : ((p.vtable d).run m).1 = .ok t) (h : ((p.methodAt d n).run m).1 = .ok r) :
    t.value[n]? = r := by
  change ((p.vtable d).run m).1.map (fun t => t.value[n]?) = .ok r at h
  rw [ht] at h
  exact Except.ok.inj h

section Kept

variable (hnames : ∀ d, d = Descriptor.unknown ∨ d.isArray = true → p.definition? d = none)
include hnames

/-- Where arrays and the unknown class are not defined, what is defined is a
    class. -/
theorem classDefinition_of_definition (h : p.definition d = .ok c) :
    p.classDefinition d = .ok c := by
  unfold definition at h
  cases hd : p.definition? d with
  | none => simp [hd] at h
  | some c' =>
    obtain rfl : c' = c := by simpa [hd] using h
    by_cases hclass : d = Descriptor.unknown ∨ d.isArray = true
    · rw [hnames d hclass] at hd
      cases hd
    · obtain ⟨hu, ha⟩ := not_or.1 hclass
      simp [classDefinition, shape, hu, ha, hd]

theorem below_of_extends (hc : p.classDefinition d = .ok c) (h : p.Extends c c')
    (fallback : Bool) :
    p.Below fallback d c'.descriptor ∧ p.classDefinition c'.descriptor = .ok c' := by
  obtain ⟨s, hs, hdef⟩ := h
  have hc' := classDefinition_of_definition hnames hdef
  have hname : c'.descriptor = s := definition?_descriptor (definition?_of_classDefinition hc')
  subst hname
  have howner := tableOwner_of_classDefinition hc'
  have hbelow := below_superclass hc hs (by rw [howner]; exact hasTables_iff.2 ⟨c', hc'⟩) fallback
  rw [howner] at hbelow
  exact ⟨hbelow, hc'⟩

theorem definition_of_extends (hc : p.classDefinition d = .ok c)
    (hup : Relation.ReflTransGen p.Extends c c') : p.definition c'.descriptor = .ok c' := by
  induction hup using Relation.ReflTransGen.head_induction_on generalizing d with
  | refl =>
    have hd := definition?_of_classDefinition hc
    simp [definition, definition?_descriptor hd, hd]
  | head hstep _ ih => exact ih (below_of_extends hnames hc hstep false).2

/-- An offset that a class above has, it has with the same field. -/
theorem fieldAt_kept (h : p.Orderly m) (hsettled : ∀ d, p.Settled false d)
    (hc : p.classDefinition d = .ok c) (hup : Relation.ReflTransGen p.Extends c c')
    {l : Computed FieldLayout} (hl : m.layouts.lookup d = some l) :
    ∃ l', ((p.layout c'.descriptor).run m).1 = .ok l' ∧
      ∀ offset f, l'.value.fieldAt? offset = some f → l.value.fieldAt? offset = some f := by
  induction hup using Relation.ReflTransGen.head_induction_on generalizing d l with
  | refl =>
    have hname : c'.descriptor = d := definition?_descriptor (definition?_of_classDefinition hc)
    have howner := tableOwner_of_classDefinition hc
    have hfound := layout_remembered (m := m) (d := d) (l := l)
      (by rw [howner]; exact hasTables_iff.2 ⟨c', hc⟩) (by rwa [howner])
    exact ⟨l, by rw [hname, hfound], fun _ _ hf => hf⟩
  | head hstep _ ih =>
    obtain ⟨hbelow, hc₁⟩ := below_of_extends hnames hc hstep false
    obtain ⟨l₁, hl₁, hkept⟩ := h.layout_above (hsettled d) hbelow hl
    obtain ⟨l', hl', hkept'⟩ := ih hc₁ hl₁
    exact ⟨l', hl', fun offset f hf => hkept offset f (hkept' offset f hf)⟩

/-- A slot that a class above has, it has with the same signature. -/
theorem methodAt_kept (h : p.Orderly m) (hsettled : ∀ d, p.Settled true d)
    (hc : p.classDefinition d = .ok c) (hup : Relation.ReflTransGen p.Extends c c')
    {t : Computed Vtable} (ht : m.vtables.lookup d = some t) :
    ∃ t', ((p.vtable c'.descriptor).run m).1 = .ok t' ∧ SlotsKept t'.value t.value := by
  induction hup using Relation.ReflTransGen.head_induction_on generalizing d t with
  | refl =>
    have hname : c'.descriptor = d := definition?_descriptor (definition?_of_classDefinition hc)
    have howner := tableOwner_of_classDefinition hc
    have hfound := vtable_remembered (m := m) (d := d) (t := t)
      (by rw [howner]; exact hasTables_iff.2 ⟨c', hc⟩) (by rwa [howner])
    exact ⟨t, by rw [hname, hfound], SlotsKept.refl _⟩
  | head hstep _ ih =>
    obtain ⟨hbelow, hc₁⟩ := below_of_extends hnames hc hstep true
    obtain ⟨t₁, ht₁, hkept⟩ := h.vtable_above (hsettled d) hbelow ht
    obtain ⟨t', ht', hkept'⟩ := ih hc₁ ht₁
    exact ⟨t', ht', hkept'.trans hkept⟩

end Kept

/-! ## Identity of the member -/

section Identity

variable (p) (history : List (Facet × Descriptor)) (accessor object : Descriptor) (n : Nat)

/-- A field that the accessor is given for an offset has the name and type of
    the field that the object has there, and names a class that is public or in
    the accessor's package. -/
def KeepsField : Prop :=
  ∀ f, ((p.resolveField accessor object n).run.run (p.memoAfter history)).1 = .ok f →
    ∃ g, ((p.fieldAt object n).run (p.memoAfter history)).1 = .ok (some g) ∧
      f.name = g.name ∧ f.type = g.type ∧
      ∃ c, p.definition f.owner = .ok c ∧ c.accessibleFrom accessor = true

/-- Likewise for a method that is given for a slot. -/
def KeepsMethod : Prop :=
  ∀ f, ((p.resolveMethod accessor object n false).run.run (p.memoAfter history)).1 = .ok f →
    ∃ e, ((p.methodAt object n).run (p.memoAfter history)).1 = .ok (some e) ∧
      f.name = e.method.name ∧ f.prototype = e.method.prototype ∧
      ∃ c, p.definition f.owner = .ok c ∧ c.accessibleFrom accessor = true

/-- No class is above itself, in the sense in which tables are inherited. -/
def Acyclic (fallback : Bool) : Prop := ∀ d, ¬ Relation.TransGen (p.Below fallback) d d

variable {p history accessor object n}

section Acyclic

variable (hnames : ∀ d, d = Descriptor.unknown ∨ d.isArray = true → p.definition? d = none)
include hnames

theorem keepsField_of_acyclic (hacyclic : p.Acyclic false) :
    p.KeepsField history accessor object n := by
  have hsettled := settled_of_acyclic hacyclic
  have horderly := p.orderly_after history
  unfold KeepsField
  generalize p.memoAfter history = m at horderly
  intro f hf
  obtain ⟨g, hg, hcases⟩ := resolveField_ok hf
  refine ⟨g, hg, ?_⟩
  rcases hcases with ⟨rfl, c, hc, hacc⟩ | ⟨c, c', v, hc, hup, hacc, hv, rfl⟩
  · exact ⟨rfl, rfl, c, hc, hacc⟩
  · have hclass := classDefinition_of_definition hnames hc
    have hout := horderly.layout_outcome object
    rw [tableOwner_of_classDefinition hclass] at hout
    obtain ⟨l, hl, hlookup⟩ := hout.answer (hasTables_iff.2 ⟨c, hclass⟩) (hsettled object)
    -- the class above is asked in the memo that the object's layout was left in
    obtain ⟨l', hl', hkept⟩ :=
      fieldAt_kept hnames (horderly.layout object) hsettled hclass hup hlookup
    have hg' : l.value.fieldAt? n = some g := fieldAt_of_layout hl hg
    have hv' : l'.value.fieldAt? n = some v := fieldAt_of_layout hl' hv
    obtain rfl : v = g := Option.some.inj ((hkept n v hv').symm.trans hg')
    exact ⟨rfl, rfl, c', definition_of_extends hnames hclass hup, hacc⟩

theorem keepsMethod_of_acyclic (hacyclic : p.Acyclic true) (harray : object.isArray = false) :
    p.KeepsMethod history accessor object n := by
  have hsettled := settled_of_acyclic hacyclic
  have horderly := p.orderly_after history
  unfold KeepsMethod
  generalize p.memoAfter history = m at horderly
  intro f hf
  obtain ⟨e, he, hcases⟩ := resolveMethod_ok harray hf
  refine ⟨e, he, ?_⟩
  rcases hcases with ⟨rfl, c, hc, hacc⟩ | ⟨c, c', v, hc, hup, hacc, hv, rfl⟩
  · exact ⟨rfl, rfl, c, hc, hacc⟩
  · have hclass := classDefinition_of_definition hnames hc
    have hout := horderly.vtable_outcome object
    rw [tableOwner_of_classDefinition hclass] at hout
    obtain ⟨t, ht, hlookup⟩ := hout.answer (hasTables_iff.2 ⟨c, hclass⟩) (hsettled object)
    obtain ⟨t', ht', hkept⟩ :=
      methodAt_kept hnames (horderly.vtable object) hsettled hclass hup hlookup
    have he' : t.value[n]? = some e := methodAt_of_vtable ht he
    have hv' : t'.value[n]? = some v := methodAt_of_vtable ht' hv
    obtain ⟨hname, hprototype⟩ := hkept.same n v e hv' he'
    exact ⟨hname.symm, hprototype.symm, c', definition_of_extends hnames hclass hup, hacc⟩

end Acyclic

end Identity

/-- What a lookup gives has the name and type, or name and prototype, of the
    member that the object has at the place, and names a class that the accessor
    may name. -/
theorem resolution_keeps_member (p : ClassPath) (history : List (Facet × Descriptor))
    (accessor object : Descriptor) (n : Nat)
    (hnames : ∀ d, d = Descriptor.unknown ∨ d.isArray = true → p.definition? d = none) :
    (p.Acyclic false → p.KeepsField history accessor object n) ∧
      (p.Acyclic true → object.isArray = false → p.KeepsMethod history accessor object n) :=
  ⟨keepsField_of_acyclic hnames, keepsMethod_of_acyclic hnames⟩

/-! ## Class paths by rank -/

variable (p) in
/-- `d` names `s` as its superclass or as an interface. -/
def Declares (d s : Descriptor) : Prop :=
  ∃ c, p.definition? d = some c ∧ s ∈ c.superclass.toList ++ c.interfaces

/-- What always goes down does not come back. -/
theorem not_transGen_of_rank {r : Descriptor → Descriptor → Prop} (rank : Descriptor → Nat)
    (h : ∀ d s, r d s → rank s < rank d) (d : Descriptor) : ¬ Relation.TransGen r d d := by
  have hdown : ∀ s, Relation.TransGen r d s → rank s < rank d := by
    intro s hs
    induction hs with
    | single hs => exact h _ _ hs
    | tail _ hstep ih => exact Nat.lt_trans (h _ _ hstep) ih
  exact fun hloop => Nat.lt_irrefl _ (hdown d hloop)

/-- What holds of every definition and each name in it holds of what is declared. -/
theorem forall_declares {R : Descriptor → Descriptor → Prop}
    (h : ∀ set ∈ p.sets, ∀ c ∈ set.classes, ∀ s ∈ c.superclass.toList ++ c.interfaces,
      R c.descriptor s) (d s : Descriptor) (hds : p.Declares d s) : R d s := by
  obtain ⟨c, hc, hs⟩ := hds
  obtain ⟨set, hset, hfind⟩ := List.exists_of_findSome?_eq_some hc
  have hR := h set hset c (List.mem_of_find?_eq_some hfind) s hs
  rwa [definition?_descriptor hc] at hR

theorem not_declares_self (rank : Descriptor → Nat)
    (h : ∀ set ∈ p.sets, ∀ c ∈ set.classes, ∀ s ∈ c.superclass.toList ++ c.interfaces,
      rank s < rank c.descriptor) (d : Descriptor) : ¬ Relation.TransGen p.Declares d d :=
  not_transGen_of_rank rank (forall_declares h) d

theorem acyclic_of_rank {fallback : Bool} (rank : Descriptor → Nat)
    (h : ∀ d ∈ p.definedNames, ∀ s ∈ (p.above? fallback d).toList, rank s < rank d) :
    p.Acyclic fallback := by
  refine not_transGen_of_rank rank fun d s hds => ?_
  have hd : d ∈ p.definedNames := by
    cases hc : p.classDefinition d with
    | ok c => exact mem_definedNames (definition?_of_classDefinition hc)
    | error e => simp [Below, above?, hc] at hds
  exact h d hd s (by simpa [Below] using hds)

theorem names_of_defined
    (h : ∀ d ∈ p.definedNames, d ≠ Descriptor.unknown ∧ d.isArray = false) (d : Descriptor)
    (hd : d = Descriptor.unknown ∨ d.isArray = true) : p.definition? d = none := by
  cases hc : p.definition? d with
  | none => rfl
  | some c =>
    obtain ⟨hu, ha⟩ := h d (mem_definedNames hc)
    rcases hd with hd | hd
    · exact absurd hd hu
    · rw [ha] at hd
      cases hd

end ClassPath

/-! ## Classes that are not visible -/

namespace Sample

def named (descriptor : Descriptor) (superclass : Option Descriptor) (access : Nat)
    (fields : List FieldDef) (methods : List MethodDef) : ClassDef :=
  { descriptor := descriptor, access := ⟨access⟩, superclass := superclass, fields := fields,
    methods := methods }

/-- A class path of Android 4.4. -/
def pathOf (classes : List ClassDef) : ClassPath := ⟨⟨19, noArt⟩, [⟨classes⟩], ⟨[]⟩⟩

def getter (name : String) : MethodDef := { name := name, prototype := ⟨[], "I"⟩, access := ⟨1⟩ }

/-- What is declared in a hidden class is named through a public one below. -/
def visible : ClassPath :=
  pathOf [named Descriptor.object none 1 [] [],
    named "Lp/Hidden;" (some Descriptor.object) 0 [⟨"count", "I", ⟨1⟩⟩] [getter "size"],
    named "Lq/Visible;" (some "Lp/Hidden;") 1 [] []]

def visibleRank (d : Descriptor) : Nat :=
  if d = "Lq/Visible;" then 2 else if d = "Lp/Hidden;" then 1 else 0

end Sample

open Sample in
theorem visible_keeps_member :
    ((visible.resolveField "Lq/User;" "Lq/Visible;" 8).run.run (visible.memoAfter [])).1 =
        .ok ⟨"Lq/Visible;", "count", "I"⟩ ∧
      visible.KeepsField [] "Lq/User;" "Lq/Visible;" 8 ∧
      ((visible.resolveMethod "Lq/User;" "Lq/Visible;" 0 false).run.run (visible.memoAfter [])).1 =
        .ok ⟨"Lq/Visible;", "size", ⟨[], "I"⟩⟩ ∧
      visible.KeepsMethod [] "Lq/User;" "Lq/Visible;" 0 := by
  have hnames := ClassPath.names_of_defined (p := visible) (by decide +kernel)
  refine ⟨by decide +kernel, ?_, by decide +kernel, ?_⟩
  · exact (visible.resolution_keeps_member [] "Lq/User;" "Lq/Visible;" 8 hnames).1
      (ClassPath.acyclic_of_rank visibleRank (by decide +kernel))
  · exact (visible.resolution_keeps_member [] "Lq/User;" "Lq/Visible;" 0 hnames).2
      (ClassPath.acyclic_of_rank visibleRank (by decide +kernel)) (by decide +kernel)

namespace Sample

/-- A class defined under the name of an array, which has Object's fields. -/
def arrays : ClassPath :=
  pathOf [named Descriptor.object none 0 [⟨"monitor", "I", ⟨1⟩⟩] [],
    named "Lq/Y;" none 1 [⟨"other", "J", ⟨1⟩⟩] [],
    named "[Lp/X;" (some "Lq/Y;") 0 [] []]

/-- Object below a class whose own superclass Object stands in for. -/
def ring (superclass : Descriptor) : ClassPath :=
  pathOf [named Descriptor.object (some "Lq/X;") 0 [] [],
    named "Lq/X;" (some superclass) 1 [⟨"x", "I", ⟨1⟩⟩] [getter "x"],
    named "Lp/D;" (some Descriptor.object) 0 [⟨"z", "I", ⟨1⟩⟩] [getter "z"]]

def ringRank (d : Descriptor) : Nat :=
  if d = "Lp/D;" then 3 else if d = Descriptor.object then 2 else if d = "Lq/X;" then 1 else 0

end Sample

open Sample in
/-- No class declares itself as a supertype, directly or not, and still another
    member is given: where a class is defined under the name of an array, where a
    class below which Object is names the unknown class as its superclass, and for
    methods also where it names a missing one. -/
theorem member_changes_on_the_way :
    ((∀ d, ¬ Relation.TransGen arrays.Declares d d) ∧
      ¬ arrays.KeepsField [] "Lq/T;" "[Lp/X;" 8) ∧
    ((∀ d, ¬ Relation.TransGen (ring Descriptor.unknown).Declares d d) ∧
      ¬ (ring Descriptor.unknown).KeepsField [(.layout, "Lq/X;")] "Lq/T;" "Lp/D;" 8) ∧
    ((∀ d, ¬ Relation.TransGen (ring "Lq/Missing;").Declares d d) ∧
      ¬ (ring "Lq/Missing;").KeepsMethod [(.vtable, "Lq/X;")] "Lq/T;" "Lp/D;" 0) := by
  refine ⟨⟨?_, fun h => ?_⟩, ⟨?_, fun h => ?_⟩, ⟨?_, fun h => ?_⟩⟩
  · exact ClassPath.not_declares_self (fun d => if d = "[Lp/X;" then 1 else 0) (by decide +kernel)
  · obtain ⟨g, hg, hname, -⟩ := h ⟨"Lq/Y;", "other", "J"⟩ (by decide +kernel)
    have hg' : ((arrays.fieldAt "[Lp/X;" 8).run (arrays.memoAfter [])).1 =
      .ok (some ⟨Descriptor.object, "monitor", "I"⟩) := by decide +kernel
    cases hg.symm.trans hg'
    exact absurd hname (by decide)
  · exact ClassPath.not_declares_self ringRank (by decide +kernel)
  · obtain ⟨g, hg, hname, -⟩ := h ⟨"Lq/X;", "x", "I"⟩ (by decide +kernel)
    have hg' : (((ring Descriptor.unknown).fieldAt "Lp/D;" 8).run
      ((ring Descriptor.unknown).memoAfter [(.layout, "Lq/X;")])).1 =
      .ok (some ⟨"Lp/D;", "z", "I"⟩) := by decide +kernel
    cases hg.symm.trans hg'
    exact absurd hname (by decide)
  · exact ClassPath.not_declares_self ringRank (by decide +kernel)
  · obtain ⟨e, he, hname, -⟩ := h ⟨"Lq/X;", "x", ⟨[], "I"⟩⟩ (by decide +kernel)
    have he' : (((ring "Lq/Missing;").methodAt "Lp/D;" 0).run
      ((ring "Lq/Missing;").memoAfter [(.vtable, "Lq/X;")])).1 =
      .ok (some (VtableEntry.declared "Lp/D;" (getter "z"))) := by decide +kernel
    cases he.symm.trans he'
    exact absurd hname (by decide)

end SymbolicDex
