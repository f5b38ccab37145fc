import SymbolicDex.Proofs.Hierarchy.CommonSupertypes
import SymbolicDex.Proofs.Hierarchy.Questions

/- When a table counts as complete. Circular declarations leave partial tables
   behind, which are remembered and used for other classes later on. Still the
   flag of a table is exact: it is set if everything that the table was made of is
   defined and no circle can be reached from the class (`Intact`), whatever was
   asked before.

   What is proved:
     1. `intact_iff`: a class is intact if all that it names is.
     2. `collects_flagged`: the flag of an interface table says whether the class is
        intact. An interface that is in the table already is left out, but then it
        came with a table whose flag speaks for it.
     3. `start_flag`: what a class is told by the table of the class above.
     4. `flags_exact`: the flags of the three tables, after any history. -/
namespace SymbolicDex

namespace ClassPath

open Query TableKind

variable (p : ClassPath)

/-- Over the edges `r`, everything from `d` on is defined, and no circle is
    reached. -/
structure Intact (r : Descriptor → Descriptor → Prop) (d : Descriptor) : Prop where
  defined : ∀ s, Relation.ReflTransGen r d s → p.Defined s
  no_circle : ¬ ∃ s, Relation.ReflTransGen r d s ∧ Relation.TransGen r s s

variable {p} {r : Descriptor → Descriptor → Prop} {d s : Descriptor} {c : ClassDef}

theorem Intact.above (h : p.Intact r d) (hs : Relation.ReflTransGen r d s) : p.Intact r s where
  defined e he := h.defined e (hs.trans he)
  no_circle := fun ⟨e, he, hcircle⟩ => h.no_circle ⟨e, hs.trans he, hcircle⟩

theorem intact_iff (hd : p.Defined d) : p.Intact r d ↔ ∀ s, r d s → p.Intact r s := by
  refine ⟨fun h s hs => h.above (.single hs), fun h => ⟨fun e he => ?_, ?_⟩⟩
  · rcases Relation.ReflTransGen.cases_head he with rfl | ⟨s, hs, hrest⟩
    · exact hd
    · exact (h s hs).defined e hrest
  · rintro ⟨e, he, hcircle⟩
    rcases Relation.ReflTransGen.cases_head he with rfl | ⟨s, hs, hrest⟩
    -- a circle through `d` is reached from the class that comes after `d` on it
    · obtain ⟨s, hs, hback⟩ := Relation.TransGen.head'_iff.1 hcircle
      exact (h s hs).no_circle ⟨_, hback, hcircle⟩
    · exact (h s hs).no_circle ⟨e, hrest, hcircle⟩

/-! ## Interfaces -/

/-- The table has only names with `named`, and its flag says whether `intact`. -/
structure Flagged (named : Descriptor → Prop) (intact : Prop) (t : Computed InterfaceMap) :
    Prop where
  named : ∀ i, (t.value.get? i).isSome = true → named i
  complete : t.complete = true ↔ intact

section Flagged

variable {named named' : Descriptor → Prop} {intact intact' : Prop}
  {t sub : Computed InterfaceMap}

theorem Flagged.mono (h : Flagged named intact t) (hn : ∀ i, named i → named' i)
    (hi : intact ↔ intact') : Flagged named' intact' t :=
  ⟨fun i hi => hn i (h.named i hi), h.complete.trans hi⟩

theorem Flagged.insert {e : InterfaceEntry} (h : Flagged named intact t) (hd : named d) :
    Flagged named intact ⟨t.value.insert d e, t.complete⟩ where
  named i hi := by
    rw [InterfaceMap.get?_insert, Option.isSome_or, Bool.or_eq_true] at hi
    rcases hi with hi | hi
    · exact h.named i hi
    · split at hi
      · next heq => exact heq ▸ hd
      · cases hi
  complete := h.complete

theorem Flagged.insertAll {b : Bool} {entries : List (Descriptor × InterfaceEntry)}
    (h : Flagged named intact t)
    (hentries : ∀ i, ((InterfaceMap.mk entries).get? i).isSome = true → named i)
    (hb : b = true ↔ intact') :
    Flagged named (intact ∧ intact') ⟨t.value.insertAll entries, t.complete && b⟩ where
  named i hi := by
    rw [InterfaceMap.get?_insertAll, Option.isSome_or, Bool.or_eq_true] at hi
    exact hi.elim (h.named i) (hentries i)
  complete := by rw [Bool.and_eq_true, h.complete, hb]

end Flagged

section Collected

variable {I : Memo → Prop} {interfacesOf : Descriptor → Query (Computed InterfaceMap)}

/-- A declared interface that is there already, or is added with what it brings. -/
theorem addInterface_flagged {done : List Descriptor} {acc : Computed InterfaceMap}
    (hacc : Flagged (fun i => ∃ e ∈ done, p.Reaches e i) (∀ e ∈ done, p.Intact p.Declares e) acc)
    (hs : Gives I (Flagged (p.Reaches s) (p.Intact p.Declares s)) (interfacesOf s)) :
    Gives I (Flagged (fun i => ∃ e ∈ done ++ [s], p.Reaches e i)
      (∀ e ∈ done ++ [s], p.Intact p.Declares e)) (p.addInterface interfacesOf acc s) := by
  have hmore (i : Descriptor) : (∃ e ∈ done, p.Reaches e i) → ∃ e ∈ done ++ [s], p.Reaches e i :=
    fun ⟨e, he, hi⟩ => ⟨e, List.mem_append_left _ he, hi⟩
  have hlast (i : Descriptor) (hi : p.Reaches s i) : ∃ e ∈ done ++ [s], p.Reaches e i :=
    ⟨s, List.mem_append_right _ List.mem_cons_self, hi⟩
  simp only [List.forall_mem_append, List.forall_mem_singleton, addInterface]
  refine Gives.ite (fun hthere => Gives.pure ?_)
    fun _ => Gives.bind hs fun sub hsub => Gives.pure ?_
  · obtain ⟨e, he, hes⟩ := hacc.named s hthere
    exact hacc.mono hmore (and_iff_left_of_imp fun h => (h e he).above hes).symm
  · rw [Bool.and_assoc]
    refine ((hacc.mono hmore .rfl).insert (hlast s .refl)).insertAll
      (fun i hi => hlast i (hsub.named i hi)) ?_
    rw [Bool.and_eq_true, hsub.complete, decide_eq_true_iff]
    refine and_iff_right_of_imp fun h => ?_
    obtain ⟨c, hc⟩ := h.defined s .refl
    simp [hc]

theorem collectInterfaces_flagged (hc : p.definition? d = some c)
    (hsuper : ∀ s, c.superclass = some s → (p.isResolved s = true ↔ p.Defined s))
    (hof : ∀ s, p.Declares d s →
      Gives I (Flagged (p.Reaches s) (p.Intact p.Declares s)) (interfacesOf s)) :
    Gives I (Flagged (p.Reaches d) (p.Intact p.Declares d))
      (p.collectInterfaces interfacesOf c) := by
  simp only [collectInterfaces]
  have hempty : Flagged (fun i => ∃ e ∈ ([] : List Descriptor), p.Reaches e i)
      (∀ e ∈ ([] : List Descriptor), p.Intact p.Declares e) ⟨InterfaceMap.empty, true⟩ := by
    refine ⟨?_, by simp⟩
    intro i hi
    cases hi
  have hinterfaces := Gives.foldlM (I := I)
    (J := fun done acc => Flagged (fun i => ∃ e ∈ done, p.Reaches e i)
      (∀ e ∈ done, p.Intact p.Declares e) acc)
    (fun done s acc hs hacc => addInterface_flagged hacc (hof s ((declares_iff hc).2 (.inr hs))))
    [] _ hempty
  refine Gives.bind hinterfaces fun acc hacc => ?_
  rw [List.nil_append] at hacc
  -- from here on the names are those at or above the class
  have hreaches : Flagged (p.Reaches d) (∀ e ∈ c.interfaces, p.Intact p.Declares e) acc := by
    refine hacc.mono ?_ .rfl
    rintro i ⟨e, he, hi⟩
    exact hi.head ((declares_iff hc).2 (.inr he))
  have hself : Flagged (p.Reaches d) (∀ e ∈ c.interfaces, p.Intact p.Declares e)
      (if c.isInterface then ⟨acc.value.insert c.descriptor .inherited, acc.complete⟩
        else acc) := by
    rw [definition?_descriptor hc]
    split
    · exact hreaches.insert .refl
    · exact hreaches
  have hall := intact_iff (r := p.Declares) ⟨c, hc⟩
  simp only [declares_iff hc] at hall
  cases hs : c.superclass with
  | none =>
    refine Gives.pure (hself.mono (fun _ h => h) ?_)
    rw [hall]
    simp [hs]
  | some s =>
    have hdeclares : p.Declares d s := (declares_iff hc).2 (.inl hs)
    refine Gives.bind (hof s hdeclares) fun inherited hinherited => Gives.pure ?_
    rw [Bool.and_assoc]
    have hflag : (p.isResolved s && inherited.complete) = true ↔ p.Intact p.Declares s := by
      rw [Bool.and_eq_true, hsuper s hs, hinherited.complete]
      exact and_iff_right_of_imp fun h => h.defined s .refl
    refine (hself.insertAll (fun i hi => ?_) hflag).mono (fun _ h => h) ?_
    · rw [InterfaceMap.get?_through, Option.isSome_map] at hi
      exact (hinherited.named i hi).head hdeclares
    · rw [hall]
      simp only [hs, Option.some.injEq]
      grind

end Collected

variable (p) in
/-- The flag of the interface table of a class says whether the class is intact. -/
def ExactFlag (d : Descriptor) (t : Computed InterfaceMap) : Prop :=
  d.NamesClass → Flagged (p.Reaches d) (p.Intact p.Declares d) t

theorem collects_flagged (hnames : ∀ d s, p.Declares d s → s.NamesClass) :
    p.Collects p.ExactFlag where
  unknown hd := absurd rfl hd.1
  array d harray hd := by simp [hd.2] at harray
  missing d hmissing _ := by
    refine ⟨fun i => nofun, nofun, fun h => ?_⟩
    obtain ⟨c, hc⟩ := h.defined d .refl
    simp [definition?_of_missing hmissing] at hc
  circular d hcircle _ := ⟨fun i => nofun, nofun, fun h => absurd ⟨d, .refl, hcircle⟩ h.no_circle⟩
  collected d c hc I interfacesOf hof m hm := by
    have hdefined := definition?_of_classDefinition hc
    have h := collectInterfaces_flagged hdefined
      (fun s hs => isResolved_iff (hnames d s ((declares_iff hdefined).2 (.inl hs))))
      (fun s hs => (hof s hs).mono fun t ht => ht (hnames d s hs)) m hm
    exact ⟨fun _ => h.1, h.2⟩

/-! ## Layouts and virtual methods -/

theorem tableOwner_of_namesClass (hd : d.NamesClass) : p.tableOwner d = d := by
  simp only [tableOwner, shape, hd.1, hd.2]
  cases p.definition? d <;> rfl

theorem hasTables_iff_defined (hd : d.NamesClass) : p.hasTables d = true ↔ p.Defined d := by
  rw [hasTables_iff]
  simp only [classDefinition, shape, hd.1, hd.2, Defined]
  cases p.definition? d <;> simp

theorem parent_iff (hc : p.classDefinition d = .ok c) : p.Parent d s ↔ c.superclass = some s := by
  simp [Parent, superclass, classDefinition_ok_iff.1 hc]

/-- How the flag that a class starts with comes about. -/
inductive StartFlag (p : ClassPath) (below : Descriptor → Prop)
    {α : Type} (P : Descriptor → Computed α → Prop) (c : ClassDef) : Bool → Prop where
  | root (hs : c.superclass = none) : StartFlag p below P c true
  | told {s : Descriptor} {t : Computed α} (hs : c.superclass = some s) (hbelow : below s)
      (ht : P s t) : StartFlag p below P c t.complete
  | missing {s : Descriptor} (hs : c.superclass = some s) (hs' : ¬ p.Defined s) :
      StartFlag p below P c false

section Names

variable (hnames : ∀ d s, p.Declares d s → s.NamesClass)
include hnames

/-- A superclass that is defined is the class above. -/
theorem above?_of_defined (hc : p.classDefinition d = .ok c) (hs : c.superclass = some s)
    (hdefined : p.Defined s) (fallback : Bool) :
    p.superclassHasTable c = true ∧ p.Below fallback d s := by
  have hname := hnames d s (declares_of_classDefinition hc (by simp [hs]))
  have howner := tableOwner_of_namesClass (p := p) hname
  have htables : p.hasTables (p.tableOwner s) = true := by
    rwa [howner, hasTables_iff_defined hname]
  refine ⟨by simpa [superclassHasTable, hs] using htables, ?_⟩
  have hbelow := below_superclass hc hs htables fallback
  rwa [howner] at hbelow

theorem superclassHasTable_of_missing (hc : p.classDefinition d = .ok c)
    (hs : c.superclass = some s) (hmissing : ¬ p.Defined s) : p.superclassHasTable c = false := by
  have hname := hnames d s (declares_of_classDefinition hc (by simp [hs]))
  simpa [superclassHasTable, hs, tableOwner_of_namesClass hname] using
    mt (hasTables_iff_defined hname).1 hmissing

/-- A class is told by the class above, unless its superclass is missing. -/
theorem start_flag {α : Type} {k : TableKind α} {P : Descriptor → Computed α → Prop}
    {i : Computed α} (hc : p.classDefinition d = .ok c) (hi : k.Start p P d c i) :
    StartFlag p (p.Below k.fallback d) P c i.complete := by
  cases hs : c.superclass with
  | none =>
    cases hi with
    | first => simpa [hs] using StartFlag.root (p := p) (P := P) hs
    | handed hbelow => simp [Below, above?, hc, hs] at hbelow
  | some s =>
    by_cases hdefined : p.Defined s
    · obtain ⟨hflag, hbelow⟩ := above?_of_defined hnames hc hs hdefined k.fallback
      cases hi with
      | first hnone => simp [Below, hnone] at hbelow
      | handed hbelow' ht =>
        cases hbelow.symm.trans hbelow'
        simpa [hflag] using StartFlag.told (p := p) hs hbelow ht
    · have hmissing := superclassHasTable_of_missing hnames hc hs hdefined
      have hfalse : StartFlag p (p.Below k.fallback d) P c false := .missing hs hdefined
      cases hi with
      | first => simpa [hs] using hfalse
      | handed => simpa [hmissing] using hfalse

/-- Fields are inherited along superclasses only. -/
theorem Below.parent (h : p.Below false d s) : p.Parent d s := by
  cases hc : p.classDefinition d with
  | error e => simp [Below, above?, hc] at h
  | ok c =>
    cases hs : c.superclass with
    | none => simp [Below, above?, hc, hs] at h
    | some s' =>
      have howner := tableOwner_of_namesClass (p := p)
        (hnames d s' (declares_of_classDefinition hc (by simp [hs])))
      simp only [Below, above?, hc, hs, howner] at h
      split at h
      · cases h
        exact (parent_iff hc).2 hs
      · simp at h

theorem layout_flagged : TableKind.layout.HandsDown p (fun _ => True)
    fun d t => t.complete = true ↔ p.Intact p.Parent d where
  enter _ _ _ := trivial
  stored _ _ _ _ := trivial
  circular d hcircle := by
    have hcircle' : Relation.TransGen p.Parent d d :=
      Relation.TransGen.mono (fun _ _ h => Below.parent hnames h) d d hcircle
    exact ⟨nofun, fun h => absurd ⟨d, .refl, hcircle'⟩ h.no_circle⟩
  finished d c i hc hi := by
    refine Gives.pure ?_
    dsimp only
    rw [intact_iff ⟨c, definition?_of_classDefinition hc⟩]
    have hflag := start_flag hnames hc hi
    generalize i.complete = complete at hflag
    cases hflag with
    | root hs => simp [parent_iff hc, hs]
    | told hs _ ht => simpa [parent_iff hc, hs] using ht
    | missing hs hmissing =>
      simp only [parent_iff hc, hs, Option.some.injEq, forall_eq', Bool.false_eq_true, false_iff]
      exact fun h => hmissing (h.defined _ .refl)

/-- From an intact class, tables are inherited along declarations only. -/
theorem Intact.declares_of_below {fallback : Bool} (h : p.Intact p.Declares d)
    (hs : p.Below fallback d s) : p.Declares d s := by
  cases hc : p.classDefinition d with
  | error e => simp [Below, above?, hc] at hs
  | ok c =>
    cases hsuper : c.superclass with
    | none => simp [Below, above?, hc, hsuper] at hs
    | some s' =>
      have hdeclares : p.Declares d s' := declares_of_classDefinition hc (by simp [hsuper])
      obtain ⟨-, hbelow⟩ := above?_of_defined hnames hc hsuper
        (h.defined s' (.single hdeclares)) fallback
      cases hbelow.symm.trans hs
      exact hdeclares

theorem Intact.not_below_self {fallback : Bool} (h : p.Intact p.Declares d) :
    ¬ Relation.TransGen (p.Below fallback) d d := by
  have hup (e : Descriptor) (he : Relation.TransGen (p.Below fallback) d e) :
      Relation.TransGen p.Declares d e := by
    induction he with
    | single hs => exact .single (h.declares_of_below hnames hs)
    | tail _ hs ih => exact ih.tail ((h.above ih.to_reflTransGen).declares_of_below hnames hs)
  exact fun hloop => h.no_circle ⟨d, .refl, hup d hloop⟩

/-- What the interfaces of a class say about its virtual methods. -/
theorem vtableOver_flag (hc : p.classDefinition d = .ok c) (inherited : Vtable) :
    Gives (Recalling p.ExactFlag)
      (fun t => t.complete = true ↔ c.isInterface = true ∨ p.Intact p.Declares d)
      (p.vtableOver inherited c) := by
  have hask := interfaces_gives (collects_flagged hnames)
  have hpreserves {α : Type} {q : Query α} (hq : Composed p (Eq .interfaces) q) :
      Preserves (Recalling p.ExactFlag) q :=
    hq.preserves (fun _ d => (hask d).mono fun _ _ => trivial) nofun nofun
  unfold vtableOver
  refine Gives.ite (fun hi => Gives.pure (by simp [hi])) fun hi => ?_
  have hflag (t : Vtable) : Gives (Recalling p.ExactFlag)
      (fun t => t.complete = true ↔ c.isInterface = true ∨ p.Intact p.Declares d) (do
        return (⟨t, (← p.interfaces c.descriptor).complete⟩ : Computed Vtable)) := by
    rw [definition?_descriptor (definition?_of_classDefinition hc)]
    refine Gives.bind (hask d) fun t' ht' => Gives.pure ?_
    simpa [hi] using (ht' (namesClass_of_classDefinition hc)).complete
  refine Gives.bind (hpreserves (p.directInterfaces_composed rfl _)) fun ifaces _ => ?_
  dsimp only
  split
  · exact Gives.bind (hpreserves (.pure _)) fun t _ => hflag t
  · refine Gives.bind (hpreserves (p.withDefaults_composed rfl _ _ _ _)) fun t _ => ?_
    exact Gives.bind (hpreserves (.pure _)) fun t _ => hflag t

/-- An interface adds nothing of its own, so its flag may be set although it is
    not intact. -/
theorem vtable_flagged : TableKind.vtable.HandsDown p (Recalling p.ExactFlag) fun d t =>
    (p.Intact p.Declares d → t.complete = true) ∧
      ∀ c, p.classDefinition d = .ok c → c.isInterface = false → t.complete = true →
        p.Intact p.Declares d where
  enter d m hm := hm.enter (by decide) d
  stored d t m hm := by
    have hleft := hm.leave .vtable d
    exact ⟨hleft.idle, hleft.recalls⟩
  circular d hcircle := ⟨fun h => absurd hcircle (h.not_below_self hnames), nofun⟩
  finished d c i hc hi := by
    refine Gives.bind (vtableOver_flag hnames hc i.value) fun t ht => Gives.pure ⟨fun h => ?_, ?_⟩
    · refine Bool.and_eq_true_iff.2 ⟨?_, ht.2 (.inr h)⟩
      have hflag := start_flag hnames hc hi
      generalize i.complete = complete at hflag
      cases hflag with
      | root => rfl
      | told hs hbelow hs' => exact hs'.1 (h.above (.single (h.declares_of_below hnames hbelow)))
      | @missing s hs hmissing =>
        have hdeclares : p.Declares d s := declares_of_classDefinition hc (by simp [hs])
        exact absurd (h.defined _ (.single hdeclares)) hmissing
    · intro c' hc' hclass hcomplete
      cases hc.symm.trans hc'
      exact (ht.1 (Bool.and_eq_true_iff.1 hcomplete).2).resolve_left (by simp [hclass])

end Names

/-- Of a class that is defined, the interface table is complete exactly if all that
    is declared above it is defined and no circle is reached. For the layout the
    same holds of the superclasses, and the virtual methods of a class are complete
    exactly if its interfaces are. Names of superclasses and interfaces stand for
    classes here; the declarations may be circular. -/
theorem flags_exact (p : ClassPath) (hnames : ∀ d s, p.Declares d s → s.NamesClass)
    (history : List Question) (d : Descriptor) (c : ClassDef)
    (hc : p.classDefinition d = .ok c) :
    let m := p.memoAfterAsking history
    let interfaces := ((p.interfaces d).run m).1
    (interfaces.complete = true ↔ p.Intact p.Declares d) ∧
      (∃ l, ((p.layout d).run m).1 = .ok l ∧ (l.complete = true ↔ p.Intact p.Parent d)) ∧
      (c.isInterface = false →
        ∃ t, ((p.vtable d).run m).1 = .ok t ∧
          (t.complete = true ↔ interfaces.complete = true)) := by
  intro m interfaces
  have hP := collects_flagged hnames
  have hL := layout_flagged hnames
  have hV := vtable_flagged hnames
  have hkept := kept_after hP hL hV history
  have hdefined : p.hasTables (p.tableOwner d) = true := by
    rw [tableOwner_of_classDefinition hc]
    exact hasTables_iff.2 ⟨c, hc⟩
  have hinterfaces : interfaces.complete = true ↔ p.Intact p.Declares d :=
    ((interfaces_kept hP d m hkept).1 (namesClass_of_classDefinition hc)).complete
  obtain ⟨l, hl, hlflag⟩ := answers_ok hdefined (layout_kept hL d m hkept).1
  obtain ⟨t, ht, htflag⟩ := answers_ok hdefined (vtable_kept hV d m hkept).1
  rw [tableOwner_of_classDefinition hc] at hlflag htflag
  refine ⟨hinterfaces, ⟨l, hl, hlflag⟩, fun hclass => ⟨t, ht, ?_⟩⟩
  rw [hinterfaces]
  exact ⟨htflag.2 c hc hclass, htflag.1⟩

end ClassPath

/-! ## A class below two interfaces that extend each other -/

namespace Sample

def mirror (d extended : Descriptor) : ClassDef :=
  { named d (some Descriptor.object) 513 [] [] with interfaces := [extended] }

def viewer : ClassDef :=
  { named "Lq/Viewer;" (some Descriptor.object) 1 [⟨"size", "I", ⟨1⟩⟩] [] with
    interfaces := ["Lq/Left;"] }

def mirrors : ClassPath :=
  pathOf [named Descriptor.object none 1 [] [], mirror "Lq/Left;" "Lq/Right;",
    mirror "Lq/Right;" "Lq/Left;", viewer]

theorem viewer_not_intact : ¬ mirrors.Intact mirrors.Declares "Lq/Viewer;" := by
  have hleft : mirrors.Declares "Lq/Left;" "Lq/Right;" :=
    ⟨mirror "Lq/Left;" "Lq/Right;", by decide +kernel, by decide +kernel⟩
  have hright : mirrors.Declares "Lq/Right;" "Lq/Left;" :=
    ⟨mirror "Lq/Right;" "Lq/Left;", by decide +kernel, by decide +kernel⟩
  have hviewer : mirrors.Declares "Lq/Viewer;" "Lq/Left;" :=
    ⟨viewer, by decide +kernel, by decide +kernel⟩
  exact fun h => h.no_circle ⟨_, .single hviewer, .tail (.single hleft) hright⟩

theorem viewer_superclasses_intact : mirrors.Intact mirrors.Parent "Lq/Viewer;" := by
  have hviewer : mirrors.classDefinition "Lq/Viewer;" = .ok viewer := by decide +kernel
  have hobject : mirrors.classDefinition Descriptor.object =
    .ok (named Descriptor.object none 1 [] []) := by decide +kernel
  rw [ClassPath.intact_iff ⟨_, ClassPath.definition?_of_classDefinition hviewer⟩]
  intro s hs
  obtain rfl : Descriptor.object = s := by
    simpa [ClassPath.parent_iff hviewer, viewer, named] using hs
  rw [ClassPath.intact_iff ⟨_, ClassPath.definition?_of_classDefinition hobject⟩]
  intro s hs
  simp [ClassPath.parent_iff hobject, named] at hs

end Sample

open Sample in
/-- The circle shows in the interfaces and in the virtual methods of the class
    below it, and not in its layout, although its parts were asked for before. -/
theorem viewer_flags :
    let m := mirrors.memoAfterAsking [.interfaces "Lq/Right;", .vtable "Lq/Left;"]
    ((mirrors.interfaces "Lq/Viewer;").run m).1.complete = false ∧
      (∃ l, ((mirrors.layout "Lq/Viewer;").run m).1 = .ok l ∧ l.complete = true) ∧
      ∃ t, ((mirrors.vtable "Lq/Viewer;").run m).1 = .ok t ∧ t.complete = false := by
  intro m
  have hnames : ∀ d s, mirrors.Declares d s → s.NamesClass :=
    ClassPath.forall_declares (R := fun _ s => s.NamesClass) (by decide +kernel)
  obtain ⟨hinterfaces, ⟨l, hl, hlflag⟩, hvtable⟩ := mirrors.flags_exact hnames
    [.interfaces "Lq/Right;", .vtable "Lq/Left;"] "Lq/Viewer;" viewer (by decide +kernel)
  obtain ⟨t, ht, htflag⟩ := hvtable (by decide)
  have hincomplete : ¬ ((mirrors.interfaces "Lq/Viewer;").run m).1.complete = true :=
    fun h => viewer_not_intact (hinterfaces.1 h)
  exact ⟨by simpa using hincomplete, ⟨l, hl, hlflag.2 viewer_superclasses_intact⟩, t, ht,
    by simpa using mt htflag.1 hincomplete⟩

end SymbolicDex
