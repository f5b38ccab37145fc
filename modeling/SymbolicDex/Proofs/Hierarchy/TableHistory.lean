import SymbolicDex.Proofs.Hierarchy.InheritedTables

/- Layouts and virtual method tables as tables of the common scheme, over any
   history of questions to a class path.

   What is proved:
     1. `layoutWithin_eq`, `vtableWithin_eq`: both tables are computed by the
        scheme.
     2. `orderly_after`: after any history every remembered table of a settled
        class is finished from a remembered one.
     3. `layout_remembered`, `vtable_remembered`: what is remembered is the
        answer. -/
namespace SymbolicDex

namespace ClassPath

open Query

variable (p : ClassPath) {I : Memo → Prop} {γ : Type} {part : Memo → γ}

theorem interfacesWithin_preserves (henter : ∀ d m, I m → I (m.enter .interfaces d))
    (hstore : ∀ d a (m : Memo), I m →
      I { m.leave .interfaces d with interfaces := (d, a) :: m.interfaces })
    (depth : Nat) (d : Descriptor) : Preserves I (p.interfacesWithin depth d) := by
  induction depth generalizing d with
  | zero => exact Preserves.pure _
  | succ depth ih =>
    simp only [interfacesWithin]
    split
    · exact Preserves.pure _
    · exact Preserves.pure _
    · exact Preserves.pure _
    · refine Preserves.once ?_ (henter d) (hstore d)
      refine Preserves.bind (Preserves.foldlM (fun acc e => ?_) _ _) fun acc => ?_
      · exact Gives.ite (fun _ => Preserves.pure _) fun _ =>
          Preserves.bind (ih e) fun _ => Preserves.pure _
      · dsimp only
        split
        · exact Preserves.bind (ih _) fun _ => Preserves.pure _
        · exact Preserves.pure _

/-- Interface questions touch no other table. -/
theorem interfaces_keeps (hmarks : ∀ (m : Memo) busy, part { m with busy := busy } = part m)
    (hs : ∀ (m : Memo) t, part { m with interfaces := t } = part m) (d : Descriptor) :
    Keeps part (p.interfaces d) :=
  keeps_iff.2 fun _ => p.interfacesWithin_preserves (fun _ m hm => (hmarks m _).trans hm)
    (fun _ _ m hm => (hs _ _).trans ((hmarks m _).trans hm)) _ d

/-- Finishing a virtual method table asks for interfaces only. -/
theorem vtableOver_preserves (hask : ∀ d, Preserves I (p.interfaces d)) (inherited : Vtable)
    (c : ClassDef) : Preserves I (p.vtableOver inherited c) := by
  have hdefault (owner : Descriptor) (n : Nat) (t : Vtable) (e : VtableEntry) :
      Preserves I (p.addDefault owner n t e) := by
    simp only [addDefault]
    split
    · exact Preserves.pure _
    · split
      · exact Preserves.pure _
      · refine Gives.ite (fun _ => Preserves.pure _) fun _ => Gives.ite (fun _ => ?_) fun _ =>
          Gives.ite (fun _ => Preserves.pure _) fun _ => Preserves.pure _
        refine Preserves.bind (Preserves.bind (hask _) fun i => ?_) fun r => ?_
        · split <;> exact Preserves.pure _
        · split <;> exact Preserves.pure _
  simp only [vtableOver]
  refine Gives.ite (fun _ => Preserves.pure _) fun _ =>
    Preserves.bind (Preserves.bind (hask _) fun _ => Preserves.pure _) fun ifaces => ?_
  have hflag (t : Vtable) : Preserves I (do
      return (⟨t, (← p.interfaces c.descriptor).complete⟩ : Computed Vtable)) :=
    Preserves.bind (hask _) fun _ => Preserves.pure _
  split
  · exact Preserves.bind (Preserves.pure _) hflag
  · refine Preserves.bind (Preserves.foldlM (hdefault _ _) _ _) fun t => ?_
    exact Preserves.bind (Preserves.pure _) hflag

theorem vtableOver_keeps (hmarks : ∀ (m : Memo) busy, part { m with busy := busy } = part m)
    (hs : ∀ (m : Memo) t, part { m with interfaces := t } = part m) (inherited : Vtable)
    (c : ClassDef) : Keeps part (p.vtableOver inherited c) :=
  keeps_iff.2 fun v => p.vtableOver_preserves
    (fun d => keeps_iff.1 (p.interfaces_keeps hmarks hs d) v) inherited c

end ClassPath

namespace TableKind

/-! ## The two kinds -/

/-- Offsets of fields. A class below a missing one starts from nothing. -/
def layout : TableKind FieldLayout where
  facet := .layout
  tables := (·.layouts)
  store d t m := { m with layouts := (d, t) :: m.layouts }
  empty := FieldLayout.empty
  fallback := false
  finish p i c := return ⟨p.layoutOver i.value c, i.complete⟩

/-- Virtual methods. A class below a missing one starts from Object. -/
def vtable : TableKind Vtable where
  facet := .vtable
  tables := (·.vtables)
  store d t m := { m with vtables := (d, t) :: m.vtables }
  empty := []
  fallback := true
  finish p i c := do
    let t ← p.vtableOver i.value c
    return ⟨t.value, i.complete && t.complete⟩

end TableKind

namespace ClassPath

variable (p : ClassPath)

/-- `l'` is the layout of the class over `l`. -/
def LayoutBuilds (c : ClassDef) (l l' : FieldLayout) : Prop := l' = p.layoutOver l c

/-- `t'` is a table of the class over `t`, for some state of what is known about
    interfaces. -/
def VtableBuilds (c : ClassDef) (t t' : Vtable) : Prop :=
  ∃ m, t' = ((p.vtableOver t c).run m).1.value

theorem layout_lawful : TableKind.layout.Lawful p p.LayoutBuilds where
  tables_store _ _ _ := rfl
  tables_marks _ _ := rfl
  finish_keeps _ _ := Query.Keeps.pure _
  finish_builds _ _ _ := rfl

theorem vtable_lawful : TableKind.vtable.Lawful p p.VtableBuilds where
  tables_store _ _ _ := rfl
  tables_marks _ _ := rfl
  finish_keeps i c := Query.Keeps.bind
    (p.vtableOver_keeps (fun _ _ => rfl) (fun _ _ => rfl) i.value c) fun _ => Query.Keeps.pure _
  finish_builds _ _ m := ⟨m, rfl⟩

section Scheme

variable (c : ClassDef)

theorem computeLayout_eq
    (layoutOf : Descriptor → Query (Except MissingClass (Computed FieldLayout))) :
    p.computeLayout layoutOf c = (do
      let i ← TableKind.layout.inherited layoutOf c
      TableKind.layout.finish p i c) := by
  unfold computeLayout
  cases hs : c.superclass with
  | none =>
    simp only [TableKind.inherited, hs]
    rfl
  | some s =>
    funext m
    obtain ⟨⟨r, m'⟩, h⟩ : ∃ r, (layoutOf s).run m = r := ⟨_, rfl⟩
    change StateT.run _ m = StateT.run _ m
    rw [Query.run_bind, Query.run_bind, h]
    cases r with
    | ok t =>
      rw [TableKind.inherited_super hs h]
      rfl
    | error e =>
      rw [TableKind.inherited_nothing hs h (.inl rfl)]
      rfl

theorem inheritedVtable_eq
    (vtableOf : Descriptor → Query (Except MissingClass (Computed Vtable))) :
    inheritedVtable vtableOf c = TableKind.vtable.inherited vtableOf c := by
  unfold inheritedVtable TableKind.inherited
  cases c.superclass with
  | none => rfl
  | some s =>
    refine bind_congr fun r => ?_
    cases r with
    | ok t => rfl
    | error e =>
      by_cases hs : s = Descriptor.object
      · rw [if_pos hs, if_pos (.inr hs)]
        rfl
      · have hgo : ¬ (TableKind.vtable.fallback = false ∨ s = Descriptor.object) := by
          rintro (h | h)
          · cases h
          · exact hs h
        dsimp only
        rw [if_neg hs, if_neg hgo]
        refine bind_congr fun r => ?_
        cases r <;> rfl

end Scheme

theorem layoutWithin_eq (n : Nat) (d : Descriptor) :
    p.layoutWithin n d = TableKind.layout.within p n d := by
  induction n generalizing d with
  | zero => rfl
  | succ n ih =>
    have hof : p.layoutWithin n = TableKind.layout.within p n := funext ih
    simp only [layoutWithin, TableKind.within, computeLayout_eq, hof]
    cases p.classDefinition (p.tableOwner d) <;> rfl

theorem vtableWithin_eq (n : Nat) (d : Descriptor) :
    p.vtableWithin n d = TableKind.vtable.within p n d := by
  induction n generalizing d with
  | zero => rfl
  | succ n ih =>
    have hof : p.vtableWithin n = TableKind.vtable.within p n := funext ih
    simp only [vtableWithin, TableKind.within, inheritedVtable_eq, hof]
    cases p.classDefinition (p.tableOwner d) <;> rfl

/-! ## Histories -/

/-- The memo after one more question. -/
def asked (m : Memo) : Facet × Descriptor → Memo
  | (.interfaces, d) => ((p.interfaces d).run m).2
  | (.layout, d) => ((p.layout d).run m).2
  | (.vtable, d) => ((p.vtable d).run m).2

/-- The memo after a history of questions. Whatever else is asked of a class
    path comes down to these. -/
def memoAfter (history : List (Facet × Descriptor)) : Memo :=
  history.foldl p.asked Memo.empty

/-- What every question keeps, a history keeps. -/
theorem memoAfter_of_asked {I : Memo → Prop} (hempty : I Memo.empty)
    (hasked : ∀ m q, I m → I (p.asked m q)) (history : List (Facet × Descriptor)) :
    I (p.memoAfter history) := by
  simp only [memoAfter]
  generalize Memo.empty = m at hempty
  induction history generalizing m with
  | nil => exact hempty
  | cons q history ih => exact ih _ (hasked m q hempty)

/-- A memo between two questions. -/
structure Orderly (m : Memo) : Prop where
  idle : m.busy = []
  layouts : TableKind.layout.Recorded p p.LayoutBuilds m
  vtables : TableKind.vtable.Recorded p p.VtableBuilds m

variable {p} {m : Memo} {d : Descriptor}

theorem Orderly.layout_outcome (h : p.Orderly m) (d : Descriptor) :
    TableKind.layout.Outcome p p.LayoutBuilds (p.tableOwner d) m ((p.layout d).run m) := by
  unfold layout
  rw [layoutWithin_eq]
  exact TableKind.within_outcome p.layout_lawful (TableKind.Ready.idle h.idle _) h.layouts

theorem Orderly.vtable_outcome (h : p.Orderly m) (d : Descriptor) :
    TableKind.vtable.Outcome p p.VtableBuilds (p.tableOwner d) m ((p.vtable d).run m) := by
  unfold vtable
  rw [vtableWithin_eq]
  exact TableKind.within_outcome p.vtable_lawful (TableKind.Ready.idle h.idle _) h.vtables

theorem Orderly.interfaces (h : p.Orderly m) (d : Descriptor) :
    p.Orderly ((p.interfaces d).run m).2 where
  idle := ((p.interfaces_steady d).grows m).idle h.idle
  layouts := h.layouts.congr (p.interfaces_keeps (fun _ _ => rfl) (fun _ _ => rfl) d m)
  vtables := h.vtables.congr (p.interfaces_keeps (fun _ _ => rfl) (fun _ _ => rfl) d m)

theorem Orderly.layout (h : p.Orderly m) (d : Descriptor) :
    p.Orderly ((p.layout d).run m).2 where
  idle := ((p.layout_steady d).grows m).idle h.idle
  layouts := (h.layout_outcome d).recorded
  vtables := by
    refine h.vtables.congr ?_
    unfold ClassPath.layout
    rw [layoutWithin_eq]
    exact TableKind.within_keeps (·.vtables) (fun _ _ => rfl) (fun _ _ _ => rfl)
      (fun _ _ => Query.Keeps.pure _) _ d m

theorem Orderly.vtable (h : p.Orderly m) (d : Descriptor) :
    p.Orderly ((p.vtable d).run m).2 where
  idle := ((p.vtable_steady d).grows m).idle h.idle
  layouts := by
    refine h.layouts.congr ?_
    unfold ClassPath.vtable
    rw [vtableWithin_eq]
    refine TableKind.within_keeps (·.layouts) (fun _ _ => rfl) (fun _ _ _ => rfl)
      (fun i c => ?_) _ d m
    exact Query.Keeps.bind (p.vtableOver_keeps (fun _ _ => rfl) (fun _ _ => rfl) i.value c)
      fun _ => Query.Keeps.pure _
  vtables := (h.vtable_outcome d).recorded

variable (p) in
theorem orderly_after (history : List (Facet × Descriptor)) : p.Orderly (p.memoAfter history) := by
  refine p.memoAfter_of_asked ?_ (fun m q hm => ?_) history
  · refine ⟨rfl, ?_, ?_⟩ <;> intro d t ht <;> cases ht
  · obtain ⟨f, d⟩ := q
    cases f with
    | interfaces => exact hm.interfaces d
    | layout => exact hm.layout d
    | vtable => exact hm.vtable d

theorem layout_remembered (hd : p.hasTables (p.tableOwner d) = true) {l : Computed FieldLayout}
    (hl : m.layouts.lookup (p.tableOwner d) = some l) : (p.layout d).run m = (.ok l, m) := by
  unfold layout
  rw [layoutWithin_eq]
  exact TableKind.within_remembered hd hl

theorem vtable_remembered (hd : p.hasTables (p.tableOwner d) = true) {t : Computed Vtable}
    (ht : m.vtables.lookup (p.tableOwner d) = some t) : (p.vtable d).run m = (.ok t, m) := by
  unfold vtable
  rw [vtableWithin_eq]
  exact TableKind.within_remembered hd ht

end ClassPath

end SymbolicDex
