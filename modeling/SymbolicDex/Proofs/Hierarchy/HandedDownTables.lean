import SymbolicDex.Proofs.Hierarchy.InterfaceHistory

/- Properties that tables of classes have from the table of the class above. A
   class finishes its table from that of the one class above it, or from nothing
   if there is none, and the table says whether something was missing on the way.
   A property that is handed down in this way (`TableKind.HandsDown`) holds of
   whatever is answered or remembered, provided that it holds of the empty table
   for the classes that can meet themselves.

   What is proved:
     1. `Query.Gives.once`: what a remembered computation gives.
     2. `TableKind.within_gives`: a question for a table answers with the property,
        and remembers only such tables.
     3. `interfaces_kept`, `layout_kept`, `vtable_kept`: the three tables together,
        each with a property of its own. -/
namespace SymbolicDex

/-- A remembered computation, under marks for the time that it takes: `I` is what
    holds outside of it and `K` what holds while the class is busy. -/
theorem Query.Gives.once {α : Type} {I K : Memo → Prop} {P : α → Prop} {f : Facet}
    {d : Descriptor} {remembered : Memo → List (Descriptor × α)} {store : α → Memo → Memo}
    {circular : α} {compute : Query α}
    (hfound : ∀ m a, I m → (remembered m).lookup d = some a → P a)
    (hcircular : ∀ m, I m → m.isBusy f d = true → P circular)
    (henter : ∀ m, I m → (remembered m).lookup d = none → m.isBusy f d = false →
      K (m.enter f d))
    (hcompute : Gives K P compute)
    (hstore : ∀ a m, P a → K m → I (store a (m.leave f d))) :
    Gives I P (Query.once f d remembered store circular compute) := by
  intro m hm
  rw [once_run]
  cases hlookup : (remembered m).lookup d with
  | some a => exact ⟨hfound m a hm hlookup, hm⟩
  | none =>
    cases hbusy : m.isBusy f d with
    | true => exact ⟨hcircular m hm hbusy, hm⟩
    | false =>
      obtain ⟨ha, hm'⟩ := hcompute _ (henter m hm hlookup hbusy)
      exact ⟨ha, hstore _ _ ha hm'⟩

/-- The superclass, if the class names one, has a table of its own. -/
def ClassPath.superclassHasTable (p : ClassPath) (c : ClassDef) : Bool :=
  c.superclass.all fun s => p.hasTables (p.tableOwner s)

namespace TableKind

open Query

variable {α : Type} (k : TableKind α) (p : ClassPath)

/-- What a class starts from, when the table of the class above has the property:
    nothing is missing if there is no superclass, or one with a complete table. -/
inductive Start (P : Descriptor → Computed α → Prop) (d : Descriptor) (c : ClassDef) :
    Computed α → Prop where
  | first (hnone : p.above? k.fallback d = none) : Start P d c ⟨k.empty, c.superclass.isNone⟩
  | handed {s : Descriptor} {t : Computed α} (hs : p.Below k.fallback d s) (ht : P s t) :
      Start P d c ⟨t.value, t.complete && p.superclassHasTable c⟩

/-- A property of tables that a class has from the class above, in memos with
    `J`. -/
structure HandsDown (J : Memo → Prop) (P : Descriptor → Computed α → Prop) : Prop where
  enter : ∀ d m, J m → J (m.enter k.facet d)
  stored : ∀ d t m, J m → J (k.store d t (m.leave k.facet d))
  circular : ∀ d, Relation.TransGen (p.Below k.fallback) d d → P d ⟨k.empty, false⟩
  finished : ∀ d c i, p.classDefinition d = .ok c → k.Start p P d c i →
    Gives J (P d) (k.finish p i c)

/-- What is used of the parts of a table kind besides. -/
structure Tidy : Prop where
  tables_store : ∀ d t m, k.tables (k.store d t m) = (d, t) :: k.tables m
  tables_marks : ∀ (m : Memo) busy, k.tables { m with busy := busy } = k.tables m
  marks_store : ∀ d t m, (k.store d t m).busy = m.busy
  finish_tables : ∀ i c, Keeps k.tables (k.finish p i c)
  finish_marks : ∀ i c, Keeps Memo.busy (k.finish p i c)

/-- The answer for `d` is a table with the property if there is a class to have
    one. -/
def Answers (P : Descriptor → Computed α → Prop) (d : Descriptor)
    (r : Except MissingClass (Computed α)) : Prop :=
  match p.classDefinition (p.tableOwner d) with
  | .ok _ => ∃ t, r = .ok t ∧ P (p.tableOwner d) t
  | .error e => r = .error e

/-- Every remembered table has the property. -/
def Recalls (P : Descriptor → Computed α → Prop) (m : Memo) : Prop :=
  ∀ d t, (k.tables m).lookup d = some t → P d t

/-- Circumstances in which a table is asked for: the classes marked in `m₀` are
    distinct and below the class asked for, and the remaining depth suffices for
    the others. -/
structure Calling (n : Nat) (d : Descriptor) (m₀ : Memo) : Prop where
  nodup : (k.busy m₀).Nodup
  defined : ∀ b ∈ k.busy m₀, p.hasTables b = true
  below : ∀ b ∈ k.busy m₀, Relation.TransGen (p.Below k.fallback) b d
  depth : p.size + 2 ≤ n + (k.busy m₀).length

/-- A memo while the classes marked in `m₀` are computed, none of which has a
    table yet. -/
structure During (J : Memo → Prop) (P : Descriptor → Computed α → Prop) (m₀ m : Memo) : Prop where
  marks : m.busy = m₀.busy
  blank : ∀ b ∈ k.busy m₀, (k.tables m).lookup b = none
  base : J m
  recalls : k.Recalls P m

variable {k p} {J : Memo → Prop} {P : Descriptor → Computed α → Prop} {n : Nat}
  {d o : Descriptor} {m m₀ : Memo} {c : ClassDef}

theorem Recalls.congr {m' : Memo} (h : k.Recalls P m) (htables : k.tables m' = k.tables m) :
    k.Recalls P m' := by
  intro d t ht
  rw [htables] at ht
  exact h d t ht

theorem Calling.depth_left (h : k.Calling p n d m₀) : 2 ≤ n := by
  have hlen := ClassPath.length_le_size h.nodup h.defined
  have := h.depth
  omega

/-- The class above is asked for while the class itself is busy. -/
theorem Calling.enter (h : k.Calling p (n + 1) o m₀) (hc : p.classDefinition o = .ok c)
    (hfree : o ∉ k.busy m₀) {s : Descriptor} (hs : p.Below k.fallback o s) :
    k.Calling p n s (m₀.enter k.facet o) := by
  refine ⟨?_, ?_, ?_, ?_⟩
  all_goals rw [busy_enter]
  · exact List.nodup_cons.2 ⟨hfree, h.nodup⟩
  · exact List.forall_mem_cons.2 ⟨ClassPath.hasTables_iff.2 ⟨c, hc⟩, h.defined⟩
  · exact List.forall_mem_cons.2
      ⟨Relation.TransGen.single hs, fun b hb => (h.below b hb).tail hs⟩
  · have := h.depth
    rw [List.length_cons]
    omega

theorem Calling.idle (hm : m₀.busy = []) (d : Descriptor) : k.Calling p (p.size + 2) d m₀ := by
  have hbusy : k.busy m₀ = [] := by simp [busy, hm]
  constructor <;> simp [hbusy]

theorem During.mem_busy (h : k.During J P m₀ m) : d ∈ k.busy m₀ ↔ m.isBusy k.facet d = true := by
  rw [← TableKind.mem_busy]
  simp only [busy, h.marks]

theorem During.enter (tidy : k.Tidy p) (hP : k.HandsDown p J P) (h : k.During J P m₀ m)
    (hblank : (k.tables m).lookup o = none) :
    k.During J P (m₀.enter k.facet o) (m.enter k.facet o) := by
  have htables : k.tables (m.enter k.facet o) = k.tables m := tidy.tables_marks m _
  refine ⟨?_, ?_, hP.enter o m h.base, h.recalls.congr htables⟩
  · simp [Memo.enter, h.marks]
  · rw [busy_enter, htables]
    exact List.forall_mem_cons.2 ⟨hblank, h.blank⟩

/-- The finished table is remembered, and the marks are as before. -/
theorem During.stored (tidy : k.Tidy p) (hP : k.HandsDown p J P) (hfree : o ∉ k.busy m₀)
    {t : Computed α} (ht : P o t) (h : k.During J P (m₀.enter k.facet o) m) :
    k.During J P m₀ (k.store o t (m.leave k.facet o)) := by
  have htables : k.tables (k.store o t (m.leave k.facet o)) = (o, t) :: k.tables m := by
    rw [tidy.tables_store]
    exact congrArg _ (tidy.tables_marks _ _)
  refine ⟨?_, fun b hb => ?_, hP.stored o t m h.base, fun e t' ht' => ?_⟩
  · rw [tidy.marks_store]
    simp [Memo.leave, h.marks, Memo.enter]
  · have hbo : b ≠ o := fun heq => hfree (heq ▸ hb)
    rw [htables, List.lookup_cons, show (b == o) = false by simpa using hbo]
    exact h.blank b (by rw [busy_enter]; exact List.mem_cons_of_mem _ hb)
  · rw [htables] at ht'
    by_cases heo : e = o
    · subst heo
      rw [List.lookup_cons_self] at ht'
      exact Option.some.inj ht' ▸ ht
    · rw [List.lookup_cons, show (e == o) = false by simpa using heo] at ht'
      exact h.recalls e t' ht'

theorem answers_ok (hd : p.hasTables (p.tableOwner d) = true) {r : Except MissingClass (Computed α)}
    (h : Answers p P d r) : ∃ t, r = .ok t ∧ P (p.tableOwner d) t := by
  obtain ⟨c, hc⟩ := ClassPath.hasTables_iff.1 hd
  simpa only [Answers, hc] using h

/-- A class that is missing is reported. -/
theorem missing_gives {I : Memo → Prop} (hn : 0 < n)
    (hd : p.hasTables (p.tableOwner d) = false) :
    Gives I (fun r => ∃ e, r = .error e) (k.within p n d) := by
  intro m hm
  obtain ⟨e, he⟩ := within_missing (k := k) (m := m) hn hd
  rw [he]
  exact ⟨⟨e, rfl⟩, hm⟩

section Inherited

variable (hr : k.Calling p (n + 1) o m₀) (hfree : o ∉ k.busy m₀)
  (hc : p.classDefinition o = .ok c)
  (ih : ∀ d m₀, k.Calling p n (p.tableOwner d) m₀ →
    Gives (k.During J P m₀) (Answers p P d) (k.within p n d))
include hr hfree hc ih

/-- What Object stands in for, seen from a class whose superclass is missing. -/
theorem fallback_gives {s : Descriptor} (hs : c.superclass = some s)
    (hmissing : p.hasTables (p.tableOwner s) = false) (hf : k.fallback = true) :
    Gives (k.During J P (m₀.enter k.facet o)) (k.Start p P o c) (do
      match ← k.within p n Descriptor.object with
      | .ok t => return ⟨t.value, false⟩
      | .error _ => return ⟨k.empty, false⟩) := by
  have hn : 0 < n := by
    have := hr.depth_left
    omega
  have howner := ClassPath.tableOwner_object (p := p)
  have hflag : p.superclassHasTable c = false := by
    simp [ClassPath.superclassHasTable, hs, hmissing]
  have hempty (hnone : p.above? k.fallback o = none) : k.Start p P o c ⟨k.empty, false⟩ := by
    simpa [hs] using Start.first (k := k) (P := P) (c := c) hnone
  by_cases hobject : p.hasTables Descriptor.object = true
  · by_cases ho : o = Descriptor.object
    -- Object itself is busy, and is given nothing
    · subst ho
      have hnone : p.above? k.fallback Descriptor.object = none := by
        simp [ClassPath.above?, hc, hs, hmissing]
      intro m hm
      have hbusy : Descriptor.object ∈ k.busy m := by
        rw [TableKind.mem_busy, ← hm.mem_busy, busy_enter]
        exact List.mem_cons_self
      have hblank := hm.blank Descriptor.object (by rw [busy_enter]; exact List.mem_cons_self)
      rw [run_bind, within_busy (d := Descriptor.object) hn (by rwa [howner]) (by rwa [howner])
        (by rwa [howner])]
      exact ⟨hempty hnone, hm⟩
    · have hbelow : p.Below k.fallback o Descriptor.object := by
        simp [ClassPath.Below, ClassPath.above?, hc, hs, hmissing, hf, ho, hobject]
      refine Gives.bind (ih Descriptor.object _ ?_) fun r hr' => ?_
      · rw [howner]
        exact hr.enter hc hfree hbelow
      · obtain ⟨t, rfl, ht⟩ := answers_ok (by rwa [howner]) hr'
        rw [howner] at ht
        refine Gives.pure ?_
        simpa [hflag] using Start.handed (k := k) (c := c) hbelow ht
  · have hobject' : p.hasTables Descriptor.object = false := by simpa using hobject
    refine Gives.bind (missing_gives hn (by rwa [howner])) fun r hr' => ?_
    obtain ⟨e, rfl⟩ := hr'
    exact Gives.pure (hempty (by simp [ClassPath.above?, hc, hs, hmissing, hobject']))

theorem inherited_gives :
    Gives (k.During J P (m₀.enter k.facet o)) (k.Start p P o c)
      (k.inherited (k.within p n) c) := by
  simp only [inherited]
  cases hs : c.superclass with
  | none =>
    have hnone : p.above? k.fallback o = none := by simp [ClassPath.above?, hc, hs]
    refine Gives.pure ?_
    simpa [hs] using Start.first (k := k) (P := P) (c := c) hnone
  | some s =>
    by_cases hdefined : p.hasTables (p.tableOwner s) = true
    · have hbelow := ClassPath.below_superclass hc hs hdefined k.fallback
      refine Gives.bind (ih s _ (hr.enter hc hfree hbelow)) fun r hr' => ?_
      obtain ⟨t, rfl, ht⟩ := answers_ok hdefined hr'
      refine Gives.pure ?_
      have hflag : p.superclassHasTable c = true := by
        simp [ClassPath.superclassHasTable, hs, hdefined]
      simpa [hflag] using Start.handed (k := k) (c := c) hbelow ht
    · have hmissing : p.hasTables (p.tableOwner s) = false := by simpa using hdefined
      have hn : 0 < n := by
        have := hr.depth_left
        omega
      refine Gives.bind (missing_gives hn hmissing) fun r hr' => ?_
      obtain ⟨e, rfl⟩ := hr'
      refine Gives.ite (fun hstop => Gives.pure ?_) fun hgo => ?_
      · have hnone : p.above? k.fallback o = none := by
          rcases hstop with hf | rfl
          · simp [ClassPath.above?, hc, hs, hmissing, hf]
          · rw [ClassPath.tableOwner_object] at hmissing
            simp [ClassPath.above?, hc, hs, hmissing, ClassPath.tableOwner_object]
        simpa [hs] using Start.first (k := k) (P := P) (c := c) hnone
      · have hf : k.fallback = true := by simpa using (not_or.1 hgo).1
        exact fallback_gives hr hfree hc ih hs hmissing hf

end Inherited

/-- Finishing a table touches neither the tables nor the marks. -/
theorem finish_gives (tidy : k.Tidy p) (hP : k.HandsDown p J P) (hc : p.classDefinition o = .ok c)
    {i : Computed α} (hi : k.Start p P o c i) :
    Gives (k.During J P m₀) (P o) (k.finish p i c) := by
  intro m hm
  obtain ⟨ht, hbase⟩ := hP.finished o c i hc hi m hm.base
  have htables := tidy.finish_tables i c m
  refine ⟨ht, (tidy.finish_marks i c m).trans hm.marks, fun b hb => ?_, hbase,
    hm.recalls.congr htables⟩
  rw [htables]
  exact hm.blank b hb

theorem within_gives (tidy : k.Tidy p) (hP : k.HandsDown p J P)
    (hr : k.Calling p n (p.tableOwner d) m₀) :
    Gives (k.During J P m₀) (Answers p P d) (k.within p n d) := by
  induction n generalizing d m₀ with
  | zero =>
    have := hr.depth_left
    omega
  | succ n ih =>
    simp only [within]
    cases hc : p.classDefinition (p.tableOwner d) with
    | error e => exact Gives.pure (by simp [Answers, hc])
    | ok c =>
      generalize ho : p.tableOwner d = o at hr hc
      have hanswer (t : Computed α) (ht : P o t) : Answers p P d (.ok t) := by
        simpa [Answers, ho, hc] using ht
      by_cases hbusy : o ∈ k.busy m₀
      -- the class meets itself, so nothing is computed
      · refine Gives.bind (Gives.once (K := fun _ => False) (P := P o)
          (fun m t hm ht => hm.recalls o t ht) (fun _ _ _ => hP.circular o (hr.below o hbusy))
          (fun m hm _ hfree => ?_) (fun _ h => h.elim) (fun _ _ _ h => h.elim))
          fun t ht => Gives.pure (hanswer t ht)
        simp [hm.mem_busy.1 hbusy] at hfree
      · refine Gives.bind (Gives.once (K := k.During J P (m₀.enter k.facet o)) (P := P o)
          (fun m t hm ht => hm.recalls o t ht) (fun m hm h => absurd (hm.mem_busy.2 h) hbusy)
          (fun m hm hblank _ => hm.enter tidy hP hblank) ?_
          (fun t m ht hm => hm.stored tidy hP hbusy ht)) fun t ht => Gives.pure (hanswer t ht)
        exact Gives.bind (inherited_gives hr hbusy hc fun _ _ => ih) fun i hi =>
          finish_gives tidy hP hc hi

end TableKind

/-! ## The three tables together -/

namespace ClassPath

open Query TableKind

variable (p : ClassPath) {P : Descriptor → Computed InterfaceMap → Prop}
  {PL : Descriptor → Computed FieldLayout → Prop} {PV : Descriptor → Computed Vtable → Prop}

theorem layout_tidy : TableKind.layout.Tidy p where
  tables_store _ _ _ := rfl
  tables_marks _ _ := rfl
  marks_store _ _ _ := rfl
  finish_tables _ _ := Keeps.pure _
  finish_marks _ _ := Keeps.pure _

theorem vtable_tidy : TableKind.vtable.Tidy p where
  tables_store _ _ _ := rfl
  tables_marks _ _ := rfl
  marks_store _ _ _ := rfl
  finish_tables := p.vtable_lawful.finish_keeps
  finish_marks i c := Keeps.bind (fun m => (p.vtableOver_grows i.value c m).busy)
    fun _ => Keeps.pure _

/-- A memo between two questions in which every table has its property. -/
structure Kept (P : Descriptor → Computed InterfaceMap → Prop)
    (PL : Descriptor → Computed FieldLayout → Prop) (PV : Descriptor → Computed Vtable → Prop)
    (m : Memo) : Prop where
  idle : m.busy = []
  interfaces : Recalls P m
  layouts : TableKind.layout.Recalls PL m
  vtables : TableKind.vtable.Recalls PV m

theorem kept_empty : Kept P PL PV Memo.empty := by
  constructor
  · rfl
  all_goals exact fun d t ht => nomatch ht

variable {p} {m : Memo}

theorem Kept.recalling (h : Kept P PL PV m) : Recalling P m :=
  ⟨by simp [Memo.busyWith, h.idle], h.interfaces⟩

section Questions

variable (hP : p.Collects P) (hL : TableKind.layout.HandsDown p (fun _ => True) PL)
  (hV : TableKind.vtable.HandsDown p (Recalling P) PV)

include hP in
theorem interfaces_kept (d : Descriptor) : Gives (Kept P PL PV) (P d) (p.interfaces d) := by
  intro m hm
  obtain ⟨ht, hleft⟩ := interfaces_gives hP d m hm.recalling
  exact ⟨ht, ((p.interfaces_steady d).grows m).idle hm.idle, hleft.recalls,
    hm.layouts.congr (p.interfaces_keeps (fun _ _ => rfl) (fun _ _ => rfl) d m),
    hm.vtables.congr (p.interfaces_keeps (fun _ _ => rfl) (fun _ _ => rfl) d m)⟩

include hL in
theorem layout_kept (d : Descriptor) :
    Gives (Kept P PL PV) (Answers p PL d) (p.layout d) := by
  intro m hm
  have hduring : TableKind.layout.During (fun _ => True) PL m m :=
    ⟨rfl, by simp [TableKind.busy, hm.idle], trivial, hm.layouts⟩
  have hgives := within_gives p.layout_tidy hL (Calling.idle hm.idle (p.tableOwner d)) m hduring
  have hkeeps : (TableKind.layout.within p (p.size + 2) d).run m |>.2.vtables = m.vtables :=
    within_keeps (·.vtables) (fun _ _ => rfl) (fun _ _ _ => rfl) (fun _ _ => Keeps.pure _) _ d m
  have hinterfaces := (layout_preserves (p := p) d m hm.recalling).2.recalls
  have hidle := ((p.layout_steady d).grows m).idle hm.idle
  simp only [layout, layoutWithin_eq] at hinterfaces hidle ⊢
  exact ⟨hgives.1, hidle, hinterfaces, hgives.2.recalls, hm.vtables.congr hkeeps⟩

include hV in
theorem vtable_kept (d : Descriptor) :
    Gives (Kept P PL PV) (Answers p PV d) (p.vtable d) := by
  intro m hm
  have hduring : TableKind.vtable.During (Recalling P) PV m m :=
    ⟨rfl, by simp [TableKind.busy, hm.idle], hm.recalling, hm.vtables⟩
  have hgives := within_gives p.vtable_tidy hV (Calling.idle hm.idle (p.tableOwner d)) m hduring
  have hkeeps : (TableKind.vtable.within p (p.size + 2) d).run m |>.2.layouts = m.layouts := by
    refine within_keeps (·.layouts) (fun _ _ => rfl) (fun _ _ _ => rfl) (fun i c => ?_) _ d m
    exact Keeps.bind (p.vtableOver_keeps (fun _ _ => rfl) (fun _ _ => rfl) i.value c)
      fun _ => Keeps.pure _
  have hidle := ((p.vtable_steady d).grows m).idle hm.idle
  simp only [vtable, vtableWithin_eq] at hidle ⊢
  exact ⟨hgives.1, hidle, hgives.2.base.recalls, hm.layouts.congr hkeeps, hgives.2.recalls⟩

end Questions

end ClassPath

end SymbolicDex
