import SymbolicDex.Proofs.Hierarchy.Questions

/- Where a virtual method table comes from. A class finishes its table from that
   of the class above and from its direct interfaces. Both are found in the memo
   afterwards, whoever asked for them first, with one exception: a class above
   that is above itself can be met while it is busy, and then it has nothing to
   hand down.

   What is proved:
     1. `TableKind.inherited_cases`: what a busy class is given by the scheme.
     2. `within_traced`: one question leaves every remembered table traced back to
        what it was finished from.
     3. `vtable_traced`: so does any history, and the answer for a class is such a
        table. -/
namespace SymbolicDex

namespace TableKind

open Query

variable {α : Type} {k : TableKind α} {p : ClassPath} {n : Nat} {o : Descriptor} {m : Memo}
  {c : ClassDef}

/-- A busy class is given nothing if there is no class above it, and otherwise what
    is answered for that. -/
theorem inherited_cases (hn : 0 < n) (hc : p.classDefinition o = .ok c) (hbusy : o ∈ k.busy m)
    (hblank : (k.tables m).lookup o = none) :
    (p.above? k.fallback o = none ∧
      ∃ complete, (k.inherited (k.within p n) c).run m = (⟨k.empty, complete⟩, m)) ∨
    ∃ s t complete, p.Below k.fallback o (p.tableOwner s) ∧
      ((k.within p n s).run m).1 = .ok t ∧
      (k.inherited (k.within p n) c).run m =
        (⟨t.value, complete⟩, ((k.within p n s).run m).2) := by
  cases hsuper : c.superclass with
  | none => exact .inl ⟨by simp [ClassPath.above?, hc, hsuper], true, inherited_root hsuper⟩
  | some s =>
    by_cases hs : p.hasTables (p.tableOwner s) = true
    · obtain ⟨t, ht⟩ := within_ok (k := k) (n := n) (m := m) hs
      exact .inr ⟨s, t, t.complete, ClassPath.below_superclass hc hsuper hs _, ht,
        inherited_super hsuper (Prod.ext ht rfl)⟩
    · have hs' : p.hasTables (p.tableOwner s) = false := by simpa using hs
      obtain ⟨e, he⟩ := within_missing (k := k) (m := m) hn hs'
      by_cases hstop : k.fallback = false ∨ s = Descriptor.object
      · refine .inl ⟨?_, false, inherited_nothing hsuper he hstop⟩
        rcases hstop with hf | rfl
        · simp [ClassPath.above?, hc, hsuper, hs', hf]
        · rw [ClassPath.tableOwner_object] at hs'
          simp [ClassPath.above?, hc, hsuper, hs', ClassPath.tableOwner_object]
      · have hrun := inherited_fallback hsuper he hstop
        have hf : k.fallback = true := by simpa using (not_or.1 hstop).1
        have howner := ClassPath.tableOwner_object (p := p)
        by_cases hobject : p.hasTables Descriptor.object = true
        · by_cases ho : o = Descriptor.object
          -- Object has itself to fall back on, and is busy
          · subst ho
            rw [within_busy (d := Descriptor.object) hn (by rwa [howner]) (by rwa [howner])
              (by rwa [howner])] at hrun
            exact .inl ⟨by simp [ClassPath.above?, hc, hsuper, hs'], false, hrun⟩
          · obtain ⟨t, ht⟩ := within_ok (k := k) (n := n) (m := m)
              (show p.hasTables (p.tableOwner Descriptor.object) = true by rwa [howner])
            rw [ht] at hrun
            refine .inr ⟨Descriptor.object, t, false, ?_, ht, hrun⟩
            simp [ClassPath.Below, ClassPath.above?, hc, hsuper, hs', hf, ho, hobject, howner]
        · have hobject' : p.hasTables Descriptor.object = false := by simpa using hobject
          obtain ⟨e', he'⟩ := within_missing (k := k) (m := m) (d := Descriptor.object) hn
            (by rwa [howner])
          rw [he'] at hrun
          exact .inl ⟨by simp [ClassPath.above?, hc, hsuper, hs', hobject'], false, hrun⟩

end TableKind

/-- The interface tables of the first memo are in the second. -/
def Memo.InterfacesIn (m m' : Memo) : Prop :=
  ∀ d t, m.interfaces.lookup d = some t → m'.interfaces.lookup d = some t

namespace ClassPath

open Query TableKind

variable (p : ClassPath)

/-! ## Tables and what they were finished from -/

/-- The table of a class over the one it inherits, with the given interfaces. -/
def tableOver (t₀ : Vtable) (c : ClassDef) (ifaces : List ClassDef) : Query Vtable :=
  let checked := p.runtime.checksPackagePrivate
  let own := Vtable.withOwn checked c t₀
  match p.runtime.vtableStrategy with
  | .legacy => pure (Vtable.withInterfaces checked c.descriptor (fun _ => true) ifaces own)
  | .defaultMethods => do
    let t ← p.withDefaults c.descriptor ifaces t₀.length own
    pure (Vtable.withInterfaces checked c.descriptor (·.access.isAbstract) ifaces t)

/-- What `s` has to hand down, going by the memo: its table, or nothing if it was
    met while busy. -/
def HandsOn (m : Memo) (s : Descriptor) (t₀ : Vtable) : Prop :=
  (∃ t, m.vtables.lookup s = some t ∧ t.value = t₀) ∨
    Relation.TransGen (p.Below true) s s ∧ t₀ = []

/-- The table that `d` inherits, going by the memo: what the class above hands
    down, and nothing without one. -/
def StartsFrom (m : Memo) (d : Descriptor) (t₀ : Vtable) : Prop :=
  match p.above? true d with
  | none => t₀ = []
  | some s => p.HandsOn m s t₀

/-- The table `t` of a class was finished from the table `t₀` and the interfaces
    in `i`, and the memo has both, with all that was asked for on the way. -/
structure MadeFrom (m : Memo) (c : ClassDef) (t₀ : Vtable) (i : Computed InterfaceMap)
    (t : Vtable) : Prop where
  starts : p.StartsFrom m c.descriptor t₀
  listed : m.interfaces.lookup c.descriptor = some i
  made : ∃ m₁ : Memo, m₁.busyWith .interfaces = [] ∧
    ((p.tableOver t₀ c i.value.directDefinitions).run m₁).1 = t ∧
    ((p.tableOver t₀ c i.value.directDefinitions).run m₁).2.InterfacesIn m

/-- Every remembered table of a class was finished from what the memo has. -/
def Traced (m : Memo) : Prop :=
  ∀ d t, m.vtables.lookup d = some t → ∀ c, p.classDefinition d = .ok c →
    c.isInterface = false → ∃ t₀ i, p.MadeFrom m c t₀ i t.value

variable {p} {m m' m₀ : Memo} {d o s : Descriptor} {c : ClassDef} {t₀ : Vtable} {n : Nat}

theorem HandsOn.mono (h : p.HandsOn m s t₀)
    (hm : ∀ d t, m.vtables.lookup d = some t → m'.vtables.lookup d = some t) :
    p.HandsOn m' s t₀ :=
  h.imp_left fun ⟨t, ht, hv⟩ => ⟨t, hm s t ht, hv⟩

theorem StartsFrom.mono (h : p.StartsFrom m d t₀)
    (hm : ∀ d t, m.vtables.lookup d = some t → m'.vtables.lookup d = some t) :
    p.StartsFrom m' d t₀ := by
  unfold StartsFrom at h ⊢
  cases hs : p.above? true d with
  | none => simpa only [hs] using h
  | some s =>
    simp only [hs] at h ⊢
    exact h.mono hm

theorem MadeFrom.mono {i : Computed InterfaceMap} {t : Vtable} (h : p.MadeFrom m c t₀ i t)
    (htables : ∀ d t, m.vtables.lookup d = some t → m'.vtables.lookup d = some t)
    (hinterfaces : m.InterfacesIn m') : p.MadeFrom m' c t₀ i t := by
  obtain ⟨m₁, hidle, ht, hin⟩ := h.made
  exact ⟨h.starts.mono htables, hinterfaces _ _ h.listed, m₁, hidle, ht,
    fun d t ht => hinterfaces d t (hin d t ht)⟩

theorem Traced.mono (h : p.Traced m) (htables : m'.vtables = m.vtables)
    (hinterfaces : m.InterfacesIn m') : p.Traced m' := by
  intro d t ht c hc hclass
  rw [htables] at ht
  obtain ⟨t₀, i, hmade⟩ := h d t ht c hc hclass
  exact ⟨t₀, i, hmade.mono (fun d t h => by rwa [htables]) hinterfaces⟩

/-! ## Finishing a table -/

/-- A question for interfaces that is not asked on behalf of another one leaves the
    table behind. -/
theorem interfaces_found (hc : p.classDefinition d = .ok c) (hm : m.busyWith .interfaces = []) :
    ((p.interfaces d).run m).2.interfaces.lookup d = some ((p.interfaces d).run m).1 := by
  have hbusy : m.isBusy .interfaces d = false := by
    rw [Bool.eq_false_iff, ne_eq, ← Memo.mem_busyWith, hm]
    exact List.not_mem_nil
  simp only [interfaces, interfacesWithin, classDefinition_ok_iff.1 hc]
  rw [once_run]
  cases hlookup : m.interfaces.lookup d with
  | some t => exact hlookup
  | none => simp [hbusy]

/-- What is found is the answer. -/
theorem interfaces_remembered (hc : p.classDefinition d = .ok c) {i : Computed InterfaceMap}
    (hi : m.interfaces.lookup d = some i) : (p.interfaces d).run m = (i, m) := by
  simp only [interfaces, interfacesWithin, classDefinition_ok_iff.1 hc]
  rw [once_run, hi]

theorem vtableOver_run (hclass : c.isInterface = false) (t₀ : Vtable) (m : Memo) :
    (p.vtableOver t₀ c).run m =
      let i := (p.interfaces c.descriptor).run m
      let r := (p.tableOver t₀ c i.1.value.directDefinitions).run i.2
      let f := (p.interfaces c.descriptor).run r.2
      (⟨r.1, f.1.complete⟩, f.2) := by
  unfold vtableOver tableOver
  simp only [hclass, Bool.false_eq_true, if_false]
  cases p.runtime.vtableStrategy <;> rfl

theorem tableOver_grows (t₀ : Vtable) (c : ClassDef) (ifaces : List ClassDef) :
    Grows (p.tableOver t₀ c ifaces) := by
  unfold tableOver
  dsimp only
  split
  · exact Grows.pure _
  · exact Grows.bind (Grows.foldlM (p.addDefault_grows _ _) _ _) fun _ => Grows.pure _

/-- The class finishes its table from the interfaces that the memo then has. -/
theorem vtableOver_made (hc : p.classDefinition d = .ok c) (hclass : c.isInterface = false)
    (hm : m.busyWith .interfaces = []) (hstarts : p.StartsFrom m d t₀) :
    ∃ i, p.MadeFrom ((p.vtableOver t₀ c).run m).2 c t₀ i ((p.vtableOver t₀ c).run m).1.value := by
  obtain rfl := definition?_descriptor (definition?_of_classDefinition hc)
  have hasked := (p.interfaces_steady c.descriptor).grows m
  have hfound := interfaces_found hc hm
  have hstarts' := hstarts.mono (p.vtableOver_grows t₀ c m).vtables
  rw [vtableOver_run hclass] at hstarts' ⊢
  dsimp only at hstarts' ⊢
  generalize (p.interfaces c.descriptor).run m = i at hasked hfound hstarts' ⊢
  have hmade := tableOver_grows (p := p) t₀ c i.1.value.directDefinitions i.2
  have hflag := (p.interfaces_steady c.descriptor).grows
    ((p.tableOver t₀ c i.1.value.directDefinitions).run i.2).2
  exact ⟨i.1, hstarts', (hmade.trans hflag).interfaces _ _ hfound, i.2,
    (hasked.busyWith _).trans hm, rfl, hflag.interfaces⟩

/-! ## One question -/

variable (p) in
/-- A memo while the classes marked in `m₀` are computed, none of which has a
    table yet. -/
structure Tracing (m₀ m : Memo) : Prop where
  marks : m.busy = m₀.busy
  unasked : m₀.busyWith .interfaces = []
  blank : ∀ b ∈ TableKind.vtable.busy m₀, m.vtables.lookup b = none
  traced : p.Traced m

theorem Tracing.asking (h : p.Tracing m₀ m) : m.busyWith .interfaces = [] := by
  simpa only [Memo.busyWith, h.marks] using h.unasked

theorem Tracing.enter (h : p.Tracing m₀ m) (hblank : m.vtables.lookup o = none) :
    p.Tracing (m₀.enter TableKind.vtable.facet o) (m.enter TableKind.vtable.facet o) where
  marks := by simp [Memo.enter, h.marks]
  unasked := by simpa [Memo.busyWith, Memo.enter, TableKind.vtable] using h.unasked
  blank := by
    rw [TableKind.vtable.busy_enter]
    exact List.forall_mem_cons.2 ⟨hblank, h.blank⟩
  traced := h.traced.mono rfl fun _ _ ht => ht

/-- A table is added for a class that had none. -/
theorem Traced.added (h : p.Traced m) (hblank : m.vtables.lookup o = none) {t : Computed Vtable}
    (htables : m'.vtables = (o, t) :: m.vtables) (hinterfaces : m.InterfacesIn m')
    (hmade : ∀ c, p.classDefinition o = .ok c → c.isInterface = false →
      ∃ t₀ i, p.MadeFrom m' c t₀ i t.value) : p.Traced m' := by
  have hkept : ∀ d t', m.vtables.lookup d = some t' → m'.vtables.lookup d = some t' := by
    rw [htables]
    exact Memo.Grows.lookup_cons t (fun _ _ ht => ht) hblank
  intro d t' ht' c hc hclass
  rw [htables] at ht'
  by_cases hdo : d = o
  · subst hdo
    rw [List.lookup_cons_self] at ht'
    exact Option.some.inj ht' ▸ hmade c hc hclass
  · rw [List.lookup_cons, show (d == o) = false by simpa using hdo] at ht'
    obtain ⟨t₀, i, hmade⟩ := h d t' ht' c hc hclass
    exact ⟨t₀, i, hmade.mono hkept hinterfaces⟩

/-- The finished table is remembered. -/
theorem Tracing.finished (hc : p.classDefinition o = .ok c)
    (hfree : o ∉ TableKind.vtable.busy m₀)
    (h : p.Tracing (m₀.enter TableKind.vtable.facet o) m) (i : Computed Vtable)
    (hstarts : p.StartsFrom m o i.value) :
    p.Tracing m₀ (TableKind.vtable.store o ((TableKind.vtable.finish p i c).run m).1
      (((TableKind.vtable.finish p i c).run m).2.leave TableKind.vtable.facet o)) := by
  have hmade (hclass : c.isInterface = false) := vtableOver_made hc hclass h.asking hstarts
  have hgrows := p.vtableOver_grows i.value c m
  have htables : ((p.vtableOver i.value c).run m).2.vtables = m.vtables :=
    p.vtableOver_keeps (fun _ _ => rfl) (fun _ _ => rfl) i.value c m
  have hfinish : (TableKind.vtable.finish p i c).run m =
      (⟨((p.vtableOver i.value c).run m).1.value,
        i.complete && ((p.vtableOver i.value c).run m).1.complete⟩,
        ((p.vtableOver i.value c).run m).2) := rfl
  rw [hfinish]
  generalize (p.vtableOver i.value c).run m = r at hmade hgrows htables
  have hblank := h.blank
  rw [TableKind.vtable.busy_enter, List.forall_mem_cons] at hblank
  refine ⟨?_, ?_, fun b hb => ?_, ?_⟩
  · simp [TableKind.vtable, Memo.leave, hgrows.busy, h.marks, Memo.enter]
  · simpa [Memo.busyWith, Memo.enter, TableKind.vtable] using h.unasked
  · have hbo : b ≠ o := fun heq => hfree (heq ▸ hb)
    simp only [TableKind.vtable, Memo.leave, htables]
    rw [List.lookup_cons, show (b == o) = false by simpa using hbo]
    exact hblank.2 b hb
  · refine h.traced.added hblank.1 (congrArg _ htables) hgrows.interfaces fun c' hc' hclass => ?_
    cases hc.symm.trans hc'
    obtain ⟨j, hj⟩ := hmade hclass
    refine ⟨i.value, j, hj.mono ?_ fun _ _ ht => ht⟩
    exact Memo.Grows.lookup_cons _ (fun _ _ ht => ht) (htables ▸ hblank.1)

/-- What a class is given is what the class above hands down. -/
theorem inherited_traced (hr : TableKind.vtable.Calling p (n + 1) o m₀)
    (hc : p.classDefinition o = .ok c) (hfree : o ∉ TableKind.vtable.busy m₀)
    (hm : p.Tracing (m₀.enter TableKind.vtable.facet o) m)
    (ih : ∀ d m₀ m, TableKind.vtable.Calling p n (p.tableOwner d) m₀ → p.Tracing m₀ m →
      p.Tracing m₀ ((TableKind.vtable.within p n d).run m).2 ∧
        ∀ t, ((TableKind.vtable.within p n d).run m).1 = .ok t →
          p.HandsOn ((TableKind.vtable.within p n d).run m).2 (p.tableOwner d) t.value) :
    ∃ i m₁, (TableKind.vtable.inherited (TableKind.vtable.within p n) c).run m = (i, m₁) ∧
      p.Tracing (m₀.enter TableKind.vtable.facet o) m₁ ∧ p.StartsFrom m₁ o i.value := by
  have hn : 0 < n := by
    have := hr.depth_left
    omega
  have hmarked : o ∈ TableKind.vtable.busy (m₀.enter TableKind.vtable.facet o) := by
    rw [TableKind.vtable.busy_enter]
    exact List.mem_cons_self
  have hbusy : o ∈ TableKind.vtable.busy m := by
    simpa only [TableKind.busy, hm.marks] using hmarked
  rcases inherited_cases hn hc hbusy (hm.blank o hmarked) with
    ⟨hnone, complete, hrun⟩ | ⟨s, t, complete, hs, ht, hrun⟩
  · refine ⟨_, m, hrun, hm, ?_⟩
    rw [StartsFrom, show p.above? true o = none from hnone]
    rfl
  · obtain ⟨htracing, hhands⟩ := ih s _ m (hr.enter hc hfree hs) hm
    refine ⟨_, _, hrun, htracing, ?_⟩
    rw [StartsFrom, show p.above? true o = some (p.tableOwner s) from hs]
    exact hhands t ht

/-- A question traces what it computes, and what it answers for a class is what
    that has to hand down. -/
theorem within_traced (hr : TableKind.vtable.Calling p n (p.tableOwner d) m₀)
    (hm : p.Tracing m₀ m) :
    p.Tracing m₀ ((TableKind.vtable.within p n d).run m).2 ∧
      ∀ t, ((TableKind.vtable.within p n d).run m).1 = .ok t →
        p.HandsOn ((TableKind.vtable.within p n d).run m).2 (p.tableOwner d) t.value := by
  induction n generalizing d m m₀ with
  | zero =>
    have := hr.depth_left
    omega
  | succ n ih =>
    cases hc : p.classDefinition (p.tableOwner d) with
    | error e =>
      have hmissing : p.hasTables (p.tableOwner d) = false := by
        simp [hasTables, hc, Except.isOk, Except.toBool]
      obtain ⟨e, he⟩ := within_missing (k := TableKind.vtable) (m := m) n.succ_pos hmissing
      rw [he]
      refine ⟨hm, fun t ht => ?_⟩
      cases ht
    | ok c =>
      rw [within_run hc]
      generalize p.tableOwner d = o at hr hc
      cases hlookup : (TableKind.vtable.tables m).lookup o with
      | some t =>
        refine ⟨hm, fun t' ht' => .inl ⟨t, hlookup, ?_⟩⟩
        rw [Except.ok.inj ht']
      | none =>
        by_cases hbusy : o ∈ TableKind.vtable.busy m₀
        -- the class meets itself
        · have hmarked : m.isBusy TableKind.vtable.facet o = true := by
            rwa [← TableKind.mem_busy, TableKind.busy, hm.marks]
          simp only [hmarked, if_true]
          exact ⟨hm, fun t' ht' => .inr ⟨hr.below o hbusy, by rw [← Except.ok.inj ht']; rfl⟩⟩
        · have hmarked : m.isBusy TableKind.vtable.facet o = false := by
            rwa [Bool.eq_false_iff, ne_eq, ← TableKind.mem_busy, TableKind.busy, hm.marks]
          simp only [hmarked, Bool.false_eq_true, if_false]
          obtain ⟨i, m₁, hrun, htracing, hstarts⟩ :=
            inherited_traced hr hc hbusy (hm.enter hlookup) fun _ _ _ => ih
          rw [hrun]
          refine ⟨htracing.finished hc hbusy i hstarts, fun t' ht' => .inl ⟨t', ?_, rfl⟩⟩
          rw [← Except.ok.inj ht']
          exact List.lookup_cons_self

/-! ## Histories -/

variable (p) in
/-- A memo between two questions. -/
structure Accounted (m : Memo) : Prop where
  idle : m.busy = []
  traced : p.Traced m

/-- A class that nobody is computing is remembered with its answer. -/
theorem vtable_found (hc : p.classDefinition d = .ok c) (hm : m.busy = []) :
    ∃ t, ((p.vtable d).run m).1 = .ok t ∧ ((p.vtable d).run m).2.vtables.lookup d = some t := by
  have howner := tableOwner_of_classDefinition hc
  rw [vtable, vtableWithin_eq, within_run (by rwa [howner]), howner]
  cases hlookup : (TableKind.vtable.tables m).lookup d with
  | some t => exact ⟨t, rfl, hlookup⟩
  | none =>
    have hbusy : m.isBusy TableKind.vtable.facet d = false := by simp [Memo.isBusy, hm]
    simp only [hbusy, Bool.false_eq_true, if_false]
    exact ⟨_, rfl, List.lookup_cons_self⟩

theorem Accounted.vtable (h : p.Accounted m) (d : Descriptor) :
    p.Accounted ((p.vtable d).run m).2 := by
  have hm : p.Tracing m m := by
    refine ⟨rfl, ?_, ?_, h.traced⟩ <;> simp [Memo.busyWith, TableKind.busy, h.idle]
  refine ⟨((p.vtable_steady d).grows m).idle h.idle, ?_⟩
  rw [ClassPath.vtable, vtableWithin_eq]
  exact (within_traced (Calling.idle h.idle _) hm).1.traced

theorem Accounted.interfaces (h : p.Accounted m) (d : Descriptor) :
    p.Accounted ((p.interfaces d).run m).2 :=
  have hgrows := (p.interfaces_steady d).grows m
  ⟨hgrows.idle h.idle, h.traced.mono
    (p.interfaces_keeps (fun _ _ => rfl) (fun _ _ => rfl) d m) hgrows.interfaces⟩

theorem Accounted.layout (h : p.Accounted m) (d : Descriptor) :
    p.Accounted ((p.layout d).run m).2 := by
  have hgrows := (p.layout_steady d).grows m
  refine ⟨hgrows.idle h.idle, h.traced.mono ?_ hgrows.interfaces⟩
  rw [ClassPath.layout, layoutWithin_eq]
  exact within_keeps (·.vtables) (fun _ _ => rfl) (fun _ _ _ => rfl)
    (fun _ _ => Keeps.pure _) _ d m

variable (p) in
theorem accounted_after (history : List Question) : p.Accounted (p.memoAfterAsking history) := by
  refine p.memoAfterAsking_of_preserves ⟨rfl, fun d t ht => nomatch ht⟩ (fun q => ?_) history
  exact (p.ask_composed q).preserves (fun _ d m hm => ⟨trivial, hm.interfaces d⟩)
    (fun _ d m hm => ⟨trivial, hm.layout d⟩) (fun _ d m hm => ⟨trivial, hm.vtable d⟩)

/-- Whatever was asked before, the answer for a class is a table that was finished
    from the table that it inherits and from its interfaces, as they are answered
    from then on. -/
theorem vtable_traced (history : List Question) (hc : p.classDefinition d = .ok c)
    (hclass : c.isInterface = false) :
    ∃ t t₀ i, ((p.vtable d).run (p.memoAfterAsking history)).1 = .ok t ∧
      p.MadeFrom ((p.vtable d).run (p.memoAfterAsking history)).2 c t₀ i t.value := by
  have hm := p.accounted_after history
  obtain ⟨t, ht, hfound⟩ := vtable_found hc hm.idle
  obtain ⟨t₀, i, hmade⟩ := (hm.vtable d).traced d t hfound c hc hclass
  exact ⟨t, t₀, i, ht, hmade⟩

end ClassPath

end SymbolicDex
