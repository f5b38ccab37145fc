import SymbolicDex.Proofs.Analysis.Completeness

/- The states of a finished analysis solve the flow equations. Along the run an
   equation may be broken only where a change is still on its way: over an
   exceptional edge while its source is queued, and over a normal edge while its
   source, a read of an array element, waits.

   What is proved:
     1. `Consistent.refresh`, `Consistent.visit`, `Consistent.aid`: moves keep
        every other equation.
     2. `Steps.consistent`: so at every step the state before an instruction is
        the merge of what flows in, or a change is on its way.
     3. `Steps.applied`: the state after an instruction is what its rule makes
        of the state before, but for an inlined call that was visited once.
     4. `analysis_solves_equations`: when nothing is on its way, both hold
        everywhere; what is left is a call of a constructor through the table of
        inlined methods, whose effect is not applied. -/
namespace SymbolicDex

namespace Session

/-! ## Flows -/

theorem mergedPre_congr {c : MethodContext} {points points' : List Point} {t : Nat}
    (h : ∀ e ∈ c.graph.predecessors t, flowing? points' t e = flowing? points t e) :
    mergedPre c points' t = mergedPre c points t := by
  unfold mergedPre
  rw [List.filterMap_congr h]

theorem flowing?_set_ne {points : List Point} {ix t : Nat} {p : Point} {e : Edge}
    (h : e.source ≠ ix) : flowing? (points.set ix p) t e = flowing? points t e := by
  unfold flowing?
  rw [List.getElem?_set_ne (Ne.symm h)]

/-- What flows over an exceptional edge depends on the state before alone. -/
theorem flowing?_set_exceptional {s : Session} {ix t : Nat} {p : Point}
    (hix : ix < s.points.length) (hpre : p.pre = (s.point ix).pre)
    (hreached : p.reached = (s.point ix).reached) :
    flowing? (s.points.set ix p) t ⟨ix, true⟩ = flowing? s.points t ⟨ix, true⟩ := by
  unfold flowing?
  dsimp only
  rw [List.getElem?_set_self hix, getElem?_points hix]
  simp only [hpre, hreached, if_true]

/-- What flows over a normal edge depends on the state after and on what was
    learned there, and on nothing if the instruction was not analysed. -/
theorem flowing?_set_normal {s : Session} {ix t : Nat} {p : Point}
    (hix : ix < s.points.length) (hanalyzed : p.analyzed = (s.point ix).analyzed)
    (hpost : p.analyzed = true → p.post = (s.point ix).post ∧
      p.narrowing = (s.point ix).narrowing) :
    flowing? (s.points.set ix p) t ⟨ix, false⟩ = flowing? s.points t ⟨ix, false⟩ := by
  unfold flowing?
  dsimp only
  rw [List.getElem?_set_self hix, getElem?_points hix]
  dsimp only
  rw [← hanalyzed]
  cases hcase : p.analyzed with
  | false => rfl
  | true =>
    obtain ⟨hpost, hnarrowing⟩ := hpost hcase
    rw [hpost, hnarrowing]
    rfl

/-! ## Equations for the states before -/

/-- A change is on its way over the edge. -/
def Pending (s : Session) (e : Edge) : Prop :=
  if e.exceptional then e.source ∈ s.queue
  else (s.point e.source).parked.isSome ∧ (s.point e.source).current.ReadsElement

/-- Outside of `exempt`, the state before a reached instruction is the merge of
    what flows in, unless a change is on its way. -/
def Consistent (c : MethodContext) (exempt : List Nat) (s : Session) : Prop :=
  ∀ t < s.points.length, (s.point t).reached = true →
    t ∈ exempt ∨ (∃ e ∈ c.graph.predecessors t, Pending s e) ∨
      Query.Answered (mergedPre c s.points t) (s.point t).pre s.memo

theorem Pending.mono {s s' : Session} {e : Edge} (h : Pending s e)
    (hqueue : e.source ∈ s.queue → e.source ∈ s'.queue)
    (hparked : (s'.point e.source).parked = (s.point e.source).parked)
    (hcurrent : (s'.point e.source).current = (s.point e.source).current) : Pending s' e := by
  unfold Pending at h ⊢
  rw [hparked, hcurrent]
  split at h
  · rename_i hexceptional
    rw [if_pos hexceptional]
    exact hqueue h
  · rename_i hnormal
    rw [if_neg hnormal]
    exact h

/-- A new state before an instruction settles its own equation, and breaks
    others only over exceptional edges, with the instruction queued. -/
theorem Consistent.refresh {c : MethodContext} {s : Session} {t : Nat} {ts : List Nat}
    (h : Consistent c (t :: ts) s) (hidle : s.memo.busy = []) (ht : t < s.points.length) :
    Consistent c ts (updatePre c s t) := by
  have hanswer : Query.Answered (mergedPre c s.points t) ((mergedPre c s.points t).run s.memo).1
      (mergeMemo c s t) := ⟨s.memo, hidle, rfl, Memo.Grows.refl _⟩
  intro t' ht' hreached'
  rw [length_updatePre] at ht'
  rcases updatePre_cases c ht with ⟨hreached, hpre, hs⟩ | hs
  -- the merge is what was known: the equation of `t` holds as it is
  · rw [hs] at hreached' ⊢
    rcases h t' ht' hreached' with hexempt | hpending | hkept
    · rcases List.mem_cons.1 hexempt with rfl | hexempt
      · exact .inr (.inr (hpre ▸ hanswer))
      · exact .inl hexempt
    · exact .inr (.inl hpending)
    · exact .inr (.inr (hkept.mono (mergeMemo_grows c s t)))
  · generalize hp : ({ s.point t with
      pre := ((mergedPre c s.points t).run s.memo).1, reached := true } : Point) = p at hs
    have hpoints : (updatePre c s t).points = s.points.set t p := by rw [hs]
    have hmemo : (updatePre c s t).memo = mergeMemo c s t := by rw [hs]
    have hqueue : ∀ j, j ∈ (updatePre c s t).queue ↔ j ∈ s.queue ∨ j = t := by
      intro j
      rw [hs]
      exact mem_enqueue
    -- a handler of `t` sees the new state, and is excused because `t` is queued
    by_cases hhandler : (⟨t, true⟩ : Edge) ∈ c.graph.predecessors t'
    · exact .inr (.inl ⟨_, hhandler, (hqueue t).2 (.inr rfl)⟩)
    · have hmerge : mergedPre c (updatePre c s t).points t' = mergedPre c s.points t' := by
        rw [hpoints]
        refine mergedPre_congr fun e he => ?_
        by_cases hsource : e.source = t
        · obtain ⟨source, exceptional⟩ := e
          cases hsource
          cases exceptional with
          | true => exact absurd he hhandler
          | false =>
            rw [← hp]
            exact flowing?_set_normal ht rfl fun _ => ⟨rfl, rfl⟩
        · exact flowing?_set_ne hsource
      rw [hmerge, hmemo]
      by_cases htt : t' = t
      · subst htt
        rw [point_set_self hpoints ht, ← hp]
        exact .inr (.inr hanswer)
      · rw [point_set_ne hpoints htt] at hreached' ⊢
        rcases h t' ht' hreached' with hexempt | ⟨e, he, hpending⟩ | hkept
        · exact .inl ((List.mem_cons.1 hexempt).resolve_left htt)
        · have hsame : ((updatePre c s t).point e.source).parked = (s.point e.source).parked ∧
              ((updatePre c s t).point e.source).current = (s.point e.source).current := by
            by_cases hsource : e.source = t
            · rw [hsource, point_set_self hpoints ht, ← hp]
              exact ⟨rfl, rfl⟩
            · rw [point_set_ne hpoints hsource]
              exact ⟨rfl, rfl⟩
          have hqueued : e.source ∈ s.queue → e.source ∈ (updatePre c s t).queue :=
            fun hmem => (hqueue _).2 (.inl hmem)
          exact .inr (.inl ⟨e, he, hpending.mono hqueued hsame.1 hsame.2⟩)
        · exact .inr (.inr (hkept.mono (mergeMemo_grows c s t)))

theorem Consistent.refreshAll {c : MethodContext} {memo : Memo} (hmemo : memo.busy = [])
    {s : Session} {ts : List Nat} (h : Consistent c ts s) (hsound : Sound c memo s)
    (hts : ∀ t ∈ ts, t < s.points.length) : Consistent c [] (ts.foldl (updatePre c) s) := by
  induction ts generalizing s with
  | nil => exact h
  | cons t ts ih =>
    obtain ⟨ht, hts⟩ := List.forall_mem_cons.1 hts
    refine ih (h.refresh (hsound.grown.idle hmemo) ht) (hsound.refresh ht) fun t' ht' => ?_
    rw [length_updatePre]
    exact hts t' ht'

/-- What a change at `ix` may do to the equations of its successors: they are
    recomputed, or a change is on its way to them, or none was and nothing else
    flows to them. -/
def KeepsFlow (c : MethodContext) (ix : Nat) (ts : List Nat) (p p' : Point) : Prop :=
  (∀ t ∈ c.graph.successors ix, t ∈ ts) ∨ (p'.parked.isSome ∧ p'.current.ReadsElement) ∨
    (¬(p.parked.isSome ∧ p.current.ReadsElement) ∧ p'.analyzed = p.analyzed ∧
      (p'.analyzed = true → p'.post = p.post ∧ p'.narrowing = p.narrowing))

theorem Consistent.localChange {c : MethodContext} (hc : c.Built) {s s₁ : Session} {ix : Nat}
    {p : Point} {ts : List Nat} (h : Consistent c [] s) (hix : ix < s.points.length)
    (hchange : LocalChange s s₁ ix) (hpoints : s₁.points = s.points.set ix p)
    (hpre : p.pre = (s.point ix).pre) (hreached : p.reached = (s.point ix).reached)
    (hqueue : ix ∈ s.queue → ix ∈ s₁.queue ∨ ∀ t ∈ c.graph.handlers ix, t ∈ ts)
    (hflow : KeepsFlow c ix ts (s.point ix) p) : Consistent c ts s₁ := by
  intro t ht hreached'
  rw [hchange.length] at ht
  have hkept : (s.point t).reached = true ∧ (s₁.point t).pre = (s.point t).pre := by
    by_cases hj : t = ix
    · rw [hj, point_set_self hpoints hix] at hreached' ⊢
      exact ⟨hreached ▸ hreached', hpre⟩
    · rw [point_set_ne hpoints hj] at hreached' ⊢
      exact ⟨hreached', rfl⟩
  rw [hkept.2]
  -- over a normal edge from `ix` nothing changes, or the equation is excused
  have hedge : t ∈ ts ∨ (∃ e ∈ c.graph.predecessors t, Pending s₁ e) ∨
      ((⟨ix, false⟩ : Edge) ∈ c.graph.predecessors t →
        ¬Pending s ⟨ix, false⟩ ∧
          flowing? s₁.points t ⟨ix, false⟩ = flowing? s.points t ⟨ix, false⟩) := by
    by_cases hnormal : (⟨ix, false⟩ : Edge) ∈ c.graph.predecessors t
    · rcases hflow with hts | hpending | ⟨hnot, hanalyzed, hpost⟩
      · exact .inl (hts t ((FlowGraph.mem_predecessors_normal hc.wellFormed).1 hnormal))
      · refine .inr (.inl ⟨_, hnormal, ?_⟩)
        unfold Pending
        rw [if_neg (by simp), point_set_self hpoints hix]
        exact hpending
      · refine .inr (.inr fun _ => ⟨hnot, ?_⟩)
        rw [hpoints]
        exact flowing?_set_normal hix hanalyzed hpost
    · exact .inr (.inr fun hmem => absurd hmem hnormal)
  rcases hedge with hexempt | hpending | hedge
  · exact .inl hexempt
  · exact .inr (.inl hpending)
  · rcases h t ht hkept.1 with hexempt | ⟨⟨source, exceptional⟩, he, hpending⟩ | hanswer
    · cases hexempt
    -- an excuse from elsewhere stays; one over a handler edge of `ix` is paid now
    · by_cases hsource : source = ix
      · subst hsource
        cases exceptional with
        | false => exact absurd hpending (hedge he).1
        | true =>
          rcases hqueue hpending with hqueued | hts
          · exact .inr (.inl ⟨_, he, hqueued⟩)
          · exact .inl (hts t ((FlowGraph.mem_predecessors_exceptional hc.wellFormed).1 he))
      · refine .inr (.inl ⟨_, he, hpending.mono (hchange.others source hsource) ?_ ?_⟩)
        · rw [point_set_ne hpoints hsource]
        · rw [point_set_ne hpoints hsource]
    · have hmerge : mergedPre c s₁.points t = mergedPre c s.points t := by
        refine mergedPre_congr fun e he => ?_
        obtain ⟨source, exceptional⟩ := e
        by_cases hsource : source = ix
        · subst hsource
          cases exceptional with
          | false => exact (hedge he).2
          | true =>
            rw [hpoints]
            exact flowing?_set_exceptional hix hpre hreached
        · rw [hpoints]
          exact flowing?_set_ne hsource
      rw [hmerge]
      exact .inr (.inr (hanswer.mono hchange.memo))

/-- A visit leaves no equation broken without a reason. -/
theorem Consistent.visit {c : MethodContext} (hc : c.Built) {memo : Memo} {s s₁ : Session}
    {ix : Nat} {ts : List Nat} (h : Consistent c [] s) (hsound : Sound c memo s)
    (hix : ix < s.points.length) (hvisit : Visit c ix s s₁ ts) : Consistent c ts s₁ := by
  have hok := hsound.points ix hix
  have hchange := hvisit.localChange
  cases hvisit with
  | passed hqueue hthrowing =>
    refine h.localChange hc hix hchange rfl rfl rfl (fun _ => .inr fun t ht => ht) (.inr (.inr ?_))
    refine ⟨fun hpending => ?_, rfl, fun _ => ⟨rfl, rfl⟩⟩
    have hnone : (s.point ix).throwing = none := (hok.parked hpending.1).2
    rw [hnone] at hthrowing
    cases hthrowing
  | analyzed =>
    exact h.localChange hc hix hchange rfl rfl rfl
      (fun _ => .inr fun t ht => List.mem_append_right _ ht)
      (.inl fun t ht => List.mem_append_left _ ht)
  | @parked queue cur r f hqueue hthrowing heffect =>
    refine h.localChange hc hix hchange rfl rfl rfl (fun _ => .inr fun t ht => ht) ?_
    by_cases hplain : (s.point ix).current.Plain
    · -- a plain instruction waits for an array alone
      refine .inr (.inl ⟨rfl, ?_⟩)
      rcases Site.transfer_error _ heffect with ⟨-, hneeds⟩ | ⟨-, -, -, -, -, hreads⟩
      · exact absurd (hneeds r f rfl) hplain.not_needsObject
      · exact (hreads r f rfl).1
    · refine .inr (.inr ⟨fun hpending => hplain hpending.2.plain, ?_, fun h => nomatch h⟩)
      cases hanalyzed : (s.point ix).analyzed with
      | false => rfl
      | true => exact absurd (hok.plain hanalyzed) hplain

theorem Consistent.aid {c : MethodContext} (hc : c.Built) {memo : Memo} {s s₁ : Session}
    {ix : Nat} {ts : List Nat} (h : Consistent c [] s) (hsound : Sound c memo s)
    (hix : ix < s.points.length) (haid : Aid c ix s s₁ ts) : Consistent c ts s₁ := by
  have hok := hsound.points ix hix
  have hchange := haid.localChange
  cases haid with
  | tried hparked htried =>
    refine h.localChange hc hix hchange rfl rfl rfl (fun hqueue => .inl hqueue) (.inr ?_)
    by_cases hreads : (s.point ix).current.ReadsElement
    · exact .inl ⟨hparked, hreads⟩
    · exact .inr ⟨fun hpending => hreads hpending.2, rfl, fun _ => ⟨rfl, rfl⟩⟩
  | @unhelped t cur e hparked hhint heffect =>
    refine h.localChange hc hix hchange rfl rfl rfl (fun hqueue => .inl hqueue) (.inr ?_)
    have hanalyzed : (s.point ix).analyzed = false := (hok.parked hparked).1
    by_cases hreads : (s.point ix).current.ReadsElement
    · refine .inl ⟨hparked, ?_⟩
      have hcur : cur = (s.point ix).current := by
        rcases Site.transfer_error _ heffect with ⟨hcur, -⟩ | ⟨-, hsame, -⟩
        · exact hcur
        · exact hsame hreads.plain
      exact hcur ▸ hreads
    · refine .inr ⟨fun hpending => hreads hpending.2, rfl, fun htrue => ?_⟩
      exact nomatch hanalyzed.symm.trans htrue
  | helped =>
    exact h.localChange hc hix hchange rfl rfl rfl (fun hqueue => .inl hqueue)
      (.inl fun t ht => List.mem_append_left _ ht)
  | @gaveUp r note hparked hnote =>
    have hsome : (s.point ix).parked.isSome := by rw [hparked]; rfl
    have hanalyzed : (s.point ix).analyzed = false := (hok.parked hsome).1
    refine h.localChange hc hix hchange rfl rfl rfl (fun hqueue => .inl hqueue) (.inr (.inr ?_))
    refine ⟨fun hpending => ?_, hanalyzed.symm, fun htrue => nomatch htrue⟩
    -- a read of an element has a failure to show and is never given up
    exact nomatch hok.element r none hparked hpending.2

theorem Consistent.initial (c : MethodContext) {memo : Memo} (hmemo : memo.busy = []) :
    Consistent c [] (initial c memo) := by
  have hblank (ts : List Nat) : Consistent c ts (blank c memo) := by
    intro t ht hreached
    have hunreached : Everywhere (fun _ st => st.point.reached = false) (blank c memo) :=
      Everywhere.blank fun _ _ _ => rfl
    exact nomatch hreached.symm.trans (hunreached t ht)
  rcases initial_cases c memo with ⟨-, hs⟩ | ⟨hlen, hs⟩
  · rw [hs]
    exact hblank []
  · rw [hs]
    exact (hblank [0]).refresh hmemo hlen

theorem Steps.consistent {c : MethodContext} (hc : c.Built) {memo : Memo} (hmemo : memo.busy = [])
    {count : Nat} {s : Session} (h : Steps c (Session.initial c memo) count s) :
    Consistent c [] s := by
  refine (h.invariant hc (Consistent.initial c hmemo) ?_ ?_).2
  · intro count s s₁ ix ts _ hsound hix hall hvisit
    have hlocal := (hsound.visit hc hix hvisit).1
    exact (hall.visit hc hsound hix hvisit).refreshAll hmemo hlocal fun t ht =>
      hlocal.target_lt hc (hvisit.targets t ht)
  · intro s s₁ ix ts hsound hix hall haid
    have hlocal := (hsound.aid hc hix haid).1
    exact (hall.aid hc hsound hix haid).refreshAll hmemo hlocal fun t ht =>
      hlocal.target_lt hc (haid.targets t ht)

/-! ## Equations for the states after -/

/-- What the rule of the instruction made of the state before it. The effect of
    an inlined call is left for its second visit. -/
structure Applied (c : MethodContext) (ix : Nat) (st : Status) : Prop where
  inlined : st.point.given.opcode.odexForm = .inlineCall → st.point.visits ≠ 0 →
    st.point.current.Plain ∧ (st.point.current.opcode.registerEffect = .keep ∨
      st.point.current.opcode.registerEffect = .construct)
  unparked : st.point.given.opcode.odexForm = .inlineCall → st.point.parked = none
  first : st.point.analyzed = true → ¬st.queued →
    st.point.given.opcode.odexForm = .inlineCall ∧ st.point.visits = 1 →
    st.point.post = st.point.pre
  post : st.point.analyzed = true → ¬st.queued →
    ¬(st.point.given.opcode.odexForm = .inlineCall ∧ st.point.visits = 1) →
    st.point.current.opcode.registerEffect ≠ .result →
    Query.Answered ((site c [] ix st.point).apply st.point.current).run (.ok st.point.post)
      st.memo

namespace Applied

variable {c : MethodContext} {ix : Nat}

theorem stable (c : MethodContext) : Stable c (Applied c) where
  grows h _ hmemo :=
    { h with
      post := fun hanalyzed hqueued hlater hresult =>
        (h.post hanalyzed hqueued hlater hresult).mono hmemo }
  refreshed h _ :=
    { h with
      first := fun _ hqueued => absurd trivial hqueued
      post := fun _ hqueued => absurd trivial hqueued }

/-- The rules look at neither the form nor the surroundings of an instruction
    that takes no result. -/
theorem answered_site {points : List Point} {p p' : Point} {i : Instruction}
    {a : Except Halt (List RegisterType)} {m : Memo} (hresult : i.opcode.registerEffect ≠ .result)
    (hpre : p'.pre = p.pre)
    (h : Query.Answered (({ site c points ix p with hint := p'.hint }).apply i).run a m) :
    Query.Answered ((site c [] ix p').apply i).run a m := by
  have hsite : { site c points ix p with hint := p'.hint } =
      { site c [] ix p' with
        current := p.current, previous := (site c points ix p).previous } := by
    unfold site
    rw [hpre]
  rw [hsite, Site.apply_elsewhere _ hresult] at h
  exact h

theorem visit {memo : Memo} (hmemo : memo.busy = []) {s s₁ : Session} {ts : List Nat}
    (h : Applied c ix (s.status ix)) (hsound : Sound c memo s) (hix : ix < s.points.length)
    (hvisit : Visit c ix s s₁ ts) : Applied c ix (s₁.status ix) := by
  have hok := hsound.points ix hix
  have hidle := hsound.grown.idle hmemo
  have hgiven : (s.point ix).visits = 0 → (s.point ix).current = (s.point ix).given :=
    fun hzero => congrArg Point.current (hok.fresh hzero)
  have hcurrent : (site c s.points ix (s.point ix)).current = (s.point ix).current := rfl
  cases hvisit with
  | @passed queue hqueue hthrowing =>
    rw [status_set hix]
    have hanalyzed : (s.point ix).analyzed = false := hok.throwing hthrowing
    exact ⟨fun hinline _ => h.inlined hinline (hok.visits_ne_zero (.inr hthrowing)), h.unparked,
      fun htrue => (nomatch hanalyzed.symm.trans htrue),
      fun htrue => (nomatch hanalyzed.symm.trans htrue)⟩
  | @analyzed queue cur post narrowing memo' hqueue hthrowing heffect hmemo' =>
    rw [status_set hix]
    obtain ⟨hplain, hsame, -, hinline⟩ := Site.transfer_ok _ heffect
    rw [hcurrent] at hsame hinline
    refine ⟨fun hform _ => ⟨hplain, ?_⟩, fun _ => rfl, fun _ _ hfirst => ?_,
      fun _ _ hlater hresult => ?_⟩
    -- the first visit restores the call, later ones keep its form
    · by_cases hzero : (s.point ix).visits = 0
      · rw [hgiven hzero] at hinline
        exact (hinline hform).2
      · obtain ⟨hcurrentPlain, hcalled⟩ := h.inlined hform hzero
        have hcur : cur = (s.point ix).current := hsame hcurrentPlain
        rw [hcur]
        exact hcalled
    · have hzero : (s.point ix).visits = 0 := Nat.succ.inj hfirst.2
      rw [hgiven hzero] at hinline
      exact (hinline hfirst.1).1
    · have hform : (s.point ix).current.opcode.odexForm ≠ .inlineCall := by
        by_cases hzero : (s.point ix).visits = 0
        · rw [hgiven hzero]
          exact fun hform => hlater ⟨hform, congrArg (· + 1) hzero⟩
        · exact hok.visited hzero
      have hanswer := (Site.transfer_answered _ hidle heffect hform).mono hmemo'
      exact answered_site (p := s.point ix) hresult rfl hanswer
  | @parked queue cur r f hqueue hthrowing heffect =>
    rw [status_set hix]
    have hform : (s.point ix).given.opcode.odexForm ≠ .inlineCall := by
      -- an inline call halts for good or goes on; it never waits
      intro hform
      have herror := Site.transfer_error _ heffect
      rw [hcurrent] at herror
      by_cases hzero : (s.point ix).visits = 0
      · rw [hgiven hzero] at herror
        rcases herror with ⟨-, hneeds⟩ | ⟨-, -, hnot, -⟩
        · rcases hneeds r f rfl with hneeds | hneeds <;> cases hform.symm.trans hneeds
        · exact hnot hform
      · obtain ⟨hplain, hcalled⟩ := h.inlined hform hzero
        rcases herror with ⟨-, hneeds⟩ | ⟨-, hsame, -, -, -, hreads⟩
        · exact hplain.not_needsObject (hneeds r f rfl)
        · have hcur : cur = (s.status ix).point.current := hsame hplain
          rw [← hcur] at hcalled
          rcases hcalled with hcalled | hcalled
          · exact (hreads r f rfl).1.effect.2.1 hcalled
          · exact (hreads r f rfl).1.effect.2.2 hcalled
    exact ⟨fun hinline => absurd hinline hform, fun hinline => absurd hinline hform,
      fun hfalse => (nomatch hfalse), fun hfalse => (nomatch hfalse)⟩

theorem aid {memo : Memo} (hmemo : memo.busy = []) {s s₁ : Session} {ts : List Nat}
    (h : Applied c ix (s.status ix)) (hsound : Sound c memo s) (hix : ix < s.points.length)
    (haid : Aid c ix s s₁ ts) : Applied c ix (s₁.status ix) := by
  have hok := hsound.points ix hix
  have hidle := hsound.grown.idle hmemo
  have hform (hparked : (s.point ix).parked.isSome) :
      (s.point ix).given.opcode.odexForm ≠ .inlineCall := by
    intro hinline
    rw [show (s.point ix).parked = none from h.unparked hinline] at hparked
    cases hparked
  cases haid with
  | tried hparked htried =>
    rw [status_set hix]
    have hanalyzed : (s.point ix).analyzed = false := (hok.parked hparked).1
    exact ⟨h.inlined, h.unparked, fun htrue => (nomatch hanalyzed.symm.trans htrue),
      fun htrue => (nomatch hanalyzed.symm.trans htrue)⟩
  | unhelped hparked hhint heffect =>
    rw [status_set hix]
    have hanalyzed : (s.point ix).analyzed = false := (hok.parked hparked).1
    exact ⟨fun hinline => absurd hinline (hform hparked), h.unparked,
      fun htrue => (nomatch hanalyzed.symm.trans htrue),
      fun htrue => (nomatch hanalyzed.symm.trans htrue)⟩
  | @helped t cur post narrowing memo' note hparked hhint htried heffect hmemo' hnote =>
    rw [status_set hix]
    refine ⟨fun hinline => absurd hinline (hform hparked), fun _ => rfl,
      fun _ _ hfirst => absurd hfirst.1 (hform hparked), fun _ _ _ hresult => ?_⟩
    have hvisits : (s.point ix).visits ≠ 0 := hok.visits_ne_zero (.inl hparked)
    have hanswer := (Site.transfer_answered _ hidle heffect (hok.visited hvisits)).mono hmemo'
    exact answered_site (p := s.point ix) hresult rfl hanswer
  | gaveUp hparked hnote =>
    rw [status_set hix]
    have hsome : (s.point ix).parked.isSome := by rw [hparked]; rfl
    exact ⟨fun hinline => absurd hinline (hform hsome), fun _ => rfl,
      fun hfalse => (nomatch hfalse), fun hfalse => (nomatch hfalse)⟩

end Applied

theorem Steps.applied {c : MethodContext} (hc : c.Built) {memo : Memo} (hmemo : memo.busy = [])
    {count : Nat} {s : Session} (h : Steps c (Session.initial c memo) count s) :
    Everywhere (Applied c) s :=
  h.everywhere hc (Applied.stable c)
    (fun _ _ _ => ⟨fun _ hzero => absurd rfl hzero, fun _ => rfl,
      fun hfalse => (nomatch hfalse), fun hfalse => (nomatch hfalse)⟩)
    (fun _ hsound hix happlied hvisit => happlied.visit hmemo hsound hix hvisit)
    fun hsound hix happlied haid => happlied.aid hmemo hsound hix haid

theorem Finished.merged {c : MethodContext} (hc : c.Built) {memo : Memo} (hmemo : memo.busy = [])
    {s : Session} (h : Finished c memo s) {ix : Nat} (hix : ix < s.points.length)
    (hreached : (s.point ix).reached = true) :
    ((mergedPre c s.points ix).run s.memo).1 = (s.point ix).pre := by
  obtain ⟨count, hsteps⟩ := h.steps
  rcases hsteps.consistent hc hmemo ix hix hreached with hexempt | ⟨e, -, hpending⟩ | hanswer
  · cases hexempt
  · unfold Pending at hpending
    split at hpending
    · rw [h.queue] at hpending
      cases hpending
    · have hparked : (s.point e.source).parked = none := by
        by_cases hsource : e.source < s.points.length
        · exact h.parked _ hsource
        · rw [point_of_le (Nat.le_of_not_lt hsource)]
          rfl
      rw [hparked] at hpending
      cases hpending.1
  · exact hanswer.run_eq (mergedPre_steady c s.points ix)

end Session

/-! ## Constructors -/

/-- The instruction calls a constructor, and the call would change the state
    before it or fail on it. -/
def Instruction.Constructs (i : Instruction) (pre : List RegisterType) : Prop :=
  i.opcode.registerEffect = .construct ∧ (∃ m, i.methodRef? = some m ∧ m.name = "<init>") ∧
    ∀ t, (i.register? 0).bind (pre[·]?) = some t →
      (t.category = .uninitRef ∨ t.category = .uninitThis) ∧ t.cls.isSome

/-- Initializing a register changes the state, for it was not initialized. -/
theorem Site.initialize_eq_pre_iff (s : Site) (m' : Memo) {r : Nat} {t : RegisterType}
    (hobject : s.pre[r]? = some t) :
    (((if t.category = .uninitRef ∨ t.category = .uninitThis then
        match t.cls with
        | none => pure s.pre
        | some c => pure (s.pre.map fun u => if u = t then RegisterType.reference c else u)
      else pure s.pre : Rule (List RegisterType)).run.run m').1 = .ok s.pre) ↔
      ¬∀ u, some t = some u →
        (u.category = .uninitRef ∨ u.category = .uninitThis) ∧ u.cls.isSome := by
  by_cases huninit : t.category = .uninitRef ∨ t.category = .uninitThis
  · rw [if_pos huninit]
    cases hcls : t.cls with
    | none =>
      refine iff_of_true rfl fun h => ?_
      have hsome := (h t rfl).2
      rw [hcls] at hsome
      cases hsome
    | some c =>
      refine iff_of_false (fun h => ?_) fun h => h fun u hu => ?_
      -- the register itself is among those that change
      · injection h with h
        have hat := congrArg (·[r]?) h
        simp only [List.getElem?_map, hobject, Option.map_some, if_true] at hat
        injection hat with hat
        rw [← hat] at huninit
        rcases huninit with h | h <;> cases h
      · cases hu
        exact ⟨huninit, by rw [hcls]; rfl⟩
  · rw [if_neg huninit]
    exact iff_of_true rfl fun h => huninit (h t rfl).1

theorem Site.construct_eq_pre_iff (s : Site) {i : Instruction} (m' : Memo)
    (heffect : i.opcode.registerEffect = .construct) :
    ((s.apply i).run.run m').1 = .ok s.pre ↔ ¬i.Constructs s.pre := by
  simp only [apply, heffect, construct, operand, read, Instruction.Constructs, true_and]
  cases hmethod : i.methodRef? with
  | none =>
    refine iff_of_true rfl fun hc => ?_
    obtain ⟨m₁, hm, -⟩ := hc.1
    cases hm
  | some m =>
    by_cases hname : m.name = "<init>"
    · have hinit : ∃ m₁, some m = some m₁ ∧ m₁.name = "<init>" := ⟨m, rfl, hname⟩
      simp only [hname, ne_eq, not_true_eq_false, if_false, hinit, true_and]
      cases hregister : i.register? 0 with
      | none =>
        refine iff_of_false (fun h => ?_) fun hc => hc fun t ht => ?_
        · cases h
        · cases ht
      | some r =>
        rw [Rule.need_some_bind, Option.bind_some]
        cases hobject : s.pre[r]? with
        | none =>
          refine iff_of_false (fun h => ?_) fun hc => hc fun t ht => ?_
          · cases h
          · cases ht
        | some t =>
          rw [Rule.need_some_bind]
          exact s.initialize_eq_pre_iff m' hobject
    · have hother : ¬∃ m₁, some m = some m₁ ∧ m₁.name = "<init>" := by
        rintro ⟨m₁, hm, hinit⟩
        cases hm
        exact hname hinit
      simp only [ne_eq, hname, not_false_eq_true, if_true]
      exact iff_of_true rfl fun hc => hother hc.1

/-- An inlined call of a constructor that was visited once. Its effect was left
    for the second visit. -/
def Point.SkipsConstructor (p : Point) : Prop :=
  p.given.opcode.odexForm = .inlineCall ∧ p.visits = 1 ∧ p.current.Constructs p.pre

theorem Session.Finished.reapplied {c : MethodContext} (hc : c.Built) {memo : Memo}
    (hmemo : memo.busy = []) {s : Session} (h : Finished c memo s) {ix : Nat}
    (hix : ix < s.points.length) (hanalyzed : (s.point ix).analyzed = true)
    (hresult : (s.point ix).current.opcode.registerEffect ≠ .result) :
    ((site c s.points ix (s.point ix)).transfer.run s.memo).1 =
      ⟨(s.point ix).current, .ok (s.point ix).post⟩ ↔ ¬(s.point ix).SkipsConstructor := by
  obtain ⟨count, hsteps⟩ := h.steps
  have hqueued : ¬ix ∈ s.queue := by rw [h.queue]; exact List.not_mem_nil
  have hplain : (s.point ix).current.Plain := ((hsteps.sound hc).points ix hix).plain hanalyzed
  have happlied := hsteps.applied hc hmemo ix hix
  have hsite : (site c s.points ix (s.point ix)).apply (s.point ix).current =
      (site c [] ix (s.point ix)).apply (s.point ix).current :=
    (site c [] ix (s.point ix)).apply_elsewhere hresult (s.point ix).current
      (site c s.points ix (s.point ix)).previous
  have hrule : ((site c s.points ix (s.point ix)).transfer.run s.memo).1 =
      ⟨(s.point ix).current,
        (((site c [] ix (s.point ix)).apply (s.point ix).current).run.run s.memo).1⟩ := by
    rw [← hsite]
    exact (site c s.points ix (s.point ix)).transfer_plain hplain s.memo
  rw [hrule, Site.Effect.mk.injEq, eq_self, true_and]
  by_cases hfirst : (s.point ix).given.opcode.odexForm = .inlineCall ∧ (s.point ix).visits = 1
  · rw [show (s.point ix).post = (s.point ix).pre from
      happlied.first hanalyzed hqueued hfirst]
    rcases (happlied.inlined hfirst.1 (by rw [status_point, hfirst.2]; decide)).2 with
      hkeep | hconstruct
    · refine iff_of_true ?_ fun hskips => nomatch hkeep.symm.trans hskips.2.2.1
      simp only [Site.apply, show (s.point ix).current.opcode.registerEffect = .keep from hkeep]
      rfl
    · refine ((site c [] ix (s.point ix)).construct_eq_pre_iff s.memo hconstruct).trans ?_
      exact not_congr ⟨fun h => ⟨hfirst.1, hfirst.2, h⟩, fun h => h.2.2⟩
  · have hanswer := happlied.post hanalyzed hqueued hfirst hresult
    exact iff_of_true (hanswer.run_eq (Site.apply_steady _ _)) fun hskips =>
      hfirst ⟨hskips.1, hskips.2.1⟩

/-- The flow equations of a method. -/
structure MethodAnalysis.Solves (a : MethodAnalysis) (c : MethodContext) (memo : Memo) :
    Prop where
  /-- The state before a reached instruction is the merge of what flows in. -/
  before : ∀ (ix : Nat) (p : Point), a.points[ix]? = some p → p.reached = true →
    ((Session.mergedPre c a.points ix).run memo).1 = p.pre
  /-- Once more, an analysed instruction leads to the state after it, exactly if
      its effect was not left out. -/
  after : ∀ (ix : Nat) (p : Point), a.points[ix]? = some p → p.analyzed = true →
    p.current.opcode.registerEffect ≠ .result →
    (((Session.site c a.points ix p).transfer.run memo).1 = ⟨p.current, .ok p.post⟩ ↔
      ¬p.SkipsConstructor)
  /-- Nothing is known of what was not reached. -/
  unreached : ∀ (ix : Nat) (p : Point), a.points[ix]? = some p → p.reached = false →
    p.pre = List.replicate c.code.registers RegisterType.unknown ∧
      p.post = List.replicate c.code.registers RegisterType.unknown

/-- A finished analysis solves the flow equations. -/
theorem analysis_solves_equations {path : ClassPath} {cls : ClassDef} {m : MethodDef}
    {steps : MethodContext → Nat} {memo memo' : Memo} {a : MethodAnalysis} {c : MethodContext}
    (hmemo : memo.busy = [])
    (h : (path.analyzeWithin cls m steps).run memo = (some (.ok a), memo'))
    (hc : MethodContext.of path cls m = .ok c) : a.Solves c memo' := by
  obtain ⟨c', s, hc', hbuilt, hfinished, rfl, rfl⟩ := ClassPath.analyzeWithin_ok h
  cases hc.symm.trans hc'
  obtain ⟨count, hsteps⟩ := hfinished.steps
  have hsound := hsteps.sound hbuilt
  refine ⟨fun ix p hp hreached => ?_, fun ix p hp hanalyzed hresult => ?_,
    fun ix p hp hunreached => ?_⟩
  · obtain ⟨rfl, hix⟩ := Session.point_eq_of_getElem? hp
    exact hfinished.merged hbuilt hmemo hix hreached
  · obtain ⟨rfl, hix⟩ := Session.point_eq_of_getElem? hp
    exact hfinished.reapplied hbuilt hmemo hix hanalyzed hresult
  · obtain ⟨rfl, hix⟩ := Session.point_eq_of_getElem? hp
    have hblank := (hsound.points ix hix).unreached hunreached
    rw [Session.status_point] at hblank
    exact ⟨congrArg Point.pre hblank, congrArg Point.post hblank⟩

/-! ## A constructor behind the table of inlined methods -/

namespace Sample

/-- A new object whose constructor is called through the table. -/
def creator : MethodDef :=
  { name := "create", prototype := ⟨[], "V"⟩, access := ⟨9⟩
    code := some
      { registers := 1
        instructions := [
          { opcode := .newInstance, registers := [0], reference := some (.type "LBox;") },
          { opcode := .executeInline, registers := [0], reference := some (.inlineIndex 0) },
          { opcode := .returnVoid }] } }

def creating : ClassDef := classDef "LCreating;" Descriptor.object [] [creator]

def constructors : InlineTable := ⟨[⟨.direct, ⟨"LBox;", "<init>", ⟨[], "V"⟩⟩⟩]⟩

end Sample

open Sample in
theorem creator_solved :
    ∃ c a memo', MethodContext.of (path [box, creating] constructors) creating creator = .ok c ∧
      ((path [box, creating] constructors).analyzeWithin creating creator fun _ => 20).run {} =
        (some (.ok a), memo') ∧
      (∃ p, a.points[1]? = some p ∧ p.SkipsConstructor) ∧ a.Solves c memo' := by
  have hchecks : (path [box, creating] constructors).checks creating creator 20 (fun _ a _ =>
      (a.points[1]?).any fun p =>
        p.given.opcode.odexForm = .inlineCall ∧ p.visits = 1 ∧
        p.current.opcode.registerEffect = .construct ∧
        p.current.methodRef? = some ⟨"LBox;", "<init>", ⟨[], "V"⟩⟩ ∧
        (p.current.register? 0).bind (p.pre[·]?) = some ⟨.uninitRef, some "LBox;"⟩) = true := by
    decide +kernel
  obtain ⟨c, a, memo', hc, h, hpoint⟩ := ClassPath.checks_inv hchecks
  obtain ⟨p, hp, hfacts⟩ := (Option.any_eq_true _ _).1 hpoint
  obtain ⟨hgiven, hvisits, heffect, hmethod, hobject⟩ := of_decide_eq_true hfacts
  refine ⟨c, a, memo', hc, h, ⟨p, hp, hgiven, hvisits, heffect, ⟨_, hmethod, rfl⟩, ?_⟩,
    analysis_solves_equations rfl h hc⟩
  intro t ht
  cases hobject.symm.trans ht
  exact ⟨.inl rfl, rfl⟩

open Sample in
/-- Once more, the inlined constructor initializes what it left uninitialized. -/
theorem creator_not_reapplied :
    ∃ c a memo' p, MethodContext.of (path [box, creating] constructors) creating creator = .ok c ∧
      ((path [box, creating] constructors).analyzeWithin creating creator fun _ => 20).run {} =
        (some (.ok a), memo') ∧
      a.points[1]? = some p ∧ p.analyzed = true ∧ p.current.opcode.registerEffect ≠ .result ∧
      ((Session.site c a.points 1 p).transfer.run memo').1 ≠ ⟨p.current, .ok p.post⟩ := by
  have hchecks : (path [box, creating] constructors).checks creating creator 20 (fun c a memo =>
      (a.points[1]?).any fun p =>
        p.analyzed = true ∧ p.current.opcode.registerEffect ≠ .result ∧
        ((Session.site c a.points 1 p).transfer.run memo).1.post.toOption ≠ some p.post) =
          true := by
    decide +kernel
  obtain ⟨c, a, memo', hc, h, hpoint⟩ := ClassPath.checks_inv hchecks
  obtain ⟨p, hp, hfacts⟩ := (Option.any_eq_true _ _).1 hpoint
  obtain ⟨hanalyzed, hresult, hpost⟩ := of_decide_eq_true hfacts
  refine ⟨c, a, memo', p, hc, h, hp, hanalyzed, hresult, fun heffect => hpost ?_⟩
  rw [heffect]
  rfl

end SymbolicDex
