import SymbolicDex.Proofs.Analysis.CheckedTypes
import SymbolicDex.Proofs.Analysis.Completeness
import SymbolicDex.Proofs.Analysis.RegisterPairs

/- Lower halves have their upper halves after them, in all states of a run, as
   long as no instruction sets the register after a lower half. One that does is
   not noticed: the lower half stays, and nothing goes with it any more.

   What is proved:
     1. `Point.passed_whole`: what an instruction passes on is paired, if it does
        not split the pair itself.
     2. `Unsplit.visit`, `Unsplit.aid`: moves keep all pairs that they do not split.
     3. `Steps.unsplit`: so a run in which no instruction splits a pair keeps it.
     4. `wide_halves_paired`: the same of the states that an analysis ends with.
     5. `halver_splits`: a lower half that is left alone. -/
namespace SymbolicDex

open RegisterType

/-! ## What an instruction passes on -/

namespace Point

/-- Registers that are set at an instruction, by it or by what its branch learns. -/
def writes (p : Point) : List Nat :=
  p.current.written?.toList ++ p.narrowing.elim [] (·.registers.map (·.1))

/-- The state after an instruction, also as its branch narrows it. -/
def passedOn (p : Point) : List (List RegisterType) :=
  p.post :: (p.narrowing.map fun n =>
    n.registers.foldl (fun post r => post.set r.1 r.2) p.post).toList

/-- The register after `r` is set, and is not the upper half of what `r` holds;
    or `r` is set to something void. -/
def Splits (r : Nat) (p : Point) : Prop :=
  (r + 1 ∈ p.writes ∧ ∃ v ∈ p.passedOn, ¬Paired r v) ∨
    p.current.written? = some r ∧ categoryAt p.post r = some .unknown

instance (r : Nat) (p : Point) : Decidable (p.Splits r) := inferInstanceAs (Decidable (_ ∨ _))

/-- The register `r` is paired before and after the instruction. -/
structure Unsplit (n r : Nat) (p : Point) : Prop where
  narrowed : ∀ n, p.narrowing = some n → ∀ q ∈ n.registers, q.2.category = .reference
  pre : p.reached = true → Whole n r p.pre
  passed : p.analyzed = true → ∀ v ∈ p.passedOn, Whole n r v

/-- Narrowing makes references of some registers. -/
theorem narrowed_at {rs : List (Nat × RegisterType)} (hrs : ∀ q ∈ rs, q.2.category = .reference)
    (v : List RegisterType) :
    (rs.foldl (fun post r => post.set r.1 r.2) v).length = v.length ∧
      ∀ j, categoryAt (rs.foldl (fun post r => post.set r.1 r.2) v) j = categoryAt v j ∨
        j ∈ rs.map (·.1) ∧
          categoryAt (rs.foldl (fun post r => post.set r.1 r.2) v) j = some .reference := by
  induction rs generalizing v with
  | nil => exact ⟨rfl, fun _ => .inl rfl⟩
  | cons q rs ih =>
    obtain ⟨hq, hrs⟩ := List.forall_mem_cons.1 hrs
    obtain ⟨hlength, hat⟩ := ih hrs (v.set q.1 q.2)
    rw [List.foldl_cons]
    refine ⟨by rw [hlength, List.length_set], fun j => ?_⟩
    rcases hat j with hsame | ⟨hmem, hreference⟩
    · by_cases hlt : q.1 < v.length
      · rw [hsame, categoryAt_set hlt]
        split
        · next hj => exact .inr ⟨by rw [hj]; exact List.mem_cons_self, by rw [hq]⟩
        · exact .inl rfl
      · rw [hsame, List.set_eq_of_length_le (Nat.le_of_not_lt hlt)]
        exact .inl rfl
    · exact .inr ⟨List.mem_cons_of_mem _ hmem, hreference⟩

theorem passed_whole {n r : Nat} {p : Point} {s : Site} (hpre : Whole n r s.pre)
    (hsets : s.Sets p.current p.post)
    (hnarrowed : ∀ n, p.narrowing = some n → ∀ q ∈ n.registers, q.2.category = .reference)
    (hspared : ¬p.Splits r) : ∀ v ∈ p.passedOn, Whole n r v := by
  have hpaired {v : List RegisterType} (hv : v ∈ p.passedOn) (hwrites : r + 1 ∈ p.writes) :
      Paired r v := by
    by_contra hnot
    exact hspared (.inl ⟨hwrites, v, hv, hnot⟩)
  have hpost : Whole n r p.post := by
    refine hsets.whole hpre (fun hw => ?_) fun hw hunknown => hspared (.inr ⟨hw, hunknown⟩)
    exact hpaired List.mem_cons_self (by simp [writes, hw])
  intro v hv
  rcases List.mem_cons.1 hv with rfl | hv'
  · exact hpost
  · obtain ⟨narrowing, hn, rfl⟩ := Option.map_eq_some_iff.1 (Option.mem_toList.1 hv')
    obtain ⟨hlength, hat⟩ := narrowed_at (hnarrowed narrowing hn) p.post
    by_cases hmem : r + 1 ∈ narrowing.registers.map (·.1)
    · refine ⟨hlength.trans hpost.length, hpaired hv (by simp [writes, hn, hmem]), ?_⟩
      rcases hat r with hsame | ⟨-, hreference⟩
      · rw [hsame]
        exact hpost.known
      · rw [hreference]
        nofun
    · have hsecond := (hat (r + 1)).resolve_right fun h => hmem h.1
      rcases hat r with hfirst | ⟨-, hreference⟩
      · exact hpost.congr hlength hfirst hsecond
      · refine ⟨hlength.trans hpost.length, .of_not_low hreference rfl, ?_⟩
        rw [hreference]
        nofun

end Point

theorem Narrowing.afterCheck_references {c : MethodContext} {points : List Point} {ix : Nat}
    {m : Memo} {n : Narrowing} (h : ((afterCheck c points ix).run m).1 = some n) :
    ∀ q ∈ n.registers, q.2.category = .reference := by
  obtain ⟨_, _, _, _, _, _, -, -, -, -, -, -, -, -, hregisters⟩ := afterCheck_some h
  intro q hq
  rw [hregisters] at hq
  obtain ⟨r, -, rfl⟩ := List.mem_map.1 hq
  rfl

namespace Session

variable {c : MethodContext} {memo : Memo} {s s₁ : Session} {ix t r : Nat} {ts : List Nat}

/-! ## States of a session -/

/-- The register `r` is paired wherever a session got to. -/
def Unsplit (c : MethodContext) (r : Nat) (s : Session) : Prop :=
  ∀ ix < s.points.length, (s.point ix).Unsplit c.code.registers r

/-- No instruction that was analysed splits the pair at `r`. -/
def Spares (r : Nat) (s : Session) : Prop :=
  ∀ ix < s.points.length, (s.point ix).analyzed = true → ¬(s.point ix).Splits r

/-- Something flows into the instruction. -/
def Fed (c : MethodContext) (s : Session) (t : Nat) : Prop :=
  ∃ e ∈ c.graph.predecessors t, (flowing? s.points t e).isSome

theorem flowing?_isSome_iff {e : Edge} (h : e.source < s.points.length) :
    (flowing? s.points t e).isSome ↔
      if e.exceptional then (s.point e.source).reached = true
      else (s.point e.source).analyzed = true := by
  unfold flowing?
  rw [getElem?_points h]
  dsimp only
  split
  · split <;> simp_all
  · split
    · split
      · split <;> simp_all
      · simp_all
    · simp_all

theorem flowing?_whole (h : Unsplit c r s) {e : Edge} {v : List RegisterType}
    (hflow : flowing? s.points t e = some v) : Whole c.code.registers r v := by
  unfold flowing? at hflow
  split at hflow
  · cases hflow
  · rename_i p hp
    obtain ⟨rfl, hsource⟩ := point_eq_of_getElem? hp
    have hpoint := h e.source hsource
    split at hflow
    · split at hflow
      · next hreached =>
        cases hflow
        exact hpoint.pre hreached
      · cases hflow
    · split at hflow
      · next hanalyzed =>
        have hpassed := hpoint.passed hanalyzed
        split at hflow
        · next n hn =>
          split at hflow
          · cases hflow
            exact hpassed _ (by simp [Point.passedOn, hn])
          · cases hflow
            exact hpassed _ List.mem_cons_self
        · cases hflow
          exact hpassed _ List.mem_cons_self
      · cases hflow

theorem foldlM_whole {flows : List (List RegisterType)} {start : List RegisterType} {n : Nat}
    (hstart : Whole n r start) (hflows : ∀ v ∈ flows, Whole n r v) (p : ClassPath) (m : Memo) :
    Whole n r ((flows.foldlM (RegisterType.mergeAll p) start).run m).1 := by
  induction flows generalizing start m with
  | nil => exact hstart
  | cons flow flows ih =>
    obtain ⟨hflow, hflows⟩ := List.forall_mem_cons.1 hflows
    rw [List.foldlM_cons, Query.run_bind]
    exact ih (hstart.mergeAll hflow m) hflows _

theorem mergedPre_whole (hstart : Whole c.code.registers r c.start) (h : Unsplit c r s)
    (hfed : t = 0 ∨ Fed c s t) (m : Memo) :
    Whole c.code.registers r ((mergedPre c s.points t).run m).1 := by
  have hflows : ∀ v ∈ (c.graph.predecessors t).filterMap (flowing? s.points t),
      Whole c.code.registers r v := by
    intro v hv
    obtain ⟨e, -, hflow⟩ := List.mem_filterMap.1 hv
    exact flowing?_whole h hflow
  unfold mergedPre
  by_cases hzero : t = 0
  · rw [if_pos hzero]
    exact foldlM_whole hstart hflows c.path m
  · rw [if_neg hzero]
    obtain ⟨e, he, hsome⟩ := hfed.resolve_left hzero
    obtain ⟨v, hv⟩ := Option.isSome_iff_exists.1 hsome
    -- the first flow takes the place of what is unknown
    cases hcons : (c.graph.predecessors t).filterMap (flowing? s.points t) with
    | nil =>
      have hmem := List.mem_filterMap.2 ⟨e, he, hv⟩
      rw [hcons] at hmem
      cases hmem
    | cons flow flows =>
      rw [hcons] at hflows
      obtain ⟨hflow, hflows⟩ := List.forall_mem_cons.1 hflows
      dsimp only
      rw [List.foldlM_cons, Query.run_bind]
      exact foldlM_whole (hflow.of_unknown m) hflows c.path _

/-- Passing a state on may give an instruction another state before it. -/
theorem point_updatePre (ht : t < s.points.length) (j : Nat) :
    ∃ pre reached, (updatePre c s t).point j = { s.point j with pre := pre, reached := reached } ∧
      ((s.point j).reached = true → reached = true) := by
  rcases updatePre_cases c ht with ⟨-, -, hs⟩ | hs
  · exact ⟨_, _, by rw [hs]; rfl, id⟩
  · have hpoints := congrArg Session.points hs
    by_cases hj : j = t
    · exact ⟨_, true, by rw [hj, point_set_self hpoints ht], fun _ => rfl⟩
    · exact ⟨_, _, point_set_ne hpoints hj, id⟩

theorem Fed.refresh {t' : Nat} (h : Fed c s t) (ht' : t' < s.points.length) :
    Fed c (updatePre c s t') t := by
  obtain ⟨e, he, hsome⟩ := h
  have hsource : e.source < s.points.length := by
    by_contra hout
    unfold flowing? at hsome
    rw [List.getElem?_eq_none (Nat.le_of_not_lt hout)] at hsome
    cases hsome
  obtain ⟨pre, reached, hpoint, hreached⟩ := point_updatePre (c := c) ht' e.source
  refine ⟨e, he, ?_⟩
  rw [flowing?_isSome_iff (by rwa [length_updatePre]), hpoint]
  rw [flowing?_isSome_iff hsource] at hsome
  split
  · next hexceptional =>
    rw [if_pos hexceptional] at hsome
    exact hreached hsome
  · next hnormal =>
    rw [if_neg hnormal] at hsome
    exact hsome

theorem Unsplit.refresh (hstart : Whole c.code.registers r c.start) (h : Unsplit c r s)
    (ht : t < s.points.length) (hfed : t = 0 ∨ Fed c s t) : Unsplit c r (updatePre c s t) := by
  intro j hj
  rw [length_updatePre] at hj
  rcases updatePre_cases c ht with ⟨-, -, hs⟩ | hs
  · rw [hs]
    exact h j hj
  · have hpoints := congrArg Session.points hs
    by_cases hjt : j = t
    · subst hjt
      rw [point_set_self hpoints ht]
      exact ⟨(h j hj).narrowed, fun _ => mergedPre_whole hstart h hfed _, (h j hj).passed⟩
    · rw [point_set_ne hpoints hjt]
      exact h j hj

theorem Unsplit.refreshAll (hstart : Whole c.code.registers r c.start) (h : Unsplit c r s)
    (hts : ∀ t ∈ ts, t < s.points.length ∧ Fed c s t) :
    Unsplit c r (ts.foldl (updatePre c) s) := by
  induction ts generalizing s with
  | nil => exact h
  | cons t ts ih =>
    obtain ⟨⟨ht, hfed⟩, hts⟩ := List.forall_mem_cons.1 hts
    refine ih (h.refresh hstart ht (.inr hfed)) fun t' ht' => ?_
    rw [length_updatePre]
    exact ⟨(hts t' ht').1, (hts t' ht').2.refresh ht⟩

theorem Spares.of_refreshed (hts : ∀ t ∈ ts, t < s.points.length)
    (h : Spares r (ts.foldl (updatePre c) s)) : Spares r s := by
  induction ts generalizing s with
  | nil => exact h
  | cons t ts ih =>
    obtain ⟨ht, hts⟩ := List.forall_mem_cons.1 hts
    have hafter := ih (fun t' ht' => by rw [length_updatePre]; exact hts t' ht') h
    intro ix hix
    obtain ⟨pre, reached, hpoint, -⟩ := point_updatePre (c := c) ht ix
    have hspared := hafter ix (by rwa [length_updatePre])
    rw [hpoint] at hspared
    exact hspared

/-! ## Moves -/

theorem Learned.references {points : List Point} {p : Point} {m : Memo} {n : Option Narrowing}
    (h : Learned c points ix p m n)
    (hp : ∀ n, p.narrowing = some n → ∀ q ∈ n.registers, q.2.category = .reference) :
    ∀ n', n = some n' → ∀ q ∈ n'.registers, q.2.category = .reference := by
  intro n' hn'
  rcases h with ⟨-, rfl⟩ | ⟨-, p', -, -, rfl⟩
  · exact hp n' hn'
  · exact Narrowing.afterCheck_references hn'

/-- A change at `ix` that leaves it unsplit and feeds the instructions its state
    is passed on to. -/
theorem Unsplit.localChange (hc : c.Built) (hstart : Whole c.code.registers r c.start)
    (h : Unsplit c r s) (hsound : Sound c memo s₁) (hix : ix < s.points.length) {p : Point}
    (hpoints : s₁.points = s.points.set ix p) (hp : p.Unsplit c.code.registers r)
    (hreached : ∀ t ∈ ts, p.reached = true)
    (hts : ∀ t ∈ ts, t ∈ c.graph.handlers ix ∨ t ∈ c.graph.successors ix ∧ p.analyzed = true) :
    Unsplit c r (ts.foldl (updatePre c) s₁) := by
  have hself : s₁.point ix = p := point_set_self hpoints hix
  have hix₁ : ix < s₁.points.length := by rwa [hpoints, List.length_set]
  have hlocal : Unsplit c r s₁ := by
    intro j hj
    rw [hpoints, List.length_set] at hj
    by_cases hjix : j = ix
    · rw [hjix, hself]
      exact hp
    · rw [point_set_ne hpoints hjix]
      exact h j hj
  refine hlocal.refreshAll hstart fun t ht => ?_
  rcases hts t ht with hhandler | ⟨hsuccessor, hanalyzed⟩
  · refine ⟨hsound.target_lt hc (List.mem_append_right _ hhandler), ⟨ix, true⟩,
      (FlowGraph.mem_predecessors_exceptional hc.wellFormed).2 hhandler, ?_⟩
    rw [flowing?_isSome_iff hix₁, hself]
    exact hreached t ht
  · refine ⟨hsound.target_lt hc (List.mem_append_left _ hsuccessor), ⟨ix, false⟩,
      (FlowGraph.mem_predecessors_normal hc.wellFormed).2 hsuccessor, ?_⟩
    rw [flowing?_isSome_iff hix₁, hself]
    exact hanalyzed

theorem Unsplit.visit (hc : c.Built) (hstart : Whole c.code.registers r c.start)
    (h : Unsplit c r s) (hsound : Sound c memo s) (hix : ix < s.points.length)
    (hvisit : Visit c ix s s₁ ts) (hspares : Spares r (ts.foldl (updatePre c) s₁)) :
    Unsplit c r (ts.foldl (updatePre c) s₁) := by
  have hsound₁ := (hsound.visit hc hix hvisit).1
  have hspared := hspares.of_refreshed fun t ht => hsound₁.target_lt hc (hvisit.targets t ht)
  have hpoint := h ix hix
  have hreached {queue : List Nat} (hqueue : s.queue = ix :: queue) :
      (s.point ix).reached = true := by
    refine (hsound.points ix hix).queued ?_
    rw [status_queued, hqueue]
    exact List.mem_cons_self
  cases hvisit with
  | passed hqueue =>
    exact h.localChange hc hstart hsound₁ hix rfl ⟨hpoint.narrowed, hpoint.pre, hpoint.passed⟩
      (fun _ _ => hreached hqueue) fun _ ht => .inl ht
  | analyzed hqueue hthrowing heffect hmemo hlearned =>
    have hnarrowed := hlearned.references hpoint.narrowed
    have hself := hspared ix (by simpa using hix)
    rw [point_set_self (s := s) rfl hix] at hself
    refine h.localChange hc hstart hsound₁ hix rfl ⟨hnarrowed, hpoint.pre, fun _ => ?_⟩
      (fun _ _ => hreached hqueue) fun _ ht => ?_
    · exact Point.passed_whole (s := site c s.points ix (s.point ix))
        (hpoint.pre (hreached hqueue)) (Site.transfer_sets _ heffect) hnarrowed (hself rfl)
    · exact (List.mem_append.1 ht).symm.imp_right fun ht => ⟨ht, rfl⟩
  | parked hqueue =>
    exact h.localChange hc hstart hsound₁ hix rfl
      ⟨hpoint.narrowed, hpoint.pre, fun hfalse => nomatch hfalse⟩
      (fun _ _ => hreached hqueue) fun _ ht => .inl ht

theorem Unsplit.aid (hc : c.Built) (hstart : Whole c.code.registers r c.start)
    (h : Unsplit c r s) (hsound : Sound c memo s) (hix : ix < s.points.length)
    (haid : Aid c ix s s₁ ts) (hspares : Spares r (ts.foldl (updatePre c) s₁)) :
    Unsplit c r (ts.foldl (updatePre c) s₁) := by
  have hsound₁ := (hsound.aid hc hix haid).1
  have hspared := hspares.of_refreshed fun t ht => hsound₁.target_lt hc (haid.targets t ht)
  have hpoint := h ix hix
  have hok := hsound.points ix hix
  have hreached (hparked : (s.point ix).parked.isSome) : (s.point ix).reached = true :=
    hok.reached_of_visits (hok.visits_ne_zero (.inl hparked))
  cases haid with
  | tried =>
    exact h.localChange hc hstart hsound₁ hix rfl ⟨hpoint.narrowed, hpoint.pre, hpoint.passed⟩
      (fun _ ht => nomatch ht) fun _ ht => nomatch ht
  | unhelped hparked =>
    have hanalyzed : (s.point ix).analyzed = false := (hok.parked hparked).1
    exact h.localChange hc hstart hsound₁ hix rfl
      ⟨hpoint.narrowed, hpoint.pre, fun htrue => nomatch hanalyzed.symm.trans htrue⟩
      (fun _ ht => nomatch ht) fun _ ht => nomatch ht
  | @helped hint _ _ _ _ _ hparked _ _ heffect _ _ hlearned =>
    have hnarrowed := hlearned.references hpoint.narrowed
    have hself := hspared ix (by simpa using hix)
    rw [point_set_self (s := s) rfl hix] at hself
    refine h.localChange hc hstart hsound₁ hix rfl ⟨hnarrowed, hpoint.pre, fun _ => ?_⟩
      (fun _ _ => hreached hparked) fun _ ht => ?_
    · exact Point.passed_whole (s := { site c s.points ix (s.point ix) with hint := some hint })
        (hpoint.pre (hreached hparked)) (Site.transfer_sets _ heffect) hnarrowed (hself rfl)
    · exact (List.mem_append.1 ht).symm.imp_right fun ht => ⟨ht, rfl⟩
  | gaveUp hparked =>
    exact h.localChange hc hstart hsound₁ hix rfl
      ⟨hpoint.narrowed, hpoint.pre, fun hfalse => nomatch hfalse⟩
      (fun _ _ => hreached (by rw [hparked]; rfl)) fun _ ht => .inl ht

/-- What an aid leads to shows what was analysed before it. -/
theorem Spares.of_aid (hc : c.Built) (hsound : Sound c memo s) (hix : ix < s.points.length)
    (haid : Aid c ix s s₁ ts) (h : Spares r (ts.foldl (updatePre c) s₁)) : Spares r s := by
  have hsound₁ := (hsound.aid hc hix haid).1
  have hspared := h.of_refreshed fun t ht => hsound₁.target_lt hc (haid.targets t ht)
  have hparked : (s.point ix).parked.isSome := by
    cases haid with
    | tried hparked => exact hparked
    | unhelped hparked => exact hparked
    | helped hparked => exact hparked
    | gaveUp hparked => rw [hparked]; rfl
  intro j hj hanalyzed
  by_cases hjix : j = ix
  · subst hjix
    exact nomatch hanalyzed.symm.trans ((hsound.points j hj).parked hparked).1
  · obtain ⟨p, hp⟩ := haid.localChange.points
    have hsame := hspared j (by rwa [hp, List.length_set])
    rw [point_set_ne hp hjix] at hsame
    exact hsame hanalyzed

theorem Unsplit.initial (hstart : Whole c.code.registers r c.start) (memo : Memo) :
    Unsplit c r (initial c memo) := by
  have hblank : Unsplit c r (blank c memo) := by
    have hpoints : Everywhere (fun _ st => st.point.Unsplit c.code.registers r) (blank c memo) :=
      Everywhere.blank fun _ _ _ => ⟨nofun, nofun, nofun⟩
    exact hpoints
  rcases initial_cases c memo with ⟨-, hs⟩ | ⟨hlen, hs⟩
  · rw [hs]
    exact hblank
  · rw [hs]
    exact hblank.refresh hstart hlen (.inl rfl)

/-- Every session of a run is unsplit, if none has an instruction that splits. -/
theorem Steps.unsplit (hc : c.Built) (hstart : Whole c.code.registers r c.start)
    (hspares : ∀ count s, Steps c (Session.initial c memo) count s → Spares r s) {count : Nat}
    (h : Steps c (Session.initial c memo) count s) : Unsplit c r s := by
  induction h with
  | start => exact .initial hstart memo
  | @next count s s' hsteps hstep ih =>
    have hsound := hsteps.sound hc
    have hnext := hspares _ s' (.next hsteps hstep)
    rcases step_inv hsound.range hsound.hints hstep with ⟨ix, s₁, ts, hix, hone, rfl⟩ | ⟨-, haids⟩
    · exact ih.visit hc hstart hsound hix hone hnext
    -- the last of the aids shows what all of them analysed
    · exact (haids.aids.invariant hc (Q := fun s => Spares r s → Unsplit c r s)
        (fun hsound hix hall haid hspared =>
          (hall (hspared.of_aid hc hsound hix haid)).aid hc hstart hsound hix haid hspared)
        hsound fun _ => ih).2 hnext

end Session

/-- Lower halves are followed by their upper halves in all states that an
    analysis ends with, if no instruction of its run sets the register after a
    lower half. -/
theorem wide_halves_paired {path : ClassPath} {cls : ClassDef} {m : MethodDef}
    {steps : MethodContext → Nat} {memo memo' : Memo} {a : MethodAnalysis} {c : MethodContext}
    (h : (path.analyzeWithin cls m steps).run memo = (some (.ok a), memo'))
    (hc : MethodContext.of path cls m = .ok c) (hparams : ∀ d ∈ m.prototype.params, d ≠ "V")
    {r : Nat} (hspares : ∀ count s, Session.run c count (Session.initial c memo) =
      (.unfinished, s) → ∀ p ∈ s.points, p.analyzed = true → ¬p.Splits r) :
    ∀ p ∈ a.points, p.reached = true →
      Paired r p.pre ∧ (p.analyzed = true → Paired r p.post) := by
  obtain ⟨c', s, hc', hbuilt, hfinished, rfl, rfl⟩ := ClassPath.analyzeWithin_ok h
  cases hc.symm.trans hc'
  obtain ⟨count, hsteps⟩ := hfinished.steps
  have hunsplit := hsteps.unsplit hbuilt (MethodContext.start_whole hc hparams r)
    fun count s hsteps ix hix => hspares count s (Session.run_unfinished_iff.2 hsteps) _
      (List.mem_of_getElem? (Session.getElem?_points hix))
  intro p hp hreached
  obtain ⟨ix, hix⟩ := List.mem_iff_getElem?.1 hp
  obtain ⟨rfl, hlt⟩ := Session.point_eq_of_getElem? hix
  exact ⟨((hunsplit ix hlt).pre hreached).paired, fun hanalyzed =>
    ((hunsplit ix hlt).passed hanalyzed _ List.mem_cons_self).paired⟩

/-! ## Whole and split pairs -/

namespace Sample

/-- Overwrites a long with its argument, a double, again and again. -/
def mover : MethodDef :=
  { name := "move", prototype := ⟨["D"], "V"⟩, access := ⟨9⟩
    code := some
      { registers := 4
        instructions := [
          { opcode := .constWide16, registers := [0], literal := some 5 },
          { opcode := .moveWide, registers := [0, 2] },
          { opcode := .goto, target := some (-1) }] } }

/-- Overwrites the upper half of a long. -/
def halver : MethodDef :=
  { name := "halve", prototype := ⟨[], "V"⟩, access := ⟨9⟩
    code := some
      { registers := 2
        instructions := [
          { opcode := .constWide16, registers := [0], literal := some 5 },
          { opcode := .const4, registers := [1], literal := some 0 },
          { opcode := .returnVoid }] } }

def moving : ClassDef := classDef "LMoving;" Descriptor.object [] [mover, halver]

end Sample

open Sample in
/-- Where the long and the double meet, the upper halves do, too. -/
theorem mover_paired :
    ∃ c a memo', MethodContext.of (path [moving] ⟨[]⟩) moving mover = .ok c ∧
      ((path [moving] ⟨[]⟩).analyzeWithin moving mover fun _ => 20).run {} =
        (some (.ok a), memo') ∧
      (∀ count s, Session.run c count (Session.initial c {}) = (.unfinished, s) →
        ∀ p ∈ s.points, p.analyzed = true → ¬p.Splits 0) ∧
      a.points.map (·.pre.map (·.category)) =
        [[.uninit, .uninit, .doubleLo, .doubleHi], [.longLo, .longHi, .doubleLo, .doubleHi],
          [.doubleLo, .doubleHi, .doubleLo, .doubleHi]] ∧
      ∀ p ∈ a.points, p.reached = true →
        Paired 0 p.pre ∧ (p.analyzed = true → Paired 0 p.post) := by
  have hchecks : (path [moving] ⟨[]⟩).checks moving mover 20 (fun c a _ =>
      a.points.map (·.pre.map (·.category)) =
          [[.uninit, .uninit, .doubleLo, .doubleHi], [.longLo, .longHi, .doubleLo, .doubleHi],
            [.doubleLo, .doubleHi, .doubleLo, .doubleHi]] ∧
        (Session.run c 20 (Session.initial c {})).1 = .finished ∧
        ∀ k ∈ List.range 20, ∀ p ∈ (Session.run c k (Session.initial c {})).2.points,
          p.analyzed = true → ¬p.Splits 0) = true := by
    decide +kernel
  obtain ⟨c, a, memo', hc, h, hfacts⟩ := ClassPath.checks_inv hchecks
  obtain ⟨hpre, hfinished, hspares⟩ := of_decide_eq_true hfacts
  have hall : ∀ count s, Session.run c count (Session.initial c {}) = (.unfinished, s) →
      ∀ p ∈ s.points, p.analyzed = true → ¬p.Splits 0 := by
    intro count s hrun
    have hlt := Session.lt_of_unfinished (e := .finished) (Prod.ext hfinished rfl) nofun hrun
    have hcount := hspares count (List.mem_range.2 hlt)
    rwa [hrun] at hcount
  exact ⟨c, a, memo', hc, h, hall, hpre, wide_halves_paired h hc (by decide) hall⟩

open Sample in
/-- The lower half of the long stays when its upper half is gone. -/
theorem halver_splits :
    ∃ a memo' p, ((path [moving] ⟨[]⟩).analyzeWithin moving halver fun _ => 20).run {} =
        (some (.ok a), memo') ∧
      a.points[2]? = some p ∧ p.reached = true ∧ p.analyzed = true ∧
      p.pre.map (·.category) = [.longLo, .null] ∧ p.post.map (·.category) = [.longLo, .null] ∧
      ¬Paired 0 p.pre ∧ ¬Paired 0 p.post := by
  have hchecks : (path [moving] ⟨[]⟩).checks moving halver 20 (fun _ a _ =>
      (a.points[2]?).any fun p => p.reached = true ∧ p.analyzed = true ∧
        p.pre.map (·.category) = [.longLo, .null] ∧ p.post.map (·.category) = [.longLo, .null] ∧
        ¬Paired 0 p.pre ∧ ¬Paired 0 p.post) = true := by
    decide +kernel
  obtain ⟨-, a, memo', -, h, hpoint⟩ := ClassPath.checks_inv hchecks
  obtain ⟨p, hp, hfacts⟩ := (Option.any_eq_true _ _).1 hpoint
  exact ⟨a, memo', p, h, hp, of_decide_eq_true hfacts⟩

end SymbolicDex
