import SymbolicDex.Proofs.Analysis.FlowEquations
import SymbolicDex.Proofs.Analysis.Recurrence
import SymbolicDex.Proofs.Analysis.RestoredCode
import SymbolicDex.Proofs.Analysis.WaitingForNull

/- Which instructions become a throw. Accesses to null are given up only when
   nothing is queued and no recovery helps, and then every state is the merge of
   what flows in: giving up computes the states of the handlers once more and
   finds them as they are.

   What is proved:
     1. `Quiet.gaveUp`, `Quiet.giveUpFrom`: giving up sets marks and changes
        nothing else.
     2. `recoverFrom_keeps`: recovery sets no marks.
     3. `Steps.marked`: marks are set by the last move of a run that ends well.
     4. `only_null_accesses_throw`: so what is marked is an access to null that was
        never analysed, and all states are those before the marks were set. -/
namespace SymbolicDex

/-- Given up if it waits without a failure. -/
def Point.givenUp (p : Point) : Point :=
  match p.parked with
  | some ⟨r, none⟩ => { p with parked := none, throwing := some r, analyzed := false }
  | _ => p

namespace Point

variable {p : Point}

theorem givenUp_of_parked {r : Nat} (h : p.parked = some ⟨r, none⟩) :
    p.givenUp = { p with parked := none, throwing := some r, analyzed := false } := by
  unfold givenUp
  rw [h]

theorem givenUp_of_unparked (h : p.parked = none) : p.givenUp = p := by
  unfold givenUp
  rw [h]

theorem givenUp_states (p : Point) : p.givenUp.pre = p.pre ∧ p.givenUp.post = p.post := by
  unfold givenUp
  split <;> exact ⟨rfl, rfl⟩

end Point

namespace Session

variable {c : MethodContext} {memo : Memo} {s s₁ : Session} {ix : Nat} {ts : List Nat}

/-! ## Handlers of what was visited -/

/-- A visit reaches the handlers. -/
def HandlersReached (c : MethodContext) (s : Session) : Prop :=
  ∀ ix < s.points.length, (s.point ix).visits ≠ 0 →
    ∀ t ∈ c.graph.handlers ix, (s.point t).reached = true

theorem reached_updatePre {t j : Nat} (ht : t < s.points.length)
    (h : (s.point j).reached = true ∨ j = t) : ((updatePre c s t).point j).reached = true := by
  rcases updatePre_cases c ht with ⟨hreached, -, hs⟩ | hs
  · rw [hs]
    rcases h with h | rfl
    · exact h
    · exact hreached
  · have hpoints := congrArg Session.points hs
    by_cases hj : j = t
    · rw [hj, point_set_self hpoints ht]
    · rw [point_set_ne hpoints hj]
      exact h.resolve_right hj

theorem reached_foldl_updatePre {j : Nat} (hts : ∀ t ∈ ts, t < s.points.length)
    (h : (s.point j).reached = true ∨ j ∈ ts) :
    ((ts.foldl (updatePre c) s).point j).reached = true := by
  induction ts generalizing s with
  | nil => exact h.resolve_right List.not_mem_nil
  | cons t ts ih =>
    obtain ⟨ht, hts⟩ := List.forall_mem_cons.1 hts
    refine ih (fun t' ht' => by rw [length_updatePre]; exact hts t' ht') ?_
    rw [List.mem_cons, ← or_assoc] at h
    exact h.imp_left (reached_updatePre ht)

theorem HandlersReached.move {p : Point} (h : HandlersReached c s) (hix : ix < s.points.length)
    (hpoints : s₁.points = s.points.set ix p) (hreached : p.reached = (s.point ix).reached)
    (hvisits : p.visits = (s.point ix).visits ∨ ∀ t ∈ c.graph.handlers ix, t ∈ ts)
    (hts : ∀ t ∈ ts, t < s₁.points.length) : HandlersReached c (ts.foldl (updatePre c) s₁) := by
  have hkept (j : Nat) : (s₁.point j).reached = (s.point j).reached := by
    by_cases hj : j = ix
    · rw [hj, point_set_self hpoints hix, hreached]
    · rw [point_set_ne hpoints hj]
  intro j hj hvisited t ht
  rw [length_foldl_updatePre, hpoints, List.length_set] at hj
  rw [point_map_eq (map_foldl_updatePre c (fun _ _ => rfl) s₁ ts) (g := Point.visits)] at hvisited
  refine reached_foldl_updatePre hts ?_
  rw [hkept]
  by_cases hjix : j = ix
  · subst hjix
    rw [point_set_self hpoints hix] at hvisited
    rcases hvisits with hsame | hhandlers
    · exact .inl (h j hj (hsame ▸ hvisited) t ht)
    · exact .inr (hhandlers t ht)
  · rw [point_set_ne hpoints hjix] at hvisited
    exact .inl (h j hj hvisited t ht)

theorem HandlersReached.visit (hc : c.Built) (h : HandlersReached c s) (hsound : Sound c memo s)
    (hix : ix < s.points.length) (hvisit : Visit c ix s s₁ ts) :
    HandlersReached c (ts.foldl (updatePre c) s₁) := by
  have hts : ∀ t ∈ ts, t < s₁.points.length := fun t ht =>
    (hsound.visit hc hix hvisit).1.target_lt hc (hvisit.targets t ht)
  cases hvisit with
  | passed => exact h.move hix rfl rfl (.inr fun _ ht => ht) hts
  | analyzed => exact h.move hix rfl rfl (.inr fun _ ht => List.mem_append_right _ ht) hts
  | parked => exact h.move hix rfl rfl (.inr fun _ ht => ht) hts

theorem HandlersReached.aid (hc : c.Built) (h : HandlersReached c s) (hsound : Sound c memo s)
    (hix : ix < s.points.length) (haid : Aid c ix s s₁ ts) :
    HandlersReached c (ts.foldl (updatePre c) s₁) := by
  have hts : ∀ t ∈ ts, t < s₁.points.length := fun t ht =>
    (hsound.aid hc hix haid).1.target_lt hc (haid.targets t ht)
  cases haid <;> exact h.move hix rfl rfl (.inl rfl) hts

theorem HandlersReached.initial (c : MethodContext) (memo : Memo) :
    HandlersReached c (Session.initial c memo) := by
  have hfresh : Everywhere (fun _ st => st.point.visits = 0) (Session.initial c memo) :=
    Everywhere.initial ⟨fun h _ _ => h, fun h _ => h⟩ fun _ _ _ => rfl
  exact fun ix hix hvisits => absurd (hfresh ix hix) hvisits

/-! ## Between two moves -/

/-- What holds of a session also between the moves of one step. -/
structure Orderly (c : MethodContext) (memo : Memo) (s : Session) : Prop where
  sound : Sound c memo s
  consistent : Consistent c [] s
  handlers : HandlersReached c s
  null : Everywhere (fun _ => AwaitsNull) s

theorem Steps.orderly (hc : c.Built) (hmemo : memo.busy = []) {count : Nat}
    (h : Steps c (Session.initial c memo) count s) : Orderly c memo s where
  sound := h.sound hc
  consistent := h.consistent hc hmemo
  handlers := (h.invariant hc (HandlersReached.initial c memo)
    (fun _ hsound hix hall hvisit => hall.visit hc hsound hix hvisit)
    fun hsound hix hall haid => hall.aid hc hsound hix haid).2
  null := h.awaitsNull hc

theorem Orderly.aid (hc : c.Built) (hmemo : memo.busy = []) (h : Orderly c memo s)
    (hix : ix < s.points.length) (haid : Aid c ix s s₁ ts) :
    Orderly c memo (ts.foldl (updatePre c) s₁) where
  sound := (h.sound.aid hc hix haid).2
  consistent :=
    have hlocal := (h.sound.aid hc hix haid).1
    (h.consistent.aid hc h.sound hix haid).refreshAll hmemo hlocal fun t ht =>
      hlocal.target_lt hc (haid.targets t ht)
  handlers := h.handlers.aid hc h.sound hix haid
  null := h.null.aid hc (AwaitsNull.stable c) h.sound hix haid ((h.null ix hix).aid hix haid)

theorem Orderly.aids (hc : c.Built) (hmemo : memo.busy = []) (h : Orderly c memo s)
    {s' : Session} (haids : Aids c s s') : Orderly c memo s' := by
  induction haids with
  | refl => exact h
  | tail _ hix haid ih => exact ih.aid hc hmemo hix haid

/-! ## Giving up -/

/-- Nothing is on its way, and whoever waits waits without a failure. -/
structure Quiet (c : MethodContext) (memo : Memo) (s : Session) : Prop where
  orderly : Orderly c memo s
  queue : s.queue = []
  failures : ∀ ix r f, (s.point ix).parked = some ⟨r, f⟩ → f = none

/-- States that are computed again are found as they are. -/
theorem foldl_updatePre_eq (h : ∀ t ∈ ts, (s.point t).reached = true ∧
      Query.Answered (mergedPre c s.points t) (s.point t).pre s.memo) :
    ∃ m, ts.foldl (updatePre c) s = { s with memo := m } := by
  induction ts generalizing s with
  | nil => exact ⟨s.memo, rfl⟩
  | cons t ts ih =>
    obtain ⟨⟨hreached, hanswer⟩, hts⟩ := List.forall_mem_cons.1 h
    have hsame : updatePre c s t = { s with memo := mergeMemo c s t } := by
      rw [updatePre_eq, if_pos ⟨hreached, (hanswer.run_eq (mergedPre_steady c s.points t)).symm⟩]
    obtain ⟨m, hm⟩ := ih (s := { s with memo := mergeMemo c s t }) fun t' ht' =>
      ⟨(hts t' ht').1, (hts t' ht').2.mono (mergeMemo_grows c s t)⟩
    exact ⟨m, by rw [List.foldl_cons, hsame, hm]⟩

/-- Where nothing is on its way, every equation holds. -/
theorem Consistent.answered {t : Nat} (h : Consistent c [] s) (hsound : Sound c memo s)
    (hqueue : s.queue = []) (hfailures : ∀ ix r f, (s.point ix).parked = some ⟨r, f⟩ → f = none)
    (ht : t < s.points.length) (hreached : (s.point t).reached = true) :
    Query.Answered (mergedPre c s.points t) (s.point t).pre s.memo := by
  rcases h t ht hreached with hexempt | ⟨e, -, hpending⟩ | hanswer
  · cases hexempt
  · unfold Pending at hpending
    split at hpending
    · rw [hqueue] at hpending
      cases hpending
    -- a read of an element has a failure to show
    · obtain ⟨hparked, hreads⟩ := hpending
      obtain ⟨⟨r, f⟩, hsome⟩ := Option.isSome_iff_exists.1 hparked
      have hsource : e.source < s.points.length := by
        by_contra hout
        rw [point_of_le (Nat.le_of_not_lt hout)] at hparked
        cases hparked
      have hfailure := (hsound.points e.source hsource).element r f hsome hreads
      rw [hfailures _ r f hsome] at hfailure
      cases hfailure
  · exact hanswer

namespace Quiet

theorem gaveUp (hc : c.Built) (hmemo : memo.busy = []) (h : Quiet c memo s)
    (hix : ix < s.points.length) {r : Nat} (hparked : (s.point ix).parked = some ⟨r, none⟩)
    (note : Note) (hnote : note.address = c.graph.address ix) (s' : Session)
    (hs' : s' = (c.graph.handlers ix).foldl (updatePre c)
      ⟨s.points.set ix (s.point ix).givenUp, s.queue, s.notes ++ [note], s.memo⟩) :
    Quiet c memo s' ∧ s'.points = s.points.set ix (s.point ix).givenUp := by
  have hgivenUp := Point.givenUp_of_parked hparked
  have haid := @Aid.gaveUp c ix s r note hparked hnote
  rw [← hgivenUp] at haid
  generalize hs₁ : (⟨s.points.set ix (s.point ix).givenUp, s.queue, s.notes ++ [note], s.memo⟩ :
    Session) = s₁ at haid hs'
  have hpoints : s₁.points = s.points.set ix (s.point ix).givenUp := by rw [← hs₁]
  have hqueue : s₁.queue = [] := by rw [← hs₁]; exact h.queue
  have hsome : (s.point ix).parked.isSome := by rw [hparked]; rfl
  have hok := h.orderly.sound.points ix hix
  have hsound := (h.orderly.sound.aid hc hix haid).1
  have hfailures : ∀ j r f, (s₁.point j).parked = some ⟨r, f⟩ → f = none := by
    intro j r' f hj
    by_cases hjix : j = ix
    · rw [hjix, point_set_self hpoints hix, hgivenUp] at hj
      cases hj
    · rw [point_set_ne hpoints hjix] at hj
      exact h.failures j r' f hj
  -- it was not analysed before either, so what flows from it is the same
  have hconsistent : Consistent c [] s₁ := by
    refine h.orderly.consistent.localChange hc hix haid.localChange hpoints
      (Point.givenUp_states _).1 (by rw [hgivenUp]) (fun hmem => ?_) (.inr (.inr ⟨?_, ?_, ?_⟩))
    · rw [h.queue] at hmem
      cases hmem
    · exact fun hpending => nomatch hok.element r none hparked hpending.2
    · rw [hgivenUp]
      exact (hok.parked hsome).1.symm
    · rw [hgivenUp]
      exact fun htrue => nomatch htrue
  obtain ⟨m, hm⟩ : ∃ m, (c.graph.handlers ix).foldl (updatePre c) s₁ = { s₁ with memo := m } := by
    refine foldl_updatePre_eq fun t ht => ?_
    have hreached : (s₁.point t).reached = true := by
      have hbefore := h.orderly.handlers ix hix (hok.visits_ne_zero (.inl hsome)) t ht
      by_cases htix : t = ix
      · rw [htix, point_set_self hpoints hix, hgivenUp]
        exact htix ▸ hbefore
      · rw [point_set_ne hpoints htix]
        exact hbefore
    have hlt := hsound.target_lt hc (haid.targets t ht)
    exact ⟨hreached, hconsistent.answered hsound hqueue hfailures hlt hreached⟩
  have horderly := h.orderly.aid hc hmemo hix haid
  rw [hs', hm]
  rw [hm] at horderly
  exact ⟨⟨horderly, hqueue, hfailures⟩, hpoints⟩

/-- Giving up sets marks and changes nothing else. -/
theorem giveUpFrom (hc : c.Built) (hmemo : memo.busy = []) (h : Quiet c memo s)
    {waiting : List Nat} (hwaiting : ∀ ix ∈ waiting, ix < s.points.length) :
    ∃ s', giveUpFrom c s waiting = .running s' ∧ Quiet c memo s' ∧
      s'.points.length = s.points.length ∧
      ∀ j, s'.point j = if j ∈ waiting then (s.point j).givenUp else s.point j := by
  induction waiting generalizing s with
  | nil => exact ⟨s, rfl, h, rfl, fun j => rfl⟩
  | cons ix rest ih =>
    obtain ⟨hix, hrest⟩ := List.forall_mem_cons.1 hwaiting
    unfold Session.giveUpFrom
    split
    · rename_i hparked
      obtain ⟨s', hs', hquiet, hlength, hpoint⟩ := ih h hrest
      refine ⟨s', hs', hquiet, hlength, fun j => ?_⟩
      rw [hpoint]
      by_cases hj : j = ix
      · subst hj
        simp [Point.givenUp_of_unparked hparked]
      · simp [hj]
    · rename_i r f hparked
      cases h.failures ix r (some f) hparked
    · rename_i r hparked
      dsimp only
      generalize hnote : (⟨c.graph.address ix, .unresolvable, r, none,
        (s.point ix).given.text⟩ : Note) = note
      rw [update_eq ⟨s.points, s.queue, s.notes ++ [note], s.memo⟩ _ hix, propagate_exceptional]
      have hgivenUp := Point.givenUp_of_parked hparked
      generalize hs₂ : (c.graph.handlers ix).foldl (updatePre c) _ = s₂
      obtain ⟨hquiet₂, hpoints₂⟩ := h.gaveUp hc hmemo hix hparked note (by rw [← hnote])
        s₂ (by rw [hgivenUp]; exact hs₂.symm)
      obtain ⟨s', hs', hquiet, hlength, hpoint⟩ := ih hquiet₂ fun j hj => by
        rw [hpoints₂, List.length_set]
        exact hrest j hj
      refine ⟨s', hs', hquiet, by rw [hlength, hpoints₂, List.length_set], fun j => ?_⟩
      rw [hpoint]
      by_cases hj : j = ix
      · -- given up already, it does not wait
        have hself : (s₂.point j).givenUp = s₂.point j := by
          refine Point.givenUp_of_unparked ?_
          rw [hj, point_set_self hpoints₂ hix, hgivenUp]
        rw [hself, ite_self, hj, point_set_self hpoints₂ hix, if_pos List.mem_cons_self]
      · rw [point_set_ne hpoints₂ hj]
        simp [hj]

end Quiet

/-- Giving up goes through only where nobody waits with a failure. -/
theorem giveUpFrom_failures {s' : Session} {waiting : List Nat}
    (hwaiting : ∀ ix ∈ waiting, ix < s.points.length)
    (h : giveUpFrom c s waiting = .running s') :
    ∀ ix ∈ waiting, ∀ r f, (s.point ix).parked = some ⟨r, f⟩ → f = none := by
  induction waiting generalizing s with
  | nil => exact fun _ hix => nomatch hix
  | cons ix rest ih =>
    obtain ⟨hix, hrest⟩ := List.forall_mem_cons.1 hwaiting
    unfold giveUpFrom at h
    split at h
    · rename_i hparked
      refine List.forall_mem_cons.2 ⟨fun r f hsome => ?_, ih hrest h⟩
      cases hparked.symm.trans hsome
    · cases h
    · rename_i r hparked
      dsimp only at h
      generalize s.notes ++ [_] = notes at h
      rw [update_eq ⟨s.points, s.queue, notes, s.memo⟩ _ hix] at h
      have hone : ∀ r' f, (s.point ix).parked = some ⟨r', f⟩ → f = none := by
        intro r' f hsome
        cases hparked.symm.trans hsome
        rfl
      refine List.forall_mem_cons.2 ⟨hone, fun j hj r' f hsome => ?_⟩
      by_cases hjix : j = ix
      · exact hone r' f (hjix ▸ hsome)
      -- passing states on leaves what the others wait for
      · refine ih (fun k hk => ?_) h j hj r' f ?_
        · rw [propagate_exceptional, length_foldl_updatePre, List.length_set]
          exact hrest k hk
        · rw [propagate_exceptional, point_map_eq (map_foldl_updatePre c (fun _ _ => rfl) _ _)
            (g := Point.parked), point_set_ne (s := s) rfl hjix]
          exact hsome

/-! ## Recovery sets no marks -/

/-- What is marked as a throw. -/
def marks (s : Session) : List (Option Nat) := s.points.map (·.throwing)

theorem marks_update (s : Session) (ix : Nat) {f : Point → Point}
    (hf : ∀ p, (f p).throwing = p.throwing) : (s.update ix f).marks = s.marks := by
  unfold marks update
  rw [map_modify (h := id) hf, List.modify_id]

theorem marks_foldl_updatePre (c : MethodContext) (s : Session) (ts : List Nat) :
    (ts.foldl (updatePre c) s).marks = s.marks := map_foldl_updatePre c (fun _ _ => rfl) s ts

theorem analyzeAt_keeps (c : MethodContext) (s : Session) (ix : Nat) :
    (analyzeAt c s ix).2.marks = s.marks ∧ (analyzeAt c s ix).2.queue = s.queue := by
  rw [analyzeAt_eq]
  dsimp only
  split
  · exact ⟨marks_update _ _ (by intro p; rfl), rfl⟩
  · split
    · exact ⟨(marks_update _ _ (by intro p; rfl)).trans (marks_update _ _ (by intro p; rfl)), rfl⟩
    · exact ⟨marks_update _ _ (by intro p; rfl), rfl⟩

/-- An attempt leaves the marks, and one that does not help leaves the queue. -/
def Attempt.Keeps (s : Session) : Attempt → Prop
  | .resolved s' => s'.marks = s.marks
  | .stuck s' => s'.marks = s.marks ∧ s'.queue = s.queue
  | .endless _ => True

theorem Attempt.Keeps.of_eq {s s' : Session} (hmarks : s'.marks = s.marks)
    (hqueue : s'.queue = s.queue) {a : Attempt} (h : a.Keeps s') : a.Keeps s := by
  cases a with
  | resolved => exact h.trans hmarks
  | stuck => exact ⟨h.1.trans hmarks, h.2.trans hqueue⟩
  | endless => trivial

theorem tryCandidates_keeps (c : MethodContext) (ix r : Nat) (s : Session)
    (candidates : List Recovery.Candidate) : (tryCandidates c ix r s candidates).Keeps s := by
  induction candidates generalizing s with
  | nil => exact ⟨rfl, rfl⟩
  | cons candidate rest ih =>
    unfold tryCandidates
    dsimp only
    generalize hhinted : s.update ix (fun p =>
      { p with hint := some (RegisterType.reference candidate.type) }) = hinted
    have hmarks : hinted.marks = s.marks := by
      rw [← hhinted]
      exact marks_update _ _ (by intro p; rfl)
    have hqueue : hinted.queue = s.queue := by rw [← hhinted]; rfl
    obtain ⟨hmarks', hqueue'⟩ := analyzeAt_keeps c hinted ix
    split
    · rename_i s' hs'
      rw [hs'] at hmarks'
      refine (marks_foldl_updatePre c _ _).trans ((marks_update _ _ (by intro p; rfl)).trans ?_)
      exact hmarks'.trans hmarks
    · trivial
    · rename_i s' _ hs'
      rw [hs'] at hmarks' hqueue'
      refine (ih _).of_eq ((marks_update _ _ (by intro p; rfl)).trans (hmarks'.trans hmarks)) ?_
      exact hqueue'.trans hqueue

theorem recoverFrom_keeps (c : MethodContext) (s : Session) (waiting : List Nat) :
    (recoverFrom c s waiting).Keeps s := by
  induction waiting generalizing s with
  | nil => exact ⟨rfl, rfl⟩
  | cons ix rest ih =>
    unfold recoverFrom
    split
    · exact ih s
    · split
      · exact ih s
      · dsimp only
        generalize hs₁ : s.update ix (fun p => { p with recoveryTried := true }) = s₁
        have hmarks : s₁.marks = s.marks := by
          rw [← hs₁]
          exact marks_update _ _ (by intro p; rfl)
        have hqueue : s₁.queue = s.queue := by rw [← hs₁]; rfl
        rename_i parked _ _
        have htry := (tryCandidates_keeps c ix parked.register s₁ (Recovery.candidates c.code
          s₁.currents ix (c.graph.address ix) parked.register)).of_eq hmarks hqueue
        split
        · rename_i s' hs'
          rw [hs'] at htry
          exact (ih s').of_eq htry.1 htry.2
        · exact htry

/-! ## The last move -/

theorem SameWaiting.waiting {s' : Session} (h : SameWaiting s s') : s'.waiting = s.waiting := by
  unfold Session.waiting
  rw [h.1]
  exact List.filter_congr fun ix _ => by rw [h.2]

theorem unmarked_iff : (∀ ix, (s.point ix).throwing = none) ↔ ∀ t ∈ s.marks, t = none := by
  constructor
  · intro h t ht
    obtain ⟨p, hp, rfl⟩ := List.mem_map.1 ht
    obtain ⟨ix, hix⟩ := List.mem_iff_getElem?.1 hp
    rw [← (point_eq_of_getElem? hix).1]
    exact h ix
  · intro h ix
    by_cases hix : ix < s.points.length
    · exact h _ (List.mem_map.2 ⟨_, List.mem_of_getElem? (getElem?_points hix), rfl⟩)
    · rw [point_of_le (Nat.le_of_not_lt hix)]
      rfl

/-- The session `u` of a run gives up who waits: nothing is queued, nothing was
    given up before, recovery leaves `t`, and giving up leads from `t` to `s`. -/
structure GivesUp (c : MethodContext) (memo : Memo) (u t s : Session) : Prop where
  queue : u.queue = []
  unmarked : ∀ ix, (t.point ix).throwing = none
  stuck : recoverFrom c u u.waiting = .stuck t
  waiting : t.waiting = u.waiting
  quiet : Quiet c memo t
  givenUp : giveUpFrom c t t.waiting = .running s

theorem GivesUp.point (hc : c.Built) (hmemo : memo.busy = []) {u t : Session}
    (h : GivesUp c memo u t s) : Quiet c memo s ∧ s.points.length = t.points.length ∧
      ∀ ix, s.point ix = (t.point ix).givenUp := by
  obtain ⟨s', hs', hquiet, hlength, hpoint⟩ := h.quiet.giveUpFrom hc hmemo
    fun ix (hix : ix ∈ t.waiting) => (mem_waiting.1 hix).1
  cases h.givenUp.symm.trans hs'
  refine ⟨hquiet, hlength, fun ix => ?_⟩
  rw [hpoint]
  split
  · rfl
  -- who does not wait is left alone
  · rename_i hnot
    refine (Point.givenUp_of_unparked ?_).symm
    by_cases hix : ix < t.points.length
    · simpa [mem_waiting, hix] using hnot
    · rw [point_of_le (Nat.le_of_not_lt hix)]
      rfl

/-- Nobody waits after giving up, so the run is over. -/
theorem GivesUp.finishes (hc : c.Built) (hmemo : memo.busy = []) {u t : Session}
    (h : GivesUp c memo u t s) : step c s = .ended .finished s := by
  obtain ⟨hquiet, hlength, hpoint⟩ := h.point hc hmemo
  have hwaiting : s.waiting = [] := by
    refine List.eq_nil_iff_forall_not_mem.2 fun ix hix => ?_
    have hparked := (mem_waiting.1 hix).2
    obtain ⟨⟨r, f⟩, hsome⟩ := Option.isSome_iff_exists.1 hparked
    rw [hpoint] at hsome
    cases hbefore : (t.point ix).parked with
    | none =>
      rw [Point.givenUp_of_unparked hbefore, hbefore] at hsome
      cases hsome
    | some parked =>
      obtain ⟨r', f'⟩ := parked
      cases h.quiet.failures ix r' f' hbefore
      rw [Point.givenUp_of_parked hbefore] at hsome
      cases hsome
  unfold step
  rw [hquiet.queue]
  dsimp only
  rw [hwaiting]

/-- A visit sets no marks. -/
theorem Visit.unmarked (hix : ix < s.points.length) (hvisit : Visit c ix s s₁ ts)
    (h : ∀ j, (s.point j).throwing = none) (j : Nat) :
    ((ts.foldl (updatePre c) s₁).point j).throwing = none := by
  rw [point_map_eq (map_foldl_updatePre c (fun _ _ => rfl) s₁ ts) (g := Point.throwing)]
  by_cases hj : j = ix
  · subst hj
    cases hvisit with
    | passed => rw [point_set_self (s := s) rfl hix]; exact h j
    | analyzed => rw [point_set_self (s := s) rfl hix]; exact h j
    | parked => rw [point_set_self (s := s) rfl hix]; exact h j
  · obtain ⟨p, hp⟩ := hvisit.localChange.points
    rw [point_set_ne hp hj]
    exact h j

/-- Where recovery does not help and giving up goes through, nobody waits with a
    failure. -/
theorem Orderly.givesUp (hc : c.Built) (hmemo : memo.busy = []) {u t : Session}
    (h : Orderly c memo u) (hqueue : u.queue = []) (hunmarked : ∀ ix, (u.point ix).throwing = none)
    (hstuck : recoverFrom c u u.waiting = .stuck t)
    (hgivenUp : giveUpFrom c t u.waiting = .running s) : GivesUp c memo u t s := by
  have hkeeps := recoverFrom_keeps c u u.waiting
  rw [hstuck] at hkeeps
  obtain ⟨haids, hwait⟩ := (recoverFrom_inv (c := c) u.waiting
    (fun ix hix => (mem_waiting.1 hix).1) h.sound.hints).2 t hstuck
  have hwaiting := hwait.waiting
  rw [← hwaiting] at hgivenUp
  refine ⟨hqueue, ?_, hstuck, hwaiting, ?_, hgivenUp⟩
  · exact unmarked_iff.2 (hkeeps.1 ▸ unmarked_iff.1 hunmarked)
  · refine ⟨h.aids hc hmemo haids, hkeeps.2.trans hqueue, fun ix r f hsome => ?_⟩
    have hix : ix < t.points.length := by
      by_contra hout
      rw [point_of_le (Nat.le_of_not_lt hout)] at hsome
      cases hsome
    exact giveUpFrom_failures (fun ix hix => (mem_waiting.1 hix).1) hgivenUp ix
      (mem_waiting.2 ⟨hix, by rw [hsome]; rfl⟩) r f hsome

theorem initial_unmarked (c : MethodContext) (memo : Memo) (ix : Nat) :
    ((Session.initial c memo).point ix).throwing = none := by
  have hblank : Everywhere (fun _ st => st.point.throwing = none) (Session.initial c memo) :=
    Everywhere.initial ⟨fun h _ _ => h, fun h _ => h⟩ fun _ _ _ => rfl
  by_cases hix : ix < (Session.initial c memo).points.length
  · exact hblank ix hix
  · rw [point_of_le (Nat.le_of_not_lt hix)]
    rfl

/-- A session of a run has no marks, or it is the last one and they were set by
    the last move. -/
theorem Steps.marked (hc : c.Built) (hmemo : memo.busy = []) {count : Nat}
    (h : Steps c (Session.initial c memo) count s) :
    (∀ ix, (s.point ix).throwing = none) ∨
      ∃ k u t, count = k + 1 ∧ Steps c (Session.initial c memo) k u ∧ GivesUp c memo u t s := by
  induction h with
  | start => exact .inl (initial_unmarked c memo)
  | @next k u s hsteps hstep ih =>
    rcases ih with hunmarked | ⟨_, _, _, -, -, hgave⟩
    · have horderly := hsteps.orderly hc hmemo
      unfold step at hstep
      split at hstep
      · rename_i ix queue hqueue
        have hix := horderly.sound.range ix (by rw [hqueue]; exact List.mem_cons_self)
        obtain ⟨s₁, ts, hvisit, rfl⟩ := visit_inv hqueue hix hstep
        exact .inl (hvisit.unmarked hix hunmarked)
      · rename_i hqueue
        split at hstep
        · cases hstep
        · split at hstep
          · rename_i s' hrecover
            cases hstep
            have hkeeps := recoverFrom_keeps c u u.waiting
            rw [hrecover] at hkeeps
            have hsame : s.marks = u.marks := hkeeps
            exact .inl (unmarked_iff.2 (hsame ▸ unmarked_iff.1 hunmarked))
          · rename_i t hstuck
            exact .inr ⟨k, u, t, rfl, hsteps,
              horderly.givesUp hc hmemo hqueue hunmarked hstuck hstep⟩
          · cases hstep
    · rw [hgave.finishes hc hmemo] at hstep
      cases hstep

/-- The states before and after every instruction. -/
def states (s : Session) : List (List RegisterType × List RegisterType) :=
  s.points.map fun p => (p.pre, p.post)

/-- Each of those who wait is given up without a change to any state. -/
theorem GivesUp.states (hc : c.Built) (hmemo : memo.busy = []) {u t : Session}
    (h : GivesUp c memo u t s) (count : Nat) :
    ∃ s', giveUpFrom c t (t.waiting.take count) = .running s' ∧ s'.states = t.states := by
  obtain ⟨s', hs', -, hlength, hpoint⟩ := h.quiet.giveUpFrom hc hmemo
    fun ix (hix : ix ∈ t.waiting.take count) => (mem_waiting.1 (List.mem_of_mem_take hix)).1
  refine ⟨s', hs', List.ext_getElem? fun ix => ?_⟩
  unfold Session.states
  rw [List.getElem?_map, List.getElem?_map]
  by_cases hix : ix < t.points.length
  · rw [getElem?_points hix, getElem?_points (by omega), Option.map_some, Option.map_some, hpoint]
    split
    · rw [(t.point ix).givenUp_states.1, (t.point ix).givenUp_states.2]
    · rfl
  · rw [List.getElem?_eq_none (by omega), List.getElem?_eq_none (by omega)]

theorem flowing?_unanalyzed {points : List Point} {p : Point} {t : Nat}
    (hp : points[ix]? = some p) (h : p.analyzed = false) :
    flowing? points t ⟨ix, false⟩ = none := by
  unfold flowing?
  rw [hp]
  simp [h]

end Session

/-- What holds of the instruction `p` at `ix` if it is written as a throw of the
    register `r`. -/
structure MethodAnalysis.ThrowsOnNull (a : MethodAnalysis) (c : MethodContext) (memo : Memo)
    (ix : Nat) (p : Point) (r : Nat) : Prop where
  /-- It is an access to a field or a call, through the object in `r`. -/
  access : p.given.opcode.odexForm.NeedsObject ∧ p.given.objectRegister? = some r
  null : (p.pre[r]?).map (·.category) = some .null
  /-- Nothing flows from it to the instructions after it. -/
  silent : p.analyzed = false ∧ ∀ t, Session.flowing? a.points t ⟨ix, false⟩ = none
  /-- It was given up by the last move of the run, together with all others that
      waited then. It was analysed at no time before, and giving up, one after the
      other, changed no state. -/
  lastMove : ∃ count u t s, Session.run c count (Session.initial c memo) = (.unfinished, u) ∧
    u.queue = [] ∧ Session.recoverFrom c u u.waiting = .stuck t ∧ t.waiting = u.waiting ∧
    ix ∈ t.waiting ∧ Session.giveUpFrom c t t.waiting = .running s ∧ s.points = a.points ∧
    (∀ k v, k ≤ count + 1 → Session.run c k (Session.initial c memo) = (.unfinished, v) →
      (v.point ix).analyzed = false) ∧
    ∀ n, ∃ s', Session.giveUpFrom c t (t.waiting.take n) = .running s' ∧ s'.states = t.states

/-- Only accesses through a register that is null for certain become throws. -/
theorem only_null_accesses_throw {path : ClassPath} {cls : ClassDef} {m : MethodDef}
    {steps : MethodContext → Nat} {memo memo' : Memo} {a : MethodAnalysis} {c : MethodContext}
    (hmemo : memo.busy = [])
    (h : (path.analyzeWithin cls m steps).run memo = (some (.ok a), memo'))
    (hc : MethodContext.of path cls m = .ok c) {ix : Nat} {p : Point} {r : Nat}
    (hp : a.points[ix]? = some p) (hr : p.throwing = some r) : a.ThrowsOnNull c memo ix p r := by
  obtain ⟨c', s, hc', hbuilt, hfinished, rfl, rfl⟩ := ClassPath.analyzeWithin_ok h
  cases hc.symm.trans hc'
  obtain ⟨rfl, hix⟩ := Session.point_eq_of_getElem? hp
  obtain ⟨_, hsteps⟩ := hfinished.steps
  have hsome : (s.point ix).throwing.isSome := by rw [hr]; rfl
  have hobject := (hsteps.intact hbuilt ix hix).throwing r hr
  have hanalyzed : (s.point ix).analyzed = false :=
    ((hsteps.sound hbuilt).points ix hix).throwing hsome
  rcases hsteps.marked hbuilt hmemo with hunmarked | ⟨count, u, t, rfl, hu, hgives⟩
  · cases (hunmarked ix).symm.trans hr
  · obtain ⟨-, hlength, hpoint⟩ := hgives.point hbuilt hmemo
    -- it had no mark before, so it waited without a failure
    have hparked : (t.point ix).parked = some ⟨r, none⟩ := by
      rw [hpoint] at hr
      unfold Point.givenUp at hr
      split at hr
      · rename_i r' hparked
        cases hr
        exact hparked
      · cases (hgives.unmarked ix).symm.trans hr
    have hnull := (hgives.quiet.orderly.null ix (hlength ▸ hix)).object r hparked (by
      rw [Session.status_queued, hgives.quiet.queue]
      exact List.not_mem_nil)
    refine ⟨⟨Instruction.needsObject_of_objectRegister? hobject, hobject⟩, ?_,
      ⟨hanalyzed, fun _ => Session.flowing?_unanalyzed hp hanalyzed⟩, count, u, t, s,
      Session.run_unfinished_iff.2 hu, hgives.queue, hgives.stuck, hgives.waiting,
      Session.mem_waiting.2 ⟨hlength ▸ hix, by rw [hparked]; rfl⟩, hgives.givenUp, rfl,
      fun k v hk hv => ?_, hgives.states hbuilt hmemo⟩
    · rw [hpoint, (t.point ix).givenUp_states.1]
      exact hnull
    · exact hsteps.never_analyzed hbuilt (Session.run_unfinished_iff.1 hv) hk hix hsome

namespace Sample

/-- Reads a field of null, with a handler around. -/
def catcher : MethodDef :=
  { name := "catch", prototype := ⟨[], "V"⟩, access := ⟨9⟩
    code := some
      { registers := 2
        instructions := [
          { opcode := .const4, registers := [0], literal := some 0 },
          { opcode := .igetQuick, registers := [1, 0], reference := some (.fieldOffset 8) },
          { opcode := .returnVoid },
          { opcode := .moveException, registers := [1] },
          { opcode := .returnVoid }]
        tries := [⟨1, 2, [⟨none, 4⟩]⟩] } }

def catching : ClassDef := classDef "LCatching;" Descriptor.object [] [catcher]

end Sample

open Sample in
/-- The access of the catcher can only throw, and the handler is reached with the
    null that is thrown at. -/
theorem catcher_throws :
    ∃ c a memo' p, MethodContext.of (path [box, catching] ⟨[]⟩) catching catcher = .ok c ∧
      ((path [box, catching] ⟨[]⟩).analyzeWithin catching catcher fun _ => 20).run {} =
        (some (.ok a), memo') ∧
      a.points.map (·.reached) = [true, true, false, true, true] ∧
      a.points[1]? = some p ∧ p.throwing = some 0 ∧ a.ThrowsOnNull c {} 1 p 0 := by
  have hchecks : (path [box, catching] ⟨[]⟩).checks catching catcher 20 (fun _ a _ =>
      a.points.map (·.reached) = [true, true, false, true, true] ∧
        (a.points[1]?).any fun p => p.throwing = some 0) = true := by
    decide +kernel
  obtain ⟨c, a, memo', hc, h, hfacts⟩ := ClassPath.checks_inv hchecks
  obtain ⟨hreached, hpoint⟩ := of_decide_eq_true hfacts
  obtain ⟨p, hp, hthrowing⟩ := (Option.any_eq_true _ _).1 hpoint
  have hthrowing := of_decide_eq_true hthrowing
  exact ⟨c, a, memo', p, hc, h, hreached, hp, hthrowing,
    only_null_accesses_throw rfl h hc hp hthrowing⟩

end SymbolicDex
