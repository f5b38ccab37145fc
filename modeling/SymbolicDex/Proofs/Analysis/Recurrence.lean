import SymbolicDex.Proofs.Analysis.Bookkeeping

/- A session that comes back to where it was goes round forever. What a visit
   does depends on the states, the forms and the queue, and on answers of the
   class path, which stay. So a visit that was made once is made again from any
   session that looks alike.

   What is proved:
     1. `visit_alike`: visits of sessions that look alike lead to sessions that
        look alike.
     2. `step_score`: what recovery and restoring settle stays settled, so
        between two sessions that look alike there are visits only.
     3. `Steps.recurs`: a run that comes back never ends. -/
namespace SymbolicDex

/-- What the flow of types depends on: not how often the instruction was visited,
    nor what it waits for. -/
def Point.flow (p : Point) : Point :=
  { p with visits := 0, parked := none, recoveryTried := false }

namespace Session

/-! ## Sessions that look alike -/

/-- The same forms and states, and the same queue. -/
structure Alike (s t : Session) : Prop where
  points : s.points.map Point.flow = t.points.map Point.flow
  queue : s.queue = t.queue

instance (s t : Session) : Decidable (Alike s t) :=
  decidable_of_iff (s.points.map Point.flow = t.points.map Point.flow ∧ s.queue = t.queue)
    ⟨fun h => ⟨h.1, h.2⟩, fun h => ⟨h.1, h.2⟩⟩

theorem flowing?_flow (points : List Point) (t : Nat) (e : Edge) :
    flowing? (points.map Point.flow) t e = flowing? points t e := by
  unfold flowing?
  rw [List.getElem?_map]
  cases points[e.source]? <;> rfl

theorem mergedPre_flow (c : MethodContext) (points : List Point) (ix : Nat) :
    mergedPre c (points.map Point.flow) ix = mergedPre c points ix := by
  unfold mergedPre
  rw [List.filterMap_congr fun e _ => flowing?_flow points ix e]

theorem site_flow (c : MethodContext) (points : List Point) (ix : Nat) (p : Point) :
    site c (points.map Point.flow) ix p.flow = site c points ix p := by
  unfold site
  have hprevious : ((points.map Point.flow)[ix - 1]?).map (·.current) =
      (points[ix - 1]?).map (·.current) := by
    rw [List.getElem?_map]
    cases points[ix - 1]? <;> rfl
  rw [hprevious]
  rfl

theorem copiedFrom?_flow (c : MethodContext) (points : List Point)
    (check tested object : Nat) (known : RegisterType) :
    Narrowing.copiedFrom? c (points.map Point.flow) check tested object known =
      Narrowing.copiedFrom? c points check tested object known := by
  have hcurrent (j : Nat) : ((points.map Point.flow)[j]?).map (·.current) =
      (points[j]?).map (·.current) := by
    rw [List.getElem?_map]
    cases points[j]? <;> rfl
  have hpre (r : Nat) : ((points.map Point.flow)[check]?).bind (·.pre[r]?) =
      (points[check]?).bind (·.pre[r]?) := by
    rw [List.getElem?_map]
    cases points[check]? <;> rfl
  unfold Narrowing.copiedFrom?
  simp only [hcurrent, hpre]

theorem checkBefore?_flow (c : MethodContext) (points : List Point) (ix : Nat) :
    Narrowing.checkBefore? c (points.map Point.flow) ix = Narrowing.checkBefore? c points ix := by
  unfold Narrowing.checkBefore?
  split
  · rename_i e _
    rw [List.getElem?_map, List.getElem?_map]
    cases points[ix]? with
    | none => rfl
    | some branch => cases points[e.source]? <;> rfl
  · rfl

theorem afterCheck_flow (c : MethodContext) (points : List Point) (ix : Nat) :
    Narrowing.afterCheck c (points.map Point.flow) ix = Narrowing.afterCheck c points ix := by
  unfold Narrowing.afterCheck
  rw [checkBefore?_flow, List.getElem?_map]
  cases points[ix]? with
  | none => rfl
  | some branch =>
    simp only [Option.map_some, copiedFrom?_flow]
    cases Narrowing.checkBefore? c points ix <;> rfl

theorem point_map_eq {α : Type} {g : Point → α} {s t : Session}
    (h : s.points.map g = t.points.map g) (ix : Nat) : g (s.point ix) = g (t.point ix) := by
  have hpoint (u : Session) :
      g (u.point ix) = (u.points.map g).getD ix (g (Point.ofInstruction 0 default)) := by
    unfold point
    rw [List.getD_eq_getElem?_getD, List.getD_eq_getElem?_getD, List.getElem?_map]
    cases u.points[ix]? <;> rfl
  rw [hpoint, hpoint, h]

/-- A view of a list after a change of one entry, by what the change does to the
    view. -/
theorem map_modify {α β : Type} {f : α → α} {g : α → β} {h : β → β}
    (hf : ∀ a, g (f a) = h (g a)) (as : List α) (ix : Nat) :
    (as.modify ix f).map g = (as.map g).modify ix h := by
  induction as generalizing ix with
  | nil => cases ix <;> rfl
  | cons a as ih =>
    cases ix with
    | zero => simp [hf]
    | succ ix => simp [ih]

namespace Alike

variable {s t : Session}

theorem point (h : Alike s t) (ix : Nat) : (s.point ix).flow = (t.point ix).flow :=
  point_map_eq h.points ix

theorem mergedPre (h : Alike s t) (c : MethodContext) (ix : Nat) :
    mergedPre c t.points ix = mergedPre c s.points ix := by
  rw [← mergedPre_flow, ← h.points, mergedPre_flow]

theorem site (h : Alike s t) (c : MethodContext) (ix : Nat) :
    site c t.points ix (t.point ix) = site c s.points ix (s.point ix) := by
  rw [← site_flow, ← h.points, ← h.point, site_flow]

theorem afterCheck (h : Alike s t) (c : MethodContext) (ix : Nat) :
    Narrowing.afterCheck c t.points ix = Narrowing.afterCheck c s.points ix := by
  rw [← afterCheck_flow, ← h.points, afterCheck_flow]

/-- A change that sees of an instruction only what the flow depends on. -/
theorem update (h : Alike s t) (ix : Nat) {f : Point → Point}
    (hf : ∀ p, (f p).flow = (f p.flow).flow) : Alike (s.update ix f) (t.update ix f) := by
  have hmodify (points : List Point) : (points.modify ix f).map Point.flow =
      (points.map Point.flow).modify ix fun p => (f p).flow := map_modify hf points ix
  refine ⟨?_, h.queue⟩
  unfold Session.update
  rw [hmodify, hmodify, h.points]

theorem enqueue (h : Alike s t) (ix : Nat) : Alike (s.enqueue ix) (t.enqueue ix) := by
  unfold Session.enqueue
  rw [← h.queue]
  split
  · exact h
  · exact ⟨h.points, rfl⟩

end Alike

/-! ## Moves of sessions that look alike -/

section

variable {c : MethodContext} {s t : Session}

theorem updatePre_memo (c : MethodContext) (s : Session) (ix : Nat) :
    (updatePre c s ix).memo = mergeMemo c s ix := by
  rw [updatePre_eq]
  split
  · rfl
  · unfold enqueue
    split <;> rfl

theorem updatePre_alike (h : Alike s t) (hidle : s.memo.busy = []) (ix : Nat)
    (hmemo : (updatePre c s ix).memo.Grows t.memo) :
    Alike (updatePre c s ix) (updatePre c t ix) := by
  rw [updatePre_memo] at hmemo
  have hanswer : ((mergedPre c t.points ix).run t.memo).1 =
      ((mergedPre c s.points ix).run s.memo).1 := by
    rw [h.mergedPre c ix]
    exact (mergedPre_steady c s.points ix).again _ _ hidle hmemo
  have hreached : (t.point ix).reached = (s.point ix).reached :=
    (congrArg Point.reached (h.point ix)).symm
  have hpre : (t.point ix).pre = (s.point ix).pre := (congrArg Point.pre (h.point ix)).symm
  have hasked : Alike ⟨s.points, s.queue, s.notes, mergeMemo c s ix⟩
      ⟨t.points, t.queue, t.notes, mergeMemo c t ix⟩ := ⟨h.points, h.queue⟩
  rw [updatePre_eq, updatePre_eq, hanswer, hreached, hpre]
  split
  · exact hasked
  · exact (hasked.update ix fun _ => rfl).enqueue ix

theorem updatePre_grows (c : MethodContext) (s : Session) (ix : Nat) :
    s.memo.Grows (updatePre c s ix).memo := by
  rw [updatePre_memo]
  exact mergeMemo_grows c s ix

theorem foldl_updatePre_grows (c : MethodContext) (s : Session) (ts : List Nat) :
    s.memo.Grows (ts.foldl (updatePre c) s).memo := by
  induction ts generalizing s with
  | nil => exact Memo.Grows.refl _
  | cons ix ts ih => exact (updatePre_grows c s ix).trans (ih _)

theorem foldl_updatePre_alike (h : Alike s t) (hidle : s.memo.busy = []) {ts : List Nat}
    (hmemo : (ts.foldl (updatePre c) s).memo.Grows t.memo) :
    Alike (ts.foldl (updatePre c) s) (ts.foldl (updatePre c) t) := by
  induction ts generalizing s t with
  | nil => exact h
  | cons ix ts ih =>
    have hfirst := (foldl_updatePre_grows c (updatePre c s ix) ts).trans hmemo
    refine ih (updatePre_alike h hidle ix hfirst) ((updatePre_grows c s ix).idle hidle) ?_
    exact hmemo.trans (updatePre_grows c t ix)

/-- What a branch learns from the check before it. -/
theorem afterCheck_alike (h : Alike s t) (hidle : s.memo.busy = []) (ix : Nat)
    (hmemo : ((Narrowing.afterCheck c s.points ix).run s.memo).2.Grows t.memo) :
    Alike
      (({ s with memo := ((Narrowing.afterCheck c s.points ix).run s.memo).2 }).update ix
        fun p => { p with narrowing := ((Narrowing.afterCheck c s.points ix).run s.memo).1 })
      (({ t with memo := ((Narrowing.afterCheck c t.points ix).run t.memo).2 }).update ix
        fun p => { p with narrowing := ((Narrowing.afterCheck c t.points ix).run t.memo).1 }) := by
  have hanswer : ((Narrowing.afterCheck c t.points ix).run t.memo).1 =
      ((Narrowing.afterCheck c s.points ix).run s.memo).1 := by
    rw [h.afterCheck c ix]
    exact (Narrowing.afterCheck_steady c s.points ix).again _ _ hidle hmemo
  have hasked : Alike ({ s with memo := ((Narrowing.afterCheck c s.points ix).run s.memo).2 })
      ({ t with memo := ((Narrowing.afterCheck c t.points ix).run t.memo).2 }) :=
    ⟨h.points, h.queue⟩
  rw [hanswer]
  exact hasked.update ix fun _ => rfl

theorem transfer_grows_analyzeAt (c : MethodContext) (s : Session) (ix : Nat) :
    ((site c s.points ix (s.point ix)).transfer.run s.memo).2.Grows
      (analyzeAt c s ix).2.memo := by
  rw [analyzeAt_eq]
  dsimp only
  split
  · exact Memo.Grows.refl _
  · split
    · exact (Narrowing.afterCheck_steady c _ ix).grows _
    · exact Memo.Grows.refl _

theorem analyzeAt_alike (h : Alike s t) (hidle : s.memo.busy = []) (ix : Nat)
    (hmemo : (analyzeAt c s ix).2.memo.Grows t.memo) :
    (analyzeAt c t ix).1 = (analyzeAt c s ix).1 ∧
      Alike (analyzeAt c s ix).2 (analyzeAt c t ix).2 := by
  have heffect : ((site c t.points ix (t.point ix)).transfer.run t.memo).1 =
      ((site c s.points ix (s.point ix)).transfer.run s.memo).1 := by
    rw [h.site c ix]
    exact (Site.transfer_steady _).again _ _ hidle ((transfer_grows_analyzeAt c s ix).trans hmemo)
  have hidle' := (Site.transfer_grows (site c s.points ix (s.point ix)) s.memo).idle hidle
  have hgrows := Site.transfer_grows (site c t.points ix (t.point ix)) t.memo
  rw [analyzeAt_eq] at hmemo ⊢
  rw [analyzeAt_eq, heffect]
  -- the two sessions got the same effect, out of memos that may differ
  generalize ((site c s.points ix (s.point ix)).transfer.run s.memo).2 = m at hmemo hidle' ⊢
  generalize ((site c t.points ix (t.point ix)).transfer.run t.memo).2 = m' at hgrows ⊢
  generalize ((site c s.points ix (s.point ix)).transfer.run s.memo).1 = effect at hmemo ⊢
  obtain ⟨cur, post⟩ := effect
  have hasked : Alike ⟨s.points, s.queue, s.notes, m⟩ ⟨t.points, t.queue, t.notes, m'⟩ :=
    ⟨h.points, h.queue⟩
  cases post with
  | error e => exact ⟨rfl, hasked.update ix fun _ => rfl⟩
  | ok post =>
    have hset := hasked.update ix (f := fun p => { p with current := cur, post := post })
      fun _ => rfl
    dsimp only at hmemo ⊢
    split
    · rename_i htest
      rw [if_pos htest] at hmemo
      exact ⟨rfl, afterCheck_alike hset hidle' ix (hmemo.trans hgrows)⟩
    · exact ⟨rfl, hset⟩

theorem propagate_update_grows (c : MethodContext) (s : Session) (ix : Nat) (f : Point → Point)
    (normal : Bool) : s.memo.Grows (propagate c (s.update ix f) ix normal).memo :=
  foldl_updatePre_grows c (s.update ix f) _

/-- A visit that was made once is made again. -/
theorem visit_alike (h : Alike s t) (hidle : s.memo.busy = []) {ix : Nat} {s' : Session}
    (hvisit : visit c s ix = .running s') (hmemo : s'.memo.Grows t.memo) :
    ∃ t', visit c t ix = .running t' ∧ Alike s' t' := by
  have hcounted := h.update ix (f := fun p => { p with visits := p.visits + 1 }) fun _ => rfl
  unfold visit at hvisit ⊢
  dsimp only at hvisit ⊢
  generalize hs₁ : s.update ix (fun p => { p with visits := p.visits + 1 }) = s₁
    at hvisit hcounted
  generalize ht₁ : t.update ix (fun p => { p with visits := p.visits + 1 }) = t₁ at hcounted ⊢
  have hidle₁ : s₁.memo.busy = [] := by rw [← hs₁]; exact hidle
  have hmemo₁ : s'.memo.Grows t₁.memo := by rw [← ht₁]; exact hmemo
  have hthrowing : (t₁.point ix).throwing = (s₁.point ix).throwing :=
    (congrArg Point.throwing (hcounted.point ix)).symm
  rw [hthrowing]
  split at hvisit
  · rename_i hsome
    rw [if_pos hsome]
    injection hvisit with hvisit
    subst hvisit
    exact ⟨_, rfl, foldl_updatePre_alike hcounted hidle₁ hmemo₁⟩
  · rename_i hnone
    rw [if_neg hnone]
    -- `t` knows what `s` asked during the visit, so it gets the same answers
    have hanalyzed : (analyzeAt c s₁ ix).2.memo.Grows s'.memo := by
      split at hvisit
      · rename_i s₂ hs₂
        injection hvisit with hvisit
        rw [hs₂, ← hvisit]
        exact propagate_update_grows c s₂ ix _ true
      · rename_i r f s₂ hs₂
        injection hvisit with hvisit
        rw [hs₂, ← hvisit]
        exact propagate_update_grows c s₂ ix _ false
      · cases hvisit
      · cases hvisit
    have hidle₂ := ((Site.transfer_grows (site c s₁.points ix (s₁.point ix)) s₁.memo).trans
      (transfer_grows_analyzeAt c s₁ ix)).idle hidle₁
    have hmemo₂ : s'.memo.Grows (analyzeAt c t₁ ix).2.memo :=
      hmemo₁.trans ((Site.transfer_grows (site c t₁.points ix (t₁.point ix)) t₁.memo).trans
        (transfer_grows_analyzeAt c t₁ ix))
    obtain ⟨hhalt, halike⟩ := analyzeAt_alike hcounted hidle₁ ix (hanalyzed.trans hmemo₁)
    generalize analyzeAt c s₁ ix = r at hvisit hidle₂ hhalt halike
    generalize analyzeAt c t₁ ix = r' at hmemo₂ hhalt halike ⊢
    obtain ⟨halt, s₂⟩ := r
    obtain ⟨halt', t₂⟩ := r'
    cases (hhalt : halt' = halt)
    split at hvisit
    · rename_i s₃ hs₃
      cases hs₃
      injection hvisit with hvisit
      subst hvisit
      refine ⟨_, rfl, foldl_updatePre_alike (halike.update ix fun _ => rfl) hidle₂ hmemo₂⟩
    · rename_i r f s₃ hs₃
      cases hs₃
      injection hvisit with hvisit
      subst hvisit
      refine ⟨_, rfl, foldl_updatePre_alike (halike.update ix fun _ => rfl) hidle₂ hmemo₂⟩
    · cases hvisit
    · cases hvisit

end

/-! ## What is settled for good -/

/-- What the rules see of an instruction apart from states. -/
def Frame : Type := Instruction × Instruction × Option RegisterType × Option Nat

end Session

def Point.frame (p : Point) : Session.Frame := (p.given, p.current, p.hint, p.throwing)

/-- Counts what is settled for good about an instruction: that it is plain, that
    it was helped, and that it can only throw. -/
def Point.score (p : Point) : Nat :=
  (if p.current.Plain then 1 else 0) + (if p.hint.isSome then 1 else 0) +
    if p.throwing.isSome then 1 else 0

theorem Point.score_le (p : Point) : p.score ≤ 3 := by
  unfold Point.score
  split <;> split <;> split <;> omega

namespace Session

def score (s : Session) : Nat := (s.points.map Point.score).foldr (· + ·) 0

theorem score_bound (s : Session) : s.score ≤ s.points.length * 3 := by
  unfold score
  induction s.points with
  | nil => exact Nat.le_refl 0
  | cons p points ih =>
    have := p.score_le
    simp only [List.map_cons, List.foldr_cons, List.length_cons]
    omega

theorem Alike.score {s t : Session} (h : Alike s t) : s.score = t.score := by
  have hflow (u : Session) :
      u.score = ((u.points.map Point.flow).map Point.score).foldr (· + ·) 0 := by
    unfold Session.score
    rw [List.map_map]
    rfl
  rw [hflow, hflow, h.points]

/-- What does not look at states before stays as states are passed on. -/
theorem map_foldl_updatePre {α : Type} {g : Point → α} (c : MethodContext)
    (hg : ∀ p pre, g { p with pre := pre, reached := true } = g p) (s : Session) (ts : List Nat) :
    (ts.foldl (updatePre c) s).points.map g = s.points.map g := by
  have hone (s : Session) (t : Nat) : (updatePre c s t).points.map g = s.points.map g := by
    rw [updatePre_eq]
    split
    · rfl
    · have hmodify (pre : List RegisterType) :
          (s.points.modify t fun p => { p with pre := pre, reached := true }).map g =
            s.points.map g := by
        rw [map_modify (h := id) fun p => hg p pre, List.modify_id]
      unfold enqueue
      split <;> exact hmodify _
  induction ts generalizing s with
  | nil => rfl
  | cons t ts ih => rw [List.foldl_cons, ih, hone]

theorem score_foldl_updatePre (c : MethodContext) (s : Session) (ts : List Nat) :
    (ts.foldl (updatePre c) s).score = s.score := by
  unfold score
  rw [map_foldl_updatePre c (fun _ _ => rfl)]

theorem frame_foldl_updatePre (c : MethodContext) (s : Session) (ts : List Nat) :
    (ts.foldl (updatePre c) s).points.map Point.frame = s.points.map Point.frame :=
  map_foldl_updatePre c (fun _ _ => rfl) s ts

theorem score_set {s : Session} (s' : Session) {ix : Nat} {p : Point} (hix : ix < s.points.length)
    (hpoints : s'.points = s.points.set ix p) :
    s'.score + (s.point ix).score = s.score + p.score := by
  have hsum : ∀ {points : List Point} {ix : Nat} {q : Point}, points[ix]? = some q →
      ((points.set ix p).map Point.score).foldr (· + ·) 0 + q.score =
        (points.map Point.score).foldr (· + ·) 0 + p.score := by
    intro points
    induction points with
    | nil => intro ix q h; cases h
    | cons a points ih =>
      intro ix q h
      cases ix with
      | zero =>
        cases h
        simp only [List.set_cons_zero, List.map_cons, List.foldr_cons]
        omega
      | succ ix =>
        have hrest := @ih ix q h
        simp only [List.set_cons_succ, List.map_cons, List.foldr_cons]
        omega
  unfold score
  rw [hpoints]
  exact hsum (getElem?_points hix)

theorem frame_set {s : Session} (s' : Session) {ix : Nat} {p : Point} (hix : ix < s.points.length)
    (hpoints : s'.points = s.points.set ix p) (hp : p.frame = (s.point ix).frame) :
    s'.points.map Point.frame = s.points.map Point.frame := by
  rw [hpoints, List.map_set, hp]
  refine List.ext_getElem? fun j => ?_
  by_cases hj : ix = j
  · subst hj
    rw [List.getElem?_set_self (by simpa using hix), List.getElem?_map, getElem?_points hix]
    rfl
  · rw [List.getElem?_set_ne hj]

/-- A form is kept, or it was not plain and the new one is. -/
theorem score_restored {p p' : Point} (hplain : p.current.Plain → p'.current = p.current)
    (hform : p'.current = p.current ∨ p'.current.Plain) (hgiven : p'.given = p.given)
    (hhint : p'.hint = p.hint) (hthrowing : p'.throwing = p.throwing) :
    p.score ≤ p'.score ∧ (p'.score = p.score → p'.frame = p.frame) := by
  by_cases hsame : p'.current = p.current
  · have hframe : p'.frame = p.frame := by
      unfold Point.frame
      rw [hgiven, hsame, hhint, hthrowing]
    unfold Point.score
    rw [hsame, hhint, hthrowing]
    exact ⟨Nat.le_refl _, fun _ => hframe⟩
  · have hnew : p'.current.Plain := hform.resolve_left hsame
    have hold : ¬p.current.Plain := fun h => hsame (hplain h)
    unfold Point.score
    rw [hhint, hthrowing, if_pos hnew, if_neg hold]
    refine ⟨by omega, fun h => ?_⟩
    omega

theorem Visit.score_le {c : MethodContext} {s s₁ : Session} {ix : Nat} {ts : List Nat}
    (hix : ix < s.points.length) (h : Visit c ix s s₁ ts) :
    s.score ≤ s₁.score ∧
      (s₁.score = s.score → s₁.points.map Point.frame = s.points.map Point.frame) := by
  have hset {p : Point} {queue : List Nat} {memo : Memo}
      (hp : (s.point ix).score ≤ p.score ∧
        (p.score = (s.point ix).score → p.frame = (s.point ix).frame)) :
      s.score ≤ (⟨s.points.set ix p, queue, s.notes, memo⟩ : Session).score ∧
        ((⟨s.points.set ix p, queue, s.notes, memo⟩ : Session).score = s.score →
          (s.points.set ix p).map Point.frame = s.points.map Point.frame) := by
    have hsum := score_set ⟨s.points.set ix p, queue, s.notes, memo⟩ hix rfl
    refine ⟨by omega, fun heq => ?_⟩
    exact frame_set ⟨s.points.set ix p, queue, s.notes, memo⟩ hix rfl (hp.2 (by omega))
  cases h with
  | passed => exact hset ⟨Nat.le_refl _, fun _ => rfl⟩
  | analyzed hqueue hthrowing heffect hmemo =>
    obtain ⟨hplain, hsame, -⟩ := Site.transfer_ok _ heffect
    exact hset (score_restored hsame (.inr hplain) rfl rfl rfl)
  | parked hqueue hthrowing heffect =>
    rcases Site.transfer_error _ heffect with ⟨hcur, -⟩ | ⟨hplain, hsame, -⟩
    · exact hset (score_restored (fun _ => hcur) (.inl hcur) rfl rfl rfl)
    · exact hset (score_restored hsame (.inr hplain) rfl rfl rfl)

theorem Aid.score_le {c : MethodContext} {memo : Memo} {s s₁ : Session} {ix : Nat} {ts : List Nat}
    (hsound : Sound c memo s) (hix : ix < s.points.length) (h : Aid c ix s s₁ ts) :
    s.score ≤ s₁.score ∧ ((s₁.point ix).parked = none → s.score < s₁.score) := by
  have hok := hsound.points ix hix
  have hwaits {p : Point} {notes : List Note} {memo : Memo} (hp : (s.point ix).score ≤ p.score)
      (hparked : p.parked.isSome) :
      s.score ≤ (⟨s.points.set ix p, s.queue, notes, memo⟩ : Session).score ∧
        (((⟨s.points.set ix p, s.queue, notes, memo⟩ : Session).point ix).parked = none →
          s.score < (⟨s.points.set ix p, s.queue, notes, memo⟩ : Session).score) := by
    have hsum := score_set ⟨s.points.set ix p, s.queue, notes, memo⟩ hix rfl
    refine ⟨by omega, fun hnone => ?_⟩
    rw [point_set_self (s := s) rfl hix] at hnone
    rw [hnone] at hparked
    cases hparked
  have hsettled {p : Point} {notes : List Note} {memo : Memo}
      (hp : (s.point ix).score < p.score) :
      s.score ≤ (⟨s.points.set ix p, s.queue, notes, memo⟩ : Session).score ∧
        (((⟨s.points.set ix p, s.queue, notes, memo⟩ : Session).point ix).parked = none →
          s.score < (⟨s.points.set ix p, s.queue, notes, memo⟩ : Session).score) := by
    have hsum := score_set ⟨s.points.set ix p, s.queue, notes, memo⟩ hix rfl
    exact ⟨by omega, fun _ => by omega⟩
  cases h with
  | tried hparked => exact hwaits (Nat.le_refl _) hparked
  | unhelped hparked hhint heffect =>
    rcases Site.transfer_error _ heffect with ⟨hcur, -⟩ | ⟨hplain, hsame, -⟩
    · exact hwaits (And.left (score_restored (fun _ => hcur) (.inl hcur) rfl hhint.symm rfl))
        hparked
    · exact hwaits (And.left (score_restored hsame (.inr hplain) rfl hhint.symm rfl)) hparked
  | helped hparked hhint htried heffect hmemo hnote =>
    obtain ⟨hplain, -⟩ := Site.transfer_ok _ heffect
    refine hsettled ?_
    have hbit : (if (s.point ix).current.Plain then 1 else 0) ≤ 1 := by split <;> omega
    unfold Point.score
    rw [hhint, if_pos hplain]
    simp only [Option.isSome_none, Option.isSome_some, Bool.false_eq_true, if_true, if_false]
    omega
  | gaveUp hparked hnote =>
    have hnone : (s.point ix).throwing = none :=
      (hok.parked (by rw [status_point, hparked]; rfl)).2
    refine hsettled ?_
    unfold Point.score
    rw [hnone]
    simp only [Option.isSome_none, Option.isSome_some, Bool.false_eq_true, if_true, if_false]
    omega

section

variable {c : MethodContext} {memo : Memo}

/-- A step settles something, or is a visit that keeps all forms. -/
theorem step_score (hc : c.Built) {s s' : Session} (hsound : Sound c memo s)
    (hstep : step c s = .running s') :
    s.score ≤ s'.score ∧
      (s'.score = s.score → ∃ ix s₁ ts, ix < s.points.length ∧ Visit c ix s s₁ ts ∧
        s' = ts.foldl (updatePre c) s₁ ∧
        s₁.points.map Point.frame = s.points.map Point.frame) := by
  rcases step_inv hsound.range hsound.hints hstep with
    ⟨ix, s₁, ts, hix, hvisit, rfl⟩ | ⟨-, t, t₁, ix, ts, hbefore, hix, haid, hparked, hafter⟩
  · rw [score_foldl_updatePre]
    obtain ⟨hle, hframe⟩ := hvisit.score_le hix
    exact ⟨hle, fun heq => ⟨ix, s₁, ts, hix, hvisit, rfl, hframe heq⟩⟩
  · have haids {u u' : Session} (h : Aids c u u') (hsound : Sound c memo u) :
        Sound c memo u' ∧ u.score ≤ u'.score := by
      refine h.invariant hc (Q := fun v => u.score ≤ v.score) ?_ hsound (Nat.le_refl _)
      intro v v₁ ix ts hsound hix hle haid
      rw [score_foldl_updatePre]
      exact Nat.le_trans hle (haid.score_le hsound hix).1
    -- none of the aids unsettles anything, and one of them settles its instruction
    obtain ⟨hsound₁, hle⟩ := haids hbefore hsound
    have hlt := (haid.score_le hsound₁ hix).2 hparked
    obtain ⟨-, hle'⟩ := haids hafter (hsound₁.aid hc hix haid).2
    rw [score_foldl_updatePre] at hle'
    exact ⟨by omega, fun heq => absurd heq (by omega)⟩

theorem step_grows (hc : c.Built) {s s' : Session} (hsound : Sound c memo s)
    (hstep : step c s = .running s') : s.memo.Grows s'.memo := by
  rcases step_inv hsound.range hsound.hints hstep with
    ⟨ix, s₁, ts, hix, hvisit, rfl⟩ | ⟨-, hsettles⟩
  · exact hvisit.localChange.memo.trans (foldl_updatePre_grows c s₁ ts)
  · refine (hsettles.aids.invariant hc (Q := fun v => s.memo.Grows v.memo) ?_ hsound
      (Memo.Grows.refl _)).2
    intro v v₁ ix ts _ hix hgrows haid
    exact (hgrows.trans haid.localChange.memo).trans (foldl_updatePre_grows c v₁ ts)

/-! ## Runs that come back -/

theorem Steps.unique {s₀ s t : Session} {count : Nat} (hs : Steps c s₀ count s)
    (ht : Steps c s₀ count t) : s = t := by
  have h := (run_unfinished_iff.2 hs).symm.trans (run_unfinished_iff.2 ht)
  exact (Prod.mk.inj h).2

/-- An earlier step of a run. -/
theorem Steps.before (hc : c.Built) {count i : Nat} {t : Session}
    (h : Steps c (Session.initial c memo) count t) (hi : i < count) :
    ∃ s s', Steps c (Session.initial c memo) i s ∧ step c s = .running s' ∧
      s'.memo.Grows t.memo ∧ s'.score ≤ t.score := by
  induction h with
  | start => cases hi
  | @next count u u' hsteps hstep ih =>
    have hsound := hsteps.sound hc
    rcases Nat.lt_succ_iff_lt_or_eq.1 hi with hlt | rfl
    · obtain ⟨s, s', hs, hs', hgrows, hscore⟩ := ih hlt
      exact ⟨s, s', hs, hs', hgrows.trans (step_grows hc hsound hstep),
        Nat.le_trans hscore (step_score hc hsound hstep).1⟩
    · exact ⟨u, u', hsteps, hstep, Memo.Grows.refl _, Nat.le_refl _⟩

theorem step_queue {s : Session} {ix : Nat} {queue : List Nat} (h : s.queue = ix :: queue) :
    step c s = visit c { s with queue := queue } ix := by
  unfold step
  rw [h]

theorem Steps.recurs_add (hc : c.Built) (hmemo : memo.busy = []) {i j : Nat} (hij : i < j)
    {s t : Session} (hs : Steps c (Session.initial c memo) i s)
    (ht : Steps c (Session.initial c memo) j t) (h : Alike s t) (k : Nat) :
    ∃ s t, Steps c (Session.initial c memo) (i + k) s ∧
      Steps c (Session.initial c memo) (j + k) t ∧ Alike s t := by
  -- the two go in step; the later one has all answers of the earlier one
  induction k with
  | zero => exact ⟨s, t, hs, ht, h⟩
  | succ k ih =>
    obtain ⟨s, t, hs, ht, h⟩ := ih
    obtain ⟨s₀, s', hs₀, hstep, hgrows, hscore⟩ := ht.before hc (Nat.add_lt_add_right hij k)
    cases hs₀.unique hs
    have hsound := hs.sound hc
    obtain ⟨hle, hvisits⟩ := step_score hc hsound hstep
    rw [← h.score] at hscore
    -- nothing was settled since, so the step is a visit
    obtain ⟨ix, s₁, ts, -, hvisit, -⟩ := hvisits (Nat.le_antisymm hscore hle)
    obtain ⟨queue, hqueue⟩ : ∃ queue, s.queue = ix :: queue := by
      cases hvisit with
      | passed hqueue => exact ⟨_, hqueue⟩
      | analyzed hqueue => exact ⟨_, hqueue⟩
      | parked hqueue => exact ⟨_, hqueue⟩
    have hrest : Alike { s with queue := queue } { t with queue := queue } := ⟨h.points, rfl⟩
    have hfirst := hstep
    rw [step_queue hqueue] at hfirst
    obtain ⟨t', hagain, halike⟩ := visit_alike hrest (hsound.grown.idle hmemo) hfirst hgrows
    rw [← step_queue (h.queue.symm.trans hqueue)] at hagain
    exact ⟨s', t', hs.next hstep, ht.next hagain, halike⟩

/-- A run that comes back to where it was never ends. -/
theorem Steps.recurs (hc : c.Built) (hmemo : memo.busy = []) {i j : Nat} (hij : i < j)
    {s t : Session} (hs : Steps c (Session.initial c memo) i s)
    (ht : Steps c (Session.initial c memo) j t) (h : Alike s t) (n : Nat) :
    ∃ u, Steps c (Session.initial c memo) n u := by
  obtain ⟨-, u, -, hu, -⟩ := hs.recurs_add hc hmemo hij ht h n
  obtain ⟨v, -, hv, -⟩ := hu.before hc (i := n) (by omega)
  exact ⟨v, hv⟩

end

end Session

end SymbolicDex
