import SymbolicDex.Analysis.Run
import SymbolicDex.Proofs.Analysis.FlowEdges
import SymbolicDex.Proofs.Analysis.Rules

/- What one move of a session can do. A visit takes an instruction off the
   queue; when the queue is empty, an instruction that waits is helped or given
   up. Every move changes what is known about one instruction and then passes
   states on. `Visit` and `Aid` say in full what the change can be, and the
   proofs about sessions are case analyses over them.

   What is proved:
     1. `updatePre_cases`: passing a state on changes the state before the
        target, and only with the target queued.
     2. `visit_inv`, `recoverFrom_inv`, `giveUpFrom_inv`, `step_inv`: a step that
        goes on is one visit, or a series of aids.
     3. `run_inv`: a run that ends made steps that go on, and one that ends. -/
namespace SymbolicDex.Session

/-! ## Points of a session -/

theorem getElem?_points {s : Session} {ix : Nat} (h : ix < s.points.length) :
    s.points[ix]? = some (s.point ix) := by
  unfold point
  rw [List.getElem?_eq_getElem h, List.getD_eq_getElem?_getD, List.getElem?_eq_getElem h]
  rfl

theorem point_eq_of_getElem? {s : Session} {ix : Nat} {p : Point} (h : s.points[ix]? = some p) :
    s.point ix = p ∧ ix < s.points.length := by
  obtain ⟨hix, hp⟩ := List.getElem?_eq_some_iff.1 h
  have := getElem?_points hix
  rw [h] at this
  exact ⟨(Option.some.inj this).symm, hix⟩

theorem point_of_le {s : Session} {ix : Nat} (h : s.points.length ≤ ix) :
    s.point ix = Point.ofInstruction 0 default := by
  unfold point
  rw [List.getD_eq_getElem?_getD, List.getElem?_eq_none h]
  rfl

theorem update_eq (s : Session) {ix : Nat} (f : Point → Point) (h : ix < s.points.length) :
    s.update ix f = { s with points := s.points.set ix (f (s.point ix)) } := by
  unfold update
  rw [List.modify_eq_set_getElem?, getElem?_points h]
  rfl

theorem point_set_self {s s' : Session} {ix : Nat} {p : Point}
    (hp : s'.points = s.points.set ix p) (h : ix < s.points.length) : s'.point ix = p := by
  unfold point
  rw [hp, List.getD_eq_getElem?_getD, List.getElem?_set_self h]
  rfl

theorem update_set {points : List Point} {ix : Nat} (h : ix < points.length) (p : Point)
    (queue : List Nat) (notes : List Note) (memo : Memo) (f : Point → Point) :
    (⟨points.set ix p, queue, notes, memo⟩ : Session).update ix f =
      ⟨points.set ix (f p), queue, notes, memo⟩ := by
  rw [update_eq _ _ (by simpa using h), point_set_self (s := ⟨points, queue, notes, memo⟩) rfl h]
  simp only [List.set_set]

theorem point_set_ne {s s' : Session} {ix j : Nat} {p : Point}
    (hp : s'.points = s.points.set ix p) (h : j ≠ ix) : s'.point j = s.point j := by
  unfold point
  rw [hp, List.getD_eq_getElem?_getD, List.getElem?_set_ne (Ne.symm h),
    List.getD_eq_getElem?_getD]

theorem mem_enqueue {s : Session} {ix j : Nat} :
    j ∈ (s.enqueue ix).queue ↔ j ∈ s.queue ∨ j = ix := by
  unfold enqueue
  split
  · rename_i h
    exact ⟨.inl, fun hj => hj.elim id fun hj => hj ▸ h⟩
  · simp

theorem nodup_enqueue {s : Session} {ix : Nat} (h : s.queue.Nodup) :
    (s.enqueue ix).queue.Nodup := by
  unfold enqueue
  split
  · exact h
  · rename_i hix
    exact List.nodup_append'.2 ⟨h, List.nodup_singleton ix, by simpa using hix⟩

/-! ## Passing states on -/

/-- Registers that the merge before an instruction starts from. -/
def startOf (c : MethodContext) (ix : Nat) : List RegisterType :=
  if ix = 0 then c.start else List.replicate c.code.registers RegisterType.unknown

theorem mergeAll_length (p : ClassPath) (as bs : List RegisterType) (m : Memo) :
    ((RegisterType.mergeAll p as bs).run m).1.length = as.length := by
  induction as generalizing bs m with
  | nil => rfl
  | cons a as ih =>
    cases bs with
    | nil => rfl
    | cons b bs =>
      unfold RegisterType.mergeAll
      split <;> simp only [Query.run_bind, Query.run_pure, List.length_cons, ih]

theorem mergedPre_length (c : MethodContext) (points : List Point) (ix : Nat) (m : Memo) :
    ((mergedPre c points ix).run m).1.length = (startOf c ix).length := by
  have hfold (flows : List (List RegisterType)) (start : List RegisterType) (m : Memo) :
      ((flows.foldlM (RegisterType.mergeAll c.path) start).run m).1.length = start.length := by
    induction flows generalizing start m with
    | nil => rfl
    | cons flow flows ih =>
      rw [List.foldlM_cons, Query.run_bind, ih, mergeAll_length]
  exact hfold _ _ _

/-- The memo after the state before an instruction was merged. -/
def mergeMemo (c : MethodContext) (s : Session) (t : Nat) : Memo :=
  ((mergedPre c s.points t).run s.memo).2

theorem mergeMemo_grows (c : MethodContext) (s : Session) (t : Nat) :
    s.memo.Grows (mergeMemo c s t) := (mergedPre_steady c s.points t).grows s.memo

theorem updatePre_eq (c : MethodContext) (s : Session) (t : Nat) :
    updatePre c s t =
      if (s.point t).reached ∧ (s.point t).pre = ((mergedPre c s.points t).run s.memo).1 then
        { s with memo := mergeMemo c s t }
      else ((⟨s.points, s.queue, s.notes, mergeMemo c s t⟩ : Session).update t fun p =>
        { p with pre := ((mergedPre c s.points t).run s.memo).1, reached := true }).enqueue t := rfl

/-- Either the merge is what was known, or it becomes the state before and the
    instruction is queued. -/
theorem updatePre_cases (c : MethodContext) {s : Session} {t : Nat} (ht : t < s.points.length) :
    ((s.point t).reached = true ∧ (s.point t).pre = ((mergedPre c s.points t).run s.memo).1 ∧
      updatePre c s t = { s with memo := mergeMemo c s t }) ∨
    updatePre c s t = ⟨s.points.set t { s.point t with
        pre := ((mergedPre c s.points t).run s.memo).1, reached := true },
      (s.enqueue t).queue, s.notes, mergeMemo c s t⟩ := by
  rw [updatePre_eq]
  split
  · rename_i h
    exact .inl ⟨h.1, h.2, rfl⟩
  · rw [update_eq ⟨s.points, s.queue, s.notes, mergeMemo c s t⟩ _ ht]
    unfold enqueue
    by_cases hq : t ∈ s.queue <;> simp only [hq, if_true, if_false] <;> exact .inr rfl

theorem length_updatePre (c : MethodContext) (s : Session) (t : Nat) :
    (updatePre c s t).points.length = s.points.length := by
  rw [updatePre_eq]
  split
  · rfl
  · unfold enqueue
    split <;> simp [update]

theorem length_foldl_updatePre (c : MethodContext) (s : Session) (ts : List Nat) :
    (ts.foldl (updatePre c) s).points.length = s.points.length := by
  induction ts generalizing s with
  | nil => rfl
  | cons t ts ih => rw [List.foldl_cons, ih, length_updatePre]

/-! ## One analysis -/

/-- The rules see of the instruction only its form, its state before and its
    hint. -/
theorem site_set {c : MethodContext} {points : List Point} {ix : Nat} {p p' : Point}
    (hcurrent : p'.current = p.current) (hpre : p'.pre = p.pre) :
    site c (points.set ix p') ix p' = { site c points ix p with hint := p'.hint } := by
  unfold site
  have hprevious : (if ix = 0 then none else ((points.set ix p')[ix - 1]?).map (·.current)) =
      if ix = 0 then none else (points[ix - 1]?).map (·.current) := by
    split
    · rfl
    · rw [List.getElem?_set_ne (by omega)]
  rw [hprevious, hcurrent, hpre]

theorem analyzeAt_eq (c : MethodContext) (s : Session) (ix : Nat) :
    analyzeAt c s ix =
      let effect := ((site c s.points ix (s.point ix)).transfer.run s.memo).1
      let s : Session :=
        { s with memo := ((site c s.points ix (s.point ix)).transfer.run s.memo).2 }
      match effect.post with
      | .error h =>
        (some h, s.update ix fun p => { p with current := effect.current, post := p.pre })
      | .ok post =>
        let s := s.update ix fun p => { p with current := effect.current, post := post }
        if isZeroTest effect.current.opcode then
          (none, { s with memo := ((Narrowing.afterCheck c s.points ix).run s.memo).2 }.update ix
            fun p => { p with narrowing := ((Narrowing.afterCheck c s.points ix).run s.memo).1 })
        else (none, s) := rfl

/-- What a branch on zero learns, with its own state in place, from the memo `m`;
    another instruction keeps what it knew. -/
def Learned (c : MethodContext) (points : List Point) (ix : Nat) (p : Point) (m : Memo)
    (n : Option Narrowing) : Prop :=
  (isZeroTest p.current.opcode = false ∧ n = p.narrowing) ∨
    isZeroTest p.current.opcode = true ∧ ∃ p', p'.current = p.current ∧ p'.pre = p.pre ∧
      n = ((Narrowing.afterCheck c (points.set ix p') ix).run m).1

theorem analyzeAt_cases (c : MethodContext) {s : Session} {ix : Nat}
    (hix : ix < s.points.length) :
    (∃ h cur, ((site c s.points ix (s.point ix)).transfer.run s.memo).1 = ⟨cur, .error h⟩ ∧
      analyzeAt c s ix = (some h,
        ⟨s.points.set ix { s.point ix with current := cur, post := (s.point ix).pre }, s.queue,
          s.notes, ((site c s.points ix (s.point ix)).transfer.run s.memo).2⟩)) ∨
    (∃ cur post n m,
      ((site c s.points ix (s.point ix)).transfer.run s.memo).1 = ⟨cur, .ok post⟩ ∧
      ((site c s.points ix (s.point ix)).transfer.run s.memo).2.Grows m ∧
      Learned c s.points ix { s.point ix with current := cur }
        ((site c s.points ix (s.point ix)).transfer.run s.memo).2 n ∧
      analyzeAt c s ix = (none,
        ⟨s.points.set ix { s.point ix with current := cur, post := post, narrowing := n },
          s.queue, s.notes, m⟩)) := by
  rw [analyzeAt_eq]
  rcases he : ((site c s.points ix (s.point ix)).transfer.run s.memo).1 with ⟨cur, post⟩
  generalize ((site c s.points ix (s.point ix)).transfer.run s.memo).2 = m₁
  cases post with
  | error h =>
    refine .inl ⟨h, cur, rfl, ?_⟩
    dsimp only
    rw [update_eq ⟨s.points, s.queue, s.notes, m₁⟩ _ hix]
    rfl
  | ok post =>
    refine .inr ?_
    dsimp only
    have hs : (⟨s.points, s.queue, s.notes, m₁⟩ : Session).update ix
        (fun p => { p with current := cur, post := post }) =
        ⟨s.points.set ix { s.point ix with current := cur, post := post }, s.queue, s.notes, m₁⟩ :=
      update_eq _ _ hix
    rw [hs]
    split
    -- a branch looks at the points with its own state in place
    · rename_i hzero
      dsimp only
      generalize hcheck : (Narrowing.afterCheck c (s.points.set ix
        { s.point ix with current := cur, post := post }) ix).run m₁ = r
      have hgrows : m₁.Grows r.2 := hcheck ▸ (Narrowing.afterCheck_steady c _ ix).grows m₁
      refine ⟨cur, post, r.1, r.2, rfl, hgrows,
        .inr ⟨hzero, { s.point ix with current := cur, post := post }, rfl, rfl, by rw [hcheck]⟩,
        ?_⟩
      have hp : (⟨s.points.set ix { s.point ix with current := cur, post := post }, s.queue,
          s.notes, r.2⟩ : Session).point ix = { s.point ix with current := cur, post := post } :=
        point_set_self (s := s) rfl hix
      rw [update_eq]
      · rw [hp]
        simp only [List.set_set]
      · simpa using hix
    · rename_i hother
      exact ⟨cur, post, (s.point ix).narrowing, m₁, rfl, Memo.Grows.refl _,
        .inl ⟨by simpa using hother, rfl⟩, rfl⟩

/-- An analysis of an instruction of which something was changed that the rules
    do not see, or its hint. -/
theorem analyzeAt_set_cases (c : MethodContext) {s : Session} {ix : Nat}
    (hix : ix < s.points.length) (queue : List Nat) {p : Point}
    (hcurrent : p.current = (s.point ix).current) (hpre : p.pre = (s.point ix).pre)
    (seen : Site) (hseen : { site c s.points ix (s.point ix) with hint := p.hint } = seen) :
    (∃ e cur, (seen.transfer.run s.memo).1 = ⟨cur, .error e⟩ ∧
      analyzeAt c ⟨s.points.set ix p, queue, s.notes, s.memo⟩ ix = (some e,
        ⟨s.points.set ix { p with current := cur, post := p.pre }, queue, s.notes,
          (seen.transfer.run s.memo).2⟩)) ∨
    (∃ cur post n m, (seen.transfer.run s.memo).1 = ⟨cur, .ok post⟩ ∧
      (seen.transfer.run s.memo).2.Grows m ∧
      Learned c s.points ix { p with current := cur } (seen.transfer.run s.memo).2 n ∧
      analyzeAt c ⟨s.points.set ix p, queue, s.notes, s.memo⟩ ix = (none,
        ⟨s.points.set ix { p with current := cur, post := post, narrowing := n }, queue, s.notes,
          m⟩)) := by
  have hlen : ix < (s.points.set ix p).length := by simpa using hix
  have h := analyzeAt_cases c (s := ⟨s.points.set ix p, queue, s.notes, s.memo⟩) hlen
  have hp : (⟨s.points.set ix p, queue, s.notes, s.memo⟩ : Session).point ix = p :=
    point_set_self (s := s) rfl hix
  rw [hp] at h
  simp only [List.set_set, Learned] at h
  rw [site_set hcurrent hpre, hseen] at h
  exact h

/-! ## Visits -/

/-- A visit of `ix`, which is next in the queue: the session before its state is
    passed on, and where it is passed on to. -/
inductive Visit (c : MethodContext) (ix : Nat) (s : Session) : Session → List Nat → Prop where
  /-- It can only throw. -/
  | passed {queue : List Nat} (hqueue : s.queue = ix :: queue)
      (hthrowing : (s.point ix).throwing.isSome) :
      Visit c ix s
        ⟨s.points.set ix { s.point ix with visits := (s.point ix).visits + 1 }, queue, s.notes,
          s.memo⟩
        (c.graph.handlers ix)
  | analyzed {queue : List Nat} {cur : Instruction} {post : List RegisterType}
      {narrowing : Option Narrowing} {memo : Memo} (hqueue : s.queue = ix :: queue)
      (hthrowing : (s.point ix).throwing = none)
      (heffect : ((site c s.points ix (s.point ix)).transfer.run s.memo).1 = ⟨cur, .ok post⟩)
      (hmemo : ((site c s.points ix (s.point ix)).transfer.run s.memo).2.Grows memo)
      (hlearned : Learned c s.points ix { s.point ix with current := cur }
        ((site c s.points ix (s.point ix)).transfer.run s.memo).2 narrowing) :
      Visit c ix s
        ⟨s.points.set ix { s.point ix with
            visits := (s.point ix).visits + 1, current := cur, post := post,
            narrowing := narrowing, parked := none, analyzed := true }, queue, s.notes, memo⟩
        (c.graph.successors ix ++ c.graph.handlers ix)
  | parked {queue : List Nat} {cur : Instruction} {r : Nat} {f : Option AnalysisFailure}
      (hqueue : s.queue = ix :: queue) (hthrowing : (s.point ix).throwing = none)
      (heffect : ((site c s.points ix (s.point ix)).transfer.run s.memo).1 =
        ⟨cur, .error (.parked r f)⟩) :
      Visit c ix s
        ⟨s.points.set ix { s.point ix with
            visits := (s.point ix).visits + 1, current := cur, post := (s.point ix).pre,
            parked := some ⟨r, f⟩, analyzed := false }, queue, s.notes,
          ((site c s.points ix (s.point ix)).transfer.run s.memo).2⟩
        (c.graph.handlers ix)

theorem propagate_exceptional (c : MethodContext) (s : Session) (ix : Nat) :
    propagate c s ix false = (c.graph.handlers ix).foldl (updatePre c) s := rfl

theorem visit_inv {c : MethodContext} {s s' : Session} {ix : Nat} {queue : List Nat}
    (hqueue : s.queue = ix :: queue) (hix : ix < s.points.length)
    (h : visit c { s with queue := queue } ix = .running s') :
    ∃ s₁ ts, Visit c ix s s₁ ts ∧ s' = ts.foldl (updatePre c) s₁ := by
  have hstart : ({ s with queue := queue } : Session).update ix
      (fun p => { p with visits := p.visits + 1 }) =
      ⟨s.points.set ix { s.point ix with visits := (s.point ix).visits + 1 }, queue, s.notes,
        s.memo⟩ := update_eq _ _ hix
  have hp : (⟨s.points.set ix { s.point ix with visits := (s.point ix).visits + 1 }, queue,
      s.notes, s.memo⟩ : Session).point ix =
      { s.point ix with visits := (s.point ix).visits + 1 } := point_set_self (s := s) rfl hix
  unfold visit at h
  rw [hstart] at h
  dsimp only at h
  rw [hp] at h
  split at h
  · rename_i hthrowing
    injection h with h
    exact ⟨_, _, .passed hqueue hthrowing, h.symm⟩
  · rename_i hthrowing
    have hnone : (s.point ix).throwing = none := by simpa using hthrowing
    rcases analyzeAt_set_cases c hix queue
        (p := { s.point ix with visits := (s.point ix).visits + 1 }) rfl rfl
        (site c s.points ix (s.point ix)) rfl with
      ⟨e, cur, heffect, hanalyze⟩ |
      ⟨cur, post, narrowing, memo, heffect, hmemo, hlearned, hanalyze⟩
    · rw [hanalyze] at h
      cases e with
      | parked r f =>
        dsimp only at h
        rw [update_set hix] at h
        injection h with h
        exact ⟨_, _, .parked hqueue hnone heffect, h.symm⟩
      | failed f => cases h
      | endless => cases h
    · rw [hanalyze] at h
      dsimp only at h
      rw [update_set hix] at h
      injection h with h
      exact ⟨_, _, .analyzed hqueue hnone heffect hmemo hlearned, h.symm⟩

/-! ## Aids -/

/-- An aid to the instruction `ix`, which waits. -/
inductive Aid (c : MethodContext) (ix : Nat) (s : Session) : Session → List Nat → Prop where
  /-- Its recovery begins. -/
  | tried (hparked : (s.point ix).parked.isSome) (htried : (s.point ix).recoveryTried = false) :
      Aid c ix s
        ⟨s.points.set ix { s.point ix with recoveryTried := true }, s.queue, s.notes, s.memo⟩ []
  /-- A candidate does not help. -/
  | unhelped {t : RegisterType} {cur : Instruction} {e : Halt}
      (hparked : (s.point ix).parked.isSome) (hhint : (s.point ix).hint = none)
      (heffect : (({ site c s.points ix (s.point ix) with hint := some t }).transfer.run s.memo).1 =
        ⟨cur, .error e⟩) :
      Aid c ix s
        ⟨s.points.set ix { s.point ix with
            current := cur, post := (s.point ix).pre, hint := none }, s.queue, s.notes,
          (({ site c s.points ix (s.point ix) with hint := some t }).transfer.run s.memo).2⟩ []
  | helped {t : RegisterType} {cur : Instruction} {post : List RegisterType}
      {narrowing : Option Narrowing} {memo : Memo} {note : Note}
      (hparked : (s.point ix).parked.isSome) (hhint : (s.point ix).hint = none)
      (htried : (s.point ix).recoveryTried = true)
      (heffect : (({ site c s.points ix (s.point ix) with hint := some t }).transfer.run s.memo).1 =
        ⟨cur, .ok post⟩)
      (hmemo : (({ site c s.points ix (s.point ix) with
        hint := some t }).transfer.run s.memo).2.Grows memo)
      (hnote : note.address = c.graph.address ix)
      (hlearned : Learned c s.points ix { s.point ix with current := cur }
        (({ site c s.points ix (s.point ix) with hint := some t }).transfer.run s.memo).2
        narrowing) :
      Aid c ix s
        ⟨s.points.set ix { s.point ix with
            hint := some t, current := cur, post := post, narrowing := narrowing,
            parked := none, analyzed := true }, s.queue, s.notes ++ [note], memo⟩
        (c.graph.successors ix ++ c.graph.handlers ix)
  | gaveUp {r : Nat} {note : Note} (hparked : (s.point ix).parked = some ⟨r, none⟩)
      (hnote : note.address = c.graph.address ix) :
      Aid c ix s
        ⟨s.points.set ix { s.point ix with
            parked := none, throwing := some r, analyzed := false }, s.queue,
          s.notes ++ [note], s.memo⟩
        (c.graph.handlers ix)

/-- A series of aids, each with its state passed on. -/
inductive Aids (c : MethodContext) (s : Session) : Session → Prop where
  | refl : Aids c s s
  | tail {s' s₁ : Session} {ix : Nat} {ts : List Nat} (h : Aids c s s')
      (hix : ix < s'.points.length) (haid : Aid c ix s' s₁ ts) :
      Aids c s (ts.foldl (updatePre c) s₁)

theorem Aids.trans {c : MethodContext} {s s' s'' : Session} (h : Aids c s s')
    (h' : Aids c s' s'') : Aids c s s'' := by
  induction h' with
  | refl => exact h
  | tail _ hix haid ih => exact .tail ih hix haid

theorem Aids.single {c : MethodContext} {s s₁ : Session} {ix : Nat} {ts : List Nat}
    (hix : ix < s.points.length) (haid : Aid c ix s s₁ ts) :
    Aids c s (ts.foldl (updatePre c) s₁) := .tail .refl hix haid

/-- A series of aids, one of which ends the waiting of an instruction. -/
def Settles (c : MethodContext) (s s' : Session) : Prop :=
  ∃ t t₁ ix ts, Aids c s t ∧ ix < t.points.length ∧ Aid c ix t t₁ ts ∧
    (t₁.point ix).parked = none ∧ Aids c (ts.foldl (updatePre c) t₁) s'

theorem Settles.aids {c : MethodContext} {s s' : Session} (h : Settles c s s') : Aids c s s' := by
  obtain ⟨t, t₁, ix, ts, hbefore, hix, haid, -, hafter⟩ := h
  exact (Aids.tail hbefore hix haid).trans hafter

theorem Settles.before {c : MethodContext} {s s' s'' : Session} (h : Aids c s s')
    (h' : Settles c s' s'') : Settles c s s'' := by
  obtain ⟨t, t₁, ix, ts, hbefore, hrest⟩ := h'
  exact ⟨t, t₁, ix, ts, h.trans hbefore, hrest⟩

/-- Nobody waits less. -/
def SameWaiting (s s' : Session) : Prop :=
  s'.points.length = s.points.length ∧ ∀ j, (s'.point j).parked = (s.point j).parked

theorem SameWaiting.trans {s s' s'' : Session} (h : SameWaiting s s') (h' : SameWaiting s' s'') :
    SameWaiting s s'' := ⟨h'.1.trans h.1, fun j => (h'.2 j).trans (h.2 j)⟩

theorem SameWaiting.of_set {s s' : Session} {ix : Nat} {p : Point} (hix : ix < s.points.length)
    (hpoints : s'.points = s.points.set ix p) (hparked : p.parked = (s.point ix).parked) :
    SameWaiting s s' := by
  refine ⟨by rw [hpoints, List.length_set], fun j => ?_⟩
  by_cases hj : j = ix
  · rw [hj, point_set_self hpoints hix, hparked]
  · rw [point_set_ne hpoints hj]

theorem tryCandidates_inv {c : MethodContext} {s : Session} {ix r : Nat}
    (candidates : List Recovery.Candidate) (hix : ix < s.points.length)
    (hparked : (s.point ix).parked.isSome) (hhint : (s.point ix).hint = none)
    (htried : (s.point ix).recoveryTried = true) :
    (∀ s', tryCandidates c ix r s candidates = .resolved s' → Settles c s s') ∧
    ∀ s', tryCandidates c ix r s candidates = .stuck s' →
      Aids c s s' ∧ SameWaiting s s' ∧
        ∀ j, (s'.point j).hint = (s.point j).hint ∧
          (s'.point j).recoveryTried = (s.point j).recoveryTried := by
  -- a candidate that does not help leaves a session that waits in the same way
  induction candidates generalizing s with
  | nil =>
    refine ⟨fun s' h => (nomatch h), fun s' h => ?_⟩
    cases h
    exact ⟨.refl, ⟨rfl, fun _ => rfl⟩, fun _ => ⟨rfl, rfl⟩⟩
  | cons candidate rest ih =>
    unfold tryCandidates
    dsimp only
    rw [update_eq _ _ hix]
    rcases analyzeAt_set_cases c hix s.queue
        (p := { s.point ix with hint := some (RegisterType.reference candidate.type) }) rfl rfl
        _ rfl with
      ⟨e, cur, heffect, hanalyze⟩ | ⟨cur, post, narrowing, memo, heffect, hmemo, hlearned, hanalyze⟩
    · rw [hanalyze]
      have haid := Aid.unhelped hparked hhint heffect
      generalize hs₁ : (⟨s.points.set ix { s.point ix with
        current := cur, post := (s.point ix).pre, hint := none }, s.queue, s.notes, _⟩ :
        Session) = s₁ at haid
      have hpoints : s₁.points = s.points.set ix { s.point ix with
          current := cur, post := (s.point ix).pre, hint := none } := by rw [← hs₁]
      have hp := point_set_self hpoints hix
      have hsame : SameWaiting s s₁ := .of_set hix hpoints rfl
      have hkept : ∀ j, (s₁.point j).hint = (s.point j).hint ∧
          (s₁.point j).recoveryTried = (s.point j).recoveryTried := by
        intro j
        by_cases hj : j = ix
        · rw [hj, hp]
          exact ⟨hhint.symm, rfl⟩
        · rw [point_set_ne hpoints hj]
          exact ⟨rfl, rfl⟩
      obtain ⟨hresolved, hstuck⟩ := ih (s := s₁) (by rwa [hsame.1]) (by rwa [hsame.2])
        (by rw [(hkept ix).1, hhint]) (by rw [(hkept ix).2, htried])
      have hrest : (∀ s', tryCandidates c ix r s₁ rest = .resolved s' → Settles c s s') ∧
          ∀ s', tryCandidates c ix r s₁ rest = .stuck s' → Aids c s s' ∧ SameWaiting s s' ∧
            ∀ j, (s'.point j).hint = (s.point j).hint ∧
              (s'.point j).recoveryTried = (s.point j).recoveryTried := by
        refine ⟨fun s' h => (hresolved s' h).before (.single hix haid), fun s' h => ?_⟩
        obtain ⟨haids, hwait, hsteady⟩ := hstuck s' h
        exact ⟨(Aids.single hix haid).trans haids, hsame.trans hwait, fun j =>
          ⟨(hsteady j).1.trans (hkept j).1, (hsteady j).2.trans (hkept j).2⟩⟩
      cases e with
      | endless => exact ⟨fun s' h => (nomatch h), fun s' h => (nomatch h)⟩
      | parked r' f =>
        dsimp only
        rw [update_set hix, hs₁]
        exact hrest
      | failed f =>
        dsimp only
        rw [update_set hix, hs₁]
        exact hrest
    · rw [hanalyze]
      dsimp only
      rw [update_set hix]
      refine ⟨fun s' h => ?_, fun s' h => (nomatch h)⟩
      injection h with h
      rw [← h]
      refine ⟨s, _, ix, _, .refl, hix,
        .helped hparked hhint htried heffect hmemo rfl hlearned, ?_, .refl⟩
      rw [point_set_self (s := s) rfl hix]

theorem recoverFrom_inv {c : MethodContext} {s : Session} (waiting : List Nat)
    (hwaiting : ∀ ix ∈ waiting, ix < s.points.length)
    (hhints : ∀ ix, (s.point ix).hint.isSome → (s.point ix).recoveryTried = true) :
    (∀ s', recoverFrom c s waiting = .resolved s' → Settles c s s') ∧
    ∀ s', recoverFrom c s waiting = .stuck s' → Aids c s s' ∧ SameWaiting s s' := by
  induction waiting generalizing s with
  | nil =>
    refine ⟨fun s' h => (nomatch h), fun s' h => ?_⟩
    cases h
    exact ⟨.refl, rfl, fun _ => rfl⟩
  | cons ix rest ih =>
    obtain ⟨hix, hrest⟩ := List.forall_mem_cons.1 hwaiting
    unfold recoverFrom
    split
    · exact ih hrest hhints
    · rename_i parked hparked
      split
      · exact ih hrest hhints
      · rename_i htried
        have htried : (s.point ix).recoveryTried = false := by simpa using htried
        -- hints come from recovery alone, and this one has not begun
        have hhint : (s.point ix).hint = none := by
          cases hsome : (s.point ix).hint with
          | none => rfl
          | some t => exact absurd (hhints ix (by rw [hsome]; rfl)) (by simp [htried])
        have hisSome : (s.point ix).parked.isSome := by rw [hparked]; rfl
        have haid : Aid c ix s _ [] := Aid.tried hisSome htried
        dsimp only
        rw [update_eq _ _ hix]
        generalize hs₁ : ({ s with points := s.points.set ix { s.point ix with
          recoveryTried := true } } : Session) = s₁ at haid ⊢
        have hpoints : s₁.points = s.points.set ix { s.point ix with recoveryTried := true } := by
          rw [← hs₁]
        have hp := point_set_self hpoints hix
        have hsame : SameWaiting s s₁ := .of_set hix hpoints rfl
        have hhints₁ : ∀ j, (s₁.point j).hint.isSome → (s₁.point j).recoveryTried = true := by
          intro j
          by_cases hj : j = ix
          · rw [hj, hp]
            exact fun _ => rfl
          · rw [point_set_ne hpoints hj]
            exact hhints j
        obtain ⟨hresolved, hstuck⟩ := tryCandidates_inv (c := c) (s := s₁) (r := parked.register)
          (Recovery.candidates c.code s₁.currents ix (c.graph.address ix) parked.register)
          (by rwa [hsame.1]) (by rwa [hsame.2]) (by rw [hp]; exact hhint)
          (by rw [hp])
        split
        · rename_i s₂ htry
          obtain ⟨haids, hwait, hkept⟩ := hstuck s₂ htry
          obtain ⟨hresolved', hstuck'⟩ := ih (s := s₂)
            (fun j hj => by rw [hwait.1, hsame.1]; exact hrest j hj)
            (fun j => by rw [(hkept j).1, (hkept j).2]; exact hhints₁ j)
          have hbefore : Aids c s s₂ := (Aids.single hix haid).trans haids
          refine ⟨fun s' h => (hresolved' s' h).before hbefore, fun s' h => ?_⟩
          obtain ⟨haids', hwait'⟩ := hstuck' s' h
          exact ⟨hbefore.trans haids', (hsame.trans hwait).trans hwait'⟩
        · rename_i hnot
          refine ⟨fun s' h => ?_, fun s' h => absurd h (hnot s')⟩
          exact (hresolved s' h).before (.single hix haid)

theorem giveUpFrom_inv {c : MethodContext} {s s' : Session} {waiting : List Nat}
    (hwaiting : ∀ ix ∈ waiting, ix < s.points.length)
    (h : giveUpFrom c s waiting = .running s') :
    Aids c s s' ∧
      ∀ ix rest, waiting = ix :: rest → (s.point ix).parked.isSome → Settles c s s' := by
  induction waiting generalizing s with
  | nil =>
    cases h
    exact ⟨.refl, fun _ _ h => nomatch h⟩
  | cons ix rest ih =>
    obtain ⟨hix, hrest⟩ := List.forall_mem_cons.1 hwaiting
    unfold giveUpFrom at h
    split at h
    · rename_i hparked
      refine ⟨(ih hrest h).1, fun j _ hj hsome => ?_⟩
      cases hj
      rw [hparked] at hsome
      cases hsome
    · cases h
    · rename_i r hparked
      dsimp only at h
      generalize hnote : (⟨c.graph.address ix, .unresolvable, r, none,
        (s.point ix).given.text⟩ : Note) = note at h
      rw [update_eq ⟨s.points, s.queue, s.notes ++ [note], s.memo⟩ _ hix,
        propagate_exceptional] at h
      have haid : Aid c ix s _ _ := @Aid.gaveUp c ix s r note hparked (by rw [← hnote])
      have hlen : ∀ j ∈ rest, j < ((c.graph.handlers ix).foldl (updatePre c)
          ⟨s.points.set ix { s.point ix with
            parked := none, throwing := some r, analyzed := false }, s.queue,
            s.notes ++ [note], s.memo⟩).points.length := by
        intro j hj
        rw [length_foldl_updatePre, List.length_set]
        exact hrest j hj
      -- the first that waits settles; what becomes of the rest does not matter
      have hafter := (ih hlen h).1
      have hsettles : Settles c s s' :=
        ⟨s, _, ix, _, .refl, hix, haid, by rw [point_set_self (s := s) rfl hix], hafter⟩
      exact ⟨hsettles.aids, fun _ _ _ _ => hsettles⟩

/-! ## Steps and runs -/

theorem mem_waiting {s : Session} {ix : Nat} :
    ix ∈ s.waiting ↔ ix < s.points.length ∧ (s.point ix).parked.isSome := by
  simp [waiting]

/-- A step that goes on is one visit, or a series of aids that ends someone's
    waiting. -/
theorem step_inv {c : MethodContext} {s s' : Session}
    (hrange : ∀ ix ∈ s.queue, ix < s.points.length)
    (hhints : ∀ ix, (s.point ix).hint.isSome → (s.point ix).recoveryTried = true)
    (h : step c s = .running s') :
    (∃ ix s₁ ts, ix < s.points.length ∧ Visit c ix s s₁ ts ∧ s' = ts.foldl (updatePre c) s₁) ∨
      (s.queue = [] ∧ Settles c s s') := by
  unfold step at h
  split at h
  · rename_i ix queue hqueue
    have hix := hrange ix (by rw [hqueue]; exact List.mem_cons_self)
    obtain ⟨s₁, ts, hvisit, hs'⟩ := visit_inv hqueue hix h
    exact .inl ⟨ix, s₁, ts, hix, hvisit, hs'⟩
  · rename_i hqueue
    split at h
    · cases h
    · rename_i hwaiting
      obtain ⟨hresolved, hstuck⟩ := recoverFrom_inv (c := c) s.waiting
        (fun ix hix => (mem_waiting.1 hix).1) hhints
      refine .inr ⟨hqueue, ?_⟩
      split at h
      · rename_i s₁ hrecover
        cases h
        exact hresolved _ hrecover
      · rename_i s₁ hrecover
        obtain ⟨haids, hwait⟩ := hstuck s₁ hrecover
        obtain ⟨-, hsettles⟩ := giveUpFrom_inv
          (fun ix hix => by rw [hwait.1]; exact (mem_waiting.1 hix).1) h
        -- no recovery helped, so all wait as before, and somebody does
        cases hw : s.waiting with
        | nil => exact absurd hw hwaiting
        | cons ix rest =>
          have hix : ix ∈ s.waiting := by rw [hw]; exact List.mem_cons_self
          refine Settles.before haids (hsettles ix rest hw ?_)
          rw [hwait.2]
          exact (mem_waiting.1 hix).2
      · cases h

/-- `s` is the session after `count` steps that went on. -/
inductive Steps (c : MethodContext) (s₀ : Session) : Nat → Session → Prop where
  | start : Steps c s₀ 0 s₀
  | next {count : Nat} {s s' : Session} (h : Steps c s₀ count s)
      (hstep : step c s = .running s') : Steps c s₀ (count + 1) s'

theorem Steps.head {c : MethodContext} {s₀ s₁ s : Session} {count : Nat}
    (hstep : step c s₀ = .running s₁) (h : Steps c s₁ count s) : Steps c s₀ (count + 1) s := by
  induction h with
  | start => exact .next .start hstep
  | next _ hlast ih => exact .next ih hlast

theorem visit_ended {c : MethodContext} {s s' : Session} {ix : Nat} {e : Ending}
    (h : visit c s ix = .ended e s') : (∃ f, e = .failed f) ∨ e = .endless := by
  unfold visit at h
  dsimp only at h
  split at h
  · cases h
  · split at h
    · cases h
    · cases h
    · cases h
      exact .inl ⟨_, rfl⟩
    · cases h
      exact .inr rfl

theorem giveUpFrom_ended {c : MethodContext} {s s' : Session} {waiting : List Nat} {e : Ending}
    (h : giveUpFrom c s waiting = .ended e s') : ∃ f, e = .failed f := by
  induction waiting generalizing s with
  | nil => cases h
  | cons ix rest ih =>
    unfold giveUpFrom at h
    split at h
    · exact ih h
    · cases h
      exact ⟨_, rfl⟩
    · exact ih h

/-- A session ends well only when nothing is queued and nobody waits. -/
theorem step_ended {c : MethodContext} {s s' : Session} {e : Ending}
    (h : step c s = .ended e s') :
    (e = .finished ∧ s' = s ∧ s.queue = [] ∧ s.waiting = []) ∨ (∃ f, e = .failed f) ∨
      e = .endless := by
  unfold step at h
  split at h
  · exact .inr (visit_ended h)
  · rename_i hqueue
    split at h
    · rename_i hwaiting
      cases h
      exact .inl ⟨rfl, rfl, hqueue, hwaiting⟩
    · split at h
      · cases h
      · exact .inr (.inl (giveUpFrom_ended h))
      · cases h
        exact .inr (.inr rfl)

theorem step_finished {c : MethodContext} {s s' : Session} (h : step c s = .ended .finished s') :
    s' = s ∧ s.queue = [] ∧ ∀ ix < s.points.length, (s.point ix).parked = none := by
  rcases step_ended h with ⟨-, hs, hqueue, hwaiting⟩ | ⟨f, hf⟩ | hf
  · refine ⟨hs, hqueue, fun ix hix => ?_⟩
    have hnot : ix ∉ s.waiting := by rw [hwaiting]; exact List.not_mem_nil
    simpa [mem_waiting, hix] using hnot
  · cases hf
  · cases hf

theorem Steps.run_add {c : MethodContext} {s₀ s : Session} {count : Nat}
    (h : Steps c s₀ count s) (n : Nat) : run c (count + n) s₀ = run c n s := by
  induction h generalizing n with
  | start => rw [Nat.zero_add]
  | @next k t t' _ hstep ih =>
    rw [show k + 1 + n = k + (n + 1) by omega, ih, run, hstep]

theorem run_unfinished_iff {c : MethodContext} {s₀ s : Session} {count : Nat} :
    run c count s₀ = (.unfinished, s) ↔ Steps c s₀ count s := by
  constructor
  · intro h
    induction count generalizing s₀ with
    | zero =>
      cases h
      exact .start
    | succ count ih =>
      unfold run at h
      split at h
      · rename_i s₁ hstep
        exact .head hstep (ih h)
      · rename_i hstep
        cases h
        rcases step_ended hstep with ⟨hf, -⟩ | ⟨f, hf⟩ | hf <;> cases hf
  · intro h
    exact h.run_add 0

/-- A run that ends made steps that went on, and one that ended. -/
theorem run_inv {c : MethodContext} {s₀ s : Session} {count : Nat} {e : Ending}
    (h : run c count s₀ = (e, s)) (he : e ≠ .unfinished) :
    ∃ k t, k < count ∧ Steps c s₀ k t ∧ step c t = .ended e s := by
  induction count generalizing s₀ with
  | zero =>
    cases h
    exact absurd rfl he
  | succ count ih =>
    unfold run at h
    split at h
    · rename_i s₁ hstep
      obtain ⟨k, t, hk, hsteps, hend⟩ := ih h
      exact ⟨k + 1, t, by omega, .head hstep hsteps, hend⟩
    · rename_i hstep
      cases h
      exact ⟨0, s₀, by omega, .start, hstep⟩

/-- More steps change nothing about a run that ended. -/
theorem run_of_le {c : MethodContext} {s₀ s : Session} {count more : Nat} {e : Ending}
    (h : run c count s₀ = (e, s)) (he : e ≠ .unfinished) (hle : count ≤ more) :
    run c more s₀ = (e, s) := by
  obtain ⟨k, t, hk, hsteps, hend⟩ := run_inv h he
  obtain ⟨rest, rfl⟩ : ∃ rest, more = k + (rest + 1) := ⟨more - k - 1, by omega⟩
  rw [hsteps.run_add, run, hend]

/-- The later of two sessions of a run comes from the earlier one. -/
theorem Steps.between {c : MethodContext} {s₀ s t : Session} {k count : Nat}
    (h : Steps c s₀ count s) (ht : Steps c s₀ k t) (hk : k ≤ count) : Steps c t (count - k) s := by
  have hrun := ht.run_add (count - k)
  rw [Nat.add_sub_cancel' hk, run_unfinished_iff.2 h] at hrun
  exact run_unfinished_iff.1 hrun.symm

/-- A run has no sessions after it ended. -/
theorem lt_of_unfinished {c : MethodContext} {s₀ s t : Session} {k count : Nat} {e : Ending}
    (h : run c count s₀ = (e, s)) (he : e ≠ .unfinished)
    (ht : run c k s₀ = (.unfinished, t)) : k < count := by
  obtain ⟨j, u, hj, hsteps, hend⟩ := run_inv h he
  by_contra hk
  have hrest := (run_unfinished_iff.1 ht).between hsteps (by omega)
  rw [show k - j = k - j - 1 + 1 by omega, ← run_unfinished_iff, run, hend] at hrest
  injection hrest with hrest
  exact he hrest

end SymbolicDex.Session
