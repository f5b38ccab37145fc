import SymbolicDex.Proofs.Analysis.Moves

/- What holds of a session at every step. Most of it is about single
   instructions: a property of an instruction that survives what happens
   elsewhere (`Stable`) needs to be checked only where the instruction itself is
   visited or helped.

   What is proved:
     1. `PointOk.visit`, `PointOk.aid`: what is kept about an instruction is kept
        by every move.
     2. `Steps.sound`: so it holds after any number of steps.
     3. `Steps.everywhere`: and so does any other stable property that moves at
        the instruction keep. -/
namespace SymbolicDex.Session

/-! ## Properties of single instructions -/

/-- What a session knows about one instruction. -/
structure Status where
  point : Point
  -- all that matters of the queue
  queued : Prop
  notes : List Note
  memo : Memo

def status (s : Session) (ix : Nat) : Status := ⟨s.point ix, ix ∈ s.queue, s.notes, s.memo⟩

@[simp] theorem status_point (s : Session) (ix : Nat) : (s.status ix).point = s.point ix := rfl

@[simp] theorem status_queued (s : Session) (ix : Nat) :
    (s.status ix).queued = (ix ∈ s.queue) := rfl

theorem status_set {s : Session} {ix : Nat} (hix : ix < s.points.length) (p : Point)
    (queue : List Nat) (notes : List Note) (memo : Memo) :
    (⟨s.points.set ix p, queue, notes, memo⟩ : Session).status ix =
      ⟨p, ix ∈ queue, notes, memo⟩ := by
  unfold status
  rw [point_set_self (s := s) rfl hix]

/-- A property of an instruction that stays while notes and memo grow, and when
    the instruction gets a new state before it and is queued. -/
structure Stable (c : MethodContext) (P : Nat → Status → Prop) : Prop where
  grows : ∀ {ix st notes memo}, P ix st → st.notes <+: notes → st.memo.Grows memo →
    P ix { st with notes := notes, memo := memo }
  refreshed : ∀ {ix st pre}, P ix st → pre.length = (startOf c ix).length →
    P ix { st with point := { st.point with pre := pre, reached := true }, queued := True }

theorem Stable.and {c : MethodContext} {P Q : Nat → Status → Prop} (hP : Stable c P)
    (hQ : Stable c Q) : Stable c fun ix st => P ix st ∧ Q ix st where
  grows h hnotes hmemo := ⟨hP.grows h.1 hnotes hmemo, hQ.grows h.2 hnotes hmemo⟩
  refreshed h hpre := ⟨hP.refreshed h.1 hpre, hQ.refreshed h.2 hpre⟩

def Everywhere (P : Nat → Status → Prop) (s : Session) : Prop :=
  ∀ ix < s.points.length, P ix (s.status ix)

/-- `s₁` knows something else than `s` about `ix` alone. -/
structure LocalChange (s s₁ : Session) (ix : Nat) : Prop where
  points : ∃ p, s₁.points = s.points.set ix p
  queue : s₁.queue.Sublist s.queue
  others : ∀ j, j ≠ ix → j ∈ s.queue → j ∈ s₁.queue
  notes : s.notes <+: s₁.notes
  memo : s.memo.Grows s₁.memo

theorem LocalChange.length {s s₁ : Session} {ix : Nat} (h : LocalChange s s₁ ix) :
    s₁.points.length = s.points.length := by
  obtain ⟨p, hp⟩ := h.points
  rw [hp, List.length_set]

theorem Visit.localChange {c : MethodContext} {s s₁ : Session} {ix : Nat} {ts : List Nat}
    (h : Visit c ix s s₁ ts) : LocalChange s s₁ ix := by
  have hothers {queue : List Nat} (hqueue : s.queue = ix :: queue) :
      ∀ j, j ≠ ix → j ∈ s.queue → j ∈ queue := by
    intro j hj hmem
    rw [hqueue] at hmem
    exact (List.mem_cons.1 hmem).resolve_left hj
  have hgrows := (site c s.points ix (s.point ix)).transfer_grows s.memo
  cases h with
  | passed hqueue =>
    exact ⟨⟨_, rfl⟩, hqueue ▸ List.sublist_cons_self _ _, hothers hqueue,
      List.prefix_rfl, Memo.Grows.refl _⟩
  | analyzed hqueue _ _ hmemo =>
    exact ⟨⟨_, rfl⟩, hqueue ▸ List.sublist_cons_self _ _, hothers hqueue,
      List.prefix_rfl, hgrows.trans hmemo⟩
  | parked hqueue =>
    exact ⟨⟨_, rfl⟩, hqueue ▸ List.sublist_cons_self _ _, hothers hqueue, List.prefix_rfl, hgrows⟩

theorem Aid.localChange {c : MethodContext} {s s₁ : Session} {ix : Nat} {ts : List Nat}
    (h : Aid c ix s s₁ ts) : LocalChange s s₁ ix := by
  cases h with
  | tried =>
    exact ⟨⟨_, rfl⟩, List.Sublist.refl _, fun _ _ h => h, List.prefix_rfl, Memo.Grows.refl _⟩
  | unhelped =>
    exact ⟨⟨_, rfl⟩, List.Sublist.refl _, fun _ _ h => h, List.prefix_rfl,
      Site.transfer_grows _ _⟩
  | helped _ _ _ _ hmemo =>
    exact ⟨⟨_, rfl⟩, List.Sublist.refl _, fun _ _ h => h, List.prefix_append _ _,
      (Site.transfer_grows _ _).trans hmemo⟩
  | gaveUp =>
    exact ⟨⟨_, rfl⟩, List.Sublist.refl _, fun _ _ h => h, List.prefix_append _ _,
      Memo.Grows.refl _⟩

namespace Everywhere

variable {c : MethodContext} {P : Nat → Status → Prop}

theorem localChange (hP : Stable c P) {s s₁ : Session} {ix : Nat} (h : Everywhere P s)
    (hchange : LocalChange s s₁ ix) (hix : P ix (s₁.status ix)) : Everywhere P s₁ := by
  intro j hj
  by_cases hjix : j = ix
  · rw [hjix]
    exact hix
  · obtain ⟨p, hp⟩ := hchange.points
    -- elsewhere only notes and memo have grown
    have hkept := hP.grows (h j (hchange.length ▸ hj)) hchange.notes hchange.memo
    have hqueued : (j ∈ s₁.queue) = (j ∈ s.queue) :=
      propext ⟨fun hmem => hchange.queue.subset hmem, hchange.others j hjix⟩
    unfold status
    rw [point_set_ne hp hjix, hqueued]
    exact hkept

theorem refresh (hP : Stable c P) {s : Session} (h : Everywhere P s) {t : Nat}
    (ht : t < s.points.length) : Everywhere P (updatePre c s t) := by
  intro j hj
  rw [length_updatePre] at hj
  have hkept := hP.grows (h j hj) List.prefix_rfl (mergeMemo_grows c s t)
  rcases updatePre_cases c ht with ⟨-, -, hs⟩ | hs
  · rw [hs]
    exact hkept
  · rw [hs]
    unfold status
    dsimp only
    by_cases hjt : j = t
    · subst hjt
      rw [point_set_self (s := s) rfl hj, eq_true (mem_enqueue.2 (.inr rfl))]
      exact hP.refreshed hkept (mergedPre_length c s.points j s.memo)
    · have hqueued : (j ∈ (s.enqueue t).queue) = (j ∈ s.queue) :=
        propext (mem_enqueue.trans (or_iff_left hjt))
      rw [point_set_ne (s := s) rfl hjt, hqueued]
      exact hkept

end Everywhere

theorem Everywhere.foldl {c : MethodContext} {P : Nat → Status → Prop} (hP : Stable c P)
    {s : Session} (h : Everywhere P s) {ts : List Nat} (hts : ∀ t ∈ ts, t < s.points.length) :
    Everywhere P (ts.foldl (updatePre c) s) := by
  induction ts generalizing s with
  | nil => exact h
  | cons t ts ih =>
    obtain ⟨ht, hts⟩ := List.forall_mem_cons.1 hts
    exact ih (h.refresh hP ht) fun t' ht' => by rw [length_updatePre]; exact hts t' ht'

/-! ## What is kept about an instruction -/

/-- What holds of the instruction `ix` at every step. -/
structure PointOk (c : MethodContext) (ix : Nat) (st : Status) : Prop where
  given : c.code.instructions[ix]? = some st.point.given
  /-- Before the first visit only the state before it may be known. -/
  fresh : st.point.visits = 0 →
    st.point = { Point.ofInstruction c.code.registers st.point.given with
      pre := st.point.pre, reached := st.point.reached }
  unreached : st.point.reached = false →
    st.point = Point.ofInstruction c.code.registers st.point.given
  width : st.point.reached = true → st.point.pre.length = (startOf c ix).length
  queued : st.queued → st.point.reached = true
  /-- What was reached and is not queued is settled one way or the other. -/
  settled : st.point.reached = true → ¬st.queued →
    st.point.analyzed = true ∨ st.point.parked.isSome ∨ st.point.throwing.isSome
  parked : st.point.parked.isSome → st.point.analyzed = false ∧ st.point.throwing = none
  waits : st.point.parked.isSome →
    st.point.current.opcode.odexForm.NeedsObject ∨ st.point.current.Plain
  throwing : st.point.throwing.isSome → st.point.analyzed = false
  plain : st.point.analyzed = true → st.point.current.Plain
  visited : st.point.visits ≠ 0 → st.point.current.opcode.odexForm ≠ .inlineCall
  /-- A read of an array element waits with a failure. -/
  element : ∀ r f, st.point.parked = some ⟨r, f⟩ → st.point.current.ReadsElement → f.isSome
  hinted : st.point.hint.isSome → st.point.recoveryTried = true
  noted : st.point.hint.isSome ∨ st.point.throwing.isSome →
    ∃ n ∈ st.notes, n.address = c.graph.address ix

namespace PointOk

variable {c : MethodContext} {ix : Nat}

theorem initial {i : Instruction} (h : c.code.instructions[ix]? = some i) (memo : Memo) :
    PointOk c ix ⟨Point.ofInstruction c.code.registers i, False, [], memo⟩ := by
  constructor <;> simp [Point.ofInstruction, h]

theorem stable (c : MethodContext) : Stable c (PointOk c) where
  grows h hnotes _ :=
    { h with
      noted := fun hsome =>
        let ⟨n, hn, haddress⟩ := h.noted hsome
        ⟨n, hnotes.subset hn, haddress⟩ }
  refreshed := by
    intro ix st pre h hpre
    exact
      { h with
        fresh := fun hvisits => congrArg
          (fun p => ({ p with pre := pre, reached := true } : Point)) (h.fresh hvisits)
        unreached := fun hreached => nomatch hreached
        width := fun _ => hpre
        queued := fun _ => rfl
        settled := fun _ hqueued => absurd trivial hqueued }

/-- What waits or can only throw was visited. -/
theorem visits_ne_zero {st : Status} (h : PointOk c ix st)
    (hsome : st.point.parked.isSome ∨ st.point.throwing.isSome) : st.point.visits ≠ 0 := by
  intro hzero
  rw [h.fresh hzero] at hsome
  rcases hsome with hsome | hsome <;> cases hsome

theorem reached_of_visits {st : Status} (h : PointOk c ix st) (hvisits : st.point.visits ≠ 0) :
    st.point.reached = true := by
  cases hreached : st.point.reached with
  | true => rfl
  | false =>
    rw [h.unreached hreached] at hvisits
    exact absurd rfl hvisits

theorem visit {s s₁ : Session} {ts : List Nat} (h : PointOk c ix (s.status ix))
    (hix : ix < s.points.length) (hvisit : Visit c ix s s₁ ts) : PointOk c ix (s₁.status ix) := by
  have hreached {queue : List Nat} (hqueue : s.queue = ix :: queue) :
      (s.point ix).reached = true := by
    refine h.queued ?_
    change ix ∈ s.queue
    rw [hqueue]
    exact List.mem_cons_self
  cases hvisit with
  | @passed queue hqueue hthrowing =>
    rw [status_set hix]
    have hvisits : (s.point ix).visits ≠ 0 := h.visits_ne_zero (.inr hthrowing)
    exact
      { given := h.given
        fresh := fun hzero => nomatch hzero
        unreached := fun hfalse => nomatch (hreached hqueue).symm.trans hfalse
        width := h.width
        queued := fun _ => hreached hqueue
        settled := fun _ _ => .inr (.inr hthrowing)
        parked := h.parked
        waits := h.waits
        throwing := h.throwing
        plain := h.plain
        visited := fun _ => h.visited hvisits
        element := h.element
        hinted := h.hinted
        noted := h.noted }
  | @analyzed queue cur post narrowing memo hqueue hthrowing heffect hmemo =>
    rw [status_set hix]
    obtain ⟨hplain, -, -, -⟩ := Site.transfer_ok _ heffect
    have hnone : ¬(s.point ix).throwing.isSome = true := by simp [hthrowing]
    exact
      { given := h.given
        fresh := fun hzero => nomatch hzero
        unreached := fun hfalse => nomatch (hreached hqueue).symm.trans hfalse
        width := h.width
        queued := fun _ => hreached hqueue
        settled := fun _ _ => .inl rfl
        parked := fun hparked => nomatch hparked
        waits := fun hparked => nomatch hparked
        throwing := fun hsome => absurd hsome hnone
        plain := fun _ => hplain
        visited := fun _ hinline => nomatch hplain.symm.trans hinline
        element := fun _ _ hparked => nomatch hparked
        hinted := h.hinted
        noted := h.noted }
  | @parked queue cur r f hqueue hthrowing heffect =>
    rw [status_set hix]
    have hnone : ¬(s.point ix).throwing.isSome = true := by simp [hthrowing]
    have hcur : cur.opcode.odexForm ≠ .inlineCall ∧ (cur.ReadsElement → f.isSome) ∧
        (cur.opcode.odexForm.NeedsObject ∨ cur.Plain) := by
      -- it waits in the form it had, or it was restored and its effect waits
      rcases Site.transfer_error _ heffect with ⟨hcur, hneeds⟩ | ⟨hplain, -, -, -, -, hreads⟩
      · have hobject := hneeds r f rfl
        rw [← hcur] at hobject
        refine ⟨fun hinline => ?_, fun hreads => absurd hobject hreads.plain.not_needsObject,
          .inl hobject⟩
        rw [hinline] at hobject
        rcases hobject with hform | hform <;> cases hform
      · exact ⟨fun hinline => (nomatch hplain.symm.trans hinline), fun _ => (hreads r f rfl).2,
          .inr hplain⟩
    exact
      { given := h.given
        fresh := fun hzero => nomatch hzero
        unreached := fun hfalse => nomatch (hreached hqueue).symm.trans hfalse
        width := h.width
        queued := fun _ => hreached hqueue
        settled := fun _ _ => .inr (.inl rfl)
        parked := fun _ => ⟨rfl, hthrowing⟩
        waits := fun _ => hcur.2.2
        throwing := fun hsome => absurd hsome hnone
        plain := fun hfalse => nomatch hfalse
        visited := fun _ => hcur.1
        element := fun r' f' hparked hreads => by
          cases hparked
          exact hcur.2.1 hreads
        hinted := h.hinted
        noted := h.noted }

theorem aid {s s₁ : Session} {ts : List Nat} (h : PointOk c ix (s.status ix))
    (hix : ix < s.points.length) (haid : Aid c ix s s₁ ts) : PointOk c ix (s₁.status ix) := by
  cases haid with
  | tried hparked htried =>
    rw [status_set hix]
    exact
      { h with
        fresh := fun hzero => absurd hzero (h.visits_ne_zero (.inl hparked))
        unreached := fun hfalse => nomatch
          (h.reached_of_visits (h.visits_ne_zero (.inl hparked))).symm.trans hfalse
        hinted := fun _ => rfl }
  | @unhelped t cur e hparked hhint heffect =>
    rw [status_set hix]
    have hvisits := h.visits_ne_zero (.inl hparked)
    have hanalyzed : (s.point ix).analyzed = false := (h.parked hparked).1
    have hcur : cur.opcode.odexForm ≠ .inlineCall ∧
        (cur.ReadsElement → (s.point ix).current.ReadsElement) ∧
        (cur.opcode.odexForm.NeedsObject ∨ cur.Plain) := by
      rcases Site.transfer_error _ heffect with ⟨hcur, -⟩ | ⟨hplain, hsame, -, -, hfield, -⟩
      · rw [hcur]
        exact ⟨h.visited hvisits, id, h.waits hparked⟩
      · refine ⟨fun hinline => (nomatch hplain.symm.trans hinline), fun hreads => ?_,
          .inr hplain⟩
        -- restoring an access through an object makes no read of an element
        rcases h.waits hparked with hneeds | hcurrent
        · rcases hfield hneeds with heffect | heffect
          · exact absurd heffect hreads.effect.1
          · exact absurd heffect hreads.effect.2.1
        · have hcur : cur = (s.point ix).current := hsame hcurrent
          rw [← hcur]
          exact hreads
    exact
      { h with
        fresh := fun hzero => absurd hzero hvisits
        unreached := fun hfalse => nomatch (h.reached_of_visits hvisits).symm.trans hfalse
        plain := fun htrue => nomatch hanalyzed.symm.trans htrue
        waits := fun _ => hcur.2.2
        visited := fun _ => hcur.1
        element := fun r f hparked hreads => h.element r f hparked (hcur.2.1 hreads)
        hinted := fun hsome => nomatch hsome
        noted := fun hsome => h.noted (.inr (hsome.resolve_left (fun hsome => nomatch hsome))) }
  | @helped t cur post narrowing memo note hparked hhint htried heffect hmemo hnote =>
    rw [status_set hix]
    have hvisits := h.visits_ne_zero (.inl hparked)
    obtain ⟨hplain, -, -, -⟩ := Site.transfer_ok _ heffect
    have hthrowing : ¬(s.point ix).throwing.isSome = true := by
      have hnone : (s.point ix).throwing = none := (h.parked hparked).2
      simp [hnone]
    exact
      { given := h.given
        fresh := fun hzero => absurd hzero hvisits
        unreached := fun hfalse => nomatch (h.reached_of_visits hvisits).symm.trans hfalse
        width := h.width
        queued := h.queued
        settled := fun _ _ => .inl rfl
        parked := fun hparked => nomatch hparked
        waits := fun hparked => nomatch hparked
        throwing := fun hsome => absurd hsome hthrowing
        plain := fun _ => hplain
        visited := fun _ hinline => nomatch hplain.symm.trans hinline
        element := fun _ _ hparked => nomatch hparked
        hinted := fun _ => htried
        noted := fun _ => ⟨note, List.mem_append_right _ List.mem_cons_self, hnote⟩ }
  | @gaveUp r note hparked hnote =>
    rw [status_set hix]
    have hsome : (s.point ix).parked.isSome := by rw [hparked]; rfl
    have hvisits := h.visits_ne_zero (.inl hsome)
    exact
      { given := h.given
        fresh := fun hzero => absurd hzero hvisits
        unreached := fun hfalse => nomatch (h.reached_of_visits hvisits).symm.trans hfalse
        width := h.width
        queued := h.queued
        settled := fun _ _ => .inr (.inr rfl)
        parked := fun hparked => nomatch hparked
        waits := fun hparked => nomatch hparked
        throwing := fun _ => rfl
        plain := fun hfalse => nomatch hfalse
        visited := fun _ => h.visited hvisits
        element := fun _ _ hparked => nomatch hparked
        hinted := h.hinted
        noted := fun _ => ⟨note, List.mem_append_right _ List.mem_cons_self, hnote⟩ }

end PointOk

/-! ## Sessions -/

/-- What holds of a session at every step. -/
structure Sound (c : MethodContext) (memo : Memo) (s : Session) : Prop where
  length : s.points.length = c.code.instructions.length
  range : ∀ ix ∈ s.queue, ix < s.points.length
  nodup : s.queue.Nodup
  grown : memo.Grows s.memo
  points : Everywhere (PointOk c) s

namespace Sound

variable {c : MethodContext} {memo : Memo} {s s₁ : Session} {ix : Nat} {ts : List Nat}

theorem hints (h : Sound c memo s) (ix : Nat) (hsome : (s.point ix).hint.isSome) :
    (s.point ix).recoveryTried = true := by
  by_cases hix : ix < s.points.length
  · exact (h.points ix hix).hinted hsome
  · rw [point_of_le (Nat.le_of_not_lt hix)] at hsome
    cases hsome

theorem refresh (h : Sound c memo s) {t : Nat} (ht : t < s.points.length) :
    Sound c memo (updatePre c s t) := by
  have hlen := length_updatePre c s t
  refine ⟨hlen.trans h.length, ?_, ?_, ?_, h.points.refresh (PointOk.stable c) ht⟩
  · rw [hlen]
    rcases updatePre_cases c ht with ⟨-, -, hs⟩ | hs
    · rw [hs]
      exact h.range
    · rw [hs]
      intro j hj
      rcases mem_enqueue.1 hj with hj | rfl
      · exact h.range j hj
      · exact ht
  · rcases updatePre_cases c ht with ⟨-, -, hs⟩ | hs
    · rw [hs]
      exact h.nodup
    · rw [hs]
      exact nodup_enqueue h.nodup
  · rcases updatePre_cases c ht with ⟨-, -, hs⟩ | hs
    · rw [hs]
      exact h.grown.trans (mergeMemo_grows c s t)
    · rw [hs]
      exact h.grown.trans (mergeMemo_grows c s t)

theorem refreshAll (h : Sound c memo s) (hts : ∀ t ∈ ts, t < s.points.length) :
    Sound c memo (ts.foldl (updatePre c) s) := by
  induction ts generalizing s with
  | nil => exact h
  | cons t ts ih =>
    obtain ⟨ht, hts⟩ := List.forall_mem_cons.1 hts
    exact ih (h.refresh ht) fun t' ht' => by rw [length_updatePre]; exact hts t' ht'

theorem localChange (h : Sound c memo s) (hchange : LocalChange s s₁ ix)
    (hix : PointOk c ix (s₁.status ix)) : Sound c memo s₁ where
  length := hchange.length.trans h.length
  range j hj := by
    rw [hchange.length]
    exact h.range j (hchange.queue.subset hj)
  nodup := hchange.queue.nodup h.nodup
  grown := h.grown.trans hchange.memo
  points := h.points.localChange (PointOk.stable c) hchange hix

end Sound

/-- A move passes states on along the edges of its instruction. -/
theorem Visit.targets {c : MethodContext} {s s₁ : Session} {ix : Nat} {ts : List Nat}
    (h : Visit c ix s s₁ ts) : ∀ t ∈ ts, t ∈ c.graph.successors ix ++ c.graph.handlers ix := by
  intro t ht
  cases h with
  | passed => exact List.mem_append_right _ ht
  | analyzed => exact ht
  | parked => exact List.mem_append_right _ ht

theorem Aid.targets {c : MethodContext} {s s₁ : Session} {ix : Nat} {ts : List Nat}
    (h : Aid c ix s s₁ ts) : ∀ t ∈ ts, t ∈ c.graph.successors ix ++ c.graph.handlers ix := by
  intro t ht
  cases h with
  | tried => cases ht
  | unhelped => cases ht
  | helped => exact ht
  | gaveUp => exact List.mem_append_right _ ht

theorem Sound.target_lt {c : MethodContext} (hc : c.Built) {memo : Memo} {s : Session}
    (h : Sound c memo s) {ix t : Nat} (ht : t ∈ c.graph.successors ix ++ c.graph.handlers ix) :
    t < s.points.length := by
  rw [h.length]
  rcases List.mem_append.1 ht with ht | ht
  · exact FlowGraph.successors_lt hc.wellFormed ht
  · exact FlowGraph.handlers_lt hc.wellFormed ht

/-! ## Where a session starts -/

/-- Nothing is known yet. -/
def blank (c : MethodContext) (memo : Memo) : Session :=
  ⟨c.code.instructions.map (Point.ofInstruction c.code.registers), [], [], memo⟩

theorem initial_cases (c : MethodContext) (memo : Memo) :
    (c.code.instructions = [] ∧ initial c memo = blank c memo) ∨
      (0 < (blank c memo).points.length ∧ initial c memo = updatePre c (blank c memo) 0) := by
  unfold initial
  dsimp only
  split
  · rename_i h
    exact .inl ⟨List.isEmpty_iff.1 h, rfl⟩
  · rename_i h
    refine .inr ⟨?_, rfl⟩
    rw [List.isEmpty_iff] at h
    simpa [blank] using List.length_pos_iff.2 h

theorem Everywhere.blank {c : MethodContext} {memo : Memo} {P : Nat → Status → Prop}
    (h : ∀ ix i, c.code.instructions[ix]? = some i →
      P ix ⟨Point.ofInstruction c.code.registers i, False, [], memo⟩) :
    Everywhere P (blank c memo) := by
  intro ix hix
  have hlen : ix < c.code.instructions.length := by simpa [Session.blank] using hix
  have hinstruction := List.getElem?_eq_getElem hlen
  have hpoint : (Session.blank c memo).point ix =
      Point.ofInstruction c.code.registers (c.code.instructions.get ⟨ix, hlen⟩) := by
    refine (point_eq_of_getElem? ?_).1
    simp [Session.blank, hinstruction]
  unfold status
  rw [hpoint, show (ix ∈ (Session.blank c memo).queue) = False from eq_false List.not_mem_nil]
  exact h ix _ hinstruction

theorem Everywhere.initial {c : MethodContext} {memo : Memo} {P : Nat → Status → Prop}
    (hP : Stable c P)
    (h : ∀ ix i, c.code.instructions[ix]? = some i →
      P ix ⟨Point.ofInstruction c.code.registers i, False, [], memo⟩) :
    Everywhere P (initial c memo) := by
  rcases initial_cases c memo with ⟨-, hs⟩ | ⟨hlen, hs⟩
  · rw [hs]
    exact Everywhere.blank h
  · rw [hs]
    exact (Everywhere.blank h).refresh hP hlen

theorem Sound.blank (c : MethodContext) (memo : Memo) : Sound c memo (blank c memo) where
  length := by simp [Session.blank]
  range := fun _ h => nomatch h
  nodup := List.nodup_nil
  grown := Memo.Grows.refl memo
  points := Everywhere.blank fun _ _ h => PointOk.initial h memo

theorem Sound.initial (c : MethodContext) (memo : Memo) : Sound c memo (initial c memo) := by
  rcases initial_cases c memo with ⟨-, hs⟩ | ⟨hlen, hs⟩
  · rw [hs]
    exact Sound.blank c memo
  · rw [hs]
    exact (Sound.blank c memo).refresh hlen

/-! ## All steps -/

section

variable {c : MethodContext} {memo : Memo}

theorem Sound.visit (hc : c.Built) {s s₁ : Session} {ix : Nat} {ts : List Nat}
    (h : Sound c memo s) (hix : ix < s.points.length) (hvisit : Visit c ix s s₁ ts) :
    Sound c memo s₁ ∧ Sound c memo (ts.foldl (updatePre c) s₁) := by
  have hlocal := h.localChange hvisit.localChange ((h.points ix hix).visit hix hvisit)
  exact ⟨hlocal, hlocal.refreshAll fun t ht => hlocal.target_lt hc (hvisit.targets t ht)⟩

theorem Sound.aid (hc : c.Built) {s s₁ : Session} {ix : Nat} {ts : List Nat}
    (h : Sound c memo s) (hix : ix < s.points.length) (haid : Aid c ix s s₁ ts) :
    Sound c memo s₁ ∧ Sound c memo (ts.foldl (updatePre c) s₁) := by
  have hlocal := h.localChange haid.localChange ((h.points ix hix).aid hix haid)
  exact ⟨hlocal, hlocal.refreshAll fun t ht => hlocal.target_lt hc (haid.targets t ht)⟩

/-- What a series of aids keeps, from what one of them keeps. -/
theorem Aids.invariant (hc : c.Built) {Q : Session → Prop}
    (haid : ∀ {s s₁ ix ts}, Sound c memo s → ix < s.points.length → Q s → Aid c ix s s₁ ts →
      Q (ts.foldl (updatePre c) s₁))
    {s s' : Session} (h : Aids c s s') (hsound : Sound c memo s) (hQ : Q s) :
    Sound c memo s' ∧ Q s' := by
  induction h with
  | refl => exact ⟨hsound, hQ⟩
  | tail _ hix hone ih => exact ⟨(ih.1.aid hc hix hone).2, haid ih.1 hix ih.2 hone⟩

/-- What a run keeps, from what one move keeps. -/
theorem Steps.invariant (hc : c.Built) {Q : Session → Prop} (h₀ : Q (Session.initial c memo))
    (hvisit : ∀ {count s s₁ ix ts}, Steps c (Session.initial c memo) count s → Sound c memo s →
      ix < s.points.length → Q s → Visit c ix s s₁ ts → Q (ts.foldl (updatePre c) s₁))
    (haid : ∀ {s s₁ ix ts}, Sound c memo s → ix < s.points.length → Q s → Aid c ix s s₁ ts →
      Q (ts.foldl (updatePre c) s₁))
    {count : Nat} {s : Session} (h : Steps c (Session.initial c memo) count s) :
    Sound c memo s ∧ Q s := by
  induction h with
  | start => exact ⟨Sound.initial c memo, h₀⟩
  | next hsteps hstep ih =>
    obtain ⟨hsound, hQ⟩ := ih
    -- soundness is what `step_inv` asks for, so it goes along with `Q`
    rcases step_inv hsound.range hsound.hints hstep with ⟨ix, s₁, ts, hix, hone, rfl⟩ | ⟨-, haids⟩
    · exact ⟨(hsound.visit hc hix hone).2, hvisit hsteps hsound hix hQ hone⟩
    · exact haids.aids.invariant hc haid hsound hQ

theorem Steps.sound (hc : c.Built) {count : Nat} {s : Session}
    (h : Steps c (Session.initial c memo) count s) : Sound c memo s :=
  (h.invariant hc (Q := fun _ => True) trivial (fun _ _ _ _ _ => trivial)
    fun _ _ _ _ => trivial).1

/-- A stable property of instructions holds at every step, if moves at the
    instruction keep it. -/
theorem Steps.everywhere (hc : c.Built) {P : Nat → Status → Prop} (hP : Stable c P)
    (h₀ : ∀ ix i, c.code.instructions[ix]? = some i →
      P ix ⟨Point.ofInstruction c.code.registers i, False, [], memo⟩)
    (hvisit : ∀ {count s s₁ ix ts}, Steps c (Session.initial c memo) count s → Sound c memo s →
      ix < s.points.length → P ix (s.status ix) → Visit c ix s s₁ ts → P ix (s₁.status ix))
    (haid : ∀ {s s₁ ix ts}, Sound c memo s → ix < s.points.length → P ix (s.status ix) →
      Aid c ix s s₁ ts → P ix (s₁.status ix))
    {count : Nat} {s : Session} (h : Steps c (Session.initial c memo) count s) :
    Everywhere P s := by
  refine (h.invariant hc (Everywhere.initial hP h₀) ?_ ?_).2
  · intro count s s₁ ix ts hsteps hsound hix hall hone
    have hlocal := hall.localChange hP hone.localChange
      (hvisit hsteps hsound hix (hall ix hix) hone)
    refine hlocal.foldl hP fun t ht => ?_
    exact (hsound.visit hc hix hone).1.target_lt hc (hone.targets t ht)
  · intro s s₁ ix ts hsound hix hall hone
    have hlocal := hall.localChange hP hone.localChange (haid hsound hix (hall ix hix) hone)
    refine hlocal.foldl hP fun t ht => ?_
    exact (hsound.aid hc hix hone).1.target_lt hc (hone.targets t ht)

end

end SymbolicDex.Session
