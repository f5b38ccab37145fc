import SymbolicDex.Proofs.Analysis.CheckedBranches
import SymbolicDex.Proofs.Analysis.FlowEquations
import SymbolicDex.Proofs.Analysis.RegisterPairs
import SymbolicDex.Proofs.Analysis.WaitingForNull

/- Overrides of copies. A branch on a check looks for a move before the check and
   compares the states before the branch and before the check, of which the latter
   may be newer. That it comes to the branch all the same is due to the queue: the
   move is not visited again until the check is, so the state before the check
   stays.

   What is proved:
     1. `Informed.passes`: once a check was visited, the state before its branch is
        that before the check, but for the tested register.
     2. `CopyKept.visit`, `CopyKept.aid`: moves keep the move behind the check in
        the queue, and every overridden copy with the type of the checked register.
     3. `overrides_never_widen`: so in a finished analysis every override is the one
        of a checked branch, on the edge where the check succeeded, and takes no
        register for something wider than it was known to be. -/
namespace SymbolicDex

theorem ClassPath.keeps_idle (p : ClassPath) : p.Keeps fun m => m.busy = [] :=
  fun hq m hm => ⟨trivial, (hq.steady.grows m).idle hm⟩

/-! ## Where checked branches stand -/

namespace FlowGraph

/-- Control comes to an instruction with one predecessor from there alone. -/
theorem source_of_only {g : FlowGraph} {count q t j : Nat} (hg : g.WellFormed count)
    (honly : g.predecessors t = [⟨q, false⟩]) (ht : t ∈ g.successors j ++ g.handlers j) :
    j = q := by
  rcases List.mem_append.1 ht with ht | ht
  · have hmem := (mem_predecessors_normal hg).2 ht
    rw [honly] at hmem
    cases List.mem_singleton.1 hmem
    rfl
  · have hmem := (mem_predecessors_exceptional hg).2 ht
    rw [honly] at hmem
    cases List.mem_singleton.1 hmem

end FlowGraph

namespace CheckedBranch

variable {c : MethodContext} {ix : Nat} {b : CheckedBranch c ix}

theorem from_check (b : CheckedBranch c ix) (hc : c.Built) {j : Nat}
    (h : ix ∈ c.graph.successors j ++ c.graph.handlers j) : j = b.check :=
  FlowGraph.source_of_only hc.wellFormed b.only h

theorem Copy.from_move (k : b.Copy) (hc : c.Built) {j : Nat}
    (h : b.check ∈ c.graph.successors j ++ c.graph.handlers j) : j = k.move :=
  FlowGraph.source_of_only hc.wellFormed k.only h

/-- The branch stands right after the check. -/
theorem after_check (b : CheckedBranch c ix) (hc : c.Built) (hjumps : c.code.JumpsByBranches) :
    ix = b.check + 1 := by
  have hedge : (⟨b.check, false⟩ : Edge) ∈ c.graph.predecessors ix := by
    rw [b.only]
    exact List.mem_singleton_self _
  refine FlowGraph.successors_of_no_target hc.graph_built b.check_at ?_
    ((FlowGraph.mem_predecessors_normal hc.wellFormed).1 hedge)
  exact hjumps.no_target b.check_at (by rw [b.opcode]; decide)

/-- The move leads to the check alone, which stands right after it. -/
theorem Copy.leads (k : b.Copy) (hc : c.Built) (hjumps : c.code.JumpsByBranches) :
    b.check = k.move + 1 ∧
      ∀ t ∈ c.graph.successors k.move ++ c.graph.handlers k.move, t = b.check := by
  have hopcode : k.instruction.opcode.canThrow = false ∧
      ¬(k.instruction.opcode.isGoto = true ∨ k.instruction.opcode.isConditional = true ∨
        k.instruction.opcode.isSwitch = true ∨ k.instruction.opcode = .fillArrayData) := by
    rcases Session.isMoveObject_cases k.opcode with h | h | h <;> rw [h] <;> decide
  have htarget := hjumps.no_target k.move_at hopcode.2
  have hnext {t : Nat} (ht : t ∈ c.graph.successors k.move) : t = k.move + 1 :=
    FlowGraph.successors_of_no_target hc.graph_built k.move_at htarget ht
  have hedge : (⟨k.move, false⟩ : Edge) ∈ c.graph.predecessors b.check := by
    rw [k.only]
    exact List.mem_singleton_self _
  have hcheck := hnext ((FlowGraph.mem_predecessors_normal hc.wellFormed).1 hedge)
  refine ⟨hcheck, fun t ht => ?_⟩
  rw [FlowGraph.handlers_of_quiet hc.graph_built k.move_at hopcode.1, List.append_nil] at ht
  rw [hnext ht, hcheck]

/-- An override is on an edge of the branch. -/
theorem Overrides.edge (hc : c.Built) {n : Narrowing} (h : b.Overrides n) :
    (⟨ix, false⟩ : Edge) ∈ c.graph.predecessors n.target := by
  have hcheck : (⟨b.check, false⟩ : Edge) ∈ c.graph.predecessors ix := by
    rw [b.only]
    exact List.mem_singleton_self _
  have hpass := FlowGraph.passes_of_mem_predecessors hc.wellFormed hcheck
  have hreachable : c.graph.Reachable ix :=
    Relation.ReflTransGen.tail (FlowGraph.Passes.source hc.graph_built hpass).2 hpass
  have hopcode : b.branch.opcode.canContinue = true ∧ b.branch.opcode.isSwitch = false ∧
      b.branch.opcode ≠ .fillArrayData := by
    rcases Session.isZeroTest_cases b.zero with h | h <;> rw [h] <;> decide
  obtain ⟨distance, target, hdistance, htarget, -, hside⟩ := h.side
  refine (FlowGraph.mem_predecessors_normal hc.wellFormed).2
    (FlowGraph.mem_successors_of_branch hc.graph_built b.branch_at hreachable hopcode.1 hopcode.2.1
      hopcode.2.2 hdistance ?_)
  rw [hside]
  split
  · exact .inl rfl
  · exact .inr htarget

end CheckedBranch

namespace Session

variable {c : MethodContext} {memo : Memo} {s s₁ s' : Session} {ix j t : Nat} {ts : List Nat}

/-! ## What a move leaves alone -/

/-- Nothing happened to the instruction. -/
def Untouched (s s' : Session) (j : Nat) : Prop :=
  s'.point j = s.point j ∧ (j ∈ s'.queue ↔ j ∈ s.queue)

theorem Untouched.trans {s'' : Session} (h : Untouched s s' j) (h' : Untouched s' s'' j) :
    Untouched s s'' j := ⟨h'.1.trans h.1, h'.2.trans h.2⟩

theorem LocalChange.untouched (h : LocalChange s s₁ ix) (hj : j ≠ ix) : Untouched s s₁ j := by
  obtain ⟨p, hp⟩ := h.points
  exact ⟨point_set_ne hp hj, fun hmem => h.queue.subset hmem, h.others j hj⟩

theorem queue_updatePre (c : MethodContext) (s : Session) (t : Nat) :
    (updatePre c s t).queue = s.queue ∨ (updatePre c s t).queue = s.queue ++ [t] := by
  rw [updatePre_eq]
  split
  · exact .inl rfl
  · unfold enqueue
    split
    · exact .inl rfl
    · exact .inr rfl

theorem untouched_updatePre (ht : t < s.points.length) (hj : j ≠ t) :
    Untouched s (updatePre c s t) j := by
  rcases updatePre_cases c ht with ⟨-, -, hs⟩ | hs
  · rw [hs]
    exact ⟨rfl, .rfl⟩
  · rw [hs]
    exact ⟨point_set_ne (s := s) rfl hj, mem_enqueue.trans (or_iff_left hj)⟩

/-- An instruction that got no new state before it is as it was, and what got one
    is queued. -/
theorem untouched_foldl (hts : ∀ t ∈ ts, t < s.points.length) (hj : j ∉ ts) :
    Untouched s (ts.foldl (updatePre c) s) j := by
  induction ts generalizing s with
  | nil => exact ⟨rfl, .rfl⟩
  | cons t ts ih =>
    obtain ⟨ht, hts⟩ := List.forall_mem_cons.1 hts
    rw [List.mem_cons, not_or] at hj
    exact (untouched_updatePre ht hj.1).trans
      (ih (fun t' ht' => by rw [length_updatePre]; exact hts t' ht') hj.2)

theorem queued_foldl (h : j ∈ s.queue) : j ∈ (ts.foldl (updatePre c) s).queue := by
  induction ts generalizing s with
  | nil => exact h
  | cons t ts ih =>
    refine ih ?_
    rcases queue_updatePre c s t with hs | hs <;> rw [hs]
    · exact h
    · exact List.mem_append_left _ h

theorem queued_or_untouched (hts : ∀ t ∈ ts, t < s.points.length) (j : Nat) :
    j ∈ (ts.foldl (updatePre c) s).queue ∨ (ts.foldl (updatePre c) s).point j = s.point j := by
  induction ts generalizing s with
  | nil => exact .inr rfl
  | cons t ts ih =>
    obtain ⟨ht, hts⟩ := List.forall_mem_cons.1 hts
    rcases ih (s := updatePre c s t)
      (fun t' ht' => by rw [length_updatePre]; exact hts t' ht') with hqueued | hrest
    · exact .inl hqueued
    · rcases updatePre_cases c ht with ⟨-, -, hs⟩ | hs
      · right
        rw [List.foldl_cons, hrest, hs]
        rfl
      · by_cases hj : j = t
        · have hmem : j ∈ (updatePre c s t).queue := by
            rw [hs]
            exact mem_enqueue.2 (.inr hj)
          exact .inl (queued_foldl (s := updatePre c s t) hmem)
        · exact .inr (hrest.trans (untouched_updatePre ht hj).1)

/-! ## The order of the queue -/

theorem pair_sublist_concat {x y : Nat} {queue : List Nat} (hy : y ≠ t)
    (h : [x, y].Sublist (queue ++ [t])) : [x, y].Sublist queue := by
  obtain ⟨l₁, l₂, hl, hl₁, hl₂⟩ := List.sublist_append_iff.1 h
  rcases List.sublist_singleton.1 hl₂ with rfl | rfl
  · rw [hl, List.append_nil]
    exact hl₁
  · have hlast := congrArg List.getLast? hl
    rw [List.getLast?_concat] at hlast
    exact absurd (Option.some.inj hlast) hy

/-- What gets queued is behind what is queued: `x` does not come to stand before `y`,
    unless `y` is queued anew. -/
theorem order_foldl {x y : Nat} (h : ¬[x, y].Sublist s.queue) (hy : y ∉ ts) :
    ¬[x, y].Sublist (ts.foldl (updatePre c) s).queue := by
  induction ts generalizing s with
  | nil => exact h
  | cons t ts ih =>
    rw [List.mem_cons, not_or] at hy
    refine ih ?_ hy.2
    rcases queue_updatePre c s t with hs | hs <;> rw [hs]
    · exact h
    · exact fun hpair => h (pair_sublist_concat hy.1 hpair)

theorem Visit.queue (h : Visit c ix s s₁ ts) : s.queue = ix :: s₁.queue := by
  cases h with
  | passed hqueue => exact hqueue
  | analyzed hqueue => exact hqueue
  | parked hqueue => exact hqueue

theorem Aid.queue (h : Aid c ix s s₁ ts) : s₁.queue = s.queue := by cases h <;> rfl

theorem Aid.parked (h : Aid c ix s s₁ ts) : (s.point ix).parked.isSome := by
  cases h with
  | gaveUp hparked =>
    rw [hparked]
    rfl
  | tried hparked => exact hparked
  | unhelped hparked => exact hparked
  | helped hparked => exact hparked

/-! ## From the check to the branch -/

/-- What is known at every step of a session with branches that learn. -/
structure Informed (c : MethodContext) (memo : Memo) (s : Session) : Prop where
  sound : Sound c memo s
  firm : Everywhere (fun _ => Firm) s
  told : Everywhere (Told c) s
  consistent : Consistent c [] s
  recalls : ClassPath.Recalling c.path.OnlyAbove s.memo

theorem Steps.informed (hc : c.Built) (hmemo : c.path.Used memo) {count : Nat}
    (h : Steps c (Session.initial c memo) count s) : Informed c memo s := by
  have hidle : memo.busy = [] := hmemo.kept c.path.keeps_idle rfl
  have hrecalls : ClassPath.Recalling c.path.OnlyAbove memo :=
    hmemo.kept c.path.keeps_onlyAbove ⟨rfl, fun _ _ ht => nomatch ht⟩
  exact ⟨h.sound hc, h.firm hc, h.told hc hrecalls, h.consistent hc hidle,
    h.memo c.path.keeps_onlyAbove (initial_memo c.path.keeps_onlyAbove hrecalls)⟩

/-- Merged with what is unknown, a register that is known stays. -/
theorem mergeAll_unknown {p : ClassPath} {n r : Nat} {post : List RegisterType}
    {known : RegisterType} (hr : r < n) (hpost : post[r]? = some known)
    (hknown : known.category ≠ .unknown) (m : Memo) :
    ((RegisterType.mergeAll p (List.replicate n RegisterType.unknown) post).run m).1[r]? =
      some known := by
  have hstart : (List.replicate n RegisterType.unknown)[r]? = some RegisterType.unknown := by
    rw [List.getElem?_replicate, if_pos hr]
  rcases RegisterType.mergeAll_at p (List.replicate n RegisterType.unknown) post m r with
    ⟨hnone, -⟩ | ⟨a, b, m', ha, hb, hmerged⟩
  · rcases hnone with hnone | hnone
    · cases hnone.symm.trans hstart
    · cases hnone.symm.trans hpost
  · cases ha.symm.trans hstart
    cases hb.symm.trans hpost
    rw [hmerged]
    rcases RegisterType.merge_cases p m' RegisterType.unknown known with
      ⟨-, hsame⟩ | ⟨hresult, -⟩ | ⟨⟨-, hfirst, -⟩, -⟩
    · rcases hsame with rfl | hsame
      · exact absurd rfl hknown
      · exact absurd hsame hknown
    · rw [hresult]
    · exact absurd rfl hfirst

/-- But for the first instruction, the state before has the registers of the body. -/
theorem PointOk.length_pre {st : Status} (h : PointOk c ix st) (hix : ix ≠ 0) :
    st.point.pre.length = c.code.registers := by
  cases hreached : st.point.reached with
  | false =>
    rw [h.unreached hreached]
    exact List.length_replicate
  | true =>
    rw [h.width hreached, startOf, if_neg hix]
    exact List.length_replicate

namespace Informed

variable (b : CheckedBranch c ix)

theorem check_lt (h : Informed c memo s) : b.check < s.points.length := by
  rw [h.sound.length]
  exact (List.getElem?_eq_some_iff.1 b.check_at).1

/-- The check as it was given. -/
theorem check_given (h : Informed c memo s) : (s.point b.check).given = b.instanceOf :=
  Option.some.inj ((h.sound.points _ (h.check_lt b)).given.symm.trans b.check_at)

/-- The check does not wait, and narrows nothing. -/
theorem check_plain (h : Informed c memo s) :
    (s.point b.check).parked = none ∧ (s.point b.check).narrowing = none := by
  have hlt := h.check_lt b
  have hopcode : (s.point b.check).given.opcode = .instanceOf := by rw [h.check_given b, b.opcode]
  obtain ⟨hplain, hreads⟩ := Firm.instanceOf_plain hopcode
  refine ⟨((h.firm _ hlt).kept hplain hreads).2.1, ?_⟩
  cases hn : (s.point b.check).narrowing with
  | none => rfl
  | some n =>
    obtain ⟨b', -, -⟩ := h.told _ hlt n hn
    have hzero : isZeroTest (s.point b.check).given.opcode = true :=
      (h.sound.points _ hlt).zeroTest b'
    rw [hopcode] at hzero
    cases hzero

/-- What is known before a check that was visited is known after it, but for the
    tested register. -/
theorem check_post (h : Informed c memo s) (hqueued : b.check ∉ s.queue) {r : Nat}
    {known : RegisterType} (hr : (s.point b.check).pre[r]? = some known)
    (hknown : known.category ≠ .unknown) (htested : r ≠ b.tested) :
    (s.point b.check).analyzed = true ∧ (s.point b.check).post[r]? = some known := by
  have hlt := h.check_lt b
  have hreached : (s.point b.check).reached = true := by
    by_contra hfalse
    have hblank : s.point b.check = Point.ofInstruction c.code.registers _ :=
      (h.sound.points _ hlt).unreached (by simpa using hfalse)
    rw [hblank] at hr
    rw [List.eq_of_mem_replicate (List.mem_of_getElem? hr)] at hknown
    exact hknown rfl
  have hopcode : (s.point b.check).given.opcode = .instanceOf := by rw [h.check_given b, b.opcode]
  obtain ⟨hanalyzed, r', hr', hpost⟩ := (h.firm _ hlt).checked hopcode hreached hqueued
  rw [status_point, h.check_given b, b.writes] at hr'
  cases hr'
  refine ⟨hanalyzed, ?_⟩
  rw [show (s.point b.check).post = _ from hpost, List.getElem?_set_ne htested.symm]
  exact hr

/-- Once a check was visited, what was known before it is known before its
    branch. -/
theorem passes (h : Informed c memo s) (hc : c.Built) (hjumps : c.code.JumpsByBranches)
    (hix : ix < s.points.length) (hreached : (s.point ix).reached = true)
    (hqueued : b.check ∉ s.queue) {r : Nat} {known : RegisterType} (hlt : r < c.code.registers)
    (hr : (s.point b.check).pre[r]? = some known) (hknown : known.category ≠ .unknown)
    (htested : r ≠ b.tested) : (s.point ix).pre[r]? = some known := by
  obtain ⟨hparked, hnarrowing⟩ := h.check_plain b
  obtain ⟨hanalyzed, hpost⟩ := h.check_post b hqueued hr hknown htested
  rcases h.consistent ix hix hreached with hexempt | ⟨e, he, hpending⟩ | ⟨m, -, hpre, -⟩
  · cases hexempt
  · rw [b.only] at he
    cases List.mem_singleton.1 he
    unfold Pending at hpending
    rw [if_neg (by simp), hparked] at hpending
    cases hpending.1
  · have hfirst : ix ≠ 0 := by
      rw [b.after_check hc hjumps]
      exact Nat.succ_ne_zero _
    have hflow : flowing? s.points ix ⟨b.check, false⟩ = some (s.point b.check).post := by
      unfold flowing?
      dsimp only
      rw [getElem?_points (h.check_lt b)]
      simp only [hanalyzed, hnarrowing, if_true, Bool.false_eq_true, if_false]
    rw [← hpre]
    unfold mergedPre
    rw [b.only, if_neg hfirst, List.filterMap_cons_some hflow]
    exact mergeAll_unknown hlt hpost hknown m

end Informed

/-! ## Overridden copies -/

/-- The copy has the type of the checked register, before the branch or in a state
    that is on its way there. -/
def CopyFollows (b : CheckedBranch c ix) (k : b.Copy) (s : Session) : Prop :=
  ∃ known, known.category ≠ .unknown ∧ (s.point ix).pre[b.object]? = some known ∧
    ((s.point ix).pre[k.source]? = some known ∨
      b.check ∈ s.queue ∧ (s.point b.check).pre[k.source]? = some known)

/-- What holds of a copy that its branch may override. -/
structure CopyKept (b : CheckedBranch c ix) (k : b.Copy) (s : Session) : Prop where
  /-- While the check is queued, the move is not visited before it. -/
  order : ¬[k.move, b.check].Sublist s.queue
  /-- Unless the branch is visited again, a copy that is overridden follows the
      checked register. -/
  copied : ∀ n t, (s.point ix).narrowing = some n → (k.source, t) ∈ n.registers →
    ix ∈ s.queue ∨ CopyFollows b k s

namespace CopyKept

variable {b : CheckedBranch c ix} {k : b.Copy}

/-- A move at another instruction, from which control does not come to the check or
    the branch. -/
theorem untouched (h : CopyKept b k s) (horder : ¬[k.move, b.check].Sublist s'.queue)
    (hbranch : Untouched s s' ix) (hcheck : Untouched s s' b.check) : CopyKept b k s' := by
  refine ⟨horder, ?_⟩
  unfold CopyFollows
  rw [hbranch.1, hbranch.2, hcheck.1, hcheck.2]
  exact h.copied

/-- A copy that is known before the check is known before the branch, or will be. -/
theorem follows (h : Informed c memo s) (hc : c.Built) (hjumps : c.code.JumpsByBranches)
    (hix : ix < s.points.length) {n : Narrowing} (hn : (s.point ix).narrowing = some n)
    {known : RegisterType} (hknown : known.category ≠ .unknown)
    (hobject : (s.point ix).pre[b.object]? = some known)
    (hcopy : (s.point b.check).pre[k.source]? = some known) : CopyFollows b k s := by
  refine ⟨known, hknown, hobject, ?_⟩
  by_cases hqueued : b.check ∈ s.queue
  · exact .inr ⟨hqueued, hcopy⟩
  have hreached : (s.point ix).reached = true := by
    by_contra hfalse
    have hblank : s.point ix = Point.ofInstruction c.code.registers _ :=
      (h.sound.points ix hix).unreached (by simpa using hfalse)
    rw [hblank] at hn
    cases hn
  have hfirst : b.check ≠ 0 := by
    rw [(k.leads hc hjumps).1]
    exact Nat.succ_ne_zero _
  have hlt : k.source < c.code.registers := by
    rw [← (h.sound.points _ (h.check_lt b)).length_pre hfirst]
    exact (List.getElem?_eq_some_iff.1 hcopy).1
  exact .inl (h.passes b hc hjumps hix hreached hqueued hlt hcopy hknown k.distinct)

/-- The branch is visited: it looks at what is known before the check. -/
theorem at_branch (h : Informed c memo s) (h' : Informed c memo s') (hc : c.Built)
    (hjumps : c.code.JumpsByBranches) (hix : ix < s.points.length) (hix' : ix < s'.points.length)
    (hvisit : Visit c ix s s₁ ts) (hbranch : s'.point ix = s₁.point ix)
    (hcheck : Untouched s s' b.check) (n : Narrowing) (t : RegisterType)
    (hn : (s'.point ix).narrowing = some n) (hr : (k.source, t) ∈ n.registers) :
    CopyFollows b k s' := by
  have hn₁ : (s₁.point ix).narrowing = some n := hbranch ▸ hn
  obtain ⟨b', known, -, hobject, htightens, hcopies⟩ :=
    (h.told ix hix).visit_learned h.sound h.firm h.recalls hix hvisit hn₁
  cases Subsingleton.elim b b'
  rw [← hvisit.pre hix, ← hbranch] at hobject
  rcases hcopies k.source t hr with hself | hbefore
  · exact ⟨known, htightens.known, hobject, .inl (hself ▸ hobject)⟩
  · rw [← hcheck.1] at hbefore
    exact follows h' hc hjumps hix' hn htightens.known hobject hbefore

/-- The check is visited: what is known before it comes to the branch now. -/
theorem at_check (h : CopyKept b k s) (h' : Informed c memo s') (hc : c.Built)
    (hjumps : c.code.JumpsByBranches) (hix' : ix < s'.points.length)
    (hbranch : ix ∈ s'.queue ∨ s'.point ix = s.point ix) (hqueue : ix ∈ s.queue → ix ∈ s'.queue)
    (hpre : (s'.point b.check).pre = (s.point b.check).pre) (n : Narrowing) (t : RegisterType)
    (hn : (s'.point ix).narrowing = some n) (hr : (k.source, t) ∈ n.registers) :
    ix ∈ s'.queue ∨ CopyFollows b k s' := by
  rcases hbranch with hqueued | hbranch
  · exact .inl hqueued
  rcases h.copied n t (hbranch ▸ hn) hr with hqueued | ⟨known, hknown, hobject, hcopy⟩
  · exact .inl (hqueue hqueued)
  rw [← hbranch] at hobject hcopy
  rw [← hpre] at hcopy
  rcases hcopy with hcopy | ⟨-, hbefore⟩
  · exact .inr ⟨known, hknown, hobject, .inl hcopy⟩
  · exact .inr (follows h' hc hjumps hix' hn hknown hobject hbefore)

/-- Only the move queues the check, and when it does it is not queued itself. -/
theorem order_moved (hc : c.Built) (hjumps : c.code.JumpsByBranches)
    (h : ¬[k.move, b.check].Sublist s₁.queue) (hts : ∀ t ∈ ts, t < s₁.points.length)
    (htargets : ∀ t ∈ ts, t ∈ c.graph.successors j ++ c.graph.handlers j)
    (hj : j = k.move → j ∉ s₁.queue) :
    ¬[k.move, b.check].Sublist (ts.foldl (updatePre c) s₁).queue := by
  by_cases hcheck : b.check ∈ ts
  · cases k.from_move hc (htargets _ hcheck)
    obtain ⟨hafter, hleads⟩ := k.leads hc hjumps
    have hmove : k.move ∉ ts := fun hmem => by
      have hself := hleads k.move (htargets _ hmem)
      omega
    exact fun hpair =>
      hj rfl ((untouched_foldl hts hmove).2.1 (hpair.subset List.mem_cons_self))
  · exact order_foldl h hcheck

theorem visit (h : CopyKept b k s) (hs : Informed c memo s)
    (hs' : Informed c memo (ts.foldl (updatePre c) s₁)) (hc : c.Built)
    (hjumps : c.code.JumpsByBranches) (hj : j < s.points.length) (hvisit : Visit c j s s₁ ts) :
    CopyKept b k (ts.foldl (updatePre c) s₁) := by
  have hchange := hvisit.localChange
  have hqueue := hvisit.queue
  have hts : ∀ t ∈ ts, t < s₁.points.length := fun t ht => by
    rw [hchange.length]
    exact hs.sound.target_lt hc (hvisit.targets t ht)
  have hnodup : j ∉ s₁.queue := by
    have hall := hs.sound.nodup
    rw [hqueue] at hall
    exact (List.nodup_cons.1 hall).1
  have hix' : ix < (ts.foldl (updatePre c) s₁).points.length := by
    rw [hs'.sound.length]
    exact (List.getElem?_eq_some_iff.1 b.branch_at).1
  have hafter := b.after_check hc hjumps
  have hmove := (k.leads hc hjumps).1
  have horder := order_moved hc hjumps (fun hpair => h.order (hpair.trans hchange.queue)) hts
    hvisit.targets fun _ => hnodup
  -- elsewhere a move leaves the branch and the check alone
  have hbranch (hcheck : j ≠ b.check) : Untouched s₁ (ts.foldl (updatePre c) s₁) ix :=
    untouched_foldl hts fun ht => hcheck (b.from_check hc (hvisit.targets _ ht))
  have hcheck (hmove : j ≠ k.move) : Untouched s₁ (ts.foldl (updatePre c) s₁) b.check :=
    untouched_foldl hts fun ht => hmove (k.from_move hc (hvisit.targets _ ht))
  by_cases hjix : j = ix
  · subst hjix
    have hother : b.check ≠ j := by omega
    exact ⟨horder, fun n t hn hr => .inr (at_branch hs hs' hc hjumps hj hix' hvisit
      (hbranch hother.symm).1 ((hchange.untouched hother).trans (hcheck (by omega))) n t hn hr)⟩
  have hlocal := hchange.untouched (Ne.symm hjix)
  by_cases hjcheck : j = b.check
  · subst hjcheck
    refine ⟨horder, h.at_check hs' hc hjumps hix' ?_ ?_ ?_⟩
    · exact (queued_or_untouched hts ix).imp_right fun hpoint => hpoint.trans hlocal.1
    · exact fun hqueued => queued_foldl (hlocal.2.2 hqueued)
    · rw [(hcheck (by omega)).1, hvisit.pre hj]
  have hsame := hlocal.trans (hbranch hjcheck)
  by_cases hjmove : j = k.move
  · subst hjmove
    -- the move is visited, so the check is not queued
    have hnot : b.check ∉ s.queue := fun hqueued => by
      rw [hqueue, List.mem_cons] at hqueued
      refine h.order ?_
      rw [hqueue]
      exact (List.singleton_sublist.2 (hqueued.resolve_left (Ne.symm hjcheck))).cons_cons _
    refine ⟨horder, fun n t hn hr => ?_⟩
    rcases h.copied n t (hsame.1 ▸ hn) hr with hqueued | ⟨known, hknown, hobject, hcopy⟩
    · exact .inl (hsame.2.2 hqueued)
    · have hcopy := hcopy.resolve_right fun hcopy => hnot hcopy.1
      rw [← hsame.1] at hobject hcopy
      exact .inr ⟨known, hknown, hobject, .inl hcopy⟩
  · exact h.untouched horder hsame ((hchange.untouched (Ne.symm hjcheck)).trans (hcheck hjmove))

theorem aid (h : CopyKept b k s) (hsound : Sound c memo s) (hfirm : Everywhere (fun _ => Firm) s)
    (hc : c.Built) (hjumps : c.code.JumpsByBranches) (hj : j < s.points.length)
    (haid : Aid c j s s₁ ts) : CopyKept b k (ts.foldl (updatePre c) s₁) := by
  have hchange := haid.localChange
  have hts : ∀ t ∈ ts, t < s₁.points.length := fun t ht => by
    rw [hchange.length]
    exact hsound.target_lt hc (haid.targets t ht)
  -- the branch, the check and the move do not wait
  have hkept {i : Instruction} (hi : c.code.instructions[j]? = some i) (hform : CheckForm i) :
      False := by
    cases (hsound.points j hj).given.symm.trans hi
    have hparked := haid.parked
    rw [show (s.point j).parked = none from ((hfirm j hj).check_form hform).2.1] at hparked
    cases hparked
  have hjix : ix ≠ j := by
    rintro rfl
    exact hkept b.branch_at (.inl b.zero)
  have hjcheck : b.check ≠ j := by
    rintro rfl
    exact hkept b.check_at (.inr (.inl b.opcode))
  have hjmove : j ≠ k.move := by
    rintro rfl
    exact hkept k.move_at (.inr (.inr k.opcode))
  have hbranch : Untouched s₁ (ts.foldl (updatePre c) s₁) ix :=
    untouched_foldl hts fun ht => hjcheck (b.from_check hc (haid.targets _ ht)).symm
  have hcheck : Untouched s₁ (ts.foldl (updatePre c) s₁) b.check :=
    untouched_foldl hts fun ht => hjmove (k.from_move hc (haid.targets _ ht))
  have horder := order_moved hc hjumps (haid.queue.symm ▸ h.order) hts haid.targets
    fun hmove => absurd hmove hjmove
  exact h.untouched horder ((hchange.untouched hjix).trans hbranch)
    ((hchange.untouched hjcheck).trans hcheck)

theorem initial (b : CheckedBranch c ix) (k : b.Copy) (hc : c.Built)
    (hjumps : c.code.JumpsByBranches) : CopyKept b k (Session.initial c memo) := by
  have hfirst : b.check ∉ [0] := by
    rw [(k.leads hc hjumps).1, List.mem_singleton]
    exact Nat.succ_ne_zero _
  have hnone : Everywhere (fun _ st => st.point.narrowing = none) (Session.initial c memo) :=
    Everywhere.initial ⟨fun h _ _ => h, fun h _ => h⟩ fun _ _ _ => rfl
  refine ⟨?_, fun n t hn => ?_⟩
  · have hblank : ¬[k.move, b.check].Sublist (blank c memo).queue := fun h => nomatch h
    rcases initial_cases c memo with ⟨-, hs⟩ | ⟨-, hs⟩ <;> rw [hs]
    · exact hblank
    · have hstart : ¬[k.move, b.check].Sublist ([0].foldl (updatePre c) (blank c memo)).queue :=
        order_foldl hblank hfirst
      exact hstart
  · have hix : ix < (Session.initial c memo).points.length := by
      rw [(Sound.initial c memo).length]
      exact (List.getElem?_eq_some_iff.1 b.branch_at).1
    exact nomatch hn.symm.trans (hnone ix hix)

end CopyKept

theorem Steps.copyKept (hc : c.Built) (hmemo : c.path.Used memo) (hjumps : c.code.JumpsByBranches)
    (b : CheckedBranch c ix) (k : b.Copy) {count : Nat}
    (h : Steps c (Session.initial c memo) count s) : CopyKept b k s := by
  induction h with
  | start => exact CopyKept.initial b k hc hjumps
  | next hsteps hstep ih =>
    have hinformed := hsteps.informed hc hmemo
    have hafter := (hsteps.next hstep).informed hc hmemo
    rcases step_inv hinformed.sound.range hinformed.sound.hints hstep with
      ⟨j, s₁, ts, hj, hvisit, rfl⟩ | ⟨-, haids⟩
    · exact ih.visit hinformed hafter hc hjumps hj hvisit
    · refine (haids.aids.invariant hc (Q := fun s => Everywhere (fun _ => Firm) s ∧ CopyKept b k s)
        ?_ hinformed.sound ⟨hinformed.firm, ih⟩).2.2
      intro s s₁ j ts hsound hj hboth haid
      exact ⟨hboth.1.aid hc (Firm.stable c) hsound hj haid ((hboth.1 j hj).aid hj haid),
        hboth.2.aid hsound hboth.1 hc hjumps hj haid⟩

end Session

/-! ## Finished analyses -/

/-- In a finished analysis every override is the one of a checked branch, on the
    edge where the check succeeded. It leaves the tested register alone, and gives
    others the checked class, which is no interface, only where that widens
    nothing. -/
theorem overrides_never_widen {path : ClassPath} {cls : ClassDef} {m : MethodDef}
    {steps : MethodContext → Nat} {memo memo' : Memo} {a : MethodAnalysis} {c : MethodContext}
    (hmemo : path.Used memo)
    (h : (path.analyzeWithin cls m steps).run memo = (some (.ok a), memo'))
    (hc : MethodContext.of path cls m = .ok c) (hjumps : c.code.JumpsByBranches) :
    ∀ ix p n, a.points[ix]? = some p → p.narrowing = some n →
      ∃ b : CheckedBranch c ix, b.Overrides n ∧
        (⟨ix, false⟩ : Edge) ∈ a.graph.predecessors n.target ∧
        ∀ r t, (r, t) ∈ n.registers → r ≠ b.tested ∧ t = RegisterType.reference b.type ∧
          ∃ known, p.pre[r]? = some known ∧ Narrowing.Tightens path known b.type := by
  obtain ⟨c', s, hc', hbuilt, hfinished, rfl, rfl⟩ := ClassPath.analyzeWithin_ok h
  cases hc.symm.trans hc'
  obtain rfl : c.path = path := (MethodContext.of_inv hc).1
  intro ix p n hp hn
  obtain ⟨rfl, hix⟩ := Session.point_eq_of_getElem? hp
  obtain ⟨count, hsteps⟩ := hfinished.steps
  have hidle (j : Nat) : j ∉ s.queue := by
    rw [hfinished.queue]
    exact List.not_mem_nil
  obtain ⟨b, hb, hobject⟩ := (hsteps.informed hbuilt hmemo).told ix hix n hn
  obtain ⟨known, hknown, htightens⟩ := hobject (hidle ix)
  refine ⟨b, hb, hb.edge hbuilt, fun r t hr => ⟨hb.not_tested hr, hb.reference hr, known, ?_,
    htightens⟩⟩
  rcases hb.register_cases hr with rfl | ⟨k, rfl⟩
  · exact hknown
  · have hkept := hsteps.copyKept hbuilt hmemo hjumps b k
    obtain ⟨known', -, hsame, hcopy⟩ := (hkept.copied n t hn hr).resolve_left (hidle ix)
    cases (show (s.point ix).pre[b.object]? = some known from hknown).symm.trans hsame
    exact hcopy.resolve_right fun hcheck => hidle b.check hcheck.1

namespace Sample

/-- Checks a copy of its argument, and goes on to a constant where the check
    succeeds. -/
def checker : MethodDef :=
  { name := "check", prototype := ⟨[Descriptor.object], "V"⟩, access := ⟨9⟩
    code := some
      { registers := 3
        instructions := [
          { opcode := .moveObject, registers := [1, 2] },
          { opcode := .instanceOf, registers := [0, 1], reference := some (.type "LBox;") },
          { opcode := .ifEqz, registers := [0], target := some 3 },
          { opcode := .const4, registers := [0], literal := some 0 },
          { opcode := .returnVoid }] } }

def checking : ClassDef := classDef "LChecking;" Descriptor.object [] [checker]

/-- Read by ART. -/
def artPath : ClassPath := { path [box, checking] ⟨[]⟩ with runtime := ⟨24, noArt⟩ }

end Sample

open Sample in
/-- The argument and its copy are boxes on the edge to the constant. -/
theorem checker_narrows :
    ∃ c a memo' p n, MethodContext.of artPath checking checker = .ok c ∧
      c.code.JumpsByBranches ∧
      (artPath.analyzeWithin checking checker fun _ => 20).run {} = (some (.ok a), memo') ∧
      a.points[2]? = some p ∧ p.narrowing = some n ∧ n.target = 3 ∧
      n.registers.map (·.1) = [1, 2] ∧
      ∃ b : CheckedBranch c 2, b.Overrides n ∧
        (⟨2, false⟩ : Edge) ∈ a.graph.predecessors n.target ∧
        ∀ r t, (r, t) ∈ n.registers → r ≠ b.tested ∧ t = RegisterType.reference b.type ∧
          ∃ known, p.pre[r]? = some known ∧ Narrowing.Tightens artPath known b.type := by
  have hchecks : artPath.checks checking checker 20 (fun c a _ => c.code.JumpsByBranches ∧
      (a.points[2]?).any fun p => p.narrowing.any fun n =>
        n.target = 3 ∧ n.registers.map (·.1) = [1, 2]) = true := by
    decide +kernel
  obtain ⟨c, a, memo', hc, h, hfacts⟩ := ClassPath.checks_inv hchecks
  obtain ⟨hjumps, hpoint⟩ := of_decide_eq_true hfacts
  obtain ⟨p, hp, hnarrowing⟩ := (Option.any_eq_true _ _).1 hpoint
  obtain ⟨n, hn, hfacts⟩ := (Option.any_eq_true _ _).1 hnarrowing
  obtain ⟨htarget, hregisters⟩ := of_decide_eq_true hfacts
  exact ⟨c, a, memo', p, n, hc, hjumps, h, hp, hn, htarget, hregisters,
    overrides_never_widen .fresh h hc hjumps 2 p n hp hn⟩

end SymbolicDex
