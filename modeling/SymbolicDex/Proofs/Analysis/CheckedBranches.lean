import SymbolicDex.Proofs.Analysis.CheckedTypes
import SymbolicDex.Proofs.Analysis.FlowReach
import SymbolicDex.Proofs.Analysis.KeptForms
import SymbolicDex.Proofs.Analysis.UsedMemos
import SymbolicDex.Proofs.Instruction.BranchTargets

/- Branches on the result of a check. What a branch learns is told by the
   instructions around it as they were given, for checks, branches and moves keep
   their form.

   What is proved:
     1. `successors_of_no_target`, `handlers_of_quiet`: an instruction without a
        target passes control to the next one alone, so what a check alone leads
        to stands after it.
     2. `afterCheck_told`: an override is the one of a checked branch, and widens
        nothing there.
     3. `Steps.told`: so it is at every step with every override there is, while
        the state before its branch is not new. -/
namespace SymbolicDex

/-! ## Control without branches -/

theorem MethodContext.Built.graph_built {c : MethodContext} (h : c.Built) :
    FlowGraph.build c.code = .ok c.graph := (of_inv h).2.2.2.2.1

namespace FlowGraph

variable {code : Code} {g : FlowGraph} {ix t : Nat} {i : Instruction}

theorem flowOf_parts {f : Flow} (h : flowOf code code.addresses ix i = .ok f) :
    ∃ targets handlers,
      branchTargets code code.addresses (code.addresses.getD ix 0) i = .ok targets ∧
      (i.opcode.canThrow = false → handlers = []) ∧
      f = ⟨ix, ((if i.opcode.canContinue then [ix + 1] else []) ++ targets).eraseDups,
        handlers.eraseDups⟩ := by
  rw [flowOf_eq] at h
  obtain ⟨next, hnext, h⟩ := bind_eq_ok h
  obtain ⟨targets, htargets, h⟩ := bind_eq_ok h
  obtain ⟨handlers, hhandlers, h⟩ := bind_eq_ok h
  cases h
  refine ⟨targets, handlers, htargets, fun hthrow => ?_, ?_⟩
  · rw [if_neg (by simp [hthrow])] at hhandlers
    cases hhandlers
    rfl
  · have hnext : next = if i.opcode.canContinue then [ix + 1] else [] := by
      split at hnext
      · next hcontinue =>
        split at hnext
        · cases hnext
          rw [if_pos hcontinue]
        · cases hnext
      · next hstop =>
        cases hnext
        rw [if_neg hstop]
    rw [hnext]

section

variable (h : build code = .ok g) (hi : code.instructions[ix]? = some i)
include h hi

/-- An instruction without a target passes control to the next one alone. -/
theorem successors_of_no_target (htarget : i.target = none) (ht : t ∈ g.successors ix) :
    t = ix + 1 := by
  have hix : g.Reachable ix := (Passes.source h (.inl ht)).2
  obtain ⟨targets, handlers, htargets, -, hflow⟩ := flowOf_parts (flowOf_of_reachable h hix hi)
  unfold branchTargets at htargets
  rw [htarget] at htargets
  cases htargets
  rw [(Flow.mk.inj hflow).2.1, List.mem_eraseDups, List.append_nil] at ht
  split at ht
  · exact List.mem_singleton.1 ht
  · cases ht

theorem handlers_of_quiet (hthrow : i.opcode.canThrow = false) : g.handlers ix = [] := by
  refine List.eq_nil_iff_forall_not_mem.2 fun t ht => ?_
  have hix : g.Reachable ix := (Passes.source h (.inr ht)).2
  obtain ⟨targets, handlers, -, hhandlers, hflow⟩ := flowOf_parts (flowOf_of_reachable h hix hi)
  rw [(Flow.mk.inj hflow).2.2, hhandlers hthrow] at ht
  cases ht

/-- A branch passes control to the next instruction and to its target. -/
theorem mem_successors_of_branch (hix : g.Reachable ix) (hcontinue : i.opcode.canContinue = true)
    (hswitch : i.opcode.isSwitch = false) (hfill : i.opcode ≠ .fillArrayData) {distance : Int}
    (hdistance : i.target = some distance)
    (ht : t = ix + 1 ∨ indexFrom? g.addresses (g.address ix) distance = some t) :
    t ∈ g.successors ix := by
  obtain ⟨targets, handlers, htargets, -, hflow⟩ := flowOf_parts (flowOf_of_reachable h hix hi)
  rw [(Flow.mk.inj hflow).2.1, List.mem_eraseDups, if_pos hcontinue, List.mem_append,
    List.mem_singleton]
  refine ht.imp_right fun ht => ?_
  unfold branchTargets branchIndex at htargets
  rw [address, build_addresses h] at ht
  rw [hdistance] at htargets
  simp only [hswitch, hfill, ht, if_false, Bool.false_eq_true] at htargets
  cases htargets
  exact List.mem_singleton_self t

end

end FlowGraph

/-! ## Checked branches -/

/-- A branch on zero, and the instance-of that alone leads to it and writes the
    tested register. -/
structure CheckedBranch (c : MethodContext) (ix : Nat) where
  branch : Instruction
  check : Nat
  instanceOf : Instruction
  tested : Nat
  object : Nat
  type : Descriptor
  branch_at : c.code.instructions[ix]? = some branch
  zero : Session.isZeroTest branch.opcode = true
  reads : branch.register? 0 = some tested
  only : c.graph.predecessors ix = [⟨check, false⟩]
  check_at : c.code.instructions[check]? = some instanceOf
  opcode : instanceOf.opcode = .instanceOf
  writes : instanceOf.register? 0 = some tested
  checks : instanceOf.register? 1 = some object
  names : instanceOf.typeRef? = some type
  distinct : tested ≠ object

namespace CheckedBranch

variable {c : MethodContext} {ix : Nat}

/-- The move that alone leads to the check, and copies another register to the
    checked one. -/
structure Copy (b : CheckedBranch c ix) where
  move : Nat
  instruction : Instruction
  source : Nat
  only : c.graph.predecessors b.check = [⟨move, false⟩]
  move_at : c.code.instructions[move]? = some instruction
  opcode : Recovery.isMoveObject instruction.opcode = true
  writes : instruction.register? 0 = some b.object
  copies : instruction.register? 1 = some source
  distinct : source ≠ b.tested

/-- What the branch says of an override: where the check succeeded, the checked
    register and copies of it hold an instance of the checked class. -/
structure Overrides (b : CheckedBranch c ix) (n : Narrowing) : Prop where
  art : c.path.runtime.isArt = true
  side : Narrowing.SucceedsAt c ix b.branch n.target
  isClass : c.path.isInterface b.type = .ok false
  registers : ∃ copies : List b.Copy, n.registers =
    (b.object :: copies.map (·.source)).map fun r => (r, RegisterType.reference b.type)

instance : Subsingleton (CheckedBranch c ix) where
  allEq b b' := by
    obtain ⟨branch, check, i, tested, object, type, hbranch, -, -, honly, hcheck, -, hwrites,
      hchecks, hnames, -⟩ := b
    obtain ⟨branch', check', i', tested', object', type', hbranch', -, -, honly', hcheck', -,
      hwrites', hchecks', hnames', -⟩ := b'
    cases hbranch.symm.trans hbranch'
    cases honly.symm.trans honly'
    cases hcheck.symm.trans hcheck'
    cases hwrites.symm.trans hwrites'
    cases hchecks.symm.trans hchecks'
    cases hnames.symm.trans hnames'
    rfl

instance (b : CheckedBranch c ix) : Subsingleton b.Copy where
  allEq k k' := by
    obtain ⟨move, i, source, honly, hmove, -, -, hcopies, -⟩ := k
    obtain ⟨move', i', source', honly', hmove', -, -, hcopies', -⟩ := k'
    cases honly.symm.trans honly'
    cases hmove.symm.trans hmove'
    cases hcopies.symm.trans hcopies'
    rfl

theorem check_ne (b : CheckedBranch c ix) : b.check ≠ ix := by
  intro h
  have hsame := b.check_at
  rw [h, b.branch_at] at hsame
  have hzero := b.zero
  rw [Option.some.inj hsame, b.opcode] at hzero
  cases hzero

theorem Overrides.reference {b : CheckedBranch c ix} {n : Narrowing} (h : b.Overrides n) {r : Nat}
    {t : RegisterType} (hr : (r, t) ∈ n.registers) : t = RegisterType.reference b.type := by
  obtain ⟨copies, hregisters⟩ := h.registers
  rw [hregisters] at hr
  obtain ⟨_, -, hr⟩ := List.mem_map.1 hr
  exact (Prod.mk.inj hr).2.symm

theorem Overrides.register_cases {b : CheckedBranch c ix} {n : Narrowing} (h : b.Overrides n)
    {r : Nat} {t : RegisterType} (hr : (r, t) ∈ n.registers) :
    r = b.object ∨ ∃ k : b.Copy, r = k.source := by
  obtain ⟨copies, hregisters⟩ := h.registers
  rw [hregisters] at hr
  obtain ⟨r', hr', hr⟩ := List.mem_map.1 hr
  cases hr
  refine (List.mem_cons.1 hr').imp_right fun hcopy => ?_
  obtain ⟨k, -, rfl⟩ := List.mem_map.1 hcopy
  exact ⟨k, rfl⟩

/-- The tested register holds the result of the check and is not overridden. -/
theorem Overrides.not_tested {b : CheckedBranch c ix} {n : Narrowing} (h : b.Overrides n) {r : Nat}
    {t : RegisterType} (hr : (r, t) ∈ n.registers) : r ≠ b.tested := by
  rcases h.register_cases hr with rfl | ⟨k, rfl⟩
  · exact b.distinct.symm
  · exact k.distinct

end CheckedBranch

namespace Session

open CheckedBranch

variable {c : MethodContext} {memo : Memo} {s s₁ : Session} {ix : Nat} {ts : List Nat}

/-! ## Forms that stay -/

theorem isZeroTest_cases {o : Opcode} (h : isZeroTest o = true) : o = .ifEqz ∨ o = .ifNez := by
  simpa [isZeroTest] using h

theorem isMoveObject_cases {o : Opcode} (h : Recovery.isMoveObject o = true) :
    o = .moveObject ∨ o = .moveObjectFrom16 ∨ o = .moveObject16 := by
  unfold Recovery.isMoveObject at h
  split at h
  · exact .inl rfl
  · exact .inr (.inl rfl)
  · exact .inr (.inr rfl)
  · cases h

/-- A branch on zero, a check or a move of a reference. -/
def CheckForm (i : Instruction) : Prop :=
  isZeroTest i.opcode = true ∨ i.opcode = .instanceOf ∨ Recovery.isMoveObject i.opcode = true

theorem CheckForm.opcode_cases {i : Instruction} (h : CheckForm i) :
    i.opcode = .ifEqz ∨ i.opcode = .ifNez ∨ i.opcode = .instanceOf ∨ i.opcode = .moveObject ∨
      i.opcode = .moveObjectFrom16 ∨ i.opcode = .moveObject16 := by
  rcases h with h | h | h
  · exact (isZeroTest_cases h).elim .inl fun h => .inr (.inl h)
  · exact .inr (.inr (.inl h))
  · exact .inr (.inr (.inr (isMoveObject_cases h)))

/-- None of these is a restored form. -/
theorem CheckForm.not_symbolic {i : Instruction} (h : CheckForm i) : ¬i.Symbolic := by
  unfold Instruction.Symbolic
  rcases h.opcode_cases with h | h | h | h | h | h <;> rw [h] <;> decide

theorem CheckForm.plain {i : Instruction} (h : CheckForm i) : i.Plain ∧ ¬i.ReadsElement := by
  unfold Instruction.Plain Instruction.ReadsElement
  rcases h.opcode_cases with h | h | h | h | h | h <;> rw [h] <;> decide

theorem Firm.current_given {st : Status} (h : Firm st) (hform : ¬st.point.current.Symbolic) :
    st.point.current = st.point.given := h.symbolic.resolve_right hform

/-- These forms stay as they are, do not wait and do not throw. -/
theorem Firm.check_form {st : Status} (h : Firm st) (hform : CheckForm st.point.given) :
    st.point.current = st.point.given ∧ st.point.parked = none ∧ st.point.throwing = none :=
  h.kept hform.plain.1 hform.plain.2

theorem PointOk.zeroTest {st : Status} (h : PointOk c ix st) (b : CheckedBranch c ix) :
    isZeroTest st.point.given.opcode = true := by
  rw [Option.some.inj (h.given.symm.trans b.branch_at)]
  exact b.zero

/-- Another instruction than the one at `ix`, found with that one changed. -/
theorem given_of_set (hsound : Sound c memo s) (hfirm : Everywhere (fun _ => Firm) s) {p q : Point}
    {j : Nat} (hq : (s.points.set ix p)[j]? = some q) (hj : j ≠ ix)
    (hform : ¬q.current.Symbolic) :
    q = s.point j ∧ c.code.instructions[j]? = some q.current := by
  rw [List.getElem?_set_ne (Ne.symm hj)] at hq
  obtain ⟨rfl, hlt⟩ := point_eq_of_getElem? hq
  have hgiven : (s.point j).current = (s.point j).given := (hfirm j hlt).current_given hform
  rw [hgiven]
  exact ⟨rfl, (hsound.points j hlt).given⟩

section

variable (hsound : Sound c memo s) (hfirm : Everywhere (fun _ => Firm) s)
  (hix : ix < s.points.length) {p : Point} (hzero : isZeroTest p.current.opcode = true)
include hsound hfirm hix hzero

/-- The check that a branch finds before it was given as one. -/
theorem checked_of_before (hgiven : p.current = (s.point ix).given) {check tested object : Nat}
    {type : Descriptor} (h : Narrowing.checkBefore? c (s.points.set ix p) ix =
      some (check, tested, object, type)) :
    ∃ b : CheckedBranch c ix, b.branch = p.current ∧ b.check = check ∧ b.tested = tested ∧
      b.object = object ∧ b.type = type := by
  obtain ⟨honly, hdistinct, ⟨p', hp', hreads⟩, q, hq, hopcode, hwrites, hchecks, hnames⟩ :=
    Narrowing.checkBefore?_eq_some h
  rw [List.getElem?_set_self hix] at hp'
  cases hp'
  have hne : check ≠ ix := by
    rintro rfl
    rw [List.getElem?_set_self hix] at hq
    cases hq
    rw [hopcode] at hzero
    cases hzero
  obtain ⟨-, hcheck_at⟩ :=
    given_of_set hsound hfirm hq hne (CheckForm.not_symbolic (.inr (.inl hopcode)))
  have hbranch_at : c.code.instructions[ix]? = some p.current := by
    rw [hgiven]
    exact (hsound.points ix hix).given
  exact ⟨⟨p.current, check, q.current, tested, object, type, hbranch_at, hzero, hreads, honly,
    hcheck_at, hopcode, hwrites, hchecks, hnames, hdistinct⟩, rfl, rfl, rfl, rfl, rfl⟩

/-- So was the move that a copy comes from, and the copy had the type of the checked
    register before the check. -/
theorem copy_of_copied {b : CheckedBranch c ix} {source : Nat} {known : RegisterType}
    (h : Narrowing.copiedFrom? c (s.points.set ix p) b.check b.tested b.object known =
      some source) :
    (∃ k : b.Copy, k.source = source) ∧ (s.point b.check).pre[source]? = some known := by
  obtain ⟨hdistinct, hbefore, move, q, honly, hq, hmove, hwrites, hcopies⟩ :=
    Narrowing.copiedFrom?_eq_some h
  have hne : move ≠ ix := by
    rintro rfl
    rw [List.getElem?_set_self hix] at hq
    cases hq
    rcases isMoveObject_cases hmove with h | h | h <;> rw [h] at hzero <;> cases hzero
  obtain ⟨-, hmove_at⟩ :=
    given_of_set hsound hfirm hq hne (CheckForm.not_symbolic (.inr (.inr hmove)))
  refine ⟨⟨⟨move, q.current, source, honly, hmove_at, hmove, hwrites, hcopies, hdistinct⟩, rfl⟩, ?_⟩
  rw [List.getElem?_set_ne b.check_ne.symm] at hbefore
  obtain ⟨q', hq', hknown⟩ := Option.bind_eq_some_iff.1 hbefore
  obtain ⟨rfl, -⟩ := point_eq_of_getElem? hq'
  exact hknown

/-- An override is that of a checked branch, and widens nothing where the type of
    the checked register was known. Copies had that type before the check. -/
theorem afterCheck_told (hgiven : p.current = (s.point ix).given)
    (hpre : p.pre = (s.point ix).pre) {m : Memo}
    (hm : ClassPath.Recalling c.path.OnlyAbove m) {n : Narrowing}
    (h : ((Narrowing.afterCheck c (s.points.set ix p) ix).run m).1 = some n) :
    ∃ (b : CheckedBranch c ix) (known : RegisterType), b.Overrides n ∧
      (s.point ix).pre[b.object]? = some known ∧ Narrowing.Tightens c.path known b.type ∧
      ∀ r t, (r, t) ∈ n.registers → r = b.object ∨ (s.point b.check).pre[r]? = some known := by
  obtain ⟨p', check, tested, object, type, known, hart, hp', hbefore, -, hclass, hknown, hkept,
    hside, hregisters⟩ := Narrowing.afterCheck_some h
  rw [List.getElem?_set_self hix] at hp'
  cases hp'
  obtain ⟨b, hbranch, rfl, rfl, rfl, rfl⟩ :=
    checked_of_before hsound hfirm hix hzero hgiven hbefore
  rw [← hbranch] at hside
  rw [hpre] at hknown
  have htightens := (Narrowing.keepsOrTightens_gives c.path known b.type m hm).1 hkept
  cases hcopied : Narrowing.copiedFrom? c (s.points.set ix p) b.check b.tested b.object known with
  | none =>
    rw [hcopied] at hregisters
    refine ⟨b, known, ⟨hart, hside, hclass, [], hregisters⟩, hknown, htightens, fun r t hr => ?_⟩
    rw [hregisters] at hr
    exact .inl (Prod.mk.inj (List.mem_singleton.1 hr)).1
  | some source =>
    obtain ⟨⟨k, rfl⟩, hcopy⟩ := copy_of_copied hsound hfirm hix hzero hcopied
    rw [hcopied] at hregisters
    have hb : b.Overrides n := ⟨hart, hside, hclass, [k], hregisters⟩
    refine ⟨b, known, hb, hknown, htightens, fun r t hr => ?_⟩
    rcases hb.register_cases hr with rfl | ⟨k', rfl⟩
    · exact .inl rfl
    · cases Subsingleton.elim k k'
      exact .inr hcopy

end

/-! ## Overrides along a run -/

/-- An override is that of a checked branch, and widens nothing while the state
    before the branch is not new. -/
def Told (c : MethodContext) (ix : Nat) (st : Status) : Prop :=
  ∀ n, st.point.narrowing = some n → ∃ b : CheckedBranch c ix, b.Overrides n ∧
    (¬st.queued → ∃ known, st.point.pre[b.object]? = some known ∧
      Narrowing.Tightens c.path known b.type)

theorem Visit.pre (hix : ix < s.points.length) (h : Visit c ix s s₁ ts) :
    (s₁.point ix).pre = (s.point ix).pre := by
  cases h <;> rw [point_set_self (s := s) rfl hix]

namespace Told

theorem stable (c : MethodContext) : Stable c (Told c) where
  grows h _ _ := h
  refreshed h _ := fun n hn =>
    let ⟨b, hb, _⟩ := h n hn
    ⟨b, hb, fun hqueued => absurd trivial hqueued⟩

/-- What a branch knows after a visit it learned there. -/
theorem visit_learned (h : Told c ix (s.status ix)) (hsound : Sound c memo s)
    (hfirm : Everywhere (fun _ => Firm) s) (hm : ClassPath.Recalling c.path.OnlyAbove s.memo)
    (hix : ix < s.points.length) (hvisit : Visit c ix s s₁ ts) {n : Narrowing}
    (hn : (s₁.point ix).narrowing = some n) :
    ∃ (b : CheckedBranch c ix) (known : RegisterType), b.Overrides n ∧
      (s.point ix).pre[b.object]? = some known ∧ Narrowing.Tightens c.path known b.type ∧
      ∀ r t, (r, t) ∈ n.registers → r = b.object ∨ (s.point b.check).pre[r]? = some known := by
  have hfirm₁ : Firm (s₁.status ix) := (hfirm ix hix).visit hix hvisit
  -- an override from before belongs to a branch, which neither waits nor throws
  have hbranch (hold : (s.point ix).narrowing = some n) :
      isZeroTest (s.point ix).given.opcode = true := by
    obtain ⟨b, -, -⟩ := h n hold
    exact (hsound.points ix hix).zeroTest b
  cases hvisit with
  | passed hqueue hthrowing =>
    rw [status_set hix] at hfirm₁
    rw [point_set_self (s := s) rfl hix] at hn
    have hnone : (s.point ix).throwing = none := (hfirm₁.check_form (.inl (hbranch hn))).2.2
    rw [hnone] at hthrowing
    cases hthrowing
  | parked =>
    rw [status_set hix] at hfirm₁
    rw [point_set_self (s := s) rfl hix] at hn
    cases (hfirm₁.check_form (.inl (hbranch hn))).2.1
  | @analyzed queue cur post narrowing memo' hqueue hthrowing heffect hmemo hlearned =>
    rw [status_set hix] at hfirm₁
    rw [point_set_self (s := s) rfl hix] at hn
    cases (show narrowing = some n from hn)
    rcases hlearned with ⟨hother, hold⟩ | ⟨hzero, p, hcurrent, hpre, hnew⟩
    · have hzero : isZeroTest (s.point ix).given.opcode = true := hbranch hold.symm
      have hcur : cur = (s.point ix).given := (hfirm₁.check_form (.inl hzero)).1
      rw [← hcur] at hzero
      exact nomatch hother.symm.trans hzero
    · have hgiven : cur = (s.point ix).given :=
        hfirm₁.current_given (CheckForm.not_symbolic (.inl hzero))
      have hcurrent : p.current = cur := hcurrent
      have htransfer := (c.path.keeps_onlyAbove
        (site c s.points ix (s.point ix)).transfer_composed s.memo hm).2
      exact afterCheck_told hsound hfirm hix (hcurrent ▸ hzero) (hcurrent.trans hgiven) hpre
        htransfer hnew.symm

theorem visit (h : Told c ix (s.status ix)) (hsound : Sound c memo s)
    (hfirm : Everywhere (fun _ => Firm) s) (hm : ClassPath.Recalling c.path.OnlyAbove s.memo)
    (hix : ix < s.points.length) (hvisit : Visit c ix s s₁ ts) : Told c ix (s₁.status ix) := by
  intro n hn
  obtain ⟨b, known, hb, hknown, htightens, -⟩ :=
    visit_learned h hsound hfirm hm hix hvisit hn
  refine ⟨b, hb, fun _ => ⟨known, ?_, htightens⟩⟩
  rw [status_point, hvisit.pre hix]
  exact hknown

theorem aid (h : Told c ix (s.status ix)) (hsound : Sound c memo s) (hfirm : Firm (s.status ix))
    (hix : ix < s.points.length) (haid : Aid c ix s s₁ ts) : Told c ix (s₁.status ix) := by
  -- a branch does not wait, so it is not helped
  have hok : PointOk c ix (s.status ix) := hsound.points ix hix
  have hnot (hparked : (s.point ix).parked.isSome) {P : Prop}
      (hzero : isZeroTest (s.point ix).given.opcode = true) : P := by
    rw [show (s.point ix).parked = none from (hfirm.check_form (.inl hzero)).2.1] at hparked
    cases hparked
  have hfirm₁ : Firm (s₁.status ix) := hfirm.aid hix haid
  cases haid with
  | tried =>
    rw [status_set hix]
    exact h
  | unhelped hparked =>
    rw [status_set hix]
    intro n hn
    obtain ⟨b, -, -⟩ := h n hn
    exact hnot hparked (hok.zeroTest b)
  | @helped t cur post narrowing memo' note hparked _ _ _ _ _ hlearned =>
    rw [status_set hix] at hfirm₁ ⊢
    intro n hn
    cases (show narrowing = some n from hn)
    rcases hlearned with ⟨-, hold⟩ | ⟨hzero, -⟩
    · obtain ⟨b, -, -⟩ := h n hold.symm
      exact hnot hparked (hok.zeroTest b)
    · have hgiven : cur = (s.point ix).given :=
        hfirm₁.current_given (CheckForm.not_symbolic (.inl hzero))
      exact hnot hparked (hgiven ▸ hzero)
  | gaveUp hparked =>
    rw [status_set hix]
    intro n hn
    obtain ⟨b, -, -⟩ := h n hn
    exact hnot (by rw [hparked]; rfl) (hok.zeroTest b)

end Told

theorem Steps.told (hc : c.Built) (hm : ClassPath.Recalling c.path.OnlyAbove memo) {count : Nat}
    (h : Steps c (Session.initial c memo) count s) : Everywhere (Told c) s := by
  have hboth : Everywhere (fun ix st => Firm st ∧ Told c ix st) s := by
    refine h.everywhere hc ((Firm.stable c).and (Told.stable c))
      (fun _ _ _ => ⟨⟨fun _ _ => ⟨rfl, rfl, rfl⟩, .inl rfl, fun _ hreached => nomatch hreached⟩,
        fun _ hn => nomatch hn⟩) ?_ ?_
    · intro count s s₁ ix ts hsteps hsound hix hboth hvisit
      exact ⟨hboth.1.visit hix hvisit, hboth.2.visit hsound (hsteps.firm hc)
        (hsteps.memo c.path.keeps_onlyAbove (initial_memo c.path.keeps_onlyAbove hm)) hix hvisit⟩
    · intro s s₁ ix ts hsound hix hboth haid
      exact ⟨hboth.1.aid hix haid, hboth.2.aid hsound hboth.1 hix haid⟩
  exact fun ix hix => (hboth ix hix).2

end Session

end SymbolicDex
