import SymbolicDex.Proofs.Analysis.Bookkeeping

/- Instructions that keep their form. What is restored is a return, or names a field
   or a method, so every other instruction stands as it was given. Of these only
   reads of array elements ever wait.

   What is proved:
     1. `transfer_symbolic`: an analysis leaves an instruction as it is, or it is one
        of these forms afterwards.
     2. `apply_instanceOf`: a check sets its first operand and nothing else.
     3. `Steps.firm`: so at every step a check, a branch or a move stands as it was
        given, and the state after a check is as the state before, but for its first
        operand. -/
namespace SymbolicDex

/-! ## Restored forms -/

namespace Instruction

/-- The forms that the optimizer's instructions are restored to: a return, or an
    instruction that names a field or a method. -/
def Symbolic (i : Instruction) : Prop :=
  i.opcode = .returnVoid ∨ i.opcode.operand = .field ∨ i.opcode.operand = .method

end Instruction

theorem FieldGroup.opcode_operand (group : FieldGroup) (slot : FieldSlot) :
    (group.opcode slot).operand = .field := by
  cases group <;> cases slot <;> rfl

theorem Opcode.plainAccess?_operand {o o' : Opcode} {type : Descriptor}
    (h : o.plainAccess? type = some o') : o'.operand = .field := by
  unfold Opcode.plainAccess? at h
  simp only [Option.bind_eq_bind, Option.bind_eq_some_iff] at h
  obtain ⟨⟨group, width⟩, -, slot, -, h⟩ := h
  split at h
  · cases h
    exact group.opcode_operand slot
  · cases h

namespace Site

open Rule

variable (s : Site)

theorem restoreQuickField_operand (i : Instruction) :
    Ensures (s.restoreQuickField i) (fun j => j.opcode.operand = .field) fun _ => True := by
  unfold restoreQuickField
  dsimp only
  split
  · refine Ensures.bind (.any _) fun offset _ => ?_
    refine Ensures.bind (.any _) fun register _ => ?_
    refine Ensures.bind (.any _) fun object _ => ?_
    refine Ensures.bind (.any _) fun field _ => ?_
    split
    · rename_i opcode hopcode
      exact Ensures.pure (Opcode.plainAccess?_operand hopcode)
    · exact Ensures.throw trivial
  · exact Ensures.bind (Ensures.fail trivial : Ensures _ (fun _ => False) _) fun _ h => h.elim

theorem restoreVolatile_operand (i : Instruction) :
    Ensures (restoreVolatile i) (fun j => j.opcode.operand = .field) fun _ => True := by
  refine Ensures.bind (.any _) fun field _ => ?_
  refine Ensures.bind .found fun opcode hopcode => ?_
  exact Ensures.pure (Opcode.plainAccess?_operand hopcode)

theorem restoreQuickCall_operand (i : Instruction) :
    Ensures (s.restoreQuickCall i) (fun j => j.opcode.operand = .method) fun _ => True := by
  refine Ensures.bind (.any _) fun index _ => ?_
  refine Ensures.bind (.any _) fun register _ => ?_
  refine Ensures.bind (.any _) fun object _ => ?_
  refine Ensures.bind (.any _) fun method _ => Ensures.pure ?_
  dsimp only [Instruction.withOpcode, Instruction.withReference]
  split <;> rfl

theorem restoreSuperCall_operand (i : Instruction) :
    Ensures (s.restoreSuperCall i) (fun j => j.opcode.operand = .method) fun _ => True := by
  refine Ensures.bind (.any _) fun index _ => ?_
  refine Ensures.bind (.any _) fun superclass _ => ?_
  refine Ensures.bind (.any _) fun r _ => ?_
  split
  · exact Ensures.throw trivial
  · exact Ensures.throw trivial
  · refine Ensures.pure ?_
    dsimp only [Instruction.withOpcode, Instruction.withReference]
    split <;> rfl

theorem restoreInline_operand (i : Instruction) :
    Ensures (s.restoreInline i) (fun j => j.opcode.operand = .method) fun _ => True := by
  unfold restoreInline
  dsimp only
  split
  · refine Ensures.bind (.any _) fun index _ => ?_
    refine Ensures.bind (.any _) fun target _ => Ensures.pure ?_
    dsimp only [Instruction.withOpcode, Instruction.withReference]
    unfold InlineMethod.invokeOpcode
    split <;> rfl
  · exact Ensures.bind (Ensures.fail trivial : Ensures _ (fun _ => False) _) fun _ h => h.elim

theorem restore_symbolic (i : Instruction) :
    Ensures (s.restore i) (fun r => r.1 = i ∨ r.1.Symbolic) fun _ => True := by
  rw [restore_eq]
  cases i.opcode.odexForm with
  | barrier => exact Ensures.pure (.inr (.inl rfl))
  | quickField =>
    exact Ensures.bind (s.restoreQuickField_operand i) fun _ hj =>
      Ensures.pure (.inr (.inr (.inl hj)))
  | quickCall =>
    exact Ensures.bind (s.restoreQuickCall_operand i) fun _ hj =>
      Ensures.pure (.inr (.inr (.inr hj)))
  | superCall =>
    exact Ensures.bind (s.restoreSuperCall_operand i) fun _ hj =>
      Ensures.pure (.inr (.inr (.inr hj)))
  | inlineCall =>
    exact Ensures.bind (s.restoreInline_operand i) fun _ hj =>
      Ensures.pure (.inr (.inr (.inr hj)))
  | emptyConstructor => exact Ensures.pure (.inr (.inr (.inr rfl)))
  | objectConstructor => exact Ensures.pure (.inr (.inr (.inr rfl)))
  | volatileField =>
    exact Ensures.bind (restoreVolatile_operand i) fun _ hj =>
      Ensures.pure (.inr (.inr (.inl hj)))
  | plain => exact Ensures.pure (.inl rfl)

/-- An analysis leaves the instruction as it is, or in a symbolic form. -/
theorem transfer_symbolic {m : Memo} {i : Instruction} {post : Except Halt (List RegisterType)}
    (h : (s.transfer.run m).1 = ⟨i, post⟩) : i = s.current ∨ i.Symbolic := by
  rcases s.transfer_cases m with ⟨e, -, he⟩ | ⟨j, hj, he⟩ | ⟨j, hj, he, -⟩
  · cases he.symm.trans h
    exact .inl rfl
  · cases he.symm.trans h
    exact (s.restore_symbolic s.current m).1 _ hj
  · cases he.symm.trans h
    exact (s.restore_symbolic s.current m).1 _ hj

/-- A check sets its first operand to a truth value. -/
theorem apply_instanceOf {i : Instruction} (hopcode : i.opcode = .instanceOf) :
    Ensures (s.apply i) (fun post => ∃ r, i.register? 0 = some r ∧
      post = s.pre.set r (RegisterType.ofCategory .boolean)) fun _ => True := by
  have heffect : i.opcode.registerEffect = .value .boolean := by rw [hopcode]; rfl
  simp only [apply, heffect]
  refine Ensures.bind .found fun r hr => ?_
  exact Ensures.ite (fun _ => Ensures.throw trivial) fun _ => Ensures.pure ⟨r, hr, rfl⟩

end Site

/-! ## What a session does to them -/

namespace Session

variable {c : MethodContext} {memo : Memo} {s s₁ : Session} {ix : Nat} {ts : List Nat}

/-- How the form of an instruction stands, and the state after a check. -/
structure Firm (st : Status) : Prop where
  /-- What needs no restoring and reads no element stays and does not wait. -/
  kept : st.point.given.Plain → ¬st.point.given.ReadsElement →
    st.point.current = st.point.given ∧ st.point.parked = none ∧ st.point.throwing = none
  symbolic : st.point.current = st.point.given ∨ st.point.current.Symbolic
  checked : st.point.given.opcode = .instanceOf → st.point.reached = true → ¬st.queued →
    st.point.analyzed = true ∧ ∃ r, st.point.given.register? 0 = some r ∧
      st.point.post = st.point.pre.set r (RegisterType.ofCategory .boolean)

namespace Firm

theorem stable (c : MethodContext) : Stable c fun _ st => Firm st where
  grows h _ _ := ⟨h.kept, h.symbolic, h.checked⟩
  refreshed h _ := ⟨h.kept, h.symbolic, fun _ _ hqueued => absurd trivial hqueued⟩

theorem instanceOf_plain {i : Instruction} (h : i.opcode = .instanceOf) :
    i.Plain ∧ ¬i.ReadsElement := by
  unfold Instruction.Plain Instruction.ReadsElement
  rw [h]
  decide

theorem symbolic_transfer (h : Firm (s.status ix)) {seen : Site} {m : Memo} {cur : Instruction}
    {post : Except Halt (List RegisterType)} (hcurrent : seen.current = (s.point ix).current)
    (heffect : (seen.transfer.run m).1 = ⟨cur, post⟩) :
    cur = (s.point ix).given ∨ cur.Symbolic := by
  rcases seen.transfer_symbolic heffect with hcur | hcur
  · rw [hcur, hcurrent]
    exact h.symbolic
  · exact .inr hcur

/-- What waits needs restoring or reads an element. -/
theorem not_kept (h : Firm (s.status ix)) (hparked : (s.point ix).parked.isSome) :
    (s.point ix).given.Plain → (s.point ix).given.ReadsElement := by
  intro hplain
  by_contra hreads
  rw [show (s.point ix).parked = none from (h.kept hplain hreads).2.1] at hparked
  cases hparked

theorem visit (h : Firm (s.status ix)) (hix : ix < s.points.length)
    (hvisit : Visit c ix s s₁ ts) : Firm (s₁.status ix) := by
  cases hvisit with
  | passed hqueue hthrowing =>
    rw [status_set hix]
    refine ⟨h.kept, h.symbolic, fun hcheck => ?_⟩
    obtain ⟨hplain, hreads⟩ := instanceOf_plain hcheck
    rw [show (s.point ix).throwing = none from (h.kept hplain hreads).2.2] at hthrowing
    cases hthrowing
  | @analyzed queue cur post narrowing memo hqueue hthrowing heffect =>
    rw [status_set hix]
    have hcur (hcurrent : (s.point ix).current = (s.point ix).given)
        (hplain : (s.point ix).given.Plain) : cur = (s.point ix).given := by
      have hplain' : (s.point ix).current.Plain := hcurrent ▸ hplain
      exact ((Site.transfer_ok _ heffect).2.1 hplain').trans hcurrent
    refine ⟨fun hplain hreads => ⟨hcur (h.kept hplain hreads).1 hplain, rfl, hthrowing⟩,
      h.symbolic_transfer rfl heffect, fun hcheck _ _ => ⟨rfl, ?_⟩⟩
    obtain ⟨hplain, hreads⟩ := instanceOf_plain hcheck
    have hcurrent : (s.point ix).current = (s.point ix).given := (h.kept hplain hreads).1
    rw [Site.transfer_plain _ (show (s.point ix).current.Plain from hcurrent ▸ hplain)] at heffect
    injection heffect with _ heffect
    rw [show (site c s.points ix (s.point ix)).current = (s.point ix).given from hcurrent]
      at heffect
    exact (Site.apply_instanceOf _ hcheck s.memo).1 post heffect
  | @parked queue cur r f hqueue hthrowing heffect =>
    rw [status_set hix]
    have hwaits (hplain : (s.point ix).given.Plain) (hreads : ¬(s.point ix).given.ReadsElement) :
        False := by
      have hcurrent : (s.point ix).current = (s.point ix).given := (h.kept hplain hreads).1
      rcases Site.transfer_error _ heffect with ⟨-, hneeds⟩ | ⟨-, hsame, -, -, -, helement⟩
      · exact (hcurrent ▸ hplain : (s.point ix).current.Plain).not_needsObject (hneeds r f rfl)
      · have hplain' : (s.point ix).current.Plain := hcurrent ▸ hplain
        have hcur : cur = (s.point ix).current := hsame hplain'
        exact hreads (hcurrent ▸ hcur ▸ (helement r f rfl).1)
    refine ⟨fun hplain hreads => (hwaits hplain hreads).elim, h.symbolic_transfer rfl heffect,
      fun hcheck => ?_⟩
    obtain ⟨hplain, hreads⟩ := instanceOf_plain hcheck
    exact (hwaits hplain hreads).elim

theorem aid (h : Firm (s.status ix)) (hix : ix < s.points.length) (haid : Aid c ix s s₁ ts) :
    Firm (s₁.status ix) := by
  -- a kept instruction does not wait, so it is not helped
  have hnot (hparked : (s.point ix).parked.isSome) {P : Prop} (hplain : (s.point ix).given.Plain)
      (hreads : ¬(s.point ix).given.ReadsElement) : P :=
    (hreads (h.not_kept hparked hplain)).elim
  have hcheck (hparked : (s.point ix).parked.isSome) {P : Prop}
      (hcheck : (s.point ix).given.opcode = .instanceOf) : P :=
    hnot hparked (instanceOf_plain hcheck).1 (instanceOf_plain hcheck).2
  cases haid with
  | tried hparked =>
    rw [status_set hix]
    exact ⟨h.kept, h.symbolic, h.checked⟩
  | unhelped hparked _ heffect =>
    rw [status_set hix]
    exact ⟨hnot hparked, h.symbolic_transfer rfl heffect, hcheck hparked⟩
  | helped hparked _ _ heffect =>
    rw [status_set hix]
    exact ⟨hnot hparked, h.symbolic_transfer rfl heffect, hcheck hparked⟩
  | gaveUp hparked =>
    have hparked : (s.point ix).parked.isSome := by rw [hparked]; rfl
    rw [status_set hix]
    exact ⟨hnot hparked, h.symbolic, hcheck hparked⟩

end Firm

theorem Steps.firm (hc : c.Built) {count : Nat}
    (h : Steps c (Session.initial c memo) count s) : Everywhere (fun _ st => Firm st) s :=
  h.everywhere hc (Firm.stable c)
    (fun _ _ _ => ⟨fun _ _ => ⟨rfl, rfl, rfl⟩, .inl rfl, fun _ hreached => nomatch hreached⟩)
    (fun _ _ hix hfirm hvisit => hfirm.visit hix hvisit)
    fun _ hix hfirm haid => hfirm.aid hix haid

end Session

end SymbolicDex
