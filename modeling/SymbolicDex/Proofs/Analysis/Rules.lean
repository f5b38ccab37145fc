import SymbolicDex.Proofs.Analysis.SteadyRules

/- What the rules can do to an instruction. A rule either answers or halts, and
   `Rule.Ensures` says what then holds of the answer or of the halt.

   What is proved:
     1. `restore_ensures`: what is restored is plain and keeps operands and size,
        only an inline call keeps its effect for later, and only an access
        through an object register waits.
     2. `apply_ensures`: a plain instruction waits only if it reads an array
        element, and always has a failure to show for it.
     3. `restoreQuickField_ok`, `restoreQuickCall_ok`: a restored access names
        the member that the lookup gives for the class of its object. -/
namespace SymbolicDex

namespace Rule

variable {α β : Type}

/-- Answers satisfy `P` and halts satisfy `E`. -/
def Ensures (x : Rule α) (P : α → Prop) (E : Halt → Prop) : Prop :=
  ∀ m : Memo, (∀ a, (x.run.run m).1 = .ok a → P a) ∧ ∀ h, (x.run.run m).1 = .error h → E h

section

variable {P Q : α → Prop} {R : β → Prop} {E : Halt → Prop}

theorem bind_error {x : Rule α} {f : α → Rule β} {m : Memo} {e : Halt}
    (h : ((x >>= f).run.run m).1 = .error e) :
    (x.run.run m).1 = .error e ∨
      ∃ a, (x.run.run m).1 = .ok a ∧ ((f a).run.run (x.run.run m).2).1 = .error e := by
  rw [ExceptT.run_bind, Query.run_bind] at h
  cases hx : (x.run.run m).1 with
  | ok a =>
    rw [hx] at h
    exact .inr ⟨a, rfl, h⟩
  | error e' =>
    rw [hx] at h
    cases h
    exact .inl rfl

theorem Ensures.pure {a : α} (h : P a) : Ensures (Pure.pure a : Rule α) P E := by
  intro m
  refine ⟨fun b hb => ?_, fun h hh => ?_⟩
  · cases hb
    exact h
  · cases hh

theorem Ensures.throw {e : Halt} (h : E e) : Ensures (MonadExcept.throw e : Rule α) P E := by
  intro m
  refine ⟨fun b hb => ?_, fun h' hh => ?_⟩
  · cases hb
  · cases hh
    exact h

theorem Ensures.bind {x : Rule α} {f : α → Rule β} (hx : Ensures x P E)
    (hf : ∀ a, P a → Ensures (f a) R E) : Ensures (x >>= f) R E := by
  intro m
  refine ⟨fun b hb => ?_, fun e he => ?_⟩
  · obtain ⟨a, ha, hb, -⟩ := Fallible.bind_ok hb
    exact (hf a ((hx m).1 a ha) _).1 b hb
  · rcases bind_error he with he | ⟨a, ha, he⟩
    · exact (hx m).2 e he
    · exact (hf a ((hx m).1 a ha) _).2 e he

theorem Ensures.mono {x : Rule α} {E' : Halt → Prop} (hx : Ensures x P E)
    (hP : ∀ a, P a → Q a) (hE : ∀ h, E h → E' h) : Ensures x Q E' :=
  fun m => ⟨fun a ha => hP a ((hx m).1 a ha), fun h hh => hE h ((hx m).2 h hh)⟩

theorem Ensures.ite {c : Prop} [Decidable c] {x y : Rule α} (hx : c → Ensures x P E)
    (hy : ¬c → Ensures y P E) : Ensures (if c then x else y) P E := by
  by_cases h : c
  · simpa only [h, if_true] using hx h
  · simpa only [h, if_false] using hy h

theorem Ensures.fail {fault : AnalysisFault} (h : E (.failed (AnalysisFailure.of fault))) :
    Ensures (Rule.fail fault : Rule α) P E := Ensures.throw h

theorem Ensures.need {a : Option α} {fault : AnalysisFault} (hP : ∀ b, a = some b → P b)
    (hE : E (.failed (AnalysisFailure.of fault))) : Ensures (Rule.need a fault) P E := by
  cases a with
  | none => exact Ensures.fail hE
  | some b => exact Ensures.pure (hP b rfl)

/-- What is needed is what was there. -/
theorem Ensures.found {a : Option α} {fault : AnalysisFault} :
    Ensures (Rule.need a fault) (fun b => a = some b) fun _ => True :=
  Ensures.need (fun _ h => h) trivial

theorem Ensures.any (x : Rule α) : Ensures x (fun _ => True) fun _ => True :=
  fun _ => ⟨fun _ _ => trivial, fun _ _ => trivial⟩

theorem need_some_bind (a : α) (fault : AnalysisFault) (f : α → Rule β) :
    (Rule.need (some a) fault >>= f) = f a := by
  rw [show Rule.need (some a) fault = pure a from rfl, pure_bind]

end

end Rule

/-! ## What is restored -/

namespace Instruction

/-- The register that holds the object of an access which needs one. -/
def objectRegister? (i : Instruction) : Option Nat :=
  match i.opcode.odexForm with
  | .quickField => i.register? 1
  | .quickCall => i.register? 0
  | _ => none

theorem needsObject_of_objectRegister? {i : Instruction} {r : Nat}
    (h : i.objectRegister? = some r) : i.opcode.odexForm.NeedsObject := by
  unfold objectRegister? at h
  split at h
  · exact .inl ‹_›
  · exact .inr ‹_›
  · cases h

/-- `j` has the operands and the size of `i`; opcode and reference may differ. -/
structure Retains (i j : Instruction) : Prop where
  operands : ∃ opcode reference, j = { i with opcode := opcode, reference := reference }
  size : j.codeUnits = i.codeUnits

theorem Retains.refl (i : Instruction) : i.Retains i := ⟨⟨i.opcode, i.reference, rfl⟩, rfl⟩

theorem retains_of_format {i : Instruction} {o : Opcode} (reference : Option Reference)
    (h : o.format.codeUnits = i.opcode.format.codeUnits) :
    i.Retains { i with opcode := o, reference := reference } := by
  refine ⟨⟨o, reference, rfl⟩, ?_⟩
  simp only [codeUnits, h]

end Instruction

theorem Opcode.barrier_codeUnits {o : Opcode} (h : o.odexForm = .barrier) :
    o.format.codeUnits = some 1 := by
  cases o <;> revert h <;> decide

/-- The optimizer's calls are as long as plain ones. -/
theorem Opcode.call_codeUnits {o : Opcode}
    (h : o.odexForm ∈ [.quickCall, .superCall, .inlineCall, .emptyConstructor,
      .objectConstructor]) : o.format.codeUnits = some 3 := by
  cases o <;> revert h <;> decide

theorem Opcode.fieldAccess?_codeUnits {o : Opcode} (h : o.fieldAccess?.isSome) :
    o.format.codeUnits = some 2 := by
  cases o <;> revert h <;> decide

theorem FieldGroup.opcode_codeUnits (group : FieldGroup) (slot : FieldSlot) :
    (group.opcode slot).format.codeUnits = some 2 := by
  cases group <;> cases slot <;> rfl

theorem FieldGroup.opcode_plain (group : FieldGroup) (slot : FieldSlot) :
    (group.opcode slot).odexForm = .plain ∧
      ((group.opcode slot).registerEffect = .field ∨
        (group.opcode slot).registerEffect = .keep) := by
  cases group <;> cases slot <;> decide

theorem Opcode.plainAccess?_inv {o o' : Opcode} {type : Descriptor}
    (h : o.plainAccess? type = some o') :
    o'.format.codeUnits = o.format.codeUnits ∧ o'.odexForm = .plain ∧
      (o'.registerEffect = .field ∨ o'.registerEffect = .keep) := by
  unfold Opcode.plainAccess? at h
  simp only [Option.bind_eq_bind, Option.bind_eq_some_iff] at h
  obtain ⟨⟨group, width⟩, haccess, slot, -, h⟩ := h
  have hsize : o.format.codeUnits = some 2 :=
    Opcode.fieldAccess?_codeUnits (Option.isSome_of_eq_some haccess)
  split at h
  · cases h
    exact ⟨(group.opcode_codeUnits slot).trans hsize.symm, group.opcode_plain slot⟩
  · cases h

/-- A register type that names the class `d`. -/
def RegisterType.Names (t : RegisterType) (d : Descriptor) : Prop :=
  (t.category = .reference ∨ t.category = .uninitRef ∨ t.category = .uninitThis) ∧
    t.cls = some d ∧ d ≠ Descriptor.unknown

namespace Site

open Rule Fallible

variable (s : Site)

/-- If it waits, `P` holds of the register it waits for and of the failure. -/
def Waits (P : Nat → Option AnalysisFailure → Prop) (h : Halt) : Prop :=
  ∀ r f, h = .parked r f → P r f

section

variable {P : Nat → Option AnalysisFailure → Prop}

theorem waits_failed (f : AnalysisFailure) : Waits P (.failed f) := fun _ _ h => nomatch h

theorem waits_endless : Waits P .endless := fun _ _ h => nomatch h

theorem waits_parked {r : Nat} {f : Option AnalysisFailure} (h : P r f) :
    Waits P (.parked r f) := by
  intro r' f' hparked
  cases hparked
  exact h

theorem need_ensures {α : Type} {a : Option α} {fault : AnalysisFault} :
    Ensures (Rule.need a fault) (fun b => a = some b) (Waits P) :=
  Ensures.need (fun _ h => h) (waits_failed _)

/-- A question to the class path does not halt. -/
theorem ask_ensures {α : Type} {E : Halt → Prop} (q : Query α) :
    Ensures (liftM q : Rule α) (fun _ => True) E :=
  fun _ => ⟨fun _ _ => trivial, fun _ h => nomatch h⟩

theorem objectClass_ensures (opcode : Opcode) {r : Nat} (hP : ∀ f, P r f) :
    Ensures (s.objectClass opcode r) (fun d => ∃ t, s.objectIn r = some t ∧ t.Names d)
      (Waits P) := by
  unfold objectClass
  rw [objectType_eq]
  refine Ensures.bind need_ensures fun t ht => ?_
  have hnamed {d : Descriptor} (hcategory : t.category = .reference ∨ t.category = .uninitRef ∨
      t.category = .uninitThis) (hcls : t.cls = some d) (hd : ¬d = Descriptor.unknown) :
      ∃ t, s.objectIn r = some t ∧ t.Names d := ⟨t, ht, hcategory, hcls, hd⟩
  have hwaits (f : Option AnalysisFailure) : Waits P (.parked r f) := waits_parked (hP f)
  split
  · exact Ensures.throw (hwaits _)
  · exact Ensures.ite (fun _ => Ensures.throw (hwaits _)) fun hd =>
      Ensures.pure (hnamed (.inl ‹_›) ‹_› hd)
  · exact Ensures.ite (fun _ => Ensures.throw (hwaits _)) fun hd =>
      Ensures.pure (hnamed (.inr (.inl ‹_›)) ‹_› hd)
  · exact Ensures.ite (fun _ => Ensures.throw (hwaits _)) fun hd =>
      Ensures.pure (hnamed (.inr (.inr ‹_›)) ‹_› hd)
  · exact Ensures.throw (hwaits _)

theorem lookup_ensures {α : Type} {r : Nat} {l : Lookup α} (hP : ∀ f, P r f) :
    Ensures (lookup r l) (fun _ => True) (Waits P) := by
  refine Ensures.bind (ask_ensures _) fun answer _ => ?_
  split
  · exact Ensures.pure trivial
  · exact Ensures.throw (waits_parked (hP _))
  · exact Ensures.throw waits_endless

end

theorem lookup_run {α : Type} (r : Nat) (l : Lookup α) (m : Memo) :
    (lookup r l).run.run m =
      StateT.run (ExceptT.run (match (l.run.run m).1 with
        | .ok a => (pure a : Rule α)
        | .error (.failed f) => throw (.parked r (some f))
        | .error .endless => throw .endless)) (l.run.run m).2 := rfl

theorem lookup_ok {α : Type} {r : Nat} {l : Lookup α} {m : Memo} {a : α}
    (h : ((lookup r l).run.run m).1 = .ok a) :
    (l.run.run m).1 = .ok a ∧ ((lookup r l).run.run m).2 = (l.run.run m).2 := by
  rw [lookup_run] at h ⊢
  cases hl : (l.run.run m).1 with
  | ok b =>
    rw [hl] at h
    cases h
    exact ⟨rfl, rfl⟩
  | error e =>
    rw [hl] at h
    cases e <;> cases h

/-- A lookup for the class of an object register: what it gave it gives again. -/
theorem objectLookup_ok {α β : Type} {opcode : Opcode} {r : Nat} {l : Descriptor → Lookup α}
    {k : α → Rule β} (hk : ∀ a, Steady (k a)) {m : Memo} (hm : m.busy = []) {b : β}
    (h : ((do let d ← s.objectClass opcode r; let a ← lookup r (l d); k a : Rule β).run.run m).1 =
      .ok b) :
    ∃ t d a m', s.objectIn r = some t ∧ t.Names d ∧
      Query.Answered (l d).run (.ok a)
        ((do let d ← s.objectClass opcode r; let a ← lookup r (l d); k a : Rule β).run.run m).2 ∧
      ((k a).run.run m').1 = .ok b := by
  obtain ⟨d, hd, h, hend⟩ := Fallible.bind_ok h
  obtain ⟨t, ht, hnames⟩ :=
    (s.objectClass_ensures opcode (P := fun _ _ => True) (fun _ => trivial) m).1 d hd
  obtain ⟨a, ha, h, hend'⟩ := Fallible.bind_ok h
  obtain ⟨ha, hm'⟩ := lookup_ok ha
  -- the lookup was asked of a memo without busy marks, so its answer stays
  have hidle := ((s.objectClass_steady opcode r).grows m).idle hm
  refine ⟨t, d, a, _, ht, hnames, ⟨_, hidle, ha, ?_⟩, h⟩
  rw [hend, hend', hm']
  exact (hk a).grows _

/-- A restored field access: the field is what the lookup gave for the class
    that the object register names. -/
theorem restoreQuickField_ok {i j : Instruction} {m : Memo} (hm : m.busy = [])
    (h : ((s.restoreQuickField i).run.run m).1 = .ok j) :
    ∃ offset register t object field opcode,
      i.reference = some (.fieldOffset offset) ∧ i.register? 1 = some register ∧
      s.objectIn register = some t ∧ t.Names object ∧
      Query.Answered (s.path.resolveField s.cls.descriptor object offset).run (.ok field)
        ((s.restoreQuickField i).run.run m).2 ∧
      i.opcode.plainAccess? field.type = some opcode ∧
      j = (i.withOpcode opcode).withReference (.field field) := by
  unfold restoreQuickField operand at h ⊢
  split at h
  · rename_i offset hoffset
    cases hregister : i.register? 1 with
    | none =>
      rw [hregister] at h
      cases h
    | some register =>
      rw [hregister] at h
      rw [hoffset]
      -- what follows the lookup asks nothing more
      obtain ⟨t, object, field, m', ht, hnames, hanswer, h⟩ := s.objectLookup_ok
        (fun field => by
          split
          · exact Steady.pure _
          · exact Steady.throw _) hm h
      split at h
      · rename_i opcode hopcode
        cases h
        exact ⟨offset, register, t, object, field, opcode, rfl, rfl, ht, hnames, hanswer,
          hopcode, rfl⟩
      · cases h
  · cases h

theorem restoreQuickCall_ok {i j : Instruction} {m : Memo} (hm : m.busy = [])
    (h : ((s.restoreQuickCall i).run.run m).1 = .ok j) :
    ∃ index register t object method,
      i.reference = some (.vtableIndex index) ∧ i.register? 0 = some register ∧
      s.objectIn register = some t ∧ t.Names object ∧
      Query.Answered (s.path.resolveMethod s.cls.descriptor object index false).run (.ok method)
        ((s.restoreQuickCall i).run.run m).2 ∧
      j = (i.withOpcode (if i.opcode.format.isRange then .invokeVirtualRange else
        .invokeVirtual)).withReference (.method method) := by
  unfold restoreQuickCall vtableIndex operand at h ⊢
  split at h
  · rename_i index hindex
    cases hregister : i.register? 0 with
    | none =>
      rw [hregister] at h
      cases h
    | some register =>
      rw [hregister] at h
      rw [hindex]
      obtain ⟨t, object, method, m', ht, hnames, hanswer, h⟩ := s.objectLookup_ok
        (fun method => Steady.pure _) hm h
      cases h
      exact ⟨index, register, t, object, method, rfl, rfl, ht, hnames, hanswer, rfl⟩
  · cases h

/-! ## All forms at once -/

theorem vtableIndex_ensures {P : Nat → Option AnalysisFailure → Prop} {i : Instruction} :
    Ensures (vtableIndex i) (fun _ => True) (Waits P) := by
  unfold vtableIndex
  split
  · exact Ensures.pure trivial
  · exact Ensures.fail (waits_failed _)

theorem restoreSuperCall_ensures {i : Instruction} (hform : i.opcode.odexForm = .superCall) :
    Ensures (s.restoreSuperCall i) (fun j => j.Plain ∧ i.Retains j)
      (Waits fun _ _ => False) := by
  have hsize := Opcode.call_codeUnits (o := i.opcode) (by rw [hform]; decide)
  refine Ensures.bind vtableIndex_ensures fun index _ => ?_
  refine Ensures.bind need_ensures fun superclass _ => ?_
  refine Ensures.bind (ask_ensures _) fun r _ => ?_
  split
  · exact Ensures.throw (waits_failed _)
  · exact Ensures.throw waits_endless
  · refine Ensures.pure ⟨?_, Instruction.retains_of_format _ ?_⟩
    · dsimp only [Instruction.Plain, Instruction.withOpcode, Instruction.withReference]
      split <;> rfl
    · rw [hsize]
      split <;> rfl

theorem invokeOpcode_plain (target : InlineMethod) (range : Bool) :
    (target.invokeOpcode range).format.codeUnits = some 3 ∧
      (target.invokeOpcode range).odexForm = .plain ∧
      ((target.invokeOpcode range).registerEffect = .keep ∨
        (target.invokeOpcode range).registerEffect = .construct) := by
  unfold InlineMethod.invokeOpcode
  split <;> decide

theorem restoreInline_ensures {i : Instruction} (hform : i.opcode.odexForm = .inlineCall) :
    Ensures (s.restoreInline i)
      (fun j => j.Plain ∧ i.Retains j ∧ (j.opcode.registerEffect = .keep ∨
        j.opcode.registerEffect = .construct)) (Waits fun _ _ => False) := by
  have hsize := Opcode.call_codeUnits (o := i.opcode) (by rw [hform]; decide)
  unfold restoreInline
  dsimp only
  split
  · refine Ensures.bind (Ensures.pure trivial) fun index (_ : True) => ?_
    refine Ensures.bind need_ensures fun target _ => ?_
    obtain ⟨hunits, hplain, heffect⟩ := invokeOpcode_plain target i.opcode.format.isRange
    exact Ensures.pure
      ⟨hplain, Instruction.retains_of_format _ (hunits.trans hsize.symm), heffect⟩
  · exact Ensures.bind (Ensures.fail (waits_failed _) : Ensures _ (fun _ => False) _)
      fun _ h => h.elim

theorem restoreVolatile_ensures {i : Instruction} :
    Ensures (restoreVolatile i) (fun j => j.Plain ∧ i.Retains j) (Waits fun _ _ => False) := by
  refine Ensures.bind need_ensures fun field _ => ?_
  refine Ensures.bind need_ensures fun opcode h => ?_
  obtain ⟨hsize, hplain, -⟩ := Opcode.plainAccess?_inv h
  exact Ensures.pure ⟨hplain, Instruction.retains_of_format _ hsize⟩

theorem restoreQuickField_ensures {i : Instruction} :
    Ensures (s.restoreQuickField i)
      (fun j => j.Plain ∧ i.Retains j ∧
        (j.opcode.registerEffect = .field ∨ j.opcode.registerEffect = .keep))
      (Waits fun r _ => i.register? 1 = some r) := by
  unfold restoreQuickField
  dsimp only
  split
  · refine Ensures.bind (Ensures.pure trivial) fun offset (_ : True) => ?_
    refine Ensures.bind need_ensures fun register hregister => ?_
    refine Ensures.bind (s.objectClass_ensures _ fun _ => hregister) fun object _ => ?_
    refine Ensures.bind (lookup_ensures fun _ => hregister) fun field _ => ?_
    split
    · rename_i opcode hopcode
      obtain ⟨hsize, hplain, heffect⟩ := Opcode.plainAccess?_inv hopcode
      exact Ensures.pure ⟨hplain, Instruction.retains_of_format _ hsize, heffect⟩
    · exact Ensures.throw (waits_parked hregister)
  · exact Ensures.bind (Ensures.fail (waits_failed _) : Ensures _ (fun _ => False) _)
      fun _ h => h.elim

theorem restoreQuickCall_ensures {i : Instruction} (hform : i.opcode.odexForm = .quickCall) :
    Ensures (s.restoreQuickCall i)
      (fun j => j.Plain ∧ i.Retains j ∧ j.opcode.registerEffect = .keep)
      (Waits fun r _ => i.register? 0 = some r) := by
  have hsize := Opcode.call_codeUnits (o := i.opcode) (by rw [hform]; decide)
  refine Ensures.bind vtableIndex_ensures fun index _ => ?_
  refine Ensures.bind need_ensures fun register hregister => ?_
  refine Ensures.bind (s.objectClass_ensures _ fun _ => hregister) fun object _ => ?_
  refine Ensures.bind (lookup_ensures fun _ => hregister) fun method _ => ?_
  refine Ensures.pure ⟨?_, Instruction.retains_of_format _ ?_, ?_⟩
  · dsimp only [Instruction.Plain, Instruction.withOpcode, Instruction.withReference]
    split <;> rfl
  · rw [hsize]
    split <;> rfl
  · dsimp only [Instruction.withOpcode, Instruction.withReference]
    split <;> rfl

/-- What comes of restoring the instruction `i`. -/
structure Restored (i : Instruction) (r : Instruction × Bool) : Prop where
  plain : r.1.Plain
  retains : i.Retains r.1
  inlined : r.2 = false ↔ i.opcode.odexForm = .inlineCall
  called : i.opcode.odexForm = .inlineCall → r.1.opcode.registerEffect = .keep ∨
    r.1.opcode.registerEffect = .construct
  accessed : i.opcode.odexForm.NeedsObject → r.1.opcode.registerEffect = .field ∨
    r.1.opcode.registerEffect = .keep

/-- What has an effect of its own, and no object, is restored well once it is
    plain and keeps operands and size. -/
theorem Restored.of_retains {i j : Instruction} {form : OdexForm}
    (hform : i.opcode.odexForm = form) (hinline : form ≠ .inlineCall)
    (hobject : ¬form.NeedsObject) (hplain : j.Plain) (hretains : i.Retains j) :
    Restored i (j, true) where
  plain := hplain
  retains := hretains
  inlined := ⟨fun h => (nomatch h), fun h => absurd (hform.symm.trans h) hinline⟩
  called := fun h => absurd (hform.symm.trans h) hinline
  accessed := fun h => absurd (hform ▸ h) hobject

theorem restore_ensures (i : Instruction) :
    Ensures (s.restore i) (Restored i) (Waits fun r _ => i.objectRegister? = some r) := by
  have hnever (h : Halt) (hwaits : Waits (fun _ _ => False) h) :
      Waits (fun r _ => i.objectRegister? = some r) h := fun r f hh => (hwaits r f hh).elim
  rw [restore_eq]
  cases hform : i.opcode.odexForm with
  | barrier =>
    have hsize : Opcode.returnVoid.format.codeUnits = i.opcode.format.codeUnits := by
      rw [Opcode.barrier_codeUnits hform]
      rfl
    exact Ensures.pure (.of_retains hform (by decide) (by decide) rfl
      (Instruction.retains_of_format _ hsize))
  | quickField =>
    refine Ensures.bind (s.restoreQuickField_ensures.mono (fun _ h => h) fun h hh r f hparked => ?_)
      fun j hj => Ensures.pure ⟨hj.1, hj.2.1, by simp [hform], by simp [hform], fun _ => hj.2.2⟩
    rw [Instruction.objectRegister?, hform]
    exact hh r f hparked
  | quickCall =>
    refine Ensures.bind ((s.restoreQuickCall_ensures hform).mono (fun _ h => h)
      fun h hh r f hparked => ?_)
      fun j hj => Ensures.pure
        ⟨hj.1, hj.2.1, by simp [hform], by simp [hform], fun _ => .inr hj.2.2⟩
    rw [Instruction.objectRegister?, hform]
    exact hh r f hparked
  | superCall =>
    refine Ensures.bind ((s.restoreSuperCall_ensures hform).mono (fun _ h => h) hnever) fun j hj => ?_
    exact Ensures.pure (.of_retains hform (by decide) (by decide) hj.1 hj.2)
  | inlineCall =>
    refine Ensures.bind ((s.restoreInline_ensures hform).mono (fun _ h => h) hnever) fun j hj => ?_
    exact Ensures.pure ⟨hj.1, hj.2.1, by simp [hform], fun _ => hj.2.2,
      by simp [hform, OdexForm.NeedsObject]⟩
  | emptyConstructor =>
    have hsize := Opcode.call_codeUnits (o := i.opcode) (by rw [hform]; decide)
    exact Ensures.pure (.of_retains hform (by decide) (by decide) rfl
      (Instruction.retains_of_format _ hsize.symm))
  | objectConstructor =>
    have hsize := Opcode.call_codeUnits (o := i.opcode) (by rw [hform]; decide)
    exact Ensures.pure (.of_retains hform (by decide) (by decide) rfl
      (Instruction.retains_of_format _ hsize.symm))
  | volatileField =>
    refine Ensures.bind (restoreVolatile_ensures.mono (fun _ h => h) hnever) fun j hj => ?_
    exact Ensures.pure (.of_retains hform (by decide) (by decide) hj.1 hj.2)
  | plain =>
    exact Ensures.pure (.of_retains hform (by decide) (by decide) hform (.refl i))

/-! ## What a plain instruction does -/

theorem registerEffect_element {o : Opcode}
    (h : o.registerEffect = .wideElement ∨ o.registerEffect = .objectElement) :
    o = .agetWide ∨ o = .agetObject := by
  cases o <;> revert h <;> decide

section

variable {P : Nat → Option AnalysisFailure → Prop}

theorem write_ensures {r : Nat} {t : RegisterType} :
    Ensures (s.write r t) (fun _ => True) (Waits P) := by
  refine Ensures.ite (fun _ => Ensures.fail (waits_failed _)) fun _ => ?_
  split
  · exact Ensures.pure trivial
  · exact Ensures.ite (fun _ => Ensures.fail (waits_failed _)) fun _ => Ensures.pure trivial

theorem writeDest_ensures {i : Instruction} {t : RegisterType} :
    Ensures (s.writeDest i t) (fun _ => True) (Waits P) :=
  Ensures.bind need_ensures fun _ _ => s.write_ensures

theorem resultType_ensures {moveOp : Opcode} {producer : Instruction} :
    Ensures (resultType moveOp producer) (fun _ => True) (Waits P) := by
  unfold resultType
  split
  · exact Ensures.bind need_ensures fun _ _ => Ensures.pure trivial
  · exact Ensures.bind need_ensures fun _ _ => Ensures.pure trivial
  · split
    · exact Ensures.pure trivial
    · exact Ensures.fail (waits_failed _)
  · split
    · exact Ensures.pure trivial
    · exact Ensures.fail (waits_failed _)
  · exact Ensures.pure trivial
  · exact Ensures.pure trivial
  · split
    · exact Ensures.fail (waits_failed _)
    · exact Ensures.ite (fun _ => Ensures.fail (waits_failed _)) fun _ => Ensures.pure trivial

theorem construct_ensures {i : Instruction} :
    Ensures (s.construct i) (fun _ => True) (Waits P) := by
  unfold construct
  split
  · exact Ensures.pure trivial
  · refine Ensures.ite (fun _ => Ensures.pure trivial) fun _ => ?_
    refine Ensures.bind need_ensures fun r _ => Ensures.bind need_ensures fun object _ => ?_
    refine Ensures.ite (fun _ => ?_) fun _ => Ensures.pure trivial
    split <;> exact Ensures.pure trivial

theorem wideElement_ensures {array : RegisterType} {r : Nat} (hP : ∀ f, P r (some f)) :
    Ensures (wideElement array r) (fun _ => True) (Waits P) := by
  unfold wideElement
  split
  · exact Ensures.pure trivial
  · refine Ensures.ite (fun _ => Ensures.pure trivial) fun _ => ?_
    exact Ensures.ite (fun _ => Ensures.pure trivial) fun _ =>
      Ensures.throw (waits_parked (hP _))
  · exact Ensures.throw (waits_parked (hP _))

theorem objectElement_ensures {p : ClassPath} {array : RegisterType} {r : Nat}
    (hP : ∀ f, P r (some f)) :
    Ensures (objectElement p array r) (fun _ => True) (Waits P) := by
  unfold objectElement
  split
  · exact Ensures.pure trivial
  · split
    · exact Ensures.ite (fun _ => Ensures.pure trivial) fun _ =>
        Ensures.throw (waits_parked (hP _))
    · exact Ensures.throw (waits_parked (hP _))
  · exact Ensures.throw (waits_parked (hP _))

end

/-- Only a read of an array element waits, and it knows what is wrong. -/
theorem apply_ensures (i : Instruction) :
    Ensures (s.apply i) (fun _ => True) (Waits fun _ f => i.ReadsElement ∧ f.isSome) := by
  unfold apply
  cases heffect : i.opcode.registerEffect with
  | keep => exact Ensures.pure trivial
  | copy =>
    refine Ensures.bind need_ensures fun _ _ => Ensures.bind need_ensures fun _ _ => ?_
    exact Ensures.bind need_ensures fun _ _ => s.write_ensures
  | result =>
    refine Ensures.bind need_ensures fun _ _ => Ensures.bind need_ensures fun _ _ => ?_
    exact Ensures.bind resultType_ensures fun _ _ => s.write_ensures
  | exception =>
    refine Ensures.bind need_ensures fun _ _ => ?_
    split
    · exact Ensures.fail (waits_failed _)
    · exact Ensures.bind (fun _ => ⟨fun _ _ => trivial, fun _ h => nomatch h⟩)
        fun _ (_ : True) => s.write_ensures
  | literal =>
    refine Ensures.bind need_ensures fun _ _ => ?_
    exact Ensures.bind need_ensures fun _ _ => s.write_ensures
  | value _ => exact s.writeDest_ensures
  | ofClass _ => exact s.writeDest_ensures
  | named =>
    refine Ensures.bind need_ensures fun _ _ => ?_
    exact Ensures.bind need_ensures fun _ _ => s.write_ensures
  | newInstance =>
    refine Ensures.bind need_ensures fun _ _ => ?_
    exact Ensures.bind need_ensures fun _ _ => s.write_ensures
  | wideElement =>
    have hreads : i.ReadsElement := registerEffect_element (.inl heffect)
    refine Ensures.bind need_ensures fun _ _ => Ensures.bind need_ensures fun r _ => ?_
    rw [objectType_eq]
    refine Ensures.bind need_ensures fun _ _ => ?_
    exact Ensures.bind (wideElement_ensures fun _ => ⟨hreads, rfl⟩) fun _ _ => s.write_ensures
  | objectElement =>
    have hreads : i.ReadsElement := registerEffect_element (.inr heffect)
    refine Ensures.bind need_ensures fun _ _ => Ensures.bind need_ensures fun r _ => ?_
    rw [objectType_eq]
    refine Ensures.bind need_ensures fun _ _ => ?_
    exact Ensures.bind (objectElement_ensures fun _ => ⟨hreads, rfl⟩) fun _ _ => s.write_ensures
  | field =>
    refine Ensures.bind need_ensures fun _ _ => ?_
    exact Ensures.bind need_ensures fun _ _ => s.write_ensures
  | construct => exact s.construct_ensures
  | bitwise _ _ =>
    refine Ensures.bind need_ensures fun _ _ => Ensures.bind need_ensures fun _ _ => ?_
    refine Ensures.bind need_ensures fun _ _ => Ensures.bind need_ensures fun _ _ => ?_
    exact s.writeDest_ensures
  | bitwiseLiteral =>
    refine Ensures.bind need_ensures fun _ _ => Ensures.bind need_ensures fun _ _ => ?_
    exact s.writeDest_ensures
  | shiftRight _ =>
    refine Ensures.bind need_ensures fun _ _ => Ensures.bind need_ensures fun _ _ => ?_
    exact s.writeDest_ensures

/-- Only a move of a result looks at the instruction before. -/
theorem apply_elsewhere {i : Instruction} (h : i.opcode.registerEffect ≠ .result)
    (current : Instruction) (previous : Option Instruction) :
    ({ s with current := current, previous := previous }).apply i = s.apply i := by
  cases heffect : i.opcode.registerEffect with
  | result => exact absurd heffect h
  | _ => simp only [apply, heffect] <;> rfl

/-- Whether a register can be set depends on the number of registers alone. -/
theorem write_failed {s' : Site} (hlen : s'.pre.length = s.pre.length) {r : Nat}
    {t : RegisterType} {m : Memo} {h : Halt} (hrun : ((s.write r t).run.run m).1 = .error h) :
    (∃ f, h = .failed f) ∧ ∀ m', ((s'.write r t).run.run m').1 = .error h := by
  unfold write at hrun ⊢
  rw [hlen]
  split at hrun
  · rename_i hr
    cases hrun
    rw [if_pos hr]
    exact ⟨⟨_, rfl⟩, fun m' => rfl⟩
  · rename_i hr
    split at hrun
    · cases hrun
    · split at hrun
      · rename_i hpair
        cases hrun
        rw [if_neg hr, if_pos hpair]
        exact ⟨⟨_, rfl⟩, fun m' => rfl⟩
      · cases hrun

/-- An access to a field and a call fail for any types of the registers, if
    they fail for one. -/
theorem apply_failed {i : Instruction}
    (heffect : i.opcode.registerEffect = .field ∨ i.opcode.registerEffect = .keep)
    {s' : Site} (hlen : s'.pre.length = s.pre.length) {m : Memo} {h : Halt}
    (hrun : ((s.apply i).run.run m).1 = .error h) :
    (∃ f, h = .failed f) ∧ ∀ m', ((s'.apply i).run.run m').1 = .error h := by
  rcases heffect with heffect | heffect
  -- the field says what is written, whatever the registers hold
  · simp only [apply, heffect, operand] at hrun ⊢
    cases hdest : i.register? 0 with
    | none =>
      rw [hdest] at hrun
      cases hrun
      exact ⟨⟨_, rfl⟩, fun m' => rfl⟩
    | some dest =>
      cases hfield : i.fieldRef? with
      | none =>
        rw [hdest, hfield] at hrun
        cases hrun
        exact ⟨⟨_, rfl⟩, fun m' => rfl⟩
      | some field =>
        rw [hdest, hfield] at hrun
        exact s.write_failed hlen hrun
  · simp only [apply, heffect] at hrun
    cases hrun

/-! ## One analysis of an instruction -/

/-- The ways an analysis can go: nothing is restored, a call is restored and its
    effect is left for later, or the instruction is restored and applied. -/
theorem transfer_cases (m : Memo) :
    (∃ h, ((s.restore s.current).run.run m).1 = .error h ∧
      (s.transfer.run m).1 = ⟨s.current, .error h⟩) ∨
    (∃ i, ((s.restore s.current).run.run m).1 = .ok (i, false) ∧
      (s.transfer.run m).1 = ⟨i, .ok s.pre⟩) ∨
    (∃ i, ((s.restore s.current).run.run m).1 = .ok (i, true) ∧
      (s.transfer.run m).1 =
        ⟨i, ((s.apply i).run.run ((s.restore s.current).run.run m).2).1⟩ ∧
      (s.transfer.run m).2 = ((s.apply i).run.run ((s.restore s.current).run.run m).2).2) := by
  unfold transfer
  rw [Query.run_bind]
  cases h : ((s.restore s.current).run.run m).1 with
  | error e => exact .inl ⟨e, rfl, rfl⟩
  | ok r =>
    obtain ⟨i, flag⟩ := r
    cases flag with
    | false => exact .inr (.inl ⟨i, rfl, rfl⟩)
    | true => exact .inr (.inr ⟨i, rfl, rfl, rfl⟩)

theorem transfer_plain (h : s.current.Plain) (m : Memo) :
    (s.transfer.run m).1 = ⟨s.current, ((s.apply s.current).run.run m).1⟩ := by
  unfold transfer
  rw [s.restore_plain h]
  rfl

theorem restore_grows_transfer (m : Memo) :
    ((s.restore s.current).run.run m).2.Grows (s.transfer.run m).2 := by
  unfold transfer
  refine Query.Grows.rest (fun r => ?_) m
  split
  · exact Query.Grows.pure _
  · exact Query.Grows.pure _
  · exact Query.Grows.bind (s.apply_steady _).grows fun _ => Query.Grows.pure _

/-- An analysis with a state after the instruction. -/
theorem transfer_ok {m : Memo} {i : Instruction} {post : List RegisterType}
    (h : (s.transfer.run m).1 = ⟨i, .ok post⟩) :
    i.Plain ∧ (s.current.Plain → i = s.current) ∧
      (s.current.opcode.odexForm.NeedsObject →
        ((s.restore s.current).run.run m).1 = .ok (i, true)) ∧
      (s.current.opcode.odexForm = .inlineCall →
        post = s.pre ∧ (i.opcode.registerEffect = .keep ∨
          i.opcode.registerEffect = .construct)) := by
  have hrestored := s.restore_ensures s.current m
  have hplain (hp : s.current.Plain) : i = s.current := by
    rw [s.transfer_plain hp m] at h
    injection h with h
    exact h.symm
  rcases s.transfer_cases m with ⟨e, -, he⟩ | ⟨j, hj, he⟩ | ⟨j, hj, he, -⟩
  · rw [he] at h
    injection h with _ h
    cases h
  -- the effect is left for later: the form was an inline call
  · rw [he] at h
    injection h with hi h
    cases h
    subst hi
    have hr := hrestored.1 _ hj
    have hinline := hr.inlined.1 rfl
    refine ⟨hr.plain, hplain, fun hneeds => ?_, fun _ => ⟨rfl, hr.called hinline⟩⟩
    rw [hinline] at hneeds
    rcases hneeds with h | h <;> cases h
  · rw [he] at h
    injection h with hi h
    subst hi
    have hr := hrestored.1 _ hj
    exact ⟨hr.plain, hplain, fun _ => hj, fun hinline => nomatch hr.inlined.2 hinline⟩

/-- The state after an instruction is what its plain form makes of the state
    before, but for an inline call. -/
theorem transfer_answered {m : Memo} (hm : m.busy = []) {i : Instruction}
    {post : List RegisterType} (h : (s.transfer.run m).1 = ⟨i, .ok post⟩)
    (hinline : s.current.opcode.odexForm ≠ .inlineCall) :
    Query.Answered (s.apply i).run (.ok post) (s.transfer.run m).2 := by
  rcases s.transfer_cases m with ⟨e, -, he⟩ | ⟨j, hj, -⟩ | ⟨j, hj, he, hmemo⟩
  · rw [he] at h
    injection h with _ h
    cases h
  · exact absurd (((s.restore_ensures s.current m).1 _ hj).inlined.1 rfl) hinline
  · rw [he] at h
    injection h with hi h
    subst hi
    rw [hmemo]
    exact ⟨_, ((s.restore_steady _).grows m).idle hm, h, Memo.Grows.refl _⟩

/-- An analysis that halts left the instruction alone, or restored it and
    could not apply it. -/
theorem transfer_error {m : Memo} {i : Instruction} {e : Halt}
    (h : (s.transfer.run m).1 = ⟨i, .error e⟩) :
    (i = s.current ∧ ∀ r f, e = .parked r f → s.current.opcode.odexForm.NeedsObject) ∨
    (i.Plain ∧ (s.current.Plain → i = s.current) ∧ s.current.opcode.odexForm ≠ .inlineCall ∧
      (∃ m', ((s.apply i).run.run m').1 = .error e) ∧
      (s.current.opcode.odexForm.NeedsObject →
        i.opcode.registerEffect = .field ∨ i.opcode.registerEffect = .keep) ∧
      ∀ r f, e = .parked r f → i.ReadsElement ∧ f.isSome) := by
  have hrestored := s.restore_ensures s.current m
  have hplain (hp : s.current.Plain) : i = s.current := by
    rw [s.transfer_plain hp m] at h
    injection h with h
    exact h.symm
  rcases s.transfer_cases m with ⟨e', he', he⟩ | ⟨j, hj, he⟩ | ⟨j, hj, he, hmemo⟩
  · rw [he] at h
    injection h with hi h
    cases h
    exact .inl ⟨hi.symm, fun r f hparked =>
      Instruction.needsObject_of_objectRegister? (hrestored.2 _ he' r f hparked)⟩
  · rw [he] at h
    injection h with _ h
    cases h
  · rw [he] at h
    injection h with hi h
    subst hi
    have hr := hrestored.1 _ hj
    exact .inr ⟨hr.plain, hplain, fun hinline => (nomatch hr.inlined.2 hinline), ⟨_, h⟩,
      hr.accessed, (s.apply_ensures j _).2 _ h⟩

/-- An analysis leaves the instruction alone, or restores it. -/
theorem transfer_current (m : Memo) :
    (s.transfer.run m).1.current = s.current ∨
      ¬s.current.Plain ∧ (s.transfer.run m).1.current.Plain ∧
        s.current.Retains (s.transfer.run m).1.current := by
  by_cases hplain : s.current.Plain
  · left
    rw [s.transfer_plain hplain m]
  · have hrestored := (s.restore_ensures s.current m).1
    rcases s.transfer_cases m with ⟨e, -, he⟩ | ⟨j, hj, he⟩ | ⟨j, hj, he, -⟩
    · left
      rw [he]
    · rw [he]
      exact .inr ⟨hplain, (hrestored _ hj).plain, (hrestored _ hj).retains⟩
    · rw [he]
      exact .inr ⟨hplain, (hrestored _ hj).plain, (hrestored _ hj).retains⟩

/-- What waits without a failure waits for its object. -/
theorem transfer_parked {m : Memo} {i : Instruction} {r : Nat}
    (h : (s.transfer.run m).1 = ⟨i, .error (.parked r none)⟩) :
    s.current.objectRegister? = some r := by
  rcases s.transfer_cases m with ⟨e, he, heffect⟩ | ⟨j, -, heffect⟩ | ⟨j, -, heffect, -⟩
  · rw [heffect] at h
    injection h with _ h
    cases h
    exact (s.restore_ensures s.current m).2 _ he r none rfl
  · rw [heffect] at h
    injection h with _ h
    cases h
  -- the effect of a plain instruction waits only with a failure
  · rw [heffect] at h
    injection h with _ h
    obtain ⟨-, hfailure⟩ := (s.apply_ensures j _).2 _ h r none rfl
    cases hfailure

end Site

end SymbolicDex
