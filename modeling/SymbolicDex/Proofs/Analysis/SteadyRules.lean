import SymbolicDex.Analysis.Session
import SymbolicDex.Proofs.Hierarchy.Questions

/- The forms of the optimizer's instructions, and the rules as questions to the
   class path. Whatever a rule says of an instruction, it asks the class path for
   nothing but tables of classes, so what it says stays as the memo grows.

   What is proved:
     1. `restore_eq`, `isOdex_iff`: there are eight forms of the optimizer's
        instructions, and all have a rule but the verification error.
     2. `transfer_composed`, `afterCheck_composed`, `mergedPre_composed`: restoring
        and applying an instruction, learning from a check and merging states are
        put together from questions for tables.
     3. `transfer_steady`, `afterCheck_steady`, `mergedPre_steady`: so they are
        steady. -/
namespace SymbolicDex

/-! ## The optimizer's forms -/

/-- How an opcode of the optimizer is restored. -/
inductive OdexForm where
  | barrier
  | quickField
  | quickCall
  | superCall
  | inlineCall
  | emptyConstructor
  | objectConstructor
  | volatileField
  /-- Nothing is restored. -/
  | plain
deriving DecidableEq

/-- The form says nothing without the class of its object. -/
def OdexForm.NeedsObject (f : OdexForm) : Prop := f = .quickField ∨ f = .quickCall

instance (f : OdexForm) : Decidable f.NeedsObject := inferInstanceAs (Decidable (_ ∨ _))

def Opcode.odexForm : Opcode → OdexForm
  | .returnVoidBarrier | .returnVoidNoBarrier => .barrier
  | .igetQuick | .igetWideQuick | .igetObjectQuick | .igetBooleanQuick | .igetByteQuick
  | .igetCharQuick | .igetShortQuick
  | .iputQuick | .iputWideQuick | .iputObjectQuick | .iputBooleanQuick | .iputByteQuick
  | .iputCharQuick | .iputShortQuick => .quickField
  | .invokeVirtualQuick | .invokeVirtualQuickRange => .quickCall
  | .invokeSuperQuick | .invokeSuperQuickRange => .superCall
  | .executeInline | .executeInlineRange => .inlineCall
  | .invokeDirectEmpty => .emptyConstructor
  | .invokeObjectInitRange => .objectConstructor
  | .igetVolatile | .igetWideVolatile | .igetObjectVolatile
  | .iputVolatile | .iputWideVolatile | .iputObjectVolatile
  | .sgetVolatile | .sgetWideVolatile | .sgetObjectVolatile
  | .sputVolatile | .sputWideVolatile | .sputObjectVolatile => .volatileField
  | _ => .plain

/-- Every opcode of the optimizer has a form, but for the verification error,
    which has no symbolic one. -/
theorem Opcode.isOdex_iff (o : Opcode) :
    o.isOdex = true ↔ o.odexForm ≠ .plain ∨ o = .throwVerificationError := by
  cases o <;> decide

namespace Instruction

/-- The instruction needs no restoring. -/
def Plain (i : Instruction) : Prop := i.opcode.odexForm = .plain

/-- Reads an element of an array, of a type that the array tells. -/
def ReadsElement (i : Instruction) : Prop := i.opcode = .agetWide ∨ i.opcode = .agetObject

theorem ReadsElement.plain {i : Instruction} (h : i.ReadsElement) : i.Plain := by
  unfold Plain
  rcases h with h | h <;> rw [h] <;> rfl

theorem Plain.not_needsObject {i : Instruction} (h : i.Plain) :
    ¬i.opcode.odexForm.NeedsObject := by
  rw [h]
  decide

theorem ReadsElement.effect {i : Instruction} (h : i.ReadsElement) :
    i.opcode.registerEffect ≠ .field ∧ i.opcode.registerEffect ≠ .keep ∧
      i.opcode.registerEffect ≠ .construct := by
  rcases h with h | h <;> rw [h] <;> decide

instance (i : Instruction) : Decidable i.Plain := inferInstanceAs (Decidable (_ = _))

instance (i : Instruction) : Decidable i.ReadsElement := inferInstanceAs (Decidable (_ ∨ _))

end Instruction

namespace Site

variable (s : Site)

theorem restore_eq (i : Instruction) :
    s.restore i =
      match i.opcode.odexForm with
      | .barrier => pure (i.withOpcode .returnVoid, true)
      | .quickField => do return (← s.restoreQuickField i, true)
      | .quickCall => do return (← s.restoreQuickCall i, true)
      | .superCall => do return (← s.restoreSuperCall i, true)
      | .inlineCall => do return (← s.restoreInline i, false)
      | .emptyConstructor => pure (i.withOpcode .invokeDirect, true)
      | .objectConstructor =>
        pure ((i.withOpcode .invokeDirectRange).withReference (.method objectConstructor), true)
      | .volatileField => do return (← restoreVolatile i, true)
      | .plain => pure (i, true) := by
  cases i with
  | mk opcode => cases opcode <;> rfl

theorem restore_plain {i : Instruction} (h : i.Plain) : s.restore i = pure (i, true) := by
  rw [restore_eq, h]

end Site

/-! ## Merges -/

namespace RegisterType

open Query

variable (p : ClassPath)

theorem mergeClass_composed (a b : RegisterType) :
    Composed p (fun _ => True) (mergeClass p a b) := by
  unfold mergeClass
  split
  · exact .bind (p.commonSuperclass_composed trivial _ _) fun _ => .pure _
  all_goals exact .pure _

theorem merge_composed (a b : RegisterType) : Composed p (fun _ => True) (merge p a b) := by
  unfold merge
  refine .ite (.pure _) (.ite (.pure _) ?_)
  split
  · exact .bind (mergeClass_composed p a b) fun _ => .pure _
  all_goals exact .pure _

theorem mergeAll_composed (as bs : List RegisterType) :
    Composed p (fun _ => True) (mergeAll p as bs) := by
  induction as generalizing bs with
  | nil => exact .pure _
  | cons a as ih =>
    cases bs with
    | nil => exact .pure _
    | cons b bs =>
      unfold mergeAll
      have hrest (c : RegisterType) :
          Composed p (fun _ => True) (do return c :: (← mergeAll p as bs)) :=
        .bind (ih bs) fun _ => .pure _
      exact .ite (.bind (.pure _) hrest) (.bind (merge_composed p a b) hrest)

end RegisterType

/-! ## What the rules ask -/

namespace Rule

variable {p : ClassPath} {α β : Type}

/-- All that the rule asks is asked of the class path. -/
def Asks (p : ClassPath) (x : Rule α) : Prop := Query.Composed p (fun _ => True) x.run

theorem Asks.pure (a : α) : Asks p (Pure.pure a : Rule α) := Query.Composed.pure _

theorem Asks.throw (e : Halt) : Asks p (MonadExcept.throw e : Rule α) := Query.Composed.pure _

theorem Asks.lift {q : Query α} (hq : Query.Composed p (fun _ => True) q) :
    Asks p (liftM q : Rule α) := .bind hq fun _ => .pure _

theorem Asks.bind {x : Rule α} {f : α → Rule β} (hx : Asks p x) (hf : ∀ a, Asks p (f a)) :
    Asks p (x >>= f) := p.composed_run_bind hx hf

theorem Asks.ite {c : Prop} [Decidable c] {x y : Rule α} (hx : Asks p x) (hy : Asks p y) :
    Asks p (if c then x else y) := p.composed_run_ite hx hy

theorem Asks.need (a : Option α) (fault : AnalysisFault) : Asks p (Rule.need a fault) := by
  cases a with
  | none => exact .throw _
  | some b => exact .pure _

/-- What is made of questions for tables is steady as they are. -/
theorem Asks.steady {x : Rule α} (h : Asks p x) : Fallible.Steady x := Query.Composed.steady h

end Rule

namespace Site

open Rule

variable (s : Site)

/-- What stands in an object register: the recovered type if there is one. -/
def objectIn (r : Nat) : Option RegisterType := s.hint.or s.pre[r]?

theorem objectType_eq (r : Nat) :
    s.objectType r = Rule.need (s.objectIn r) (.registerRange r) := by
  unfold objectType objectIn
  cases s.hint <;> rfl

variable {p : ClassPath}

theorem objectType_asks (r : Nat) : Asks p (s.objectType r) := by
  rw [objectType_eq]
  exact .need _ _

theorem objectClass_asks (opcode : Opcode) (r : Nat) : Asks p (s.objectClass opcode r) := by
  refine .bind (s.objectType_asks r) fun t => ?_
  split
  · exact .throw _
  all_goals first | exact .ite (.throw _) (.pure _) | exact .throw _

theorem lookup_asks {α : Type} (r : Nat) {l : Lookup α}
    (h : Query.Composed p (fun _ => True) l.run) : Asks p (lookup r l) := by
  refine .bind (.lift h) fun a => ?_
  split
  · exact .pure _
  · exact .throw _
  · exact .throw _

theorem vtableIndex_asks (i : Instruction) : Asks p (vtableIndex i) := by
  unfold vtableIndex
  split
  · exact .pure _
  · exact .throw _

theorem restoreQuickField_asks (i : Instruction) : Asks s.path (s.restoreQuickField i) := by
  unfold restoreQuickField
  -- both ways to get the offset go on with the same `rest`
  extract_lets rest
  have hrest (offset : Nat) : Asks s.path (rest offset) := by
    refine .bind (.need _ _) fun register => ?_
    refine .bind (s.objectClass_asks _ _) fun object => ?_
    refine .bind (lookup_asks _ (s.path.resolveField_composed trivial _ _ _)) fun field => ?_
    split
    · exact .pure _
    · exact .throw _
  split
  · exact .bind (.pure _) hrest
  · exact .bind (.throw _) hrest

theorem restoreQuickCall_asks (i : Instruction) : Asks s.path (s.restoreQuickCall i) := by
  refine .bind (vtableIndex_asks i) fun index => ?_
  refine .bind (.need _ _) fun register => ?_
  refine .bind (s.objectClass_asks _ _) fun object => ?_
  exact .bind (lookup_asks _ (s.path.resolveMethod_composed trivial _ _ _ _)) fun _ => .pure _

theorem restoreSuperCall_asks (i : Instruction) : Asks s.path (s.restoreSuperCall i) := by
  refine .bind (vtableIndex_asks i) fun index => ?_
  refine .bind (.need _ _) fun superclass => ?_
  refine .bind (.lift (s.path.resolveMethod_composed trivial _ _ _ _)) fun r => ?_
  split
  · exact .throw _
  · exact .throw _
  · exact .pure _

theorem restoreInline_asks (i : Instruction) : Asks p (s.restoreInline i) := by
  unfold restoreInline
  dsimp only
  split
  · refine .bind (.pure _) fun index => ?_
    exact .bind (.need _ _) fun _ => .pure _
  · refine .bind (.throw _) fun index => ?_
    exact .bind (.need _ _) fun _ => .pure _

theorem restore_asks (i : Instruction) : Asks s.path (s.restore i) := by
  rw [restore_eq]
  cases i.opcode.odexForm with
  | barrier => exact .pure _
  | quickField => exact .bind (s.restoreQuickField_asks i) fun _ => .pure _
  | quickCall => exact .bind (s.restoreQuickCall_asks i) fun _ => .pure _
  | superCall => exact .bind (s.restoreSuperCall_asks i) fun _ => .pure _
  | inlineCall => exact .bind (s.restoreInline_asks i) fun _ => .pure _
  | emptyConstructor => exact .pure _
  | objectConstructor => exact .pure _
  | volatileField =>
    refine .bind (.bind (.need _ _) fun _ => ?_) fun _ => .pure _
    exact .bind (.need _ _) fun _ => .pure _
  | plain => exact .pure _

theorem write_asks (r : Nat) (t : RegisterType) : Asks p (s.write r t) := by
  refine .ite (.throw _) ?_
  split
  · exact .pure _
  · exact .ite (.throw _) (.pure _)

theorem writeDest_asks (i : Instruction) (t : RegisterType) : Asks p (s.writeDest i t) :=
  .bind (.need _ _) fun _ => s.write_asks _ _

theorem resultType_asks (moveOp : Opcode) (producer : Instruction) :
    Asks p (resultType moveOp producer) := by
  unfold resultType
  split
  · exact .bind (.need _ _) fun _ => .pure _
  · exact .bind (.need _ _) fun _ => .pure _
  · split
    · exact .pure _
    · exact .throw _
  · split
    · exact .pure _
    · exact .throw _
  · exact .pure _
  · exact .pure _
  · split
    · exact .throw _
    · exact .ite (.throw _) (.pure _)

theorem construct_asks (i : Instruction) : Asks p (s.construct i) := by
  unfold construct
  split
  · exact .pure _
  · refine .ite (.pure _) (.bind (.need _ _) fun r => ?_)
    refine .bind (.need _ _) fun object => .ite ?_ (.pure _)
    split <;> exact .pure _

theorem wideElement_asks (array : RegisterType) (r : Nat) : Asks p (wideElement array r) := by
  unfold wideElement
  split
  · exact .pure _
  · exact .ite (.pure _) (.ite (.pure _) (.throw _))
  · exact .throw _

theorem objectElement_asks (path : ClassPath) (array : RegisterType) (r : Nat) :
    Asks p (objectElement path array r) := by
  unfold objectElement
  split
  · exact .pure _
  · split
    · exact .ite (.pure _) (.throw _)
    · exact .throw _
  · exact .throw _

theorem mergeReferences_composed (p : ClassPath) (ds : List Descriptor) :
    Query.Composed p (fun _ => True) (mergeReferences p ds) :=
  .foldlM (fun _ _ => RegisterType.merge_composed _ _ _) _ _

theorem apply_asks (i : Instruction) : Asks s.path (s.apply i) := by
  unfold apply
  cases i.opcode.registerEffect with
  | keep => exact .pure _
  | copy =>
    refine .bind (.need _ _) fun _ => .bind (.need _ _) fun _ => ?_
    exact .bind (.need _ _) fun _ => s.write_asks _ _
  | result =>
    refine .bind (.need _ _) fun _ => .bind (.need _ _) fun _ => ?_
    exact .bind (resultType_asks _ _) fun _ => s.write_asks _ _
  | exception =>
    refine .bind (.need _ _) fun _ => ?_
    split
    · exact .throw _
    · exact .bind (.lift (mergeReferences_composed _ _)) fun _ => s.write_asks _ _
  | literal =>
    refine .bind (.need _ _) fun _ => ?_
    exact .bind (.need _ _) fun _ => s.write_asks _ _
  | value _ => exact s.writeDest_asks _ _
  | ofClass _ => exact s.writeDest_asks _ _
  | named =>
    refine .bind (.need _ _) fun _ => ?_
    exact .bind (.need _ _) fun _ => s.write_asks _ _
  | newInstance =>
    refine .bind (.need _ _) fun _ => ?_
    exact .bind (.need _ _) fun _ => s.write_asks _ _
  | wideElement =>
    refine .bind (.need _ _) fun _ => .bind (.need _ _) fun _ => ?_
    refine .bind (s.objectType_asks _) fun _ => ?_
    exact .bind (wideElement_asks _ _) fun _ => s.write_asks _ _
  | objectElement =>
    refine .bind (.need _ _) fun _ => .bind (.need _ _) fun _ => ?_
    refine .bind (s.objectType_asks _) fun _ => ?_
    exact .bind (objectElement_asks _ _ _) fun _ => s.write_asks _ _
  | field =>
    refine .bind (.need _ _) fun _ => ?_
    exact .bind (.need _ _) fun _ => s.write_asks _ _
  | construct => exact s.construct_asks _
  | bitwise _ _ =>
    refine .bind (.need _ _) fun _ => .bind (.need _ _) fun _ => ?_
    refine .bind (.need _ _) fun _ => .bind (.need _ _) fun _ => ?_
    exact s.writeDest_asks _ _
  | bitwiseLiteral =>
    refine .bind (.need _ _) fun _ => .bind (.need _ _) fun _ => ?_
    exact s.writeDest_asks _ _
  | shiftRight _ =>
    refine .bind (.need _ _) fun _ => .bind (.need _ _) fun _ => ?_
    exact s.writeDest_asks _ _

theorem transfer_composed : Query.Composed s.path (fun _ => True) s.transfer := by
  refine .bind (s.restore_asks _) fun r => ?_
  split
  · exact .pure _
  · exact .pure _
  · exact .bind (s.apply_asks _) fun _ => .pure _

end Site

theorem Narrowing.keepsOrTightens_composed (p : ClassPath) (known : RegisterType)
    (narrowed : Descriptor) :
    Query.Composed p (fun _ => True) (keepsOrTightens p known narrowed) := by
  unfold keepsOrTightens
  split
  · exact .pure _
  · exact .pure _
  · split
    · refine .bind (p.implements_composed trivial _ _) fun r => ?_
      split <;> exact .pure _
    · exact .bind (p.commonSuperclass_composed trivial _ _) fun _ => .pure _
    · exact .pure _
  · exact .pure _

theorem Narrowing.afterCheck_composed (c : MethodContext) (points : List Point) (ix : Nat) :
    Query.Composed c.path (fun _ => True) (afterCheck c points ix) := by
  unfold afterCheck
  refine .ite (.pure _) ?_
  split
  · dsimp only
    split
    · split
      · refine .bind (keepsOrTightens_composed _ _ _) fun kept => ?_
        refine .ite ?_ (.pure _)
        split <;> exact .pure _
      · exact .pure _
    · exact .pure _
  · exact .pure _

theorem Session.mergedPre_composed (c : MethodContext) (points : List Point) (ix : Nat) :
    Query.Composed c.path (fun _ => True) (mergedPre c points ix) :=
  .foldlM (fun _ _ => RegisterType.mergeAll_composed _ _ _) _ _

/-! ## What the rules say stays -/

namespace Site

variable (s : Site)

theorem objectClass_steady (opcode : Opcode) (r : Nat) :
    Fallible.Steady (s.objectClass opcode r) :=
  (s.objectClass_asks (p := s.path) opcode r).steady

theorem restore_steady (i : Instruction) : Fallible.Steady (s.restore i) :=
  (s.restore_asks i).steady

theorem apply_steady (i : Instruction) : Fallible.Steady (s.apply i) := (s.apply_asks i).steady

theorem transfer_steady : Query.Steady s.transfer := s.transfer_composed.steady

theorem transfer_grows : Query.Grows s.transfer := s.transfer_steady.grows

end Site

theorem Narrowing.afterCheck_steady (c : MethodContext) (points : List Point) (ix : Nat) :
    Query.Steady (afterCheck c points ix) := (afterCheck_composed c points ix).steady

theorem Session.mergedPre_steady (c : MethodContext) (points : List Point) (ix : Nat) :
    Query.Steady (mergedPre c points ix) := (mergedPre_composed c points ix).steady

end SymbolicDex
