import SymbolicDex.Analysis.ClassRestore
import SymbolicDex.Proofs.Analysis.Completeness

/- Restoring leaves everything but the instructions in place. Branch targets,
   try blocks and debug info name code addresses, so whatever is written for an
   instruction has to fill its place exactly.

   What is proved:
     1. `addressesFrom_flatten`: blocks as long as the instructions they stand for
        start at the addresses of these.
     2. `Steps.intact`: at every step an instruction has its given form or is
        restored, with operands and size as given, and what can only throw
        throws its object.
     3. `rewrites_of_analyzed`: so the code of an analysis with a result is the
        given code, rewritten in place.
     4. `restoreClassWithin_of_le`: once every method is decided, more steps
        change nothing.
     5. `restoration_in_place`: a class differs after restoration only in the
        instructions of the methods that are reported restored. -/
namespace SymbolicDex

/-! ## Code rewritten in place -/

namespace Instruction

/-- Code units that instructions take together. -/
def totalUnits : List Instruction → Nat
  | [] => 0
  | i :: is => i.codeUnits + totalUnits is

theorem totalUnits_nops (count : Nat) :
    totalUnits (List.replicate count { opcode := .nop }) = count := by
  induction count with
  | zero => rfl
  | succ count ih =>
    calc totalUnits (List.replicate (count + 1) { opcode := .nop })
        = 1 + totalUnits (List.replicate count { opcode := .nop }) := rfl
      _ = count + 1 := by rw [ih, Nat.add_comm]

/-- What may be written for an instruction. -/
inductive StandsFor (given : Instruction) : List Instruction → Prop where
  | same : StandsFor given [given]
  /-- An instruction of the optimizer under another opcode. -/
  | reworded (opcode : Opcode) (reference : Option Reference)
      (hodex : given.opcode.isOdex = true) :
      StandsFor given [{ given with opcode := opcode, reference := reference }]
  /-- A throw of the object, and nops after it. -/
  | thrown {r : Nat} (hobject : given.objectRegister? = some r) (nops : Nat) :
      StandsFor given
        ({ opcode := .throwValue, registers := [r] } :: List.replicate nops { opcode := .nop })

/-- The block stands for `given` and takes as many code units. -/
structure Fills (given : Instruction) (block : List Instruction) : Prop where
  standsFor : given.StandsFor block
  size : totalUnits block = given.codeUnits

/-- `out` has a block for every instruction of `given`, and the block starts at
    the address of the instruction. -/
def Rewrites (given out : List Instruction) : Prop :=
  ∃ blocks, blocks.flatten = out ∧ List.Forall₂ Fills given blocks ∧
    (List.zipWith addressesFrom (addressesFrom 0 given) blocks).flatten = addressesFrom 0 out

theorem addressesFrom_append (start : Nat) (is js : List Instruction) :
    addressesFrom start (is ++ js) =
      addressesFrom start is ++ addressesFrom (start + totalUnits is) js := by
  induction is generalizing start with
  | nil => simp [addressesFrom, totalUnits]
  | cons i is ih => simp [addressesFrom, totalUnits, ih, Nat.add_assoc]

/-- Blocks of the right size laid from the addresses of what they stand for are
    laid one after the other. -/
theorem addressesFrom_flatten {given : List Instruction} {blocks : List (List Instruction)}
    (h : List.Forall₂ Fills given blocks) (start : Nat) :
    (List.zipWith addressesFrom (addressesFrom start given) blocks).flatten =
      addressesFrom start blocks.flatten := by
  induction h generalizing start with
  | nil => rfl
  | @cons i block is blocks hi _ ih =>
    calc (List.zipWith addressesFrom (addressesFrom start (i :: is)) (block :: blocks)).flatten
        = addressesFrom start block ++
            (List.zipWith addressesFrom (addressesFrom (start + i.codeUnits) is) blocks).flatten :=
          rfl
      _ = addressesFrom start block ++
            addressesFrom (start + totalUnits block) blocks.flatten := by rw [ih, hi.size]
      _ = addressesFrom start (block :: blocks).flatten := by
          rw [List.flatten_cons, addressesFrom_append]

theorem rewrites_of_fills {given : List Instruction} {blocks : List (List Instruction)}
    (h : List.Forall₂ Fills given blocks) : Rewrites given blocks.flatten :=
  ⟨blocks, rfl, h, addressesFrom_flatten h 0⟩

/-- The present form of an instruction: as given, or restored. -/
inductive Restates (given : Instruction) : Instruction → Prop where
  | same : Restates given given
  | restored {i : Instruction} (hodex : ¬given.Plain) (hplain : i.Plain)
      (hretains : given.Retains i) : Restates given i

namespace Restates

variable {given i j : Instruction}

/-- What is restored is plain, so it is restored once. -/
theorem trans (h : given.Restates i) (h' : i.Restates j) : given.Restates j := by
  cases h with
  | same => exact h'
  | restored hodex hplain hretains =>
    cases h' with
    | same => exact .restored hodex hplain hretains
    | restored hi => exact absurd hplain hi

/-- What still needs its object is as given. -/
theorem object_given {r : Nat} (h : given.Restates i) (hi : i.objectRegister? = some r) :
    given.objectRegister? = some r := by
  cases h with
  | same => exact hi
  | restored _ hplain _ =>
    exact absurd (needsObject_of_objectRegister? hi) hplain.not_needsObject

theorem fills (h : given.Restates i) : given.Fills [i] := by
  cases h with
  | same => exact ⟨.same, by simp [totalUnits]⟩
  | restored hodex _ hretains =>
    obtain ⟨opcode, reference, rfl⟩ := hretains.operands
    refine ⟨.reworded opcode reference ((Opcode.isOdex_iff _).2 (.inl hodex)), ?_⟩
    simpa [totalUnits] using hretains.size

end Restates

end Instruction

theorem Site.transfer_restates (s : Site) {m : Memo} {i : Instruction}
    {post : Except Halt (List RegisterType)} (h : (s.transfer.run m).1 = ⟨i, post⟩) :
    s.current.Restates i := by
  have hcurrent := s.transfer_current m
  rw [h] at hcurrent
  rcases hcurrent with hsame | ⟨hodex, hplain, hretains⟩
  · have hsame : i = s.current := hsame
    rw [hsame]
    exact .same
  · exact .restored hodex hplain hretains

/-! ## What a session does to an instruction -/

/-- What will be written at a point fits what was given. -/
structure Point.Intact (p : Point) : Prop where
  restates : p.given.Restates p.current
  parked : ∀ r, p.parked = some ⟨r, none⟩ → p.given.objectRegister? = some r
  throwing : ∀ r, p.throwing = some r → p.given.objectRegister? = some r

theorem Point.Intact.fills {p : Point} (h : p.Intact) : p.given.Fills p.emitted := by
  unfold Point.emitted
  cases hthrowing : p.throwing with
  | none => exact h.restates.fills
  | some r =>
    refine ⟨.thrown (h.throwing r hthrowing) _, ?_⟩
    have hpos := p.given.codeUnits_pos
    calc Instruction.totalUnits ({ opcode := .throwValue, registers := [r] } ::
          List.replicate (p.given.codeUnits - 1) { opcode := .nop })
        = 1 + (p.given.codeUnits - 1) := congrArg (1 + ·) (Instruction.totalUnits_nops _)
      _ = p.given.codeUnits := by omega

namespace Session

variable {c : MethodContext} {memo : Memo} {ix : Nat}

theorem intact_stable (c : MethodContext) : Stable c fun _ st => st.point.Intact where
  grows h _ _ := h
  refreshed h _ := ⟨h.restates, h.parked, h.throwing⟩

theorem Visit.intact {s s₁ : Session} {ts : List Nat} (hix : ix < s.points.length)
    (h : (s.point ix).Intact) (hvisit : Visit c ix s s₁ ts) : (s₁.status ix).point.Intact := by
  cases hvisit with
  | passed =>
    rw [status_set hix]
    exact ⟨h.restates, h.parked, h.throwing⟩
  | analyzed _ _ heffect =>
    rw [status_set hix]
    exact ⟨h.restates.trans (Site.transfer_restates _ heffect), fun _ hnone => (nomatch hnone),
      h.throwing⟩
  | parked _ _ heffect =>
    rw [status_set hix]
    refine ⟨h.restates.trans (Site.transfer_restates _ heffect), fun r hparked => ?_, h.throwing⟩
    cases hparked
    exact h.restates.object_given (Site.transfer_parked _ heffect)

theorem Aid.intact {s s₁ : Session} {ts : List Nat} (hix : ix < s.points.length)
    (h : (s.point ix).Intact) (haid : Aid c ix s s₁ ts) : (s₁.status ix).point.Intact := by
  cases haid with
  | tried =>
    rw [status_set hix]
    exact ⟨h.restates, h.parked, h.throwing⟩
  -- a form that a candidate led to stays, and is a restored one
  | unhelped _ _ heffect =>
    rw [status_set hix]
    exact ⟨h.restates.trans (Site.transfer_restates _ heffect), h.parked, h.throwing⟩
  | helped _ _ _ heffect =>
    rw [status_set hix]
    exact ⟨h.restates.trans (Site.transfer_restates _ heffect), fun _ hnone => (nomatch hnone),
      h.throwing⟩
  | gaveUp hparked =>
    rw [status_set hix]
    refine ⟨h.restates, fun _ hnone => (nomatch hnone), fun r hthrowing => ?_⟩
    cases hthrowing
    exact h.parked _ hparked

theorem Steps.intact (hc : c.Built) {count : Nat} {s : Session}
    (h : Steps c (Session.initial c memo) count s) :
    Everywhere (fun _ st => st.point.Intact) s := by
  refine h.everywhere hc (intact_stable c) (fun ix i _ => ?_) ?_ ?_
  · exact ⟨.same, fun _ hnone => (nomatch hnone), fun _ hnone => nomatch hnone⟩
  · intro count s s₁ ix ts _ _ hix hintact hvisit
    exact hvisit.intact hix hintact
  · intro s s₁ ix ts _ hix hintact haid
    exact haid.intact hix hintact

/-- The points of a session stand for the instructions of the method. -/
theorem Sound.givens {s : Session} (h : Sound c memo s) :
    s.points.map (·.given) = c.code.instructions := by
  refine List.ext_getElem? fun ix => ?_
  by_cases hix : ix < s.points.length
  · rw [List.getElem?_map, getElem?_points hix, (h.points ix hix).given]
    rfl
  · have hlen := h.length
    rw [List.getElem?_eq_none (by simpa using hix), List.getElem?_eq_none (by omega)]

theorem Finished.rewrites (hc : c.Built) {s : Session} (h : Finished c memo s) :
    Instruction.Rewrites c.code.instructions (s.points.flatMap (·.emitted)) := by
  obtain ⟨count, hsteps⟩ := h.steps
  have hfills : List.Forall₂ Instruction.Fills (s.points.map (·.given))
      (s.points.map (·.emitted)) := by
    rw [List.forall₂_map_left_iff, List.forall₂_map_right_iff, List.forall₂_same]
    intro p hp
    obtain ⟨ix, hix⟩ := List.mem_iff_getElem?.1 hp
    obtain ⟨rfl, hlt⟩ := point_eq_of_getElem? hix
    exact (hsteps.intact hc ix hlt).fills
  rw [(hsteps.sound hc).givens] at hfills
  rw [List.flatMap_def]
  exact Instruction.rewrites_of_fills hfills

end Session

/-- The code that an analysis gives is the code of the method, rewritten in
    place. -/
theorem ClassPath.rewrites_of_analyzed {path : ClassPath} {cls : ClassDef} {m : MethodDef}
    {code : Code} (hcode : m.code = some code) {steps : MethodContext → Nat} {memo : Memo}
    {a : MethodAnalysis} (h : ((path.analyzeWithin cls m steps).run memo).1 = some (.ok a)) :
    Instruction.Rewrites code.instructions a.restored := by
  obtain ⟨c, s, hc, hbuilt, hfinished, rfl, -⟩ := ClassPath.analyzeWithin_ok (Prod.ext h rfl)
  obtain ⟨-, -, -, hcode', -⟩ := MethodContext.of_inv hc
  cases hcode.symm.trans hcode'
  exact hfinished.rewrites hbuilt

/-! ## Whole classes -/

/-- The method has a body with an instruction of the optimizer. -/
def MethodDef.hasOdex (m : MethodDef) : Bool :=
  m.code.any fun code => code.instructions.any (·.opcode.isOdex)

theorem MethodDef.hasOdex_of_code {m : MethodDef} {code : Code} (hcode : m.code = some code) :
    m.hasOdex = code.hasOdex := by
  rw [hasOdex, hcode]
  rfl

theorem MethodDef.code_of_hasOdex {m : MethodDef} (h : m.hasOdex = true) :
    ∃ code, m.code = some code := by
  cases hcode : m.code with
  | none => simp [hasOdex, hcode] at h
  | some code => exact ⟨code, rfl⟩

/-- What becomes of a method of a class that is analysed within a number of steps, and
    what is reported of it. -/
inductive RestoredAs (path : ClassPath) (cls : ClassDef) (steps : MethodContext → Nat)
    (m : MethodDef) : MethodDef × Option MethodOutcome → Prop where
  /-- Nothing of the optimizer's is in it. -/
  | untouched (hodex : m.hasOdex = false) : RestoredAs path cls steps m (m, none)
  | failed (hodex : m.hasOdex = true) {memo : Memo} {e : AnalysisFailure}
      (ha : ((path.analyzeWithin cls m steps).run memo).1 = some (.error e)) :
      RestoredAs path cls steps m (m, some (.failed (m.ref cls.descriptor) e))
  | undecided (hodex : m.hasOdex = true) {memo : Memo}
      (ha : ((path.analyzeWithin cls m steps).run memo).1 = none) :
      RestoredAs path cls steps m (m, some (.undecided (m.ref cls.descriptor)))
  /-- Only its instructions change. -/
  | restored (hodex : m.hasOdex = true) {memo : Memo} {a : MethodAnalysis}
      (ha : ((path.analyzeWithin cls m steps).run memo).1 = some (.ok a)) {code : Code}
      (hcode : m.code = some code)
      (hrewrites : Instruction.Rewrites code.instructions a.restored) :
      RestoredAs path cls steps m
        ({ m with code := some { code with instructions := a.restored } },
          some (.restored (m.ref cls.descriptor) a.notes))

namespace Query

variable {α β : Type} {f g : α → Query β}

/-- What holds of every answer of a question holds of the answers in a row. -/
theorem mapM_forall₂ {R : α → β → Prop} (hf : ∀ a m, R a ((f a).run m).1) (as : List α)
    (m : Memo) : List.Forall₂ R as ((as.mapM f).run m).1 := by
  induction as generalizing m with
  | nil => exact .nil
  | cons a as ih =>
    rw [List.mapM_cons, Query.run_bind, Query.run_bind]
    exact .cons (hf a m) (ih _)

/-- Two questions that agree where the answer has a property agree in a row if all the
    answers have it. -/
theorem mapM_congr {P : β → Prop} (hfg : ∀ a m, P ((f a).run m).1 → (g a).run m = (f a).run m)
    (as : List α) (m : Memo) (h : ∀ b ∈ ((as.mapM f).run m).1, P b) :
    (as.mapM g).run m = (as.mapM f).run m := by
  induction as generalizing m with
  | nil => rfl
  | cons a as ih =>
    rw [List.mapM_cons, Query.run_bind, Query.run_bind] at h
    obtain ⟨ha, has⟩ := List.forall_mem_cons.1 h
    rw [List.mapM_cons, List.mapM_cons, Query.run_bind, Query.run_bind, Query.run_bind,
      Query.run_bind, hfg a m ha, ih _ has]

end Query

namespace ClassPath

section

variable {path : ClassPath} {cls : ClassDef} {steps more : MethodContext → Nat} {m : MethodDef}

theorem restoreMethodWithin_plain (hodex : m.hasOdex = false) (memo : Memo) :
    (path.restoreMethodWithin cls m steps).run memo = ((m, none), memo) := by
  unfold restoreMethodWithin
  cases hcode : m.code with
  | none => rfl
  | some code =>
    dsimp only
    rw [← MethodDef.hasOdex_of_code hcode, hodex]
    rfl

theorem restoreMethodWithin_odex {code : Code} (hcode : m.code = some code)
    (hodex : m.hasOdex = true) (memo : Memo) :
    (path.restoreMethodWithin cls m steps).run memo =
      let analyzed := (path.analyzeWithin cls m steps).run memo
      (match analyzed.1 with
        | some (.ok a) => ({ m with code := some { code with instructions := a.restored } },
            some (.restored (m.ref cls.descriptor) a.notes))
        | some (.error e) => (m, some (.failed (m.ref cls.descriptor) e))
        | none => (m, some (.undecided (m.ref cls.descriptor))), analyzed.2) := by
  unfold restoreMethodWithin
  rw [hcode]
  dsimp only
  rw [← MethodDef.hasOdex_of_code hcode, hodex, if_neg (by decide), Query.run_bind]
  rcases (path.analyzeWithin cls m steps).run memo with ⟨_ | _ | _, memo'⟩ <;> rfl

theorem restoreMethodWithin_restoredAs (path : ClassPath) (cls : ClassDef)
    (steps : MethodContext → Nat) (m : MethodDef) (memo : Memo) :
    RestoredAs path cls steps m ((path.restoreMethodWithin cls m steps).run memo).1 := by
  cases hodex : m.hasOdex with
  | false =>
    rw [restoreMethodWithin_plain hodex]
    exact .untouched hodex
  | true =>
    obtain ⟨code, hcode⟩ := MethodDef.code_of_hasOdex hodex
    rw [restoreMethodWithin_odex hcode hodex]
    dsimp only
    cases ha : ((path.analyzeWithin cls m steps).run memo).1 with
    | none => exact .undecided hodex ha
    | some answer =>
      cases answer with
      | error e => exact .failed hodex ha
      | ok a => exact .restored hodex ha hcode (rewrites_of_analyzed hcode ha)

theorem restoreMethodWithin_of_le (hle : ∀ c, steps c ≤ more c) (m : MethodDef) (memo : Memo)
    (hdecided : ∀ r, ((path.restoreMethodWithin cls m steps).run memo).1.2 ≠ some (.undecided r)) :
    (path.restoreMethodWithin cls m more).run memo =
      (path.restoreMethodWithin cls m steps).run memo := by
  cases hodex : m.hasOdex with
  | false => rw [restoreMethodWithin_plain hodex, restoreMethodWithin_plain hodex]
  | true =>
    obtain ⟨code, hcode⟩ := MethodDef.code_of_hasOdex hodex
    rw [restoreMethodWithin_odex hcode hodex] at hdecided
    rw [restoreMethodWithin_odex hcode hodex, restoreMethodWithin_odex hcode hodex]
    rcases ha : (path.analyzeWithin cls m steps).run memo with ⟨answer, memo'⟩
    cases answer with
    | none =>
      rw [ha] at hdecided
      exact absurd rfl (hdecided _)
    | some answer => rw [analyzeWithin_of_le hle ha]

/-- Once every method of a class is decided, more steps change nothing. -/
theorem restoreClassWithin_of_le (hle : ∀ c, steps c ≤ more c) {memo : Memo}
    (hdecided : ∀ r, .undecided r ∉ ((path.restoreClassWithin cls steps).run memo).1.outcomes) :
    (path.restoreClassWithin cls more).run memo = (path.restoreClassWithin cls steps).run memo := by
  have hresults : (cls.methods.mapM fun m => path.restoreMethodWithin cls m more).run memo =
      (cls.methods.mapM fun m => path.restoreMethodWithin cls m steps).run memo := by
    refine Query.mapM_congr (P := fun q : MethodDef × Option MethodOutcome =>
      ∀ r, q.2 ≠ some (.undecided r)) (restoreMethodWithin_of_le hle) cls.methods memo ?_
    intro q hq r hr
    exact hdecided r (List.mem_filterMap.2 ⟨q, hq, hr⟩)
  unfold restoreClassWithin
  rw [Query.run_bind, Query.run_bind, hresults]

/-- One outcome for every method with instructions of the optimizer, in the
    order of the methods. -/
theorem outcomes_eq {ms : List MethodDef} {results : List (MethodDef × Option MethodOutcome)}
    (h : List.Forall₂ (RestoredAs path cls steps) ms results) :
    (results.filterMap (·.2)).map (·.method) =
      (ms.filter (·.hasOdex)).map (·.ref cls.descriptor) := by
  induction h with
  | nil => rfl
  | cons hm _ ih =>
    cases hm with
    | untouched hodex => simpa [hodex] using ih
    | failed hodex => simpa [hodex, MethodOutcome.method] using ih
    | undecided hodex => simpa [hodex, MethodOutcome.method] using ih
    | restored hodex => simpa [hodex, MethodOutcome.method] using ih

end

/-- A class differs after restoration only in the instructions of methods that
    are reported restored, and these are rewritten in place, whatever number of steps
    their analyses are given. Once every method is decided, more steps change nothing.
    Every analysis with a result rewrites in place. -/
theorem restoration_in_place (path : ClassPath) (cls : ClassDef) (steps : MethodContext → Nat)
    (memo : Memo) :
    (∃ results : List (MethodDef × Option MethodOutcome),
      List.Forall₂ (RestoredAs path cls steps) cls.methods results ∧
      ((path.restoreClassWithin cls steps).run memo).1 =
        ⟨{ cls with methods := results.map (·.1) }, results.filterMap (·.2)⟩) ∧
    ((path.restoreClassWithin cls steps).run memo).1.outcomes.map (·.method) =
      (cls.methods.filter (·.hasOdex)).map (·.ref cls.descriptor) ∧
    ((∀ r, .undecided r ∉ ((path.restoreClassWithin cls steps).run memo).1.outcomes) →
      ∀ more : MethodContext → Nat, (∀ c, steps c ≤ more c) →
        (path.restoreClassWithin cls more).run memo =
          (path.restoreClassWithin cls steps).run memo) ∧
    ∀ m ∈ cls.methods, ∀ code, m.code = some code → ∀ steps a memo,
      ((path.analyzeWithin cls m steps).run memo).1 = some (.ok a) →
        Instruction.Rewrites code.instructions a.restored := by
  have hresults :=
    Query.mapM_forall₂ (restoreMethodWithin_restoredAs path cls steps) cls.methods memo
  refine ⟨⟨_, hresults, rfl⟩, outcomes_eq hresults, ?_, ?_⟩
  · intro hdecided more hle
    exact restoreClassWithin_of_le hle hdecided
  · intro m _ code hcode steps a memo h
    exact rewrites_of_analyzed hcode h

end ClassPath

namespace Sample

/-- The body of `reader` once it is restored: the access to null can only throw,
    and what follows it is never reached. -/
def readerRestored : List Instruction := [
  { opcode := .iget, registers := [0, 2], reference := some (.field ⟨"LBox;", "size", "I"⟩) },
  { opcode := .ifEqz, registers := [0], target := some 3 },
  { opcode := .returnVoid },
  { opcode := .const4, registers := [1], literal := some 0 },
  { opcode := .throwValue, registers := [1] },
  { opcode := .nop },
  { opcode := .returnVoidBarrier }]

end Sample

open Sample in
/-- Twenty steps decide the method, so it makes no difference that the bound is larger. -/
theorem reading_in_place :
    let r := (((path [box, reading] ⟨[]⟩).restoreClassWithin reading fun _ => 20).run {}).1
    r.cls.allInstructions = readerRestored ∧
      r.outcomes.map (·.method) = [reader.ref "LReading;"] ∧
      (((path [box, reading] ⟨[]⟩).restoreClass reading).run {}).1 = r ∧
      reader ∈ reading.methods ∧
      ∃ code a, reader.code = some code ∧
        (((path [box, reading] ⟨[]⟩).analyzeWithin reading reader fun _ => 20).run {}).1 =
          some (.ok a) ∧
        a.restored = readerRestored ∧ Instruction.Rewrites code.instructions a.restored := by
  intro r
  have hclass : r.cls.allInstructions = readerRestored := by decide +kernel
  have hnotes : r.outcomes.all (fun o => o matches .restored ..) = true := by decide +kernel
  have hdecided (m : MethodRef) : .undecided m ∉ r.outcomes := by
    intro hm
    exact nomatch List.all_eq_true.1 hnotes _ hm
  have hbound (c : MethodContext) : 20 ≤ c.stepBound := by
    calc 20 ≤ 64 * 1 * 1 * 16 := by decide
      _ ≤ c.stepBound :=
        Nat.mul_le_mul (Nat.mul_le_mul (Nat.mul_le_mul_left 64 (by omega)) (by omega)) (by omega)
  have hchecks : (path [box, reading] ⟨[]⟩).checks reading reader 20 (fun _ a _ =>
      a.restored = readerRestored) = true := by
    decide +kernel
  obtain ⟨c, a, memo, -, h, hrestored⟩ := ClassPath.checks_inv hchecks
  have hanalyzed : (((path [box, reading] ⟨[]⟩).analyzeWithin reading reader fun _ => 20).run {}).1 =
      some (.ok a) := by rw [h]
  have hmem : reader ∈ reading.methods := List.mem_cons_self
  obtain ⟨-, houtcomes, hmore, hrewrites⟩ :=
    ClassPath.restoration_in_place (path [box, reading] ⟨[]⟩) reading (fun _ => 20) {}
  refine ⟨hclass, houtcomes.trans (by decide), ?_, hmem, _, a, rfl, hanalyzed,
    of_decide_eq_true hrestored, hrewrites reader hmem _ rfl _ a {} hanalyzed⟩
  exact congrArg Prod.fst (hmore hdecided MethodContext.stepBound hbound)

end SymbolicDex
