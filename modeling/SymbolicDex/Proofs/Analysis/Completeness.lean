import SymbolicDex.Analysis.Method
import SymbolicDex.Proofs.Analysis.Bookkeeping

/- Analyses that end well leave nothing in the optimizer's form.

   What is proved:
     1. `analyzeWithin_ok`: an analysis with a result is a run of steps up to a
        session where nothing is queued and nobody waits.
     2. `analysis_restores_all`: every instruction that was reached has a state
        after it or can only throw, and what is written for it is symbolic. -/
namespace SymbolicDex

/-! ## Sessions that end well -/

/-- The session that an analysis ends with. -/
structure Session.Finished (c : MethodContext) (memo : Memo) (s : Session) : Prop where
  steps : ∃ count, Steps c (initial c memo) count s
  queue : s.queue = []
  parked : ∀ ix < s.points.length, (s.point ix).parked = none

theorem Session.Finished.of_run {c : MethodContext} {memo : Memo} {count : Nat} {s : Session}
    (h : run c count (initial c memo) = (.finished, s)) : Finished c memo s := by
  obtain ⟨k, t, -, hsteps, hend⟩ := run_inv h (fun he => nomatch he)
  obtain ⟨rfl, hqueue, hparked⟩ := step_finished hend
  exact ⟨⟨k, hsteps⟩, hqueue, hparked⟩

/-- What an analysis says of a session that ended. -/
def MethodContext.answer (c : MethodContext) (s : Session) :
    Session.Ending → Option (Except AnalysisFailure MethodAnalysis)
  | .finished => some (.ok ⟨c.methodRef, c.graph, s.points, s.notes⟩)
  | .failed e => some (.error e)
  | .endless => none
  | .unfinished => none

theorem ClassPath.analyzeWithin_eq {path : ClassPath} {cls : ClassDef} {m : MethodDef}
    {c : MethodContext} (hc : MethodContext.of path cls m = .ok c) (steps : MethodContext → Nat)
    (memo : Memo) {e : Session.Ending} {s : Session}
    (hrun : Session.run c (steps c) (Session.initial c memo) = (e, s)) :
    (path.analyzeWithin cls m steps).run memo = (c.answer s e, s.memo) := by
  unfold ClassPath.analyzeWithin
  rw [hc]
  dsimp only
  rw [Query.run_bind, show (get : Query Memo).run memo = (memo, memo) from rfl]
  dsimp only
  rw [hrun]
  cases e <;> rfl

/-- An analysis that has an answer within some steps has it within more. -/
theorem ClassPath.analyzeWithin_of_le {path : ClassPath} {cls : ClassDef} {m : MethodDef}
    {steps more : MethodContext → Nat} (hle : ∀ c, steps c ≤ more c) {memo memo' : Memo}
    {r : Except AnalysisFailure MethodAnalysis}
    (h : (path.analyzeWithin cls m steps).run memo = (some r, memo')) :
    (path.analyzeWithin cls m more).run memo = (some r, memo') := by
  cases hc : MethodContext.of path cls m with
  | error e =>
    unfold ClassPath.analyzeWithin at h ⊢
    rw [hc] at h ⊢
    exact h
  | ok c =>
    rcases hrun : Session.run c (steps c) (Session.initial c memo) with ⟨ending, s⟩
    rw [ClassPath.analyzeWithin_eq hc steps memo hrun] at h
    have hended : ending ≠ .unfinished := by
      rintro rfl
      cases h
    rw [ClassPath.analyzeWithin_eq hc more memo (Session.run_of_le hrun hended (hle c)), h]

/-- An analysis with a result, taken apart. -/
theorem ClassPath.analyzeWithin_ok {path : ClassPath} {cls : ClassDef} {m : MethodDef}
    {steps : MethodContext → Nat} {memo memo' : Memo} {a : MethodAnalysis}
    (h : (path.analyzeWithin cls m steps).run memo = (some (.ok a), memo')) :
    ∃ c s, MethodContext.of path cls m = .ok c ∧ c.Built ∧ Session.Finished c memo s ∧
      a = ⟨c.methodRef, c.graph, s.points, s.notes⟩ ∧ memo' = s.memo := by
  cases hc : MethodContext.of path cls m with
  | error e =>
    unfold ClassPath.analyzeWithin at h
    rw [hc] at h
    cases h
  | ok c =>
    rcases hrun : Session.run c (steps c) (Session.initial c memo) with ⟨ending, s⟩
    rw [ClassPath.analyzeWithin_eq hc steps memo hrun] at h
    cases ending with
    | finished =>
      cases h
      exact ⟨c, s, rfl, .of hc, .of_run hrun, rfl, rfl⟩
    | failed e => cases h
    | endless => cases h
    | unfinished => cases h

/-! ## Nothing is left -/

namespace Session

/-- The optimizer's opcodes that are no verification error need restoring. -/
theorem isOdex_of_plain {i : Instruction} (h : i.Plain) (hodex : i.opcode.isOdex = true) :
    i.opcode = .throwVerificationError :=
  ((Opcode.isOdex_iff _).1 hodex).resolve_left fun hform => hform h

theorem Finished.settled {c : MethodContext} (hc : c.Built) {memo : Memo} {s : Session}
    (h : Finished c memo s) {ix : Nat} (hix : ix < s.points.length)
    (hreached : (s.point ix).reached = true) :
    (s.point ix).analyzed = true ∧ (s.point ix).throwing = none ∧ (s.point ix).current.Plain ∨
      (s.point ix).throwing.isSome := by
  obtain ⟨count, hsteps⟩ := h.steps
  have hok := (hsteps.sound hc).points ix hix
  have hqueued : ¬ix ∈ s.queue := by rw [h.queue]; exact List.not_mem_nil
  -- nothing is queued and nobody waits, so two of the three ways are left
  rcases hok.settled hreached hqueued with hanalyzed | hparked | hthrowing
  · refine .inl ⟨hanalyzed, ?_, hok.plain hanalyzed⟩
    cases hthrowing : (s.point ix).throwing with
    | none => rfl
    | some r =>
      have hfalse := hok.throwing (by rw [status_point, hthrowing]; rfl)
      exact nomatch hanalyzed.symm.trans hfalse
  · rw [status_point, h.parked ix hix] at hparked
    cases hparked
  · exact .inr hthrowing

end Session

/-- Every instruction that was reached was analysed or can only throw, and
    nothing that is written for it has the optimizer's form. -/
theorem analysis_restores_all {path : ClassPath} {cls : ClassDef} {m : MethodDef}
    {steps : MethodContext → Nat} {memo memo' : Memo} {a : MethodAnalysis}
    (h : (path.analyzeWithin cls m steps).run memo = (some (.ok a), memo')) :
    (∀ p ∈ a.points, p.reached = true → p.analyzed = true ∨ p.throwing.isSome) ∧
      a.isRestored = true ∧
      ∀ p ∈ a.points, p.reached = true → ∀ i ∈ p.emitted, i.opcode.isOdex = true →
        i.opcode = .throwVerificationError := by
  obtain ⟨c, s, -, hbuilt, hfinished, rfl, -⟩ := ClassPath.analyzeWithin_ok h
  have hsettled : ∀ p ∈ s.points, p.reached = true →
      p.analyzed = true ∧ p.throwing = none ∧ p.current.Plain ∨ p.throwing.isSome := by
    intro p hp hreached
    obtain ⟨ix, hix⟩ := List.mem_iff_getElem?.1 hp
    obtain ⟨rfl, hlt⟩ := Session.point_eq_of_getElem? hix
    exact hfinished.settled hbuilt hlt hreached
  refine ⟨fun p hp hreached => ?_, ?_, fun p hp hreached i hi hodex => ?_⟩
  · rcases hsettled p hp hreached with ⟨hanalyzed, -⟩ | hthrowing
    · exact .inl hanalyzed
    · exact .inr hthrowing
  · simp only [MethodAnalysis.isRestored, Bool.not_eq_true', List.any_eq_false,
      Bool.and_eq_true, not_and]
    intro p hp hreached hodexed
    simp only [Point.isOdexed, Bool.and_eq_true, decide_eq_true_eq, Option.isNone_iff_eq_none]
      at hodexed
    rcases hsettled p hp hreached with ⟨-, -, hplain⟩ | hthrowing
    · exact hodexed.1.2 (Session.isOdex_of_plain hplain hodexed.1.1)
    · rw [hodexed.2] at hthrowing
      cases hthrowing
  · rcases hsettled p hp hreached with ⟨-, hnone, hplain⟩ | hthrowing
    · simp only [Point.emitted, hnone, List.mem_singleton] at hi
      subst hi
      exact Session.isOdex_of_plain hplain hodex
    -- a throw and padding are written for what can only throw
    · obtain ⟨r, hr⟩ := Option.isSome_iff_exists.1 hthrowing
      simp only [Point.emitted, hr, List.mem_cons, List.mem_replicate] at hi
      rcases hi with rfl | ⟨-, rfl⟩
      · exact absurd (show Opcode.isOdex .throwValue = true from hodex) (by decide)
      · exact absurd (show Opcode.isOdex .nop = true from hodex) (by decide)

/-! ## A method of the optimizer -/

namespace Sample

/-- A public class under Object. -/
def classDef (descriptor : Descriptor) (superclass : Descriptor) (fields : List FieldDef)
    (methods : List MethodDef) : ClassDef :=
  { descriptor := descriptor, access := ⟨1⟩, superclass := some superclass, fields := fields,
    methods := methods }

def object : ClassDef :=
  { descriptor := Descriptor.object, access := ⟨1⟩, superclass := none }

/-- Reads a field of its argument, and on one way the same field of null. -/
def reader : MethodDef :=
  { name := "read", prototype := ⟨["LBox;"], "V"⟩, access := ⟨9⟩
    code := some
      { registers := 3
        instructions := [
          { opcode := .igetQuick, registers := [0, 2], reference := some (.fieldOffset 8) },
          { opcode := .ifEqz, registers := [0], target := some 3 },
          { opcode := .returnVoidBarrier },
          { opcode := .const4, registers := [1], literal := some 0 },
          { opcode := .igetQuick, registers := [0, 1], reference := some (.fieldOffset 8) },
          { opcode := .returnVoidBarrier }] } }

def box : ClassDef := classDef "LBox;" Descriptor.object [⟨"size", "I", ⟨1⟩⟩] []

def reading : ClassDef := classDef "LReading;" Descriptor.object [] [reader]

/-- A class path of Android 4.4. -/
def path (classes : List ClassDef) (inlineTable : InlineTable) : ClassPath :=
  ⟨⟨19, noArt⟩, [⟨object :: classes⟩], inlineTable⟩

end Sample

/-- Checks what an analysis that ends well says. -/
def ClassPath.checks (path : ClassPath) (cls : ClassDef) (m : MethodDef) (steps : Nat)
    (f : MethodContext → MethodAnalysis → Memo → Bool) : Bool :=
  match MethodContext.of path cls m, (path.analyzeWithin cls m fun _ => steps).run {} with
  | .ok c, (some (.ok a), memo) => f c a memo
  | _, _ => false

theorem ClassPath.checks_inv {path : ClassPath} {cls : ClassDef} {m : MethodDef} {steps : Nat}
    {f : MethodContext → MethodAnalysis → Memo → Bool} (h : path.checks cls m steps f = true) :
    ∃ c a memo, MethodContext.of path cls m = .ok c ∧
      (path.analyzeWithin cls m fun _ => steps).run {} = (some (.ok a), memo) ∧
      f c a memo = true := by
  unfold ClassPath.checks at h
  split at h
  · rename_i c a memo hc ha
    exact ⟨c, a, memo, hc, ha, h⟩
  · cases h

open Sample in
theorem reader_restored :
    ∃ a memo', ((path [box, reading] ⟨[]⟩).analyzeWithin reading reader fun _ => 20).run {} =
        (some (.ok a), memo') ∧
      a.points.map (·.reached) = [true, true, true, true, true, false] ∧
      a.points.map (·.throwing) = [none, none, none, none, some 1, none] ∧
      (∀ p ∈ a.points, p.reached = true → p.analyzed = true ∨ p.throwing.isSome) ∧
      a.isRestored = true ∧
      ∀ p ∈ a.points, p.reached = true → ∀ i ∈ p.emitted, i.opcode.isOdex = true →
        i.opcode = .throwVerificationError := by
  have hchecks : (path [box, reading] ⟨[]⟩).checks reading reader 20 (fun _ a _ =>
      a.points.map (·.reached) = [true, true, true, true, true, false] ∧
        a.points.map (·.throwing) = [none, none, none, none, some 1, none]) = true := by
    decide +kernel
  obtain ⟨c, a, memo', -, h, hpoints⟩ := ClassPath.checks_inv hchecks
  obtain ⟨hreached, hthrowing⟩ := of_decide_eq_true hpoints
  exact ⟨a, memo', h, hreached, hthrowing, analysis_restores_all h⟩

end SymbolicDex
