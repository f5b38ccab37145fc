import SymbolicDex.Proofs.Analysis.Completeness
import SymbolicDex.Proofs.Analysis.Recurrence
import SymbolicDex.Proofs.Hierarchy.CommonSupertypes

/- What an analysis leaves of the memo. A session touches the memo only where it
   asks the class path, and all that it asks is put together from questions for
   tables of classes. So what these questions preserve, every step of a session
   preserves, and a whole analysis, however it ends.

   What is proved:
     1. `step_memo`: a step preserves what questions preserve.
     2. `analyzeWithin_preserves`: so does an analysis.
     3. `Used.kept`: and so does any history of questions and analyses. -/
namespace SymbolicDex

/-- What questions made of questions for tables preserve. -/
def ClassPath.Keeps (p : ClassPath) (I : Memo → Prop) : Prop :=
  ∀ {α : Type} {q : Query α}, Query.Composed p (fun _ => True) q → Query.Preserves I q

namespace Session

variable {c : MethodContext} {I : Memo → Prop} {s : Session}

/-! ## Steps -/

/-- The memo of the session that a move leads to. -/
def Progress.memo : Progress → Memo
  | .running s => s.memo
  | .ended _ s => s.memo

/-- The memo of the session that an attempt leads to. -/
def Attempt.memo : Attempt → Memo
  | .resolved s => s.memo
  | .stuck s => s.memo
  | .endless s => s.memo

section

variable (hI : c.path.Keeps I)
include hI

theorem foldl_updatePre_memo (h : I s.memo) (ts : List Nat) :
    I (ts.foldl (updatePre c) s).memo := by
  induction ts generalizing s with
  | nil => exact h
  | cons t ts ih =>
    refine ih ?_
    rw [updatePre_memo]
    exact (hI (mergedPre_composed c s.points t) s.memo h).2

theorem analyzeAt_memo (h : I s.memo) (ix : Nat) : I (analyzeAt c s ix).2.memo := by
  have htransfer := (hI (site c s.points ix (s.point ix)).transfer_composed s.memo h).2
  rw [analyzeAt_eq]
  dsimp only
  split
  · exact htransfer
  · split
    · exact (hI (Narrowing.afterCheck_composed c _ ix) _ htransfer).2
    · exact htransfer

theorem propagate_memo (h : I s.memo) (ix : Nat) (normal : Bool) :
    I (propagate c s ix normal).memo := foldl_updatePre_memo hI h _

theorem visit_memo (h : I s.memo) (ix : Nat) : I (visit c s ix).memo := by
  unfold visit
  dsimp only
  split
  · refine propagate_memo hI ?_ ix false
    exact h
  · have hanalyzed := analyzeAt_memo hI (s := s.update ix fun p =>
      { p with visits := p.visits + 1 }) h ix
    split <;> rename_i heq <;> rw [heq] at hanalyzed
    · refine propagate_memo hI ?_ ix true
      exact hanalyzed
    · refine propagate_memo hI ?_ ix false
      exact hanalyzed
    · exact hanalyzed
    · exact hanalyzed

theorem tryCandidates_memo (h : I s.memo) (ix r : Nat) (candidates : List Recovery.Candidate) :
    I (tryCandidates c ix r s candidates).memo := by
  induction candidates generalizing s with
  | nil => exact h
  | cons candidate rest ih =>
    have hanalyzed := analyzeAt_memo hI (s := s.update ix fun p =>
      { p with hint := some (RegisterType.reference candidate.type) }) h ix
    unfold tryCandidates
    dsimp only
    split <;> rename_i heq <;> rw [heq] at hanalyzed
    · refine propagate_memo hI ?_ ix true
      exact hanalyzed
    · exact hanalyzed
    · refine ih ?_
      exact hanalyzed

theorem recoverFrom_memo (h : I s.memo) (waiting : List Nat) :
    I (recoverFrom c s waiting).memo := by
  induction waiting generalizing s with
  | nil => exact h
  | cons ix rest ih =>
    unfold recoverFrom
    split
    · exact ih h
    · rename_i parked hparked
      split
      · exact ih h
      · have htried := tryCandidates_memo hI
          (s := s.update ix fun p => { p with recoveryTried := true }) h ix parked.register
          (Recovery.candidates c.code
            (s.update ix fun p => { p with recoveryTried := true }).currents ix
            (c.graph.address ix) parked.register)
        dsimp only
        split
        · rename_i heq
          rw [heq] at htried
          exact ih htried
        · exact htried

theorem giveUpFrom_memo (h : I s.memo) (waiting : List Nat) :
    I (giveUpFrom c s waiting).memo := by
  induction waiting generalizing s with
  | nil => exact h
  | cons ix rest ih =>
    unfold giveUpFrom
    split
    · exact ih h
    · exact h
    · refine ih (propagate_memo hI ?_ ix false)
      exact h

/-- A step asks for nothing but tables of classes. -/
theorem step_memo (h : I s.memo) : I (step c s).memo := by
  unfold step
  split
  · refine visit_memo hI ?_ _
    exact h
  · split
    · exact h
    · have hrecovered := recoverFrom_memo hI h s.waiting
      split <;> rename_i heq <;> rw [heq] at hrecovered
      · exact hrecovered
      · exact giveUpFrom_memo hI hrecovered _
      · exact hrecovered

theorem Steps.memo {s₀ : Session} (h₀ : I s₀.memo) {count : Nat} (h : Steps c s₀ count s) :
    I s.memo := by
  induction h with
  | start => exact h₀
  | next _ hstep ih =>
    have hmemo := step_memo hI ih
    rwa [hstep] at hmemo

theorem run_memo (h : I s.memo) (count : Nat) : I (run c count s).2.memo := by
  induction count generalizing s with
  | zero => exact h
  | succ count ih =>
    have hmemo := step_memo hI h
    unfold run
    split <;> rename_i heq <;> rw [heq] at hmemo
    · exact ih hmemo
    · exact hmemo

theorem initial_memo {memo : Memo} (h : I memo) : I (initial c memo).memo := by
  unfold initial
  dsimp only
  split
  · exact h
  · rw [updatePre_memo]
    exact (hI (mergedPre_composed c _ 0) memo h).2

end

end Session

/-! ## Analyses -/

namespace ClassPath

variable {p : ClassPath} {I : Memo → Prop}

/-- An analysis preserves what questions preserve, however it ends. -/
theorem analyzeWithin_preserves (hI : p.Keeps I) (cls : ClassDef) (method : MethodDef)
    (steps : MethodContext → Nat) : Query.Preserves I (p.analyzeWithin cls method steps) := by
  intro memo h
  refine ⟨trivial, ?_⟩
  cases hc : MethodContext.of p cls method with
  | error e =>
    unfold analyzeWithin
    rw [hc]
    exact h
  | ok c =>
    have hpath : c.path = p := (MethodContext.of_inv hc).1
    subst hpath
    rcases hrun : Session.run c (steps c) (Session.initial c memo) with ⟨e, s⟩
    have hmemo := Session.run_memo hI (Session.initial_memo hI h) (steps c)
    rw [hrun] at hmemo
    rw [analyzeWithin_eq hc steps memo hrun]
    exact hmemo

/-- A memo of the class path after questions and analyses, of which some may have
    failed. -/
inductive Used (p : ClassPath) : Memo → Prop where
  | fresh : Used p Memo.empty
  | asked {m : Memo} (h : Used p m) (q : Question) : Used p ((p.ask q).run m).2
  | analyzed {m : Memo} (h : Used p m) (cls : ClassDef) (method : MethodDef)
      (steps : MethodContext → Nat) : Used p ((p.analyzeWithin cls method steps).run m).2

theorem Used.kept {m : Memo} (h : p.Used m) (hI : p.Keeps I) (hempty : I Memo.empty) : I m := by
  induction h with
  | fresh => exact hempty
  | asked _ q ih => exact (hI (p.ask_composed q) _ ih).2
  | analyzed _ cls method steps ih => exact (analyzeWithin_preserves hI cls method steps _ ih).2

/-- Questions preserve it that the interfaces remembered for a class are above it. -/
theorem keeps_onlyAbove (p : ClassPath) : p.Keeps (Recalling p.OnlyAbove) := fun h =>
  h.preserves (fun _ d => (interfaces_gives collects_isA d).mono fun _ _ => trivial)
    (fun _ d => layout_preserves d) (fun _ d => vtable_preserves collects_isA d)

end ClassPath

end SymbolicDex
