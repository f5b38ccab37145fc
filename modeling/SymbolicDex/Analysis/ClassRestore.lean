import SymbolicDex.Analysis.Method

/- Restoring the methods of whole classes. A method that cannot be analysed
   keeps its body and is reported; the rest of the class goes on. -/
namespace SymbolicDex

/-- What became of one method with optimizer's instructions. -/
inductive MethodOutcome where
  | restored (method : MethodRef) (notes : List Note)
  | failed (method : MethodRef) (failure : AnalysisFailure)
  /-- The analysis gave no answer within its steps; the body stays. -/
  | undecided (method : MethodRef)
deriving DecidableEq

namespace MethodOutcome

def method : MethodOutcome → MethodRef
  | restored m _ | failed m _ | undecided m => m

def isFailure : MethodOutcome → Bool
  | failed .. => true
  | _ => false

end MethodOutcome

/-- Counts for a report. -/
structure RestoreStats where
  methods : Nat := 0
  restored : Nat := 0
  failed : Nat := 0
  notes : Nat := 0
deriving DecidableEq

/-- A class after restoration, with one outcome per method that had
    optimizer's instructions, in method order. -/
structure RestoredClass where
  cls : ClassDef
  outcomes : List MethodOutcome
deriving DecidableEq

namespace RestoredClass

def stats (r : RestoredClass) : RestoreStats :=
  r.outcomes.foldl (fun s o => match o with
    | .restored _ notes =>
      { s with restored := s.restored + 1, notes := s.notes + notes.length }
    | .failed .. => { s with failed := s.failed + 1 }
    | .undecided _ => s) { methods := r.outcomes.length }

def failures (r : RestoredClass) : List (MethodRef × AnalysisFailure) :=
  r.outcomes.filterMap fun o => match o with
    | .failed m e => some (m, e)
    | _ => none

end RestoredClass

namespace ClassPath

/-- The method with its body restored within a number of steps, and the outcome. -/
def restoreMethodWithin (path : ClassPath) (cls : ClassDef) (m : MethodDef)
    (steps : MethodContext → Nat) : Query (MethodDef × Option MethodOutcome) :=
  match m.code with
  | none => return (m, none)
  | some code =>
    if !code.hasOdex then return (m, none)
    else do
      let ref := m.ref cls.descriptor
      match ← path.analyzeWithin cls m steps with
      | some (.ok a) =>
        return ({ m with code := some { code with instructions := a.restored } },
          some (.restored ref a.notes))
      | some (.error e) => return (m, some (.failed ref e))
      | none => return (m, some (.undecided ref))

/-- The class with its methods restored in order, each within a number of steps. -/
def restoreClassWithin (path : ClassPath) (cls : ClassDef) (steps : MethodContext → Nat) :
    Query RestoredClass := do
  let results ← cls.methods.mapM fun m => path.restoreMethodWithin cls m steps
  return ⟨{ cls with methods := results.map (·.1) }, results.filterMap (·.2)⟩

def restoreClass (path : ClassPath) (cls : ClassDef) : Query RestoredClass :=
  path.restoreClassWithin cls MethodContext.stepBound

/-- Classes in order, with one memo for all of them. -/
def restoreClasses (path : ClassPath) (classes : List ClassDef) : Query (List RestoredClass) :=
  classes.mapM path.restoreClass

end ClassPath

end SymbolicDex
