import SymbolicDex.Analysis.Run

/- Analysis of a method, and what it says about the body. -/
namespace SymbolicDex

/-- A finished analysis: the graph, what is known about every instruction, and
    notes in the order they were made. -/
structure MethodAnalysis where
  method : MethodRef
  graph : FlowGraph
  points : List Point
  notes : List Note

namespace MethodAnalysis

/-- Index of the instruction at a code address. -/
def indexAt? (a : MethodAnalysis) (address : Nat) : Option Nat :=
  a.graph.addresses.findIdx? (· == address)

/-- Addresses of the instructions that were replaced. -/
def replacedAddresses (a : MethodAnalysis) : List Nat :=
  ((a.graph.addresses.zip a.points).filter fun (_, p) => p.replacement?.isSome).map (·.1)

/-- The body with every replacement made; code addresses stay. -/
def restored (a : MethodAnalysis) : List Instruction := a.points.flatMap (·.emitted)

/-- No reachable instruction has the optimizer's form. -/
def isRestored (a : MethodAnalysis) : Bool := !a.points.any fun p => p.reached && p.isOdexed

def maxVisits (a : MethodAnalysis) : Nat := (a.points.map (·.visits)).foldl max 0

/-- Text of an instruction with its address. -/
def line (a : MethodAnalysis) (ix : Nat) (p : Point) : String :=
  Text.hexPadded 4 (a.graph.address ix) ++ ": " ++ p.current.text

end MethodAnalysis

namespace MethodContext

/-- Steps given to a session. The state before an instruction can rise a
    bounded number of times in every register; sixty-four times that is far
    more than any session that ends has been seen to take. -/
def stepBound (c : MethodContext) : Nat :=
  64 * (c.code.instructions.length + 1) * (c.code.registers + 1) * (c.path.size + 16)

end MethodContext

namespace ClassPath

/-- Analyses a method within a number of steps; no answer if they do not
    suffice or a lookup does not end. -/
def analyzeWithin (path : ClassPath) (cls : ClassDef) (m : MethodDef)
    (steps : MethodContext → Nat) : Query (Option (Except AnalysisFailure MethodAnalysis)) :=
  match MethodContext.of path cls m with
  | .error e => return some (.error e)
  | .ok c => do
    let (ending, s) := Session.run c (steps c) (Session.initial c (← get))
    set s.memo
    match ending with
    | .finished => return some (.ok ⟨c.methodRef, c.graph, s.points, s.notes⟩)
    | .failed e => return some (.error e)
    | .endless | .unfinished => return none

def analyze (path : ClassPath) (cls : ClassDef) (m : MethodDef) :
    Query (Option (Except AnalysisFailure MethodAnalysis)) :=
  path.analyzeWithin cls m MethodContext.stepBound

end ClassPath

end SymbolicDex
