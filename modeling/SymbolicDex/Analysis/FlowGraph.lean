import SymbolicDex.AnalysisFailure

/- The control-flow graph of a method. Only instructions reachable from the
   first one have edges; they are found breadth first, and the edges into an
   instruction stand in the order in which they were found. -/
namespace SymbolicDex

/-- An edge into an instruction. -/
structure Edge where
  source : Nat
  /-- From a throwing instruction to one of its handlers. -/
  exceptional : Bool
deriving DecidableEq

/-- The edges out of one instruction. -/
structure Flow where
  source : Nat
  successors : List Nat
  handlers : List Nat
deriving DecidableEq

namespace Flow

def targets (f : Flow) : List Nat := f.successors ++ f.handlers

/-- The edges of `f` into `target`. -/
def edgesTo (f : Flow) (target : Nat) : List Edge :=
  (if target ∈ f.successors then [⟨f.source, false⟩] else []) ++
    (if target ∈ f.handlers then [⟨f.source, true⟩] else [])

end Flow

/-- Code addresses and the flows of the reachable instructions, in the order
    they were found. -/
structure FlowGraph where
  addresses : List Nat
  flows : List Flow
deriving DecidableEq

namespace FlowGraph

def address (g : FlowGraph) (ix : Nat) : Nat := g.addresses.getD ix 0

def flow? (g : FlowGraph) (ix : Nat) : Option Flow := g.flows.find? (·.source == ix)

def successors (g : FlowGraph) (ix : Nat) : List Nat := ((g.flow? ix).map (·.successors)).getD []

def handlers (g : FlowGraph) (ix : Nat) : List Nat := ((g.flow? ix).map (·.handlers)).getD []

def predecessors (g : FlowGraph) (ix : Nat) : List Edge := g.flows.flatMap (·.edgesTo ix)

/-- The instruction `distance` code units from an address. -/
def indexFrom? (addresses : List Nat) (source : Nat) (distance : Int) : Option Nat :=
  addresses.findIdx? fun (a : Nat) => (a : Int) == source + distance

def branchIndex (addresses : List Nat) (source : Nat) (distance : Int) :
    Except AnalysisFailure Nat :=
  match indexFrom? addresses source distance with
  | some ix => .ok ix
  | none => .error (AnalysisFailure.atAddress source (.branchTarget distance))

def handlerIndex (addresses : List Nat) (source handler : Nat) : Except AnalysisFailure Nat :=
  match addresses.findIdx? (· == handler) with
  | some ix => .ok ix
  | none => .error (AnalysisFailure.atAddress source (.handlerAddress handler))

/-- Distances of the cases of a switch whose table is `payload`. -/
def switchTargets? (opcode : Opcode) (payload : Option Payload) : Option (List Int) :=
  match opcode, payload with
  | .packedSwitch, some (.packedSwitch _ targets) => some targets
  | .sparseSwitch, some (.sparseSwitch _ targets) => some targets
  | _, _ => none

/-- Instructions that `i` at index `ix` branches to. -/
def branchTargets (code : Code) (addresses : List Nat) (address : Nat) (i : Instruction) :
    Except AnalysisFailure (List Nat) :=
  match i.target with
  | none => .ok []
  | some distance =>
    if i.opcode.isSwitch then do
      let table ← branchIndex addresses address distance
      match switchTargets? i.opcode ((code.instructions[table]?).bind (·.payload)) with
      | some targets => targets.mapM (branchIndex addresses address)
      | none => .error (AnalysisFailure.atAddress address .switchPayload)
    else if i.opcode = .fillArrayData then .ok []
    else do return [← branchIndex addresses address distance]

/-- Control passes to the next instruction, to branch targets, and on a throw
    to the handlers of every try block around the address. -/
def flowOf (code : Code) (addresses : List Nat) (ix : Nat) (i : Instruction) :
    Except AnalysisFailure Flow := do
  let address := addresses.getD ix 0
  let next ←
    if i.opcode.canContinue then
      if ix + 1 < code.instructions.length then .ok [ix + 1]
      else .error (AnalysisFailure.atAddress address .runsPastEnd)
    else .ok []
  let targets ← branchTargets code addresses address i
  let handlers ←
    if i.opcode.canThrow then
      ((code.tries.filter (·.covers address)).flatMap (·.handlers)).mapM
        fun h => handlerIndex addresses address h.address
    else .ok []
  return ⟨ix, (next ++ targets).eraseDups, handlers.eraseDups⟩

/-- No successor may be a move-exception. -/
def checkSuccessors (code : Code) (addresses : List Nat) (source : Opcode) (f : Flow) :
    Except AnalysisFailure Unit :=
  match f.successors.find? fun s =>
      (code.instructions[s]?).any (·.opcode == .moveException) with
  | none => .ok ()
  | some s =>
    let address := addresses.getD f.source 0
    .error (AnalysisFailure.atAddress address
      (.passesToMoveException source address (addresses.getD s 0)))

/-- Flows of the queued instructions and of what they lead to. Every index is
    queued at most once, so `count` is at most the number of instructions. -/
def explore (code : Code) (addresses : List Nat) :
    Nat → List Nat → List Nat → Except AnalysisFailure (List Flow)
  | 0, _, _ => .ok []
  | _ + 1, [], _ => .ok []
  | count + 1, ix :: queue, seen =>
    match code.instructions[ix]? with
    | none => explore code addresses count queue seen
    | some i => do
      let f ← flowOf code addresses ix i
      checkSuccessors code addresses i.opcode f
      let fresh := f.targets.eraseDups.filter (· ∉ seen)
      let flows ← explore code addresses count (queue ++ fresh) (seen ++ fresh)
      return f :: flows

/-- The graph of a body. Nothing may lead to a move-exception but a throw. -/
def build (code : Code) : Except AnalysisFailure FlowGraph :=
  let addresses := code.addresses
  match code.instructions with
  | [] => .ok ⟨addresses, []⟩
  | i :: _ =>
    if i.opcode = .moveException then .error (AnalysisFailure.of .startsWithMoveException)
    else do return ⟨addresses, ← explore code addresses code.instructions.length [0] [0]⟩

end FlowGraph

end SymbolicDex
