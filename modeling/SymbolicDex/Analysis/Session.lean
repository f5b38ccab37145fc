import SymbolicDex.Analysis.Narrowing
import SymbolicDex.Analysis.Restore

/- Register types over one method: what is known about every instruction, and
   one visit of an instruction. A visit restores and applies the instruction
   and passes its state on; instructions whose state before is new are queued,
   first in, first out. -/
namespace SymbolicDex

structure Session where
  points : List Point
  queue : List Nat
  notes : List Note
  memo : Memo
deriving DecidableEq

namespace Session

/-- Asks the class path. -/
def ask {α : Type} (s : Session) (q : Query α) : α × Session :=
  let (a, memo) := q.run s.memo
  (a, { s with memo := memo })

def point (s : Session) (ix : Nat) : Point :=
  s.points.getD ix (Point.ofInstruction 0 default)

/-- Changes what is known about one instruction. -/
def update (s : Session) (ix : Nat) (f : Point → Point) : Session :=
  { s with points := s.points.modify ix f }

/-- The instructions in their present form. -/
def currents (s : Session) : List Instruction := s.points.map (·.current)

/-- Queues an instruction unless it is queued. -/
def enqueue (s : Session) (ix : Nat) : Session :=
  if ix ∈ s.queue then s else { s with queue := s.queue ++ [ix] }

/-! Flow of states. -/

/-- The state that flows over an edge into `target`, if any does: over a
    normal edge the state after an analysed instruction, narrowed for that
    edge; over an exceptional edge the state before a reached one. -/
def flowing? (points : List Point) (target : Nat) (e : Edge) : Option (List RegisterType) :=
  match points[e.source]? with
  | none => none
  | some p =>
    if e.exceptional then if p.reached then some p.pre else none
    else if p.analyzed then
      match p.narrowing with
      | some n =>
        if n.target = target then some (n.registers.foldl (fun post r => post.set r.1 r.2) p.post)
        else some p.post
      | none => some p.post
    else none

/-- The merge of what flows in, from the registers on entry for the first
    instruction and from unknown ones for the others. -/
def mergedPre (c : MethodContext) (points : List Point) (ix : Nat) :
    Query (List RegisterType) :=
  let start := if ix = 0 then c.start
    else List.replicate c.code.registers RegisterType.unknown
  ((c.graph.predecessors ix).filterMap (flowing? points ix)).foldlM
    (RegisterType.mergeAll c.path) start

/-- Recomputes the state before an instruction, and queues it if the state is
    new. -/
def updatePre (c : MethodContext) (s : Session) (ix : Nat) : Session :=
  let (merged, s) := s.ask (mergedPre c s.points ix)
  let p := s.point ix
  if p.reached ∧ p.pre = merged then s
  else (s.update ix fun p => { p with pre := merged, reached := true }).enqueue ix

/-- Passes the state of an instruction on, to its handlers and with `normal`
    also to its successors. -/
def propagate (c : MethodContext) (s : Session) (ix : Nat) (normal : Bool) : Session :=
  ((if normal then c.graph.successors ix else []) ++ c.graph.handlers ix).foldl (updatePre c) s

/-! Visits. -/

/-- What the rules see at an instruction. -/
def site (c : MethodContext) (points : List Point) (ix : Nat) (p : Point) : Site where
  path := c.path
  cls := c.cls
  code := c.code
  index := ix
  address := c.graph.address ix
  current := p.current
  previous := if ix = 0 then none else (points[ix - 1]?).map (·.current)
  pre := p.pre
  hint := p.hint

/-- Whether an opcode branches on one register being zero. -/
def isZeroTest (o : Opcode) : Bool := o == .ifEqz || o == .ifNez

/-- Restores and applies one instruction. What comes of it is left in its
    point, but for the reason why there is no state after it. -/
def analyzeAt (c : MethodContext) (s : Session) (ix : Nat) : Option Halt × Session :=
  let (effect, s) := s.ask ((site c s.points ix (s.point ix)).transfer)
  match effect.post with
  | .error h =>
    (some h, s.update ix fun p => { p with current := effect.current, post := p.pre })
  | .ok post =>
    let s := s.update ix fun p => { p with current := effect.current, post := post }
    if isZeroTest effect.current.opcode then
      let (n, s) := s.ask (Narrowing.afterCheck c s.points ix)
      (none, s.update ix fun p => { p with narrowing := n })
    else (none, s)

/-- One line of the neighbourhood of a failure. -/
def neighbourLine (c : MethodContext) (s : Session) (ix k : Nat) : String :=
  (if k = ix then "> " else "  ") ++ Text.hexPadded 4 (c.graph.address k) ++ ": " ++
    (s.point k).current.text

/-- Says where in the method a failure was met. -/
def locate (c : MethodContext) (s : Session) (ix : Nat) (f : AnalysisFailure) :
    AnalysisFailure :=
  let address := c.graph.address ix
  let first := ix - 2
  let stop := min (ix + 3) s.points.length
  let contexts :=
    ["opcode: " ++ (s.point ix).given.opcode.name,
      "code address: " ++ Text.hex address,
      "method: " ++ c.methodRef.text] ++
    ((c.code.lineAt? address).map fun line => "line: " ++ line.repr).toList ++
    ((List.range (stop - first)).map fun k => neighbourLine c s ix (first + k))
  contexts.foldl AnalysisFailure.within (f.withAddress address)

/-- How a session ends. -/
inductive Ending where
  | finished
  | failed (failure : AnalysisFailure)
  /-- A lookup does not end. -/
  | endless
  /-- The steps did not suffice. -/
  | unfinished
deriving DecidableEq

/-- The next session, or the end. -/
inductive Progress where
  | running (s : Session)
  | ended (e : Ending) (s : Session)

/-- Visits the instruction that was taken off the queue. -/
def visit (c : MethodContext) (s : Session) (ix : Nat) : Progress :=
  let s := s.update ix fun p => { p with visits := p.visits + 1 }
  if (s.point ix).throwing.isSome then .running (propagate c s ix false)
  else
    match analyzeAt c s ix with
    | (none, s) =>
      let s := s.update ix fun p => { p with parked := none, analyzed := true }
      .running (propagate c s ix true)
    | (some (.parked register failure), s) =>
      let s := s.update ix fun p =>
        { p with parked := some ⟨register, failure⟩, analyzed := false }
      .running (propagate c s ix false)
    | (some (.failed f), s) => .ended (.failed (locate c s ix f)) s
    | (some .endless, s) => .ended .endless s

end Session

end SymbolicDex
