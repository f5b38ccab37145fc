import SymbolicDex.Analysis.Session

/- Running a session. While the queue has an instruction it is visited; then
   types are recovered for instructions that wait, one at a time, and what
   cannot be helped becomes a throw. `step` is one such move; a run of `count`
   steps says when they did not suffice. -/
namespace SymbolicDex.Session

/-! Help for instructions that wait. -/

/-- Outcome of an attempt to help waiting instructions. -/
inductive Attempt where
  | resolved (s : Session)
  | stuck (s : Session)
  | endless (s : Session)

/-- Tries the candidates for one waiting instruction. A failed attempt takes
    its hint back. -/
def tryCandidates (c : MethodContext) (ix register : Nat) :
    Session → List Recovery.Candidate → Attempt
  | s, [] => .stuck s
  | s, candidate :: rest =>
    let hinted := s.update ix fun p => { p with hint := some (RegisterType.reference candidate.type) }
    match analyzeAt c hinted ix with
    | (none, s) =>
      let note : Note := ⟨c.graph.address ix, candidate.kind, register, some candidate.type,
        (s.point ix).given.text⟩
      let s := { s with notes := s.notes ++ [note] }
      let s := s.update ix fun p => { p with parked := none, analyzed := true }
      .resolved (propagate c s ix true)
    | (some .endless, s) => .endless s
    | (some _, s) => tryCandidates c ix register (s.update ix fun p => { p with hint := none }) rest

/-- Tries the waiting instructions in order, each of them once in a session,
    until one is helped. -/
def recoverFrom (c : MethodContext) : Session → List Nat → Attempt
  | s, [] => .stuck s
  | s, ix :: rest =>
    match (s.point ix).parked with
    | none => recoverFrom c s rest
    | some parked =>
      if (s.point ix).recoveryTried then recoverFrom c s rest
      else
        let s := s.update ix fun p => { p with recoveryTried := true }
        let candidates := Recovery.candidates c.code s.currents ix (c.graph.address ix) parked.register
        match tryCandidates c ix parked.register s candidates with
        | .stuck s => recoverFrom c s rest
        | other => other

/-- Gives the waiting instructions up, in order. A lookup that failed on a
    known type is fatal; an access to what is always null can only throw. -/
def giveUpFrom (c : MethodContext) : Session → List Nat → Progress
  | s, [] => .running s
  | s, ix :: rest =>
    match (s.point ix).parked with
    | none => giveUpFrom c s rest
    | some ⟨_, some failure⟩ => .ended (.failed (locate c s ix failure)) s
    | some ⟨register, none⟩ =>
      let note : Note := ⟨c.graph.address ix, .unresolvable, register, none,
        (s.point ix).given.text⟩
      let s := { s with notes := s.notes ++ [note] }
      let s := s.update ix fun p =>
        { p with parked := none, throwing := some register, analyzed := false }
      giveUpFrom c (propagate c s ix false) rest

/-- Indices of the instructions that wait. -/
def waiting (s : Session) : List Nat :=
  (List.range s.points.length).filter fun ix => (s.point ix).parked.isSome

/-! Runs. -/

/-- One move: a visit while the queue has one, else help for those that wait. -/
def step (c : MethodContext) (s : Session) : Progress :=
  match s.queue with
  | ix :: queue => visit c { s with queue := queue } ix
  | [] =>
    match s.waiting with
    | [] => .ended .finished s
    | waiting =>
      match recoverFrom c s waiting with
      | .resolved s => .running s
      | .stuck s => giveUpFrom c s waiting
      | .endless s => .ended .endless s

def run (c : MethodContext) : Nat → Session → Ending × Session
  | 0, s => (.unfinished, s)
  | count + 1, s =>
    match step c s with
    | .running s => run c count s
    | .ended e s => (e, s)

/-- The first instruction is reached from the start. -/
def initial (c : MethodContext) (memo : Memo) : Session :=
  let s : Session :=
    ⟨c.code.instructions.map (Point.ofInstruction c.code.registers), [], [], memo⟩
  if c.code.instructions.isEmpty then s else updatePre c s 0

end SymbolicDex.Session
