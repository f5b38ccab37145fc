import SymbolicDex.Analysis.Context
import SymbolicDex.Analysis.Point
import SymbolicDex.Analysis.Recovery
import SymbolicDex.RegisterType.Merge

/- Register types after a check. Where a branch tests the result of an
   instance-of, the checked register has the checked class on the side where
   the check succeeded. -/
namespace SymbolicDex.Narrowing

/-- Whether a register of type `known` may be taken for an instance of
    `narrowed` without losing what is known. -/
def keepsOrTightens (p : ClassPath) (known : RegisterType) (narrowed : Descriptor) :
    Query Bool :=
  match known.category, known.cls with
  | .null, _ => return true
  | .reference, none => return true
  | .reference, some d =>
    match p.isInterface d with
    | .ok true => do
      match ← p.implements narrowed d with
      | .ok true => return true
      | _ => return false
    | .ok false => do
      let common ← p.commonSuperclass narrowed d
      return common == d
    | .error _ => return false
  | _, _ => return false

/-- A register that holds a copy of the checked one, made by a move just
    before the check. -/
def copiedFrom? (c : MethodContext) (points : List Point) (check : Nat) (tested object : Nat)
    (known : RegisterType) : Option Nat := do
  let [e] := c.graph.predecessors check | none
  let copy ← (points[e.source]?).map (·.current)
  let source ← copy.register? 1
  if !e.exceptional && Recovery.isMoveObject copy.opcode && copy.register? 0 == some object &&
      source ≠ tested && ((points[check]?).bind (·.pre[source]?)) == some known then
    some source
  else none

/-- The check before a branch: the index of an instance-of that is its only
    predecessor and writes the tested register, the checked register and the
    checked class. -/
def checkBefore? (c : MethodContext) (points : List Point) (ix : Nat) :
    Option (Nat × Nat × Nat × Descriptor) := do
  let [e] := c.graph.predecessors ix | none
  let branch ← points[ix]?
  let check ← points[e.source]?
  let tested ← check.current.register? 0
  let object ← check.current.register? 1
  let type ← check.current.typeRef?
  if e.exceptional || check.current.opcode ≠ .instanceOf ||
      branch.current.register? 0 ≠ some tested || tested = object then none
  else some (e.source, tested, object, type)

/-- The successor that a branch on an instance-of takes when the check
    succeeded; none if both ways lead to the same instruction. -/
def successSide? (c : MethodContext) (ix : Nat) (branch : Instruction) : Option Nat := do
  let distance ← branch.target
  let target ← FlowGraph.indexFrom? c.graph.addresses (c.graph.address ix) distance
  if target = ix + 1 then none
  else some (if branch.opcode = .ifEqz then ix + 1 else target)

/-- After an instance-of and a branch on its result, the checked register holds
    an instance of the checked class on the side where the check succeeded.
    Interfaces do not narrow, and only ART reads code this way. -/
def afterCheck (c : MethodContext) (points : List Point) (ix : Nat) : Query (Option Narrowing) :=
  if !c.path.runtime.isArt then return none
  else
    match points[ix]?, checkBefore? c points ix with
    | some branch, some (check, tested, object, type) =>
      let narrowed := RegisterType.ofDescriptor type
      match narrowed.cls, branch.pre[object]? with
      | some d, some known =>
        match c.path.isInterface d with
        | .ok false => do
          if ← keepsOrTightens c.path known d then
            match successSide? c ix branch.current with
            | none => return none
            | some target =>
              let copies := (copiedFrom? c points check tested object known).toList
              return some ⟨target, (object :: copies).map fun r => (r, narrowed)⟩
          else return none
        | _ => return none
      | _, _ => return none
    | _, _ => return none

end SymbolicDex.Narrowing
