import SymbolicDex.AnalysisFailure
import SymbolicDex.Instruction.Printer

/- What the analysis knows about one instruction of a method. -/
namespace SymbolicDex

/-- An instruction that waits for a usable type of its object register, with
    the failure if a type was known and the lookup on it failed. -/
structure Parked where
  register : Nat
  failure : Option AnalysisFailure
deriving DecidableEq

/-- Register types that replace the state along one edge. -/
structure Narrowing where
  target : Nat
  registers : List (Nat × RegisterType)
deriving DecidableEq

structure Point where
  /-- The instruction as it was given. -/
  given : Instruction
  /-- Its present form, symbolic once it was restored. -/
  current : Instruction
  pre : List RegisterType
  post : List RegisterType
  reached : Bool := false
  /-- The post-state was computed. -/
  analyzed : Bool := false
  /-- Times it was taken off the work queue. -/
  visits : Nat := 0
  parked : Option Parked := none
  /-- Type supplied by recovery for the object register. -/
  hint : Option RegisterType := none
  recoveryTried : Bool := false
  /-- Set to the object register once it is certain that the instruction can
      only throw. -/
  throwing : Option Nat := none
  narrowing : Option Narrowing := none
deriving DecidableEq

namespace Point

def ofInstruction (registers : Nat) (i : Instruction) : Point :=
  let unknowns := List.replicate registers RegisterType.unknown
  { given := i, current := i, pre := unknowns, post := unknowns }

/-- Still in the optimizer's form. A verification error has no symbolic form
    and stays as it is. -/
def isOdexed (p : Point) : Bool :=
  p.current.opcode.isOdex && p.current.opcode ≠ .throwVerificationError && p.throwing.isNone

/-- What stands in place of the given instruction. -/
inductive Replacement where
  | restored (i : Instruction)
  | throwing (given : Instruction) (register : Nat)

def replacement? (p : Point) : Option Replacement :=
  match p.throwing with
  | some r => some (.throwing p.given r)
  | none => if p.current = p.given then none else some (.restored p.current)

/-- The instructions to write. One that can only throw becomes a throw of its
    object register, padded with nops so that code addresses stay. -/
def emitted (p : Point) : List Instruction :=
  match p.throwing with
  | some r =>
    { opcode := .throwValue, registers := [r] } ::
      List.replicate (p.given.codeUnits - 1) { opcode := .nop }
  | none => [p.current]

end Point

/-- How a type was recovered, or that none was. -/
inductive NoteKind where
  /-- From the instruction that defined the register. -/
  | retraced
  /-- From the nearest preceding instance-of on the register. -/
  | instanceOf
  /-- From the local variable of the debug info. -/
  | debugLocal
  /-- The register is written by a move-exception somewhere. -/
  | throwableHandler
  /-- The instruction was replaced by a throw. -/
  | unresolvable
deriving DecidableEq

namespace NoteKind

def name : NoteKind → String
  | retraced => "Retraced"
  | instanceOf => "InstanceOf"
  | debugLocal => "DebugLocal"
  | throwableHandler => "ThrowableHandler"
  | unresolvable => "Unresolvable"

end NoteKind

/-- A reservation about a result. -/
structure Note where
  address : Nat
  kind : NoteKind
  register : Nat
  type : Option Descriptor
  instruction : String
deriving DecidableEq

namespace Note

def text (n : Note) : String :=
  let place := Text.hex n.address ++ ": "
  let register := "v" ++ n.register.repr
  let quoted := "\x60" ++ n.instruction ++ "\x60"
  match n.kind, n.type with
  | .unresolvable, _ =>
    place ++ "replaced unresolvable odex instruction " ++ quoted ++ " with a throw of " ++ register
  | kind, some type =>
    place ++ "using " ++ type ++ " for " ++ register ++ " in " ++ quoted ++
      " (" ++ kind.name ++ ")"
  | kind, none => place ++ kind.name ++ " for " ++ register ++ " in " ++ quoted

end Note

end SymbolicDex
