import SymbolicDex.Analysis.Point
import SymbolicDex.ClassDef

/- Guessing the type of a register when the flow of types leaves none that an
   instruction can use. The guesses are tried in a fixed order. -/
namespace SymbolicDex.Recovery

/-- How far back the searches look. -/
def lookbehind : Nat := 64

/-- Whether an instruction writes a register. -/
def writes (i : Instruction) (register : Nat) : Bool :=
  match i.register? 0 with
  | none => false
  | some dest =>
    i.opcode.setsRegister && (dest == register || (i.opcode.setsWide && dest + 1 == register))

/-- The instructions before `ix`, nearest first, as far back as searches look,
    each with its index. -/
def before (is : List Instruction) (ix : Nat) : List (Nat × Instruction) :=
  (((is.take ix).zipIdx.map fun (i, k) => (k, i)).reverse).take lookbehind

def isMoveObject : Opcode → Bool
  | .moveObject | .moveObjectFrom16 | .moveObject16 => true
  | _ => false

/-- The type of what `producer` leaves behind. -/
def producedType? (producer : Instruction) : Option Descriptor :=
  match producer.opcode with
  | .filledNewArray | .filledNewArrayRange => producer.typeRef?
  | _ => producer.methodRef?.map (·.prototype.result)

/-- The type that an instruction which writes a register names for it. -/
def definedType? (is : List Instruction) (ix : Nat) (i : Instruction) : Option Descriptor :=
  match i.opcode with
  | .checkCast | .newInstance | .newArray => i.typeRef?
  | .constString | .constStringJumbo => some Descriptor.string
  | .constClass => some Descriptor.classClass
  | .igetObject | .sgetObject => i.fieldRef?.map (·.type)
  | .moveResultObject => if ix = 0 then none else is[ix - 1]?.bind producedType?
  | _ => none

/-- Follows a register back through moves to the instruction that defined it. -/
def retrace (is : List Instruction) (register : Nat) :
    List (Nat × Instruction) → Option Descriptor
  | [] => none
  | (k, i) :: rest =>
    if writes i register then
      if isMoveObject i.opcode then
        match i.register? 1 with
        | some source => retrace is source rest
        | none => none
      else definedType? is k i
    else retrace is register rest

/-- The type of the nearest instance-of on a register that was not written
    since. -/
def precedingCheck (register : Nat) : List (Nat × Instruction) → Option Descriptor
  | [] => none
  | (_, i) :: rest =>
    if i.opcode = .instanceOf ∧ i.register? 1 = some register then i.typeRef?
    else if writes i register then none
    else precedingCheck register rest

/-- The declared type of the local variable in a register. -/
def debugLocal (code : Code) (address register : Nat) : Option Descriptor :=
  (code.locals.find? fun l =>
    l.register == register && l.start ≤ address && address < l.stop).map (·.type)

/-- A register that a move-exception writes anywhere holds what was caught. -/
def caughtException (is : List Instruction) (register : Nat) : Option Descriptor :=
  if is.any fun i => i.opcode == .moveException && i.register? 0 == some register then
    some Descriptor.throwable
  else none

structure Candidate where
  kind : NoteKind
  type : Descriptor
deriving DecidableEq

/-- Adds a guess that is a reference type not guessed before. -/
def addGuess (found : List Candidate) (guess : NoteKind × Option Descriptor) : List Candidate :=
  match guess.2 with
  | none => found
  | some t =>
    if t.isReference && !found.any (·.type == t) then found ++ [⟨guess.1, t⟩] else found

/-- Distinct reference types for a register at instruction `ix`, in the order
    they are to be tried. -/
def candidates (code : Code) (is : List Instruction) (ix address register : Nat) :
    List Candidate :=
  let back := before is ix
  [(.retraced, retrace is register back),
    (.instanceOf, precedingCheck register back),
    (.debugLocal, debugLocal code address register),
    (.throwableHandler, caughtException is register)].foldl addGuess []

end SymbolicDex.Recovery
