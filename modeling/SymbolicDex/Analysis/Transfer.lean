import SymbolicDex.Analysis.Point
import SymbolicDex.Analysis.RegisterEffect
import SymbolicDex.ClassDef
import SymbolicDex.Hierarchy.Lookup
import SymbolicDex.RegisterType.Merge

/- The state after a plain instruction, from the state before it. -/
namespace SymbolicDex

/-- Why an instruction has no state after it. -/
inductive Halt where
  /-- Its object register has no usable type yet. -/
  | parked (register : Nat) (failure : Option AnalysisFailure)
  | failed (failure : AnalysisFailure)
  /-- A lookup does not end. -/
  | endless
deriving DecidableEq

abbrev Rule := ExceptT Halt Query

/-- What a rule may look at: the class path, the class and body of the method,
    and the instruction at `index` with the state before it. -/
structure Site where
  path : ClassPath
  cls : ClassDef
  code : Code
  index : Nat
  address : Nat
  current : Instruction
  /-- The instruction before, in its present form. -/
  previous : Option Instruction
  pre : List RegisterType
  hint : Option RegisterType

namespace Rule

def fail {α : Type} (fault : AnalysisFault) : Rule α :=
  throw (.failed (AnalysisFailure.of fault))

/-- Waits for another type of the register. -/
def park {α : Type} (register : Nat) (failure : Option AnalysisFault) : Rule α :=
  throw (.parked register (failure.map AnalysisFailure.of))

/-- The part of an instruction a rule cannot do without. -/
def need {α : Type} (a : Option α) (fault : AnalysisFault) : Rule α :=
  match a with
  | some a => return a
  | none => fail fault

end Rule

namespace Site

def operand (i : Instruction) (k : Nat) : Rule Nat :=
  Rule.need (i.register? k) (.missingOperand k)

/-- Type of a register before the instruction. -/
def read (s : Site) (r : Nat) : Rule RegisterType :=
  Rule.need s.pre[r]? (.registerRange r)

/-- Type of an object register: the recovered one if there is one. -/
def objectType (s : Site) (r : Nat) : Rule RegisterType :=
  match s.hint with
  | some t => return t
  | none => s.read r

/-- The state before with one register set; a lower half sets the upper half
    in the next register with it. -/
def write (s : Site) (r : Nat) (t : RegisterType) : Rule (List RegisterType) :=
  if s.pre.length ≤ r then Rule.fail (.registerRange r)
  else
    match t.wideHigh? with
    | none => return s.pre.set r t
    | some high =>
      if s.pre.length ≤ r + 1 then Rule.fail (.pairRange r)
      else return (s.pre.set r t).set (r + 1) high

/-- The state with the first operand set. -/
def writeDest (s : Site) (i : Instruction) (t : RegisterType) : Rule (List RegisterType) := do
  s.write (← operand i 0) t

/-- What a custom call leaves. Its call site is not resolved, so only the move
    tells the shape. -/
def customResult : Opcode → RegisterType
  | .moveResultWide => RegisterType.ofCategory .longLo
  | .moveResultObject => RegisterType.reference Descriptor.object
  | _ => RegisterType.ofCategory .integer

/-- The value that `producer` leaves for a move-result. -/
def resultType (moveOp : Opcode) (producer : Instruction) : Rule RegisterType :=
  match producer.opcode with
  | .filledNewArray | .filledNewArrayRange => do
    let array ← Rule.need producer.typeRef? (.noArrayType producer.opcode)
    return RegisterType.ofDescriptor array
  | .invokePolymorphic | .invokePolymorphicRange =>
    match producer.reference2 with
    | some (.prototype p) => return RegisterType.ofDescriptor p.result
    | _ => Rule.fail (.noPrototype producer.opcode)
  | .invokeCustom | .invokeCustomRange => return customResult moveOp
  | _ =>
    match producer.methodRef? with
    | none => Rule.fail (.resultOfUnresolved moveOp producer.opcode)
    | some m =>
      if m.prototype.result = "V" then Rule.fail (.resultOfVoid moveOp m)
      else return RegisterType.ofDescriptor m.prototype.result

/-- Classes that the handlers at the address catch. -/
def caughtTypes (s : Site) : List Descriptor :=
  ((s.code.tries.flatMap (·.handlers)).filter (·.address == s.address)).map
    fun h => h.type.getD Descriptor.throwable

/-- Merge of references to the classes, none being unknown. -/
def mergeReferences (p : ClassPath) (ds : List Descriptor) : Query RegisterType :=
  ds.foldlM (fun t d => RegisterType.merge p t (RegisterType.reference d)) RegisterType.unknown

/-- A constructor call initializes every copy of the reference it is called
    on. -/
def construct (s : Site) (i : Instruction) : Rule (List RegisterType) :=
  match i.methodRef? with
  | none => return s.pre
  | some m =>
    if m.name ≠ "<init>" then return s.pre
    else do
      let object ← s.read (← operand i 0)
      if object.category = .uninitRef ∨ object.category = .uninitThis then
        match object.cls with
        | none => return s.pre
        | some c => return s.pre.map fun t => if t = object then RegisterType.reference c else t
      else return s.pre

def wideElement (array : RegisterType) (register : Nat) : Rule RegisterType :=
  match array.category, array.cls with
  | .null, _ => return RegisterType.ofCategory .longLo
  | .reference, some d =>
    if d = "[J" then return RegisterType.ofCategory .longLo
    else if d = "[D" then return RegisterType.ofCategory .doubleLo
    else Rule.park register (some (.wideArray array))
  | _, _ => Rule.park register (some (.wideArray array))

def objectElement (p : ClassPath) (array : RegisterType) (register : Nat) : Rule RegisterType :=
  match array.category, array.cls with
  | .null, _ => return RegisterType.null
  | .reference, some d =>
    match p.elementType? d with
    | some element =>
      if element.isReference then return RegisterType.ofDescriptor element
      else Rule.park register (some (.nonObjectArray array))
    | none => Rule.park register (some (.nonObjectArray array))
  | _, _ => Rule.park register (some (.nonArray array))

/-- Bit operations keep truth values. -/
def bitwiseCategory (booleans : Bool) : Category :=
  if booleans then .boolean else .integer

/-- The state after the instruction `i` of the site, which has no optimizer's
    opcode. -/
def apply (s : Site) (i : Instruction) : Rule (List RegisterType) := do
  match i.opcode.registerEffect with
  | .keep => return s.pre
  | .copy =>
    let dest ← operand i 0
    let source ← operand i 1
    s.write dest (← s.read source)
  | .result =>
    let dest ← operand i 0
    let producer ← Rule.need (s.previous.filter (·.opcode.setsResult))
      (.resultWithoutProducer i.opcode)
    s.write dest (← resultType i.opcode producer)
  | .exception =>
    let dest ← operand i 0
    match s.caughtTypes with
    | [] => Rule.fail .exceptionOutsideHandler
    | caught => s.write dest (← mergeReferences s.path caught)
  | .literal =>
    let dest ← operand i 0
    let literal ← Rule.need i.literal .noLiteral
    s.write dest (RegisterType.ofLiteral literal)
  | .value c => s.writeDest i (RegisterType.ofCategory c)
  | .ofClass d => s.writeDest i (RegisterType.reference d)
  | .named =>
    let dest ← operand i 0
    let type ← Rule.need i.typeRef? (.noType i.opcode)
    s.write dest (RegisterType.ofDescriptor type)
  | .newInstance =>
    let dest ← operand i 0
    let type ← Rule.need i.typeRef? (.noType i.opcode)
    s.write dest ⟨.uninitRef, some type⟩
  | .wideElement =>
    let dest ← operand i 0
    let register ← operand i 1
    s.write dest (← wideElement (← s.objectType register) register)
  | .objectElement =>
    let dest ← operand i 0
    let register ← operand i 1
    s.write dest (← objectElement s.path (← s.objectType register) register)
  | .field =>
    let dest ← operand i 0
    let field ← Rule.need i.fieldRef? (.noField i.opcode)
    s.write dest (RegisterType.ofDescriptor field.type)
  | .construct => s.construct i
  | .bitwise left right =>
    let a ← s.read (← operand i left)
    let b ← s.read (← operand i right)
    s.writeDest i (RegisterType.ofCategory
      (bitwiseCategory (a.category.isBooleanLike && b.category.isBooleanLike)))
  | .bitwiseLiteral =>
    let a ← s.read (← operand i 1)
    let literal := i.literal.getD (-1)
    s.writeDest i (RegisterType.ofCategory
      (bitwiseCategory (a.category.isBooleanLike && (literal == 0 || literal == 1))))
  | .shiftRight logical =>
    let a ← s.read (← operand i 1)
    s.writeDest i (RegisterType.ofCategory
      (a.category.shiftedRight (i.literal.getD 0) logical))

end Site

end SymbolicDex
