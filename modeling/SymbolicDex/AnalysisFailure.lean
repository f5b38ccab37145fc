import SymbolicDex.Hierarchy.ClassPath
import SymbolicDex.RegisterType.Basic

/- What can go wrong while a method is analysed, and where. -/
namespace SymbolicDex

inductive AnalysisFault where
  /-- A fault met while tables or code units were read. -/
  | reading (fault : Fault)
  | missingClass (c : MissingClass)
  | reported (text : String)
  -- lookups
  | noFieldAt (cls : Descriptor) (offset : Nat)
  | noMethodAt (cls : Descriptor) (index : Nat)
  | inaccessible (member : String)
  | inaccessibleField (field : FieldRef)
  | inaccessibleMethod (method : MethodRef)
  -- shape of the method
  | noCode (method : MethodRef)
  | parametersTooWide (parameters registers : Nat)
  | branchTarget (distance : Int)
  | handlerAddress (address : Nat)
  | runsPastEnd
  | switchPayload
  | startsWithMoveException
  | passesToMoveException (opcode : Opcode) (source target : Nat)
  -- operands
  | missingOperand (operand : Nat)
  | registerRange (register : Nat)
  | pairRange (register : Nat)
  | noLiteral
  | noType (opcode : Opcode)
  | noArrayType (opcode : Opcode)
  | noPrototype (opcode : Opcode)
  | noField (opcode : Opcode)
  | noOffset (opcode : Opcode)
  | noVtableIndex (opcode : Opcode)
  | noInlineIndex (opcode : Opcode)
  | inlineIndex (index : Nat)
  -- rules
  | resultWithoutProducer (opcode : Opcode)
  | resultOfVoid (opcode : Opcode) (method : MethodRef)
  | resultOfUnresolved (opcode producer : Opcode)
  | exceptionOutsideHandler
  | wideArray (array : RegisterType)
  | nonObjectArray (array : RegisterType)
  | nonArray (array : RegisterType)
  | nonReference (opcode : Opcode) (object : RegisterType)
  | fieldType (type : Descriptor) (opcode : Opcode)
  | noSuperclass (opcode : Opcode) (cls : Descriptor)
deriving DecidableEq

namespace AnalysisFault

open Text in
def message : AnalysisFault → String
  | reading f => f.message
  | missingClass c => c.text
  | reported t => t
  | noFieldAt c o => "Could not resolve the field in class " ++ c ++ " at offset " ++ o.repr
  | noMethodAt c i => "Could not resolve the method in class " ++ c ++ " at index " ++ i.repr
  | inaccessible m => "Couldn't find accessible class while resolving " ++ m
  | inaccessibleField f => "Couldn't find accessible class while resolving field " ++ f.text
  | inaccessibleMethod m => "Couldn't find accessible class while resolving method " ++ m.text
  | noCode m => m.text ++ " has no code"
  | parametersTooWide n k =>
    n.repr ++ " parameter registers do not fit in " ++ k.repr ++ " registers"
  | branchTarget d => "Invalid branch or payload target " ++ signed d
  | handlerAddress a => "Invalid exception handler address " ++ hex a
  | runsPastEnd => "Execution can continue past the last instruction"
  | switchPayload => "Switch does not point at a matching payload"
  | startsWithMoveException => "Method can not start with a move-exception instruction"
  | passesToMoveException o s t =>
    "Execution can pass from the " ++ o.name ++ " instruction at code address " ++ hex s ++
      " to the move-exception instruction at address " ++ hex t
  | missingOperand k => "Missing register operand " ++ k.repr
  | registerRange r => "Register v" ++ r.repr ++ " out of range"
  | pairRange r =>
    "Wide register pair v" ++ r.repr ++ "/v" ++ (r + 1).repr ++ " out of range"
  | noLiteral => "Constant without a literal"
  | noType o => o.name ++ " has no type reference"
  | noArrayType o => o.name ++ " has no array type"
  | noPrototype o => o.name ++ " has no prototype"
  | noField o => o.name ++ " has no field reference"
  | noOffset o => o.name ++ " has no field offset"
  | noVtableIndex o => o.name ++ " has no vtable index"
  | noInlineIndex o => o.name ++ " has no inline index"
  | inlineIndex i => "Invalid inline index " ++ i.repr
  | resultWithoutProducer o =>
    o.name ++ " must occur after an invoke-*/fill-new-array instruction"
  | resultOfVoid o m => "Cannot use " ++ o.name ++ " after " ++ m.text ++ ", which returns void"
  | resultOfUnresolved o p => "Cannot use " ++ o.name ++ " after an unresolved " ++ p.name
  | exceptionOutsideHandler =>
    "move-exception must be the first instruction of an exception handler"
  | wideArray t => "Cannot use aget-wide with array type " ++ t.text
  | nonObjectArray t => "Cannot use aget-object with non-object array type " ++ t.text
  | nonArray t => "Cannot use aget-object with non-array type " ++ t.text
  | nonReference o t =>
    "Cannot use " ++ o.name ++ " with a non-reference register type " ++ t.text
  | fieldType d o => "Incorrect field type " ++ d ++ " for " ++ o.name
  | noSuperclass o c => o.name ++ " in " ++ c ++ ", which has no superclass"

end AnalysisFault

/-- A fault, the code address it belongs to once one is known, and lines that
    say where it was met. -/
structure AnalysisFailure where
  fault : AnalysisFault
  address : Option Nat := none
  contexts : List String := []
deriving DecidableEq

namespace AnalysisFailure

def of (fault : AnalysisFault) : AnalysisFailure := { fault := fault }

def atAddress (address : Nat) (fault : AnalysisFault) : AnalysisFailure :=
  { fault := fault, address := some address }

/-- Keeps the contexts of the failure. -/
def ofFailure (f : Failure) : AnalysisFailure :=
  { fault := .reading f.fault, contexts := f.contexts }

def ofMissing (c : MissingClass) : AnalysisFailure := of (.missingClass c)

def within (f : AnalysisFailure) (context : String) : AnalysisFailure :=
  { f with contexts := f.contexts ++ [context] }

/-- The first address stays. -/
def withAddress (f : AnalysisFailure) (address : Nat) : AnalysisFailure :=
  { f with address := f.address.orElse fun _ => some address }

/-- The message, the address, and a line for every context. -/
def text (f : AnalysisFailure) : String :=
  let address := match f.address with
    | some a => " (code address " ++ Text.hex a ++ ")"
    | none => ""
  f.fault.message ++ address ++ String.join (f.contexts.map ("\n  " ++ ·))

end AnalysisFailure

end SymbolicDex
