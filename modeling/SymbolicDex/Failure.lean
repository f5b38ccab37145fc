import SymbolicDex.Opcode.Info
import SymbolicDex.Text.Number

/- What can go wrong while code units, tables and class lists are read or
   written. A failure is one cause and the places it was met, innermost
   first; the wording is here and nowhere else. -/
namespace SymbolicDex

inductive Fault where
  /-- A variable-length number whose last byte asks for more. -/
  | unterminatedNumber (bytes : Nat)
  | endOfUnit (index : Nat)
  | endOfNumber (index : Nat)
  | invalidType (text : String)
  | invalidPrototype (text : String)
  | poolIndex (kind : String) (index entries : Nat)
  | unknownOpcode (value : Nat)
  | truncatedInstruction (opcode : Opcode) (units : Nat)
  | registerCount (count : Nat) (opcode : Opcode)
  | truncatedPackedHeader
  | truncatedPacked (targets : Nat)
  | truncatedSparse (entries : Nat)
  | truncatedArrayHeader
  | truncatedArray (bytes : Nat)
  /-- A class that does not fit into a file of its own. -/
  | classTooLarge (descriptor : String) (fields methods : Nat)
  | inlineEntry (line : Nat) (text : String)
  | oddIndexTable (bytes : Nat)
  | indexTooWide (index : Nat)
  | tableExhausted (opcode : Opcode) (address : Nat)
  | tableElsewhere (opcode : Opcode) (address : Nat)
  | castRegister (register address : Nat)
  | tableUnused (entries : Nat)
  /-- Reported by a writer or another caller. -/
  | reported (text : String)
deriving DecidableEq

namespace Fault

open Text in
def message : Fault → String
  | unterminatedNumber n => "Unterminated uleb128 value after " ++ n.repr ++ " bytes"
  | endOfUnit i => "Unexpected end of stream reading u2 at index " ++ i.repr
  | endOfNumber i => "Unexpected end of stream reading uleb128 at index " ++ i.repr
  | invalidType t => "Invalid type descriptor " ++ t
  | invalidPrototype t => "Invalid method prototype " ++ t
  | poolIndex kind i n =>
    kind ++ " index " ++ i.repr ++ " out of range (" ++ n.repr ++ " entries)"
  | unknownOpcode v => "Unknown opcode value " ++ hex v
  | truncatedInstruction o n =>
    "Truncated " ++ o.name ++ " instruction, need " ++ n.repr ++ " code units"
  | registerCount n o => "Invalid register count " ++ n.repr ++ " for " ++ o.name
  | truncatedPackedHeader => "Truncated packed-switch payload"
  | truncatedPacked n => "Truncated packed-switch payload with " ++ n.repr ++ " targets"
  | truncatedSparse n => "Truncated sparse-switch payload with " ++ n.repr ++ " entries"
  | truncatedArrayHeader => "Truncated array payload"
  | truncatedArray n => "Truncated array payload of " ++ n.repr ++ " bytes"
  | classTooLarge d f m =>
    "Class " ++ d ++ " needs " ++ f.repr ++ " field and " ++ m.repr ++ " method ids"
  | inlineEntry n t => "Malformed inline method entry on line " ++ n.repr ++ ": " ++ t
  | oddIndexTable n =>
    "Quickening info of " ++ n.repr ++ " bytes is not a list of u16 indices"
  | indexTooWide i => "Quickened index " ++ i.repr ++ " does not fit in 16 bits"
  | tableExhausted o a => "Not enough quickening info for " ++ o.name ++ " at " ++ hex a
  | tableElsewhere o a => "No quickening info for " ++ o.name ++ " at " ++ hex a
  | castRegister r a => "Register v" ++ r.repr ++ " out of range at " ++ hex a
  | tableUnused n => "Failed to use all values in quickening info, " ++ n.repr ++ " left"
  | reported t => t

end Fault

/-- A fault and its contexts, innermost first. -/
structure Failure where
  fault : Fault
  contexts : List String
deriving DecidableEq

namespace Failure

def of (fault : Fault) : Failure := ⟨fault, []⟩

/-- Adds an outer context. -/
def within (context : String) (f : Failure) : Failure :=
  { f with contexts := f.contexts ++ [context] }

/-- The message, then the contexts from the innermost outwards. -/
def text (f : Failure) : String :=
  match f.contexts with
  | [] => f.fault.message
  | cs => f.fault.message ++ " for " ++ " of ".intercalate cs

end Failure

/-- A computation that may meet a fault. -/
abbrev Checked := Except Failure

namespace Checked

def fail {α : Type} (fault : Fault) : Checked α := .error (Failure.of fault)

/-- Adds a context to the failure, if there is one. -/
def within {α : Type} (context : String) (x : Checked α) : Checked α :=
  x.mapError (Failure.within context)

end Checked

end SymbolicDex
