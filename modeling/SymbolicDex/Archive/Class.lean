import SymbolicDex.Archive.Instruction
import SymbolicDex.ClassDef

/- Class definitions as records. `ClassDef.ofRecord?` reads what
   `ClassDef.record` writes. -/
namespace SymbolicDex

/-! Access flags are kept as text. -/

namespace Access

/-- Value of a hexadecimal digit, lower case. -/
def hexDigit? (c : Char) : Option Nat :=
  "0123456789abcdef".toList.findIdx? (· = c)

/-- Value of hexadecimal digits after `value`. -/
def hexFrom? (value : Nat) : List Char → Option Nat
  | [] => some value
  | c :: cs => do hexFrom? (value * 16 + (← hexDigit? c)) cs

/-- Bits of one item: a name, or digits after `0x`. -/
def itemBits? (item : List Char) : Option Nat :=
  match item with
  | '0' :: 'x' :: digits => if digits.isEmpty then none else hexFrom? 0 digits
  | _ => (names.find? (·.2.toList == item)).map fun n => 1 <<< n.1

/-- The pieces between the bars of a text. -/
def splitItems : List Char → List (List Char)
  | ' ' :: '|' :: ' ' :: cs => [] :: splitItems cs
  | c :: cs =>
    match splitItems cs with
    | item :: items => (c :: item) :: items
    | [] => [[c]]
  | [] => [[]]

/-- Reads what `text` writes. -/
def ofText? (s : String) : Option Access := do
  if s.isEmpty then return ⟨0⟩
  else
    let bits ← (splitItems s.toList).mapM itemBits?
    return ⟨bits.foldl (· ||| ·) 0⟩

def record (a : Access) : Record := .text a.text

def ofRecord? (r : Record) : Option Access := r.text?.bind ofText?

end Access

namespace FieldDef

def record (f : FieldDef) : Record :=
  .object [("name", .text f.name), ("type_desc", .text f.type), ("access", f.access.record)]

def ofRecord? (r : Record) : Option FieldDef := do
  return ⟨← r.get? "name" Record.text?, ← r.get? "type_desc" Record.text?,
    ← r.get? "access" Access.ofRecord?⟩

end FieldDef

/-! Code. -/

namespace Handler

def record (h : Handler) : Record :=
  .object [("exception_type", .option .text h.type), ("handler_address", .nat h.address)]

def ofRecord? (r : Record) : Option Handler := do
  return ⟨← r.get? "exception_type" (Record.option? Record.text?),
    ← r.get? "handler_address" Record.nat?⟩

end Handler

namespace TryBlock

def record (t : TryBlock) : Record :=
  .object [("start_address", .nat t.start), ("code_unit_count", .nat t.count),
    ("handlers", .listOf Handler.record t.handlers)]

def ofRecord? (r : Record) : Option TryBlock := do
  return ⟨← r.get? "start_address" Record.nat?, ← r.get? "code_unit_count" Record.nat?,
    ← r.get? "handlers" (Record.listOf? Handler.ofRecord?)⟩

end TryBlock

namespace LocalVariable

def record (v : LocalVariable) : Record :=
  .object [("register", .nat v.register), ("name", .text v.name), ("type_desc", .text v.type),
    ("start_address", .nat v.start), ("end_address", .nat v.stop)]

def ofRecord? (r : Record) : Option LocalVariable := do
  return ⟨← r.get? "register" Record.nat?, ← r.get? "name" Record.text?,
    ← r.get? "type_desc" Record.text?, ← r.get? "start_address" Record.nat?,
    ← r.get? "end_address" Record.nat?⟩

end LocalVariable

namespace Code

/-- An address and its line. -/
def lineRecord (l : Nat × Nat) : Record := .list [.nat l.1, .nat l.2]

def line? : Record → Option (Nat × Nat)
  | .list [address, line] => do return (← address.nat?, ← line.nat?)
  | _ => none

def record (c : Code) : Record :=
  .object [
    ("registers", .nat c.registers),
    ("instructions", .listOf Instruction.record c.instructions),
    ("tries", .listOf TryBlock.record c.tries),
    ("locals", .listOf LocalVariable.record c.locals),
    ("lines", .listOf lineRecord c.lines)]

def ofRecord? (r : Record) : Option Code := do
  return {
    registers := ← r.get? "registers" Record.nat?
    instructions := ← r.get? "instructions" (Record.listOf? Instruction.ofRecord?)
    tries := ← r.get? "tries" (Record.listOf? TryBlock.ofRecord?)
    locals := ← r.get? "locals" (Record.listOf? LocalVariable.ofRecord?)
    lines := ← r.get? "lines" (Record.listOf? line?) }

end Code

/-! Methods and classes. -/

namespace MethodDef

def record (m : MethodDef) : Record :=
  .object [("name", .text m.name), ("proto", m.prototype.record), ("access", m.access.record),
    ("code", .option Code.record m.code)]

def ofRecord? (r : Record) : Option MethodDef := do
  return {
    name := ← r.get? "name" Record.text?
    prototype := ← r.get? "proto" Prototype.ofRecord?
    access := ← r.get? "access" Access.ofRecord?
    code := ← r.get? "code" (Record.option? Code.ofRecord?) }

end MethodDef

namespace ClassDef

def record (c : ClassDef) : Record :=
  .object [
    ("descriptor", .text c.descriptor),
    ("access", c.access.record),
    ("superclass", .option .text c.superclass),
    ("interfaces", .listOf .text c.interfaces),
    ("source_file", .option .text c.sourceFile),
    ("fields", .listOf FieldDef.record c.fields),
    ("methods", .listOf MethodDef.record c.methods)]

def ofRecord? (r : Record) : Option ClassDef := do
  return {
    descriptor := ← r.get? "descriptor" Record.text?
    access := ← r.get? "access" Access.ofRecord?
    superclass := ← r.get? "superclass" (Record.option? Record.text?)
    interfaces := ← r.get? "interfaces" (Record.listOf? Record.text?)
    sourceFile := ← r.get? "source_file" (Record.option? Record.text?)
    fields := ← r.get? "fields" (Record.listOf? FieldDef.ofRecord?)
    methods := ← r.get? "methods" (Record.listOf? MethodDef.ofRecord?) }

end ClassDef

end SymbolicDex
