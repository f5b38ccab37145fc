import SymbolicDex.Archive.Record
import SymbolicDex.Instruction.Basic

/- Instructions as records. Every writer has its reader beside it. -/
namespace SymbolicDex

/-! Member references. -/

namespace Prototype

def record (p : Prototype) : Record :=
  .object [("params", .listOf .text p.params), ("return_type", .text p.result)]

def ofRecord? (r : Record) : Option Prototype := do
  return ⟨← r.get? "params" (Record.listOf? Record.text?), ← r.get? "return_type" Record.text?⟩

end Prototype

namespace FieldRef

def record (f : FieldRef) : Record :=
  .object [("class", .text f.owner), ("name", .text f.name), ("type_desc", .text f.type)]

def ofRecord? (r : Record) : Option FieldRef := do
  return ⟨← r.get? "class" Record.text?, ← r.get? "name" Record.text?,
    ← r.get? "type_desc" Record.text?⟩

end FieldRef

namespace MethodRef

def record (m : MethodRef) : Record :=
  .object [("class", .text m.owner), ("name", .text m.name), ("proto", m.prototype.record)]

def ofRecord? (r : Record) : Option MethodRef := do
  return ⟨← r.get? "class" Record.text?, ← r.get? "name" Record.text?,
    ← r.get? "proto" Prototype.ofRecord?⟩

end MethodRef

/-! Operands. -/

namespace Reference

def record : Reference → Record
  | string s => .tagged "String" (.text s)
  | type t => .tagged "Type" (.text t)
  | field f => .tagged "Field" f.record
  | method m => .tagged "Method" m.record
  | prototype p => .tagged "MethodProto" p.record
  | callSite name => .tagged "CallSite" (.text name)
  | methodHandle name => .tagged "MethodHandle" (.text name)
  | fieldOffset o => .tagged "FieldOffset" (.nat o)
  | vtableIndex i => .tagged "VtableIndex" (.nat i)
  | inlineIndex i => .tagged "InlineIndex" (.nat i)

def ofRecord? (r : Record) : Option Reference :=
  match r.tagged? with
  | some ("String", v) => v.text?.map string
  | some ("Type", v) => v.text?.map type
  | some ("Field", v) => (FieldRef.ofRecord? v).map field
  | some ("Method", v) => (MethodRef.ofRecord? v).map method
  | some ("MethodProto", v) => (Prototype.ofRecord? v).map prototype
  | some ("CallSite", v) => v.text?.map callSite
  | some ("MethodHandle", v) => v.text?.map methodHandle
  | some ("FieldOffset", v) => v.nat?.map fieldOffset
  | some ("VtableIndex", v) => v.nat?.map vtableIndex
  | some ("InlineIndex", v) => v.nat?.map inlineIndex
  | _ => none

end Reference

namespace Payload

def record : Payload → Record
  | packedSwitch firstKey targets =>
    .tagged "PackedSwitch" (.object [("first_key", .int firstKey), ("targets", .listOf .int targets)])
  | sparseSwitch keys targets =>
    .tagged "SparseSwitch" (.object [("keys", .listOf .int keys), ("targets", .listOf .int targets)])
  | arrayData width data =>
    .tagged "ArrayData" (.object [("element_width", .nat width),
      ("data", .listOf (fun b => .nat b.toNat) data)])

def byte? (r : Record) : Option UInt8 := do
  let n ← r.nat?
  if n < 256 then return n.toUInt8 else none

def ofRecord? (r : Record) : Option Payload := do
  match ← r.tagged? with
  | ("PackedSwitch", v) =>
    return packedSwitch (← v.get? "first_key" Record.int?)
      (← v.get? "targets" (Record.listOf? Record.int?))
  | ("SparseSwitch", v) =>
    return sparseSwitch (← v.get? "keys" (Record.listOf? Record.int?))
      (← v.get? "targets" (Record.listOf? Record.int?))
  | ("ArrayData", v) =>
    return arrayData (← v.get? "element_width" Record.nat?)
      (← v.get? "data" (Record.listOf? byte?))
  | _ => none

end Payload

/-! Instructions. -/

namespace Opcode

/-- Joins the words of a name, each with a capital; `start` at the start of a
    word. -/
def joinWords : Bool → List Char → List Char
  | _, [] => []
  | start, c :: cs =>
    if c = '-' ∨ c = '/' then joinWords true cs
    else (if start then c.toUpper else c) :: joinWords false cs

/-- The assembly name as one word, `IgetQuick`. -/
def recordName (o : Opcode) : String :=
  String.ofList (joinWords true o.name.toList)

def ofRecordName? (name : String) : Option Opcode :=
  all.find? fun o => o.recordName == name

end Opcode

namespace Instruction

def record (i : Instruction) : Record :=
  .object [
    ("opcode", .text i.opcode.recordName),
    ("registers", .listOf .nat i.registers),
    ("literal", .option .int i.literal),
    ("reference", .option Reference.record i.reference),
    ("reference2", .option Reference.record i.reference2),
    ("target", .option .int i.target),
    ("payload", .option Payload.record i.payload)]

def ofRecord? (r : Record) : Option Instruction := do
  return {
    opcode := ← r.get? "opcode" (fun v => v.text?.bind Opcode.ofRecordName?)
    registers := ← r.get? "registers" (Record.listOf? Record.nat?)
    literal := ← r.get? "literal" (Record.option? Record.int?)
    reference := ← r.get? "reference" (Record.option? Reference.ofRecord?)
    reference2 := ← r.get? "reference2" (Record.option? Reference.ofRecord?)
    target := ← r.get? "target" (Record.option? Record.int?)
    payload := ← r.get? "payload" (Record.option? Payload.ofRecord?) }

end Instruction

end SymbolicDex
