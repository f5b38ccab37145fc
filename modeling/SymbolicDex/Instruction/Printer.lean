import SymbolicDex.Instruction.Basic
import SymbolicDex.Text.Quoted

/- Assembly text of instructions. -/
namespace SymbolicDex

open Text

def Reference.text : Reference → String
  | string s => quoted s
  | type t => t
  | field f => f.text
  | method m => m.text
  | prototype p => p.text
  | callSite name => name
  | methodHandle name => name
  | fieldOffset o => "field@" ++ hex o
  | vtableIndex i => "vtable@" ++ hex i
  | inlineIndex i => "inline@" ++ hex i

def Payload.text : Payload → String
  | packedSwitch firstKey targets => hexWord 32 firstKey ++ " " ++ decimals targets
  | sparseSwitch keys targets => decimals keys ++ " -> " ++ decimals targets
  | arrayData width data => "width=" ++ width.repr ++ " bytes=" ++ data.length.repr

namespace Instruction

def registerText (r : Nat) : String := "v" ++ r.repr

/-- Registers as their format writes them: a range by its ends, a list in
    braces as one operand, otherwise one operand each. -/
def registerOperands (i : Instruction) : List String :=
  if i.opcode.format.isRange then
    match i.registers.head?, i.registers.getLast? with
    | some first, some last =>
      ["\x7b" ++ registerText first ++ " .. " ++ registerText last ++ "\x7d"]
    | _, _ => ["\x7b\x7d"]
  else if i.opcode.format.isList then
    ["\x7b" ++ ", ".intercalate (i.registers.map registerText) ++ "\x7d"]
  else i.registers.map registerText

/-- Operands in textual order. -/
def operands (i : Instruction) : List String :=
  i.registerOperands ++ (i.reference.map Reference.text).toList ++
    (i.reference2.map Reference.text).toList ++ (i.literal.map (hexWord 64)).toList ++
    (i.target.map signed).toList

/-- A payload is written in place of the operands. -/
def text (i : Instruction) : String :=
  match i.payload with
  | some p => i.opcode.name ++ " " ++ p.text
  | none =>
    match i.operands with
    | [] => i.opcode.name
    | ops => i.opcode.name ++ " " ++ ", ".intercalate ops

end Instruction

end SymbolicDex
