import SymbolicDex.Member

/- Decoded instructions. -/
namespace SymbolicDex

/-- Operand reference. The optimizer's instructions carry an index of the
    running device instead of a symbolic reference. -/
inductive Reference where
  | string (text : String)
  | type (descriptor : Descriptor)
  | field (ref : FieldRef)
  | method (ref : MethodRef)
  | prototype (proto : Prototype)
  | callSite (name : String)
  | methodHandle (name : String)
  | fieldOffset (offset : Nat)
  | vtableIndex (index : Nat)
  | inlineIndex (index : Nat)
deriving DecidableEq

/-- Tables kept in the code. Targets are relative to the switch that uses
    the table, not to the table. -/
inductive Payload where
  | packedSwitch (firstKey : Int) (targets : List Int)
  | sparseSwitch (keys targets : List Int)
  | arrayData (elementWidth : Nat) (data : List UInt8)
deriving DecidableEq

/-- One instruction. Registers stand in textual order, a range is listed in
    full; `target` is a distance in code units from the instruction itself. -/
structure Instruction where
  opcode : Opcode
  registers : List Nat := []
  literal : Option Int := none
  reference : Option Reference := none
  reference2 : Option Reference := none
  target : Option Int := none
  payload : Option Payload := none
deriving DecidableEq, Inhabited

namespace Instruction

/-- Size in code units. A payload opcode is as large as its table. -/
def codeUnits (i : Instruction) : Nat :=
  match i.opcode.format.codeUnits with
  | some n => n
  | none =>
    match i.payload with
    | some (.packedSwitch _ targets) => 4 + targets.length * 2
    | some (.sparseSwitch keys _) => 2 + keys.length * 4
    | some (.arrayData _ data) => 4 + (data.length + 1) / 2
    | none => 1

theorem codeUnits_pos (i : Instruction) : 0 < i.codeUnits := by
  have hfixed {f : Format} {n : Nat} (h : f.codeUnits = some n) : 0 < n := by
    cases f <;> cases h <;> decide
  unfold codeUnits
  split
  · exact hfixed ‹_›
  · split <;> omega

def register? (i : Instruction) (operand : Nat) : Option Nat :=
  i.registers[operand]?

def fieldRef? (i : Instruction) : Option FieldRef :=
  match i.reference with
  | some (.field f) => some f
  | _ => none

def methodRef? (i : Instruction) : Option MethodRef :=
  match i.reference with
  | some (.method m) => some m
  | _ => none

def typeRef? (i : Instruction) : Option Descriptor :=
  match i.reference with
  | some (.type t) => some t
  | _ => none

/-- The same operands under another opcode. -/
def withOpcode (i : Instruction) (opcode : Opcode) : Instruction :=
  { i with opcode := opcode }

def withReference (i : Instruction) (reference : Reference) : Instruction :=
  { i with reference := some reference }

/-- Code addresses of a list of instructions that starts at `start`. -/
def addressesFrom : Nat → List Instruction → List Nat
  | _, [] => []
  | start, i :: is => start :: addressesFrom (start + i.codeUnits) is

end Instruction

end SymbolicDex
