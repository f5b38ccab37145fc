import SymbolicDex.ByteCursor
import SymbolicDex.Instruction.Printer
import SymbolicDex.Resolver

/- Unquickening. A compiler that quickened a method recorded, for every
   instruction it changed, the pool index the instruction used to carry.
   Replaying the record gives the symbolic form back without any analysis. -/
namespace SymbolicDex

/-- One recorded index, with its code address when the table keeps one. -/
structure QuickenedIndex where
  address : Option UInt32
  index : UInt32
deriving DecidableEq

/-- Recorded indices of one method, used from the front. -/
structure QuickeningTable where
  entries : List QuickenedIndex
deriving DecidableEq

namespace QuickeningTable

/-- Index recorded for a nop that was a nop before. -/
def noIndex : UInt32 := 0xffff

def ofPairs (pairs : List (UInt32 × UInt32)) : QuickeningTable :=
  ⟨pairs.map fun (address, index) => ⟨some address, index⟩⟩

def ofIndices (indices : List UInt16) : QuickeningTable :=
  ⟨indices.map fun index => ⟨none, index.toUInt32⟩⟩

def size (t : QuickeningTable) : Nat := t.entries.length

/-! Tables as bytes. -/

/-- Address and index pairs from the cursor to its end, at most `count`;
    `number` pairs stand before. -/
def readPairs : Nat → Nat → ByteCursor → Checked (List QuickenedIndex)
  | 0, _, _ => .ok []
  | count + 1, number, c =>
    if c.bytes.length ≤ c.index then .ok []
    else do
      let context := "quickening entry " ++ number.repr
      let (address, c) ← c.readNumber.within context
      let (index, c) ← c.readNumber.within context
      let entries ← readPairs count (number + 1) c
      return ⟨some address, index⟩ :: entries

/-- A table of variable-length address and index pairs. A pair takes at least
    one byte, so the length bounds their number. -/
def parsePairs (bytes : List UInt8) : Checked QuickeningTable := do
  let entries ← readPairs bytes.length 0 ⟨bytes, 0⟩
  return ⟨entries⟩

/-- Two bytes an index, low byte first. -/
def unitsOfBytes : List UInt8 → List UInt16
  | low :: high :: rest => (low.toUInt16 ||| (high.toUInt16 <<< 8)) :: unitsOfBytes rest
  | _ => []

/-- A table of 16-bit indices without addresses. -/
def parseIndices (bytes : List UInt8) : Checked QuickeningTable :=
  if bytes.length % 2 ≠ 0 then Checked.fail (.oddIndexTable bytes.length)
  else .ok (ofIndices (unitsOfBytes bytes))

/-- Pairs as bytes; an entry without an address is written at address 0. -/
def pairBytes (t : QuickeningTable) : List UInt8 :=
  t.entries.flatMap fun e => Uleb128.encode (e.address.getD 0) ++ Uleb128.encode e.index

/-- The indices of a list of entries as bytes. -/
def entryIndexBytes : List QuickenedIndex → Checked (List UInt8)
  | [] => .ok []
  | e :: es =>
    if e.index < 0x10000 then do
      let bytes ← entryIndexBytes es
      return ByteCursor.unitBytes e.index.toUInt16 ++ bytes
    else Checked.fail (.indexTooWide e.index.toNat)

def indexBytes (t : QuickeningTable) : Checked (List UInt8) :=
  entryIndexBytes t.entries

/-! Use from the front. -/

/-- The next index, if it belongs to `address`. An entry without an address
    belongs anywhere. -/
def peekAt? (t : QuickeningTable) (address : Nat) : Option UInt32 :=
  match t.entries with
  | [] => none
  | e :: _ => if e.address.all (·.toNat = address) then some e.index else none

def dropFirst (t : QuickeningTable) : QuickeningTable :=
  ⟨t.entries.tail⟩

/-- Takes the next index for `opcode` at `address`. -/
def take (t : QuickeningTable) (address : Nat) (opcode : Opcode) :
    Checked (UInt32 × QuickeningTable) :=
  match t.peekAt? address with
  | some index => .ok (index, t.dropFirst)
  | none =>
    if t.entries.isEmpty then Checked.fail (.tableExhausted opcode address)
    else Checked.fail (.tableElsewhere opcode address)

end QuickeningTable

/-- The opcode a quickened access or call had before. -/
def Opcode.unquickened? : Opcode → Option Opcode
  | .igetQuick => some .iget
  | .igetWideQuick => some .igetWide
  | .igetObjectQuick => some .igetObject
  | .igetBooleanQuick => some .igetBoolean
  | .igetByteQuick => some .igetByte
  | .igetCharQuick => some .igetChar
  | .igetShortQuick => some .igetShort
  | .iputQuick => some .iput
  | .iputWideQuick => some .iputWide
  | .iputObjectQuick => some .iputObject
  | .iputBooleanQuick => some .iputBoolean
  | .iputByteQuick => some .iputByte
  | .iputCharQuick => some .iputChar
  | .iputShortQuick => some .iputShort
  | .invokeVirtualQuick => some .invokeVirtual
  | .invokeVirtualQuickRange => some .invokeVirtualRange
  | _ => none

namespace Unquicken

/-- What becomes of one instruction, and whether a nop after it is part of it. -/
structure Step where
  out : Instruction
  absorbs : Bool
  table : QuickeningTable

/-- A nop is an ordinary one when the table skips it or says so; otherwise it
    is the first half of a check-cast, recorded as register and type. -/
def nopStep (r : Resolver) (t : QuickeningTable) (address : Nat) (nop : Instruction) :
    Checked Step :=
  match t.peekAt? address with
  | none => .ok ⟨nop, false, t⟩
  | some register =>
    if register = QuickeningTable.noIndex then .ok ⟨nop, false, t.dropFirst⟩
    else do
      let (index, t) ← t.dropFirst.take address .checkCast
      let type ← (r.type index.toNat).within ("check-cast at " ++ Text.hex address)
      if 0x10000 ≤ register.toNat then Checked.fail (.castRegister register.toNat address)
      else
        return ⟨{ opcode := .checkCast, registers := [register.toNat],
                  reference := some (.type type) }, true, t⟩

/-- A quickened access or call gets the reference its recorded index names.
    It stays as it is while the table is ahead of it. -/
def accessStep (r : Resolver) (t : QuickeningTable) (address : Nat) (i : Instruction)
    (plain : Opcode) : Checked Step :=
  if (t.peekAt? address).isNone ∧ !t.entries.isEmpty then .ok ⟨i, false, t⟩
  else do
    let (index, t) ← t.take address i.opcode
    let context := i.opcode.name ++ " at " ++ Text.hex address
    let reference ←
      if plain = .invokeVirtual ∨ plain = .invokeVirtualRange then
        ((r.method index.toNat).within context).map Reference.method
      else ((r.field index.toNat).within context).map Reference.field
    return ⟨(i.withOpcode plain).withReference reference, false, t⟩

def step (r : Resolver) (t : QuickeningTable) (address : Nat) (i : Instruction) :
    Checked Step :=
  match i.opcode with
  | .returnVoidBarrier | .returnVoidNoBarrier => .ok ⟨i.withOpcode .returnVoid, false, t⟩
  | .nop => nopStep r t address i
  | opcode =>
    match opcode.unquickened? with
    | some plain => accessStep r t address i plain
    | none => .ok ⟨i, false, t⟩

/-- The instructions from `address` on. With `absorb` set, a nop at the head
    is the second half of the check-cast before it. -/
def run (r : Resolver) : Nat → Bool → QuickeningTable → List Instruction →
    Checked (List Instruction × QuickeningTable)
  | _, _, t, [] => .ok ([], t)
  | address, absorb, t, i :: is =>
    let next := address + i.codeUnits
    if absorb ∧ i.opcode = .nop then run r next false t is
    else do
      let s ← step r t address i
      let (rest, t) ← run r next s.absorbs s.table is
      return (s.out :: rest, t)

end Unquicken

/-- The symbolic form of a quickened method. Every recorded index has to be
    used. -/
def unquicken (r : Resolver) (t : QuickeningTable) (is : List Instruction) :
    Checked (List Instruction) := do
  let (out, t) ← Unquicken.run r 0 false t is
  if t.entries.isEmpty then return out
  else Checked.fail (.tableUnused t.size)

end SymbolicDex
