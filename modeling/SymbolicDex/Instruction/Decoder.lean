import SymbolicDex.Opcode.Table
import SymbolicDex.Resolver

/- Code units to instructions. `decodeHead` reads the instruction at the head
   of a stream; `items` tiles a whole stream and ends at the first malformed
   instruction. The decoder reads through a `Source`, so that one definition
   runs on a stream and can be watched while it reads. -/
namespace SymbolicDex

namespace CodeUnits

/-- How a decoder gets at code units, and at the sizes it computes from them. -/
structure Source (m : Type → Type) where
  /-- Number of units there are. -/
  length : Nat
  /-- The unit at a position, as a number. -/
  unit : Nat → m Nat
  /-- `count` units from a position on. -/
  block : (start count : Nat) → m (List UInt16)
  /-- A size that was computed. -/
  size : Nat → m Nat
  /-- What is known without reading. -/
  settle : {α : Type} → Checked α → m α

namespace Source

variable {m : Type → Type} [Monad m] (s : Source m)

/-- The units of a list. -/
def ofUnits (units : List UInt16) : Source Checked where
  length := units.length
  unit k := .ok (units.getD k 0).toNat
  block start count := .ok ((units.drop start).take count)
  size n := .ok n
  settle x := x

def fail {α : Type} (fault : Fault) : m α := s.settle (Checked.fail fault)

/-- The unit at a position, zero where there is none. -/
def unitOrZero (k : Nat) : m Nat :=
  if k < s.length then s.unit k else return 0

/-- Two units, the low one first. -/
def word (k : Nat) : m Nat := do
  let low ← s.unit k
  let high ← s.unit (k + 1)
  return low + high * 0x10000

end Source

/-- The number as a signed one of `bits` bits. -/
def asSigned (bits n : Nat) : Int :=
  Int.bmod n (1 <<< bits)

/-- Bits 8 to 11. -/
def nibbleA (u : Nat) : Nat := u / 0x100 % 0x10

/-- Bits 12 to 15. -/
def nibbleB (u : Nat) : Nat := u / 0x1000

/-- Bits 8 to 15. -/
def byteA (u : Nat) : Nat := u / 0x100

def lowByte (u : Nat) : Nat := u % 0x100

/-- The five registers a list format can name, in its first and third unit. -/
def listRegisters (u0 packed : Nat) : List Nat :=
  [packed % 0x10, packed / 0x10 % 0x10, packed / 0x100 % 0x10, packed / 0x1000, nibbleA u0]

/-- `count` registers from `first` on; numbers are those of 16-bit words. -/
def rangeRegisters (first count : Nat) : List Nat :=
  (List.range count).map fun k => (first + k) % 0x10000

section

variable {m : Type → Type} [Monad m] (s : Source m)

/-- A word as a signed number. -/
def signedWord (k : Nat) : m Int := return asSigned 32 (← s.word k)

/-- `count` signed words from position `k` on. -/
def signedWords (k count : Nat) : m (List Int) :=
  (List.range count).mapM fun j => signedWord s (k + 2 * j)

end

end CodeUnits

namespace Payload

open CodeUnits

variable {m : Type → Type} [Monad m] (s : Source m)

def decodePacked : m Payload := do
  if s.length < 4 then s.fail .truncatedPackedHeader
  else
    let count ← s.unit 1
    if s.length < (← s.size (4 + count * 2)) then s.fail (.truncatedPacked count)
    else return .packedSwitch (← signedWord s 2) (← signedWords s 4 count)

def decodeSparse : m Payload := do
  let count ← s.unitOrZero 1
  if s.length < (← s.size (2 + count * 4)) then s.fail (.truncatedSparse count)
  else return .sparseSwitch (← signedWords s 2 count) (← signedWords s (2 + count * 2) count)

/-- Bytes stand two to a unit, the low one first. -/
def bytesOf (units : List UInt16) : List UInt8 :=
  units.flatMap fun (u : UInt16) => [u.toUInt8, (u >>> 8).toUInt8]

def decodeArray : m Payload := do
  if s.length < 4 then s.fail .truncatedArrayHeader
  else
    let width ← s.unit 1
    let byteCount ← s.size ((← s.word 2) * width)
    let unitCount ← s.size ((byteCount + 1) / 2)
    if s.length < (← s.size (4 + unitCount)) then s.fail (.truncatedArray byteCount)
    else return .arrayData width ((bytesOf (← s.block 4 unitCount)).take byteCount)

end Payload

namespace Instruction

open CodeUnits

section

variable {m : Type → Type} [Monad m] (r : Resolver) (s : Source m)

/-- What a call names in its second unit. -/
def calledReference (opcode : Opcode) : m (Option Reference) := do
  let u1 ← s.unit 1
  match opcode.format with
  | .f35mi | .f3rmi => return some (.inlineIndex u1)
  | .f35ms | .f3rms => return some (.vtableIndex u1)
  | _ => s.settle (r.resolve opcode.operand u1)

/-- The prototype in the fourth unit of a polymorphic call. -/
def calledPrototype (opcode : Opcode) : m (Option Reference) :=
  match opcode.format with
  | .f45cc | .f4rcc => do s.settle (r.resolve .prototype (← s.unit 3))
  | _ => return none

/-- The operands of `opcode` in its format, after the first unit. -/
def decodeOperands (opcode : Opcode) (u0 : Nat) : m Instruction := do
  let i : Instruction := { opcode := opcode }
  match opcode.format with
  | .f10x => return i
  | .f10t => return { i with target := some (asSigned 8 (byteA u0)) }
  | .f11n =>
    return { i with registers := [nibbleA u0], literal := some (asSigned 4 (nibbleB u0)) }
  | .f11x => return { i with registers := [byteA u0] }
  | .f12x => return { i with registers := [nibbleA u0, nibbleB u0] }
  | .f20bc =>
    return { i with
      literal := some (byteA u0)
      reference := some (.type ("ref@" ++ (← s.unit 1).repr)) }
  | .f20t => return { i with target := some (asSigned 16 (← s.unit 1)) }
  | .f21c =>
    return { i with
      registers := [byteA u0]
      reference := ← s.settle (r.resolve opcode.operand (← s.unit 1)) }
  | .f21ih =>
    return { i with
      registers := [byteA u0]
      literal := some (asSigned 16 (← s.unit 1) * 0x10000) }
  | .f21lh =>
    return { i with
      registers := [byteA u0]
      literal := some (asSigned 16 (← s.unit 1) * 0x1000000000000) }
  | .f21s =>
    return { i with registers := [byteA u0], literal := some (asSigned 16 (← s.unit 1)) }
  | .f21t =>
    return { i with registers := [byteA u0], target := some (asSigned 16 (← s.unit 1)) }
  | .f22b =>
    let u1 ← s.unit 1
    return { i with
      registers := [byteA u0, lowByte u1]
      literal := some (asSigned 8 (byteA u1)) }
  | .f22c =>
    return { i with
      registers := [nibbleA u0, nibbleB u0]
      reference := ← s.settle (r.resolve opcode.operand (← s.unit 1)) }
  | .f22cs =>
    return { i with
      registers := [nibbleA u0, nibbleB u0]
      reference := some (.fieldOffset (← s.unit 1)) }
  | .f22s =>
    return { i with
      registers := [nibbleA u0, nibbleB u0]
      literal := some (asSigned 16 (← s.unit 1)) }
  | .f22t =>
    return { i with
      registers := [nibbleA u0, nibbleB u0]
      target := some (asSigned 16 (← s.unit 1)) }
  | .f22x => return { i with registers := [byteA u0, ← s.unit 1] }
  | .f23x =>
    let u1 ← s.unit 1
    return { i with registers := [byteA u0, lowByte u1, byteA u1] }
  | .f30t => return { i with target := some (← signedWord s 1) }
  | .f31c =>
    return { i with
      registers := [byteA u0]
      reference := ← s.settle (r.resolve opcode.operand (← s.word 1)) }
  | .f31i => return { i with registers := [byteA u0], literal := some (← signedWord s 1) }
  | .f31t => return { i with registers := [byteA u0], target := some (← signedWord s 1) }
  | .f32x => return { i with registers := [← s.unit 1, ← s.unit 2] }
  | .f35c | .f35mi | .f35ms | .f45cc =>
    if nibbleB u0 > 5 then s.fail (.registerCount (nibbleB u0) opcode)
    else
      let packed ← s.unit 2
      return { i with
        registers := (listRegisters u0 packed).take (nibbleB u0)
        reference := ← calledReference r s opcode
        reference2 := ← calledPrototype r s opcode }
  | .f3rc | .f3rmi | .f3rms | .f4rcc =>
    let first ← s.unit 2
    return { i with
      registers := rangeRegisters first (byteA u0)
      reference := ← calledReference r s opcode
      reference2 := ← calledPrototype r s opcode }
  | .f51l =>
    let low ← s.word 1
    let high ← s.word 3
    return { i with
      registers := [byteA u0]
      literal := some (asSigned 64 (low + high * 0x100000000)) }
  | .packedSwitchPayload => return { i with payload := some (← Payload.decodePacked s) }
  | .sparseSwitchPayload => return { i with payload := some (← Payload.decodeSparse s) }
  | .arrayPayload => return { i with payload := some (← Payload.decodeArray s) }

/-- The opcode value in a first unit: the three payload marks are whole
    units, every other value is a low byte. -/
def opcodeValue (u0 : Nat) : Nat :=
  if u0 = 0x100 ∨ u0 = 0x200 ∨ u0 = 0x300 then u0 else lowByte u0

/-- The first instruction of a source. -/
def decodeFirst (t : OpcodeTable) : m Instruction := do
  let u0 ← s.unit 0
  match t.opcode? (opcodeValue u0) with
  | none => s.fail (.unknownOpcode (opcodeValue u0))
  | some opcode =>
    match opcode.format.codeUnits with
    | none => decodeOperands r s opcode u0
    | some size =>
      if s.length < size then s.fail (.truncatedInstruction opcode size)
      else decodeOperands r s opcode u0

end

/-- The instruction at the head of a stream. -/
def decodeHead (t : OpcodeTable) (r : Resolver) (units : List UInt16) : Checked Instruction :=
  decodeFirst r (Source.ofUnits units) t

/-- One item of a stream: an instruction with its code address, or what is
    wrong there. -/
abbrev Item := Checked (Nat × Instruction)

/-- The item at `address`, where `units` is the rest of the stream. -/
def itemAt (t : OpcodeTable) (r : Resolver) (address : Nat) (units : List UInt16) : Item :=
  ((decodeHead t r units).within ("instruction at " ++ Text.hex address)).map (address, ·)

/-- The items from `address` on, at most `count` of them. -/
def itemsFrom (t : OpcodeTable) (r : Resolver) : Nat → Nat → List UInt16 → List Item
  | 0, _, _ => []
  | _ + 1, _, [] => []
  | count + 1, address, units =>
    match itemAt t r address units with
    | .error e => [.error e]
    | .ok (a, i) =>
      .ok (a, i) :: itemsFrom t r count (address + i.codeUnits) (units.drop i.codeUnits)

/-- The items of a stream. An instruction takes at least one unit, so the
    length of the stream bounds their number. -/
def items (t : OpcodeTable) (r : Resolver) (units : List UInt16) : List Item :=
  itemsFrom t r units.length 0 units

/-- The instructions of a stream, or its first failure. -/
def decode (t : OpcodeTable) (r : Resolver) (units : List UInt16) :
    Checked (List Instruction) :=
  (items t r units).mapM fun item => item.map (·.2)

end Instruction

end SymbolicDex
