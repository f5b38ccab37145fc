/- Instruction formats. A format id gives the size in code units, the number
   of registers and the kind of operand; payloads have no fixed size. -/
namespace SymbolicDex

inductive Format where
  | f10t | f10x | f11n | f11x | f12x
  | f20bc | f20t | f21c | f21ih | f21lh | f21s | f21t
  | f22b | f22c | f22cs | f22s | f22t | f22x | f23x
  | f30t | f31c | f31i | f31t | f32x
  | f35c | f35mi | f35ms | f3rc | f3rmi | f3rms
  | f45cc | f4rcc | f51l
  | packedSwitchPayload | sparseSwitchPayload | arrayPayload
deriving DecidableEq

namespace Format

/-- Size in 16-bit code units; `none` for payloads, whose size varies. -/
def codeUnits : Format → Option Nat
  | f10t | f10x | f11n | f11x | f12x => some 1
  | f20bc | f20t | f21c | f21ih | f21lh | f21s | f21t
  | f22b | f22c | f22cs | f22s | f22t | f22x | f23x => some 2
  | f30t | f31c | f31i | f31t | f32x
  | f35c | f35mi | f35ms | f3rc | f3rmi | f3rms => some 3
  | f45cc | f4rcc => some 4
  | f51l => some 5
  | packedSwitchPayload | sparseSwitchPayload | arrayPayload => none

def isPayload (f : Format) : Bool :=
  f.codeUnits.isNone

/-- Formats whose registers are a consecutive range. -/
def isRange : Format → Bool
  | f3rc | f3rmi | f3rms | f4rcc => true
  | _ => false

/-- Formats whose registers are listed one by one between braces. -/
def isList : Format → Bool
  | f35c | f35mi | f35ms | f45cc => true
  | _ => false

/-- Display name of the format. -/
def name : Format → String
  | f10t => "Format10t" | f10x => "Format10x" | f11n => "Format11n" | f11x => "Format11x"
  | f12x => "Format12x" | f20bc => "Format20bc" | f20t => "Format20t" | f21c => "Format21c"
  | f21ih => "Format21ih" | f21lh => "Format21lh" | f21s => "Format21s" | f21t => "Format21t"
  | f22b => "Format22b" | f22c => "Format22c" | f22cs => "Format22cs" | f22s => "Format22s"
  | f22t => "Format22t" | f22x => "Format22x" | f23x => "Format23x" | f30t => "Format30t"
  | f31c => "Format31c" | f31i => "Format31i" | f31t => "Format31t" | f32x => "Format32x"
  | f35c => "Format35c" | f35mi => "Format35mi" | f35ms => "Format35ms" | f3rc => "Format3rc"
  | f3rmi => "Format3rmi" | f3rms => "Format3rms" | f45cc => "Format45cc"
  | f4rcc => "Format4rcc" | f51l => "Format51l"
  | packedSwitchPayload => "PackedSwitchPayload"
  | sparseSwitchPayload => "SparseSwitchPayload"
  | arrayPayload => "ArrayPayload"

end Format

/-- Kind of pool item an instruction names. -/
inductive OperandKind where
  | none | string | type | field | method | callSite | prototype | methodHandle
deriving DecidableEq

namespace OperandKind

/-- Display name of the kind. -/
def name : OperandKind → String
  | none => "None" | string => "String" | type => "Type" | field => "Field"
  | method => "Method" | callSite => "CallSite" | prototype => "MethodProto"
  | methodHandle => "MethodHandle"

end OperandKind

/-- Static properties of an opcode, in the order of their flag bits. -/
inductive Trait where
  /-- May throw, so handlers of covering try blocks are reachable from it. -/
  | throws
  /-- Written only by an optimizer for one device. -/
  | odex
  /-- Control may pass to the next instruction. -/
  | continues
  /-- Leaves a value for a following move-result. -/
  | setsResult
  | setsRegister
  /-- Sets a register pair. -/
  | setsWide
  | quickField
  | volatileField
  | staticField
  /-- May run a constructor on an uninitialized reference. -/
  | initializes
deriving DecidableEq

namespace Trait

/-- Bit of the trait in a flag word. -/
def bit : Trait → Nat
  | throws => 0x1 | odex => 0x2 | continues => 0x4 | setsResult => 0x8
  | setsRegister => 0x10 | setsWide => 0x20 | quickField => 0x40
  | volatileField => 0x80 | staticField => 0x100 | initializes => 0x200

end Trait

end SymbolicDex
