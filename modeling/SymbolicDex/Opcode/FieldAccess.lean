import SymbolicDex.Descriptor

/- Field accesses. An optimizer's access says only how wide the field is; the
   type of the field picks the plain access it stands for. -/
namespace SymbolicDex

/-- The four families of field access. -/
inductive FieldGroup where
  | iget | iput | sget | sput
deriving DecidableEq

/-- Members of a family, by type of the field. -/
inductive FieldSlot where
  | plain | wide | object | boolean | byte | char | short
deriving DecidableEq

/-- Field types an optimizer's access admits. -/
inductive FieldWidth where
  /-- Any primitive of at most 32 bits. -/
  | narrow
  | wide
  | object
  | exactly (slot : FieldSlot)
deriving DecidableEq

namespace FieldGroup

def opcode : FieldGroup → FieldSlot → Opcode
  | iget, .plain => .iget
  | iget, .wide => .igetWide
  | iget, .object => .igetObject
  | iget, .boolean => .igetBoolean
  | iget, .byte => .igetByte
  | iget, .char => .igetChar
  | iget, .short => .igetShort
  | iput, .plain => .iput
  | iput, .wide => .iputWide
  | iput, .object => .iputObject
  | iput, .boolean => .iputBoolean
  | iput, .byte => .iputByte
  | iput, .char => .iputChar
  | iput, .short => .iputShort
  | sget, .plain => .sget
  | sget, .wide => .sgetWide
  | sget, .object => .sgetObject
  | sget, .boolean => .sgetBoolean
  | sget, .byte => .sgetByte
  | sget, .char => .sgetChar
  | sget, .short => .sgetShort
  | sput, .plain => .sput
  | sput, .wide => .sputWide
  | sput, .object => .sputObject
  | sput, .boolean => .sputBoolean
  | sput, .byte => .sputByte
  | sput, .char => .sputChar
  | sput, .short => .sputShort

end FieldGroup

namespace FieldSlot

/-- The member for a field type, by its first letter. -/
def ofType? (d : Descriptor) : Option FieldSlot :=
  match d.toList.head? with
  | some 'I' | some 'F' => some plain
  | some 'J' | some 'D' => some wide
  | some 'L' | some '[' => some object
  | some 'Z' => some boolean
  | some 'B' => some byte
  | some 'C' => some char
  | some 'S' => some short
  | _ => none

end FieldSlot

namespace FieldWidth

def admits : FieldWidth → FieldSlot → Bool
  | narrow, slot => slot ≠ .wide && slot ≠ .object
  | wide, slot => slot = .wide
  | object, slot => slot = .object
  | exactly expected, slot => slot = expected

end FieldWidth

namespace Opcode

/-- Family and width of an optimizer's field access. -/
def fieldAccess? : Opcode → Option (FieldGroup × FieldWidth)
  | .igetQuick | .igetVolatile => some (.iget, .narrow)
  | .igetWideQuick | .igetWideVolatile => some (.iget, .wide)
  | .igetObjectQuick | .igetObjectVolatile => some (.iget, .object)
  | .igetBooleanQuick => some (.iget, .exactly .boolean)
  | .igetByteQuick => some (.iget, .exactly .byte)
  | .igetCharQuick => some (.iget, .exactly .char)
  | .igetShortQuick => some (.iget, .exactly .short)
  | .iputQuick | .iputVolatile => some (.iput, .narrow)
  | .iputWideQuick | .iputWideVolatile => some (.iput, .wide)
  | .iputObjectQuick | .iputObjectVolatile => some (.iput, .object)
  | .iputBooleanQuick => some (.iput, .exactly .boolean)
  | .iputByteQuick => some (.iput, .exactly .byte)
  | .iputCharQuick => some (.iput, .exactly .char)
  | .iputShortQuick => some (.iput, .exactly .short)
  | .sgetVolatile => some (.sget, .narrow)
  | .sgetWideVolatile => some (.sget, .wide)
  | .sgetObjectVolatile => some (.sget, .object)
  | .sputVolatile => some (.sput, .narrow)
  | .sputWideVolatile => some (.sput, .wide)
  | .sputObjectVolatile => some (.sput, .object)
  | _ => none

/-- The plain access for a field of a type; none when the type does not fit. -/
def plainAccess? (o : Opcode) (type : Descriptor) : Option Opcode := do
  let (group, width) ← o.fieldAccess?
  let slot ← FieldSlot.ofType? type
  if width.admits slot then some (group.opcode slot) else none

end Opcode

end SymbolicDex
