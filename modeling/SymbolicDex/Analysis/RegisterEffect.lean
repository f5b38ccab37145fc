import SymbolicDex.RegisterType.Basic

/- What each plain opcode does to the registers. -/
namespace SymbolicDex

inductive RegisterEffect where
  /-- Leaves every register as it was. -/
  | keep
  /-- Copies the second operand to the first. -/
  | copy
  /-- Takes the result of the instruction before. -/
  | result
  /-- Takes the exception that the handler catches. -/
  | exception
  /-- Sets the first operand to the literal. -/
  | literal
  /-- Sets the first operand to a value of a fixed category. -/
  | value (c : Category)
  /-- Sets the first operand to an instance of a fixed class. -/
  | ofClass (d : Descriptor)
  /-- Sets the first operand to a value of the type named. -/
  | named
  /-- Sets the first operand to a new instance of the class named. -/
  | newInstance
  /-- Reads a wide element of the array in the second operand. -/
  | wideElement
  /-- Reads an object out of the array in the second operand. -/
  | objectElement
  /-- Sets the first operand to the value of the field named. -/
  | field
  /-- Calls a method directly, which may be a constructor. -/
  | construct
  /-- And, or and exclusive or of two operands. -/
  | bitwise (left right : Nat)
  /-- And, or and exclusive or of the second operand and the literal. -/
  | bitwiseLiteral
  /-- Shifts the second operand right by the literal. -/
  | shiftRight (logical : Bool)
deriving DecidableEq

/-- The effect of an opcode. The optimizer's opcodes have one only once they
    are restored. -/
def Opcode.registerEffect : Opcode → RegisterEffect
  | .move | .moveFrom16 | .move16 | .moveWide | .moveWideFrom16 | .moveWide16
  | .moveObject | .moveObjectFrom16 | .moveObject16 => .copy
  | .moveResult | .moveResultWide | .moveResultObject => .result
  | .moveException => .exception
  | .const4 | .const16 | .const => .literal
  | .constHigh16 => .value .integer
  | .constWide16 | .constWide32 | .constWide | .constWideHigh16 => .value .longLo
  | .constString | .constStringJumbo => .ofClass Descriptor.string
  | .constClass => .ofClass Descriptor.classClass
  | .constMethodHandle => .ofClass Descriptor.methodHandle
  | .constMethodType => .ofClass Descriptor.methodType
  | .checkCast | .newArray => .named
  | .instanceOf => .value .boolean
  | .arrayLength => .value .integer
  | .newInstance => .newInstance
  | .cmplFloat | .cmpgFloat | .cmplDouble | .cmpgDouble | .cmpLong => .value .byte
  | .aget => .value .integer
  | .agetBoolean => .value .boolean
  | .agetByte => .value .byte
  | .agetChar => .value .char
  | .agetShort => .value .short
  | .agetWide => .wideElement
  | .agetObject => .objectElement
  | .iget | .igetWide | .igetObject | .igetBoolean | .igetByte | .igetChar | .igetShort
  | .sget | .sgetWide | .sgetObject | .sgetBoolean | .sgetByte | .sgetChar | .sgetShort =>
    .field
  | .invokeDirect | .invokeDirectRange => .construct
  | .negInt | .notInt | .longToInt | .floatToInt | .doubleToInt => .value .integer
  | .negLong | .notLong | .intToLong | .floatToLong | .doubleToLong => .value .longLo
  | .negFloat | .intToFloat | .longToFloat | .doubleToFloat => .value .float
  | .negDouble | .intToDouble | .longToDouble | .floatToDouble => .value .doubleLo
  | .intToByte => .value .byte
  | .intToChar => .value .char
  | .intToShort => .value .short
  | .addInt | .subInt | .mulInt | .divInt | .remInt | .shlInt | .shrInt | .ushrInt
  | .addInt2addr | .subInt2addr | .mulInt2addr | .divInt2addr | .remInt2addr
  | .shlInt2addr | .shrInt2addr | .ushrInt2addr
  | .addIntLit16 | .rsubInt | .mulIntLit16 | .divIntLit16 | .remIntLit16
  | .addIntLit8 | .rsubIntLit8 | .mulIntLit8 | .divIntLit8 | .remIntLit8 | .shlIntLit8 =>
    .value .integer
  | .andInt | .orInt | .xorInt => .bitwise 1 2
  | .andInt2addr | .orInt2addr | .xorInt2addr => .bitwise 0 1
  | .andIntLit16 | .orIntLit16 | .xorIntLit16 | .andIntLit8 | .orIntLit8 | .xorIntLit8 =>
    .bitwiseLiteral
  | .shrIntLit8 => .shiftRight false
  | .ushrIntLit8 => .shiftRight true
  | .addLong | .subLong | .mulLong | .divLong | .remLong | .andLong | .orLong | .xorLong
  | .shlLong | .shrLong | .ushrLong
  | .addLong2addr | .subLong2addr | .mulLong2addr | .divLong2addr | .remLong2addr
  | .andLong2addr | .orLong2addr | .xorLong2addr | .shlLong2addr | .shrLong2addr
  | .ushrLong2addr => .value .longLo
  | .addFloat | .subFloat | .mulFloat | .divFloat | .remFloat
  | .addFloat2addr | .subFloat2addr | .mulFloat2addr | .divFloat2addr | .remFloat2addr =>
    .value .float
  | .addDouble | .subDouble | .mulDouble | .divDouble | .remDouble
  | .addDouble2addr | .subDouble2addr | .mulDouble2addr | .divDouble2addr
  | .remDouble2addr => .value .doubleLo
  | _ => .keep

end SymbolicDex
