/- The instruction set: every opcode of any supported runtime, the odex-only
   ones and the three payload pseudo-opcodes included. -/
namespace SymbolicDex

/-- Operations, named after their assembly names. -/
inductive Opcode where
  | nop | move | moveFrom16 | move16 | moveWide | moveWideFrom16 | moveWide16 | moveObject
  | moveObjectFrom16 | moveObject16 | moveResult | moveResultWide | moveResultObject
  | moveException | returnVoid | returnValue | returnWide | returnObject | const4 | const16
  | const | constHigh16 | constWide16 | constWide32 | constWide | constWideHigh16 | constString
  | constStringJumbo | constClass | monitorEnter | monitorExit | checkCast | instanceOf
  | arrayLength | newInstance | newArray | filledNewArray | filledNewArrayRange | fillArrayData
  | throwValue | goto | goto16 | goto32 | packedSwitch | sparseSwitch | cmplFloat | cmpgFloat
  | cmplDouble | cmpgDouble | cmpLong | ifEq | ifNe | ifLt | ifGe | ifGt | ifLe | ifEqz | ifNez
  | ifLtz | ifGez | ifGtz | ifLez | aget | agetWide | agetObject | agetBoolean | agetByte
  | agetChar | agetShort | aput | aputWide | aputObject | aputBoolean | aputByte | aputChar
  | aputShort | iget | igetWide | igetObject | igetBoolean | igetByte | igetChar | igetShort
  | iput | iputWide | iputObject | iputBoolean | iputByte | iputChar | iputShort | sget
  | sgetWide | sgetObject | sgetBoolean | sgetByte | sgetChar | sgetShort | sput | sputWide
  | sputObject | sputBoolean | sputByte | sputChar | sputShort | invokeVirtual | invokeSuper
  | invokeDirect | invokeStatic | invokeInterface | invokeVirtualRange | invokeSuperRange
  | invokeDirectRange | invokeStaticRange | invokeInterfaceRange | negInt | notInt | negLong
  | notLong | negFloat | negDouble | intToLong | intToFloat | intToDouble | longToInt
  | longToFloat | longToDouble | floatToInt | floatToLong | floatToDouble | doubleToInt
  | doubleToLong | doubleToFloat | intToByte | intToChar | intToShort | addInt | subInt | mulInt
  | divInt | remInt | andInt | orInt | xorInt | shlInt | shrInt | ushrInt | addLong | subLong
  | mulLong | divLong | remLong | andLong | orLong | xorLong | shlLong | shrLong | ushrLong
  | addFloat | subFloat | mulFloat | divFloat | remFloat | addDouble | subDouble | mulDouble
  | divDouble | remDouble | addInt2addr | subInt2addr | mulInt2addr | divInt2addr | remInt2addr
  | andInt2addr | orInt2addr | xorInt2addr | shlInt2addr | shrInt2addr | ushrInt2addr
  | addLong2addr | subLong2addr | mulLong2addr | divLong2addr | remLong2addr | andLong2addr
  | orLong2addr | xorLong2addr | shlLong2addr | shrLong2addr | ushrLong2addr | addFloat2addr
  | subFloat2addr | mulFloat2addr | divFloat2addr | remFloat2addr | addDouble2addr
  | subDouble2addr | mulDouble2addr | divDouble2addr | remDouble2addr | addIntLit16 | rsubInt
  | mulIntLit16 | divIntLit16 | remIntLit16 | andIntLit16 | orIntLit16 | xorIntLit16 | addIntLit8
  | rsubIntLit8 | mulIntLit8 | divIntLit8 | remIntLit8 | andIntLit8 | orIntLit8 | xorIntLit8
  | shlIntLit8 | shrIntLit8 | ushrIntLit8 | igetVolatile | iputVolatile | sgetVolatile
  | sputVolatile | igetObjectVolatile | igetWideVolatile | iputWideVolatile | sgetWideVolatile
  | sputWideVolatile | iputObjectVolatile | sgetObjectVolatile | sputObjectVolatile
  | throwVerificationError | executeInline | executeInlineRange | invokeDirectEmpty
  | invokeObjectInitRange | returnVoidBarrier | returnVoidNoBarrier | igetQuick | igetWideQuick
  | igetObjectQuick | iputQuick | iputWideQuick | iputObjectQuick | iputBooleanQuick
  | iputByteQuick | iputCharQuick | iputShortQuick | igetBooleanQuick | igetByteQuick
  | igetCharQuick | igetShortQuick | invokeVirtualQuick | invokeVirtualQuickRange
  | invokeSuperQuick | invokeSuperQuickRange | invokePolymorphic | invokePolymorphicRange
  | invokeCustom | invokeCustomRange | constMethodHandle | constMethodType | packedSwitchPayload
  | sparseSwitchPayload | arrayPayload
deriving DecidableEq, Inhabited

namespace Opcode

/-- Every opcode, in the order of declaration. -/
def all : List Opcode := [
    .nop, .move, .moveFrom16, .move16, .moveWide, .moveWideFrom16, .moveWide16, .moveObject,
    .moveObjectFrom16, .moveObject16, .moveResult, .moveResultWide, .moveResultObject,
    .moveException, .returnVoid, .returnValue, .returnWide, .returnObject, .const4, .const16,
    .const, .constHigh16, .constWide16, .constWide32, .constWide, .constWideHigh16, .constString,
    .constStringJumbo, .constClass, .monitorEnter, .monitorExit, .checkCast, .instanceOf,
    .arrayLength, .newInstance, .newArray, .filledNewArray, .filledNewArrayRange, .fillArrayData,
    .throwValue, .goto, .goto16, .goto32, .packedSwitch, .sparseSwitch, .cmplFloat, .cmpgFloat,
    .cmplDouble, .cmpgDouble, .cmpLong, .ifEq, .ifNe, .ifLt, .ifGe, .ifGt, .ifLe, .ifEqz, .ifNez,
    .ifLtz, .ifGez, .ifGtz, .ifLez, .aget, .agetWide, .agetObject, .agetBoolean, .agetByte,
    .agetChar, .agetShort, .aput, .aputWide, .aputObject, .aputBoolean, .aputByte, .aputChar,
    .aputShort, .iget, .igetWide, .igetObject, .igetBoolean, .igetByte, .igetChar, .igetShort,
    .iput, .iputWide, .iputObject, .iputBoolean, .iputByte, .iputChar, .iputShort, .sget,
    .sgetWide, .sgetObject, .sgetBoolean, .sgetByte, .sgetChar, .sgetShort, .sput, .sputWide,
    .sputObject, .sputBoolean, .sputByte, .sputChar, .sputShort, .invokeVirtual, .invokeSuper,
    .invokeDirect, .invokeStatic, .invokeInterface, .invokeVirtualRange, .invokeSuperRange,
    .invokeDirectRange, .invokeStaticRange, .invokeInterfaceRange, .negInt, .notInt, .negLong,
    .notLong, .negFloat, .negDouble, .intToLong, .intToFloat, .intToDouble, .longToInt,
    .longToFloat, .longToDouble, .floatToInt, .floatToLong, .floatToDouble, .doubleToInt,
    .doubleToLong, .doubleToFloat, .intToByte, .intToChar, .intToShort, .addInt, .subInt, .mulInt,
    .divInt, .remInt, .andInt, .orInt, .xorInt, .shlInt, .shrInt, .ushrInt, .addLong, .subLong,
    .mulLong, .divLong, .remLong, .andLong, .orLong, .xorLong, .shlLong, .shrLong, .ushrLong,
    .addFloat, .subFloat, .mulFloat, .divFloat, .remFloat, .addDouble, .subDouble, .mulDouble,
    .divDouble, .remDouble, .addInt2addr, .subInt2addr, .mulInt2addr, .divInt2addr, .remInt2addr,
    .andInt2addr, .orInt2addr, .xorInt2addr, .shlInt2addr, .shrInt2addr, .ushrInt2addr,
    .addLong2addr, .subLong2addr, .mulLong2addr, .divLong2addr, .remLong2addr, .andLong2addr,
    .orLong2addr, .xorLong2addr, .shlLong2addr, .shrLong2addr, .ushrLong2addr, .addFloat2addr,
    .subFloat2addr, .mulFloat2addr, .divFloat2addr, .remFloat2addr, .addDouble2addr,
    .subDouble2addr, .mulDouble2addr, .divDouble2addr, .remDouble2addr, .addIntLit16, .rsubInt,
    .mulIntLit16, .divIntLit16, .remIntLit16, .andIntLit16, .orIntLit16, .xorIntLit16,
    .addIntLit8, .rsubIntLit8, .mulIntLit8, .divIntLit8, .remIntLit8, .andIntLit8, .orIntLit8,
    .xorIntLit8, .shlIntLit8, .shrIntLit8, .ushrIntLit8, .igetVolatile, .iputVolatile,
    .sgetVolatile, .sputVolatile, .igetObjectVolatile, .igetWideVolatile, .iputWideVolatile,
    .sgetWideVolatile, .sputWideVolatile, .iputObjectVolatile, .sgetObjectVolatile,
    .sputObjectVolatile, .throwVerificationError, .executeInline, .executeInlineRange,
    .invokeDirectEmpty, .invokeObjectInitRange, .returnVoidBarrier, .returnVoidNoBarrier,
    .igetQuick, .igetWideQuick, .igetObjectQuick, .iputQuick, .iputWideQuick, .iputObjectQuick,
    .iputBooleanQuick, .iputByteQuick, .iputCharQuick, .iputShortQuick, .igetBooleanQuick,
    .igetByteQuick, .igetCharQuick, .igetShortQuick, .invokeVirtualQuick,
    .invokeVirtualQuickRange, .invokeSuperQuick, .invokeSuperQuickRange, .invokePolymorphic,
    .invokePolymorphicRange, .invokeCustom, .invokeCustomRange, .constMethodHandle,
    .constMethodType, .packedSwitchPayload, .sparseSwitchPayload, .arrayPayload]

end Opcode

end SymbolicDex
