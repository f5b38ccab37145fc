import SymbolicDex.Opcode.Basic
import SymbolicDex.Opcode.Format
import SymbolicDex.Opcode.VersionSpan

/- What is known of every opcode: its assembly name, the kind of operand it
   names, its format, its traits and the values it has had. -/
namespace SymbolicDex

structure OpcodeInfo where
  name : String
  operand : OperandKind
  format : Format
  traits : List Trait
  encoding : Encoding

namespace Opcode

open Encoding VersionSpan in
/-- The row of one opcode. -/
def info : Opcode → OpcodeInfo
  | .nop => ⟨"nop", .none, .f10x, [.continues], everywhere 0x00⟩
  | .move => ⟨"move", .none, .f12x, [.continues, .setsRegister], everywhere 0x01⟩
  | .moveFrom16 => ⟨"move/from16", .none, .f22x, [.continues, .setsRegister], everywhere 0x02⟩
  | .move16 => ⟨"move/16", .none, .f32x, [.continues, .setsRegister], everywhere 0x03⟩
  | .moveWide => ⟨"move-wide", .none, .f12x,
      [.continues, .setsRegister, .setsWide], everywhere 0x04⟩
  | .moveWideFrom16 => ⟨"move-wide/from16", .none, .f22x,
      [.continues, .setsRegister, .setsWide], everywhere 0x05⟩
  | .moveWide16 => ⟨"move-wide/16", .none, .f32x,
      [.continues, .setsRegister, .setsWide], everywhere 0x06⟩
  | .moveObject => ⟨"move-object", .none, .f12x, [.continues, .setsRegister], everywhere 0x07⟩
  | .moveObjectFrom16 => ⟨"move-object/from16", .none, .f22x,
      [.continues, .setsRegister], everywhere 0x08⟩
  | .moveObject16 => ⟨"move-object/16", .none, .f32x,
      [.continues, .setsRegister], everywhere 0x09⟩
  | .moveResult => ⟨"move-result", .none, .f11x, [.continues, .setsRegister], everywhere 0x0a⟩
  | .moveResultWide => ⟨"move-result-wide", .none, .f11x,
      [.continues, .setsRegister, .setsWide], everywhere 0x0b⟩
  | .moveResultObject => ⟨"move-result-object", .none, .f11x,
      [.continues, .setsRegister], everywhere 0x0c⟩
  | .moveException => ⟨"move-exception", .none, .f11x,
      [.continues, .setsRegister], everywhere 0x0d⟩
  | .returnVoid => ⟨"return-void", .none, .f10x, [], everywhere 0x0e⟩
  | .returnValue => ⟨"return", .none, .f11x, [], everywhere 0x0f⟩
  | .returnWide => ⟨"return-wide", .none, .f11x, [], everywhere 0x10⟩
  | .returnObject => ⟨"return-object", .none, .f11x, [], everywhere 0x11⟩
  | .const4 => ⟨"const/4", .none, .f11n, [.continues, .setsRegister], everywhere 0x12⟩
  | .const16 => ⟨"const/16", .none, .f21s, [.continues, .setsRegister], everywhere 0x13⟩
  | .const => ⟨"const", .none, .f31i, [.continues, .setsRegister], everywhere 0x14⟩
  | .constHigh16 => ⟨"const/high16", .none, .f21ih, [.continues, .setsRegister], everywhere 0x15⟩
  | .constWide16 => ⟨"const-wide/16", .none, .f21s,
      [.continues, .setsRegister, .setsWide], everywhere 0x16⟩
  | .constWide32 => ⟨"const-wide/32", .none, .f31i,
      [.continues, .setsRegister, .setsWide], everywhere 0x17⟩
  | .constWide => ⟨"const-wide", .none, .f51l,
      [.continues, .setsRegister, .setsWide], everywhere 0x18⟩
  | .constWideHigh16 => ⟨"const-wide/high16", .none, .f21lh,
      [.continues, .setsRegister, .setsWide], everywhere 0x19⟩
  | .constString => ⟨"const-string", .string, .f21c,
      [.throws, .continues, .setsRegister], everywhere 0x1a⟩
  | .constStringJumbo => ⟨"const-string/jumbo", .string, .f31c,
      [.throws, .continues, .setsRegister], everywhere 0x1b⟩
  | .constClass => ⟨"const-class", .type, .f21c,
      [.throws, .continues, .setsRegister], everywhere 0x1c⟩
  | .monitorEnter => ⟨"monitor-enter", .none, .f11x, [.throws, .continues], everywhere 0x1d⟩
  | .monitorExit => ⟨"monitor-exit", .none, .f11x, [.throws, .continues], everywhere 0x1e⟩
  | .checkCast => ⟨"check-cast", .type, .f21c,
      [.throws, .continues, .setsRegister], everywhere 0x1f⟩
  | .instanceOf => ⟨"instance-of", .type, .f22c,
      [.throws, .continues, .setsRegister], everywhere 0x20⟩
  | .arrayLength => ⟨"array-length", .none, .f12x,
      [.throws, .continues, .setsRegister], everywhere 0x21⟩
  | .newInstance => ⟨"new-instance", .type, .f21c,
      [.throws, .continues, .setsRegister], everywhere 0x22⟩
  | .newArray => ⟨"new-array", .type, .f22c,
      [.throws, .continues, .setsRegister], everywhere 0x23⟩
  | .filledNewArray => ⟨"filled-new-array", .type, .f35c,
      [.throws, .continues, .setsResult], everywhere 0x24⟩
  | .filledNewArrayRange => ⟨"filled-new-array/range", .type, .f3rc,
      [.throws, .continues, .setsResult], everywhere 0x25⟩
  | .fillArrayData => ⟨"fill-array-data", .none, .f31t, [.throws, .continues], everywhere 0x26⟩
  | .throwValue => ⟨"throw", .none, .f11x, [.throws], everywhere 0x27⟩
  | .goto => ⟨"goto", .none, .f10t, [], everywhere 0x28⟩
  | .goto16 => ⟨"goto/16", .none, .f20t, [], everywhere 0x29⟩
  | .goto32 => ⟨"goto/32", .none, .f30t, [], everywhere 0x2a⟩
  | .packedSwitch => ⟨"packed-switch", .none, .f31t, [.continues], everywhere 0x2b⟩
  | .sparseSwitch => ⟨"sparse-switch", .none, .f31t, [.continues], everywhere 0x2c⟩
  | .cmplFloat => ⟨"cmpl-float", .none, .f23x, [.continues, .setsRegister], everywhere 0x2d⟩
  | .cmpgFloat => ⟨"cmpg-float", .none, .f23x, [.continues, .setsRegister], everywhere 0x2e⟩
  | .cmplDouble => ⟨"cmpl-double", .none, .f23x, [.continues, .setsRegister], everywhere 0x2f⟩
  | .cmpgDouble => ⟨"cmpg-double", .none, .f23x, [.continues, .setsRegister], everywhere 0x30⟩
  | .cmpLong => ⟨"cmp-long", .none, .f23x, [.continues, .setsRegister], everywhere 0x31⟩
  | .ifEq => ⟨"if-eq", .none, .f22t, [.continues], everywhere 0x32⟩
  | .ifNe => ⟨"if-ne", .none, .f22t, [.continues], everywhere 0x33⟩
  | .ifLt => ⟨"if-lt", .none, .f22t, [.continues], everywhere 0x34⟩
  | .ifGe => ⟨"if-ge", .none, .f22t, [.continues], everywhere 0x35⟩
  | .ifGt => ⟨"if-gt", .none, .f22t, [.continues], everywhere 0x36⟩
  | .ifLe => ⟨"if-le", .none, .f22t, [.continues], everywhere 0x37⟩
  | .ifEqz => ⟨"if-eqz", .none, .f21t, [.continues], everywhere 0x38⟩
  | .ifNez => ⟨"if-nez", .none, .f21t, [.continues], everywhere 0x39⟩
  | .ifLtz => ⟨"if-ltz", .none, .f21t, [.continues], everywhere 0x3a⟩
  | .ifGez => ⟨"if-gez", .none, .f21t, [.continues], everywhere 0x3b⟩
  | .ifGtz => ⟨"if-gtz", .none, .f21t, [.continues], everywhere 0x3c⟩
  | .ifLez => ⟨"if-lez", .none, .f21t, [.continues], everywhere 0x3d⟩
  | .aget => ⟨"aget", .none, .f23x, [.throws, .continues, .setsRegister], everywhere 0x44⟩
  | .agetWide => ⟨"aget-wide", .none, .f23x,
      [.throws, .continues, .setsRegister, .setsWide], everywhere 0x45⟩
  | .agetObject => ⟨"aget-object", .none, .f23x,
      [.throws, .continues, .setsRegister], everywhere 0x46⟩
  | .agetBoolean => ⟨"aget-boolean", .none, .f23x,
      [.throws, .continues, .setsRegister], everywhere 0x47⟩
  | .agetByte => ⟨"aget-byte", .none, .f23x,
      [.throws, .continues, .setsRegister], everywhere 0x48⟩
  | .agetChar => ⟨"aget-char", .none, .f23x,
      [.throws, .continues, .setsRegister], everywhere 0x49⟩
  | .agetShort => ⟨"aget-short", .none, .f23x,
      [.throws, .continues, .setsRegister], everywhere 0x4a⟩
  | .aput => ⟨"aput", .none, .f23x, [.throws, .continues], everywhere 0x4b⟩
  | .aputWide => ⟨"aput-wide", .none, .f23x, [.throws, .continues], everywhere 0x4c⟩
  | .aputObject => ⟨"aput-object", .none, .f23x, [.throws, .continues], everywhere 0x4d⟩
  | .aputBoolean => ⟨"aput-boolean", .none, .f23x, [.throws, .continues], everywhere 0x4e⟩
  | .aputByte => ⟨"aput-byte", .none, .f23x, [.throws, .continues], everywhere 0x4f⟩
  | .aputChar => ⟨"aput-char", .none, .f23x, [.throws, .continues], everywhere 0x50⟩
  | .aputShort => ⟨"aput-short", .none, .f23x, [.throws, .continues], everywhere 0x51⟩
  | .iget => ⟨"iget", .field, .f22c, [.throws, .continues, .setsRegister], everywhere 0x52⟩
  | .igetWide => ⟨"iget-wide", .field, .f22c,
      [.throws, .continues, .setsRegister, .setsWide], everywhere 0x53⟩
  | .igetObject => ⟨"iget-object", .field, .f22c,
      [.throws, .continues, .setsRegister], everywhere 0x54⟩
  | .igetBoolean => ⟨"iget-boolean", .field, .f22c,
      [.throws, .continues, .setsRegister], everywhere 0x55⟩
  | .igetByte => ⟨"iget-byte", .field, .f22c,
      [.throws, .continues, .setsRegister], everywhere 0x56⟩
  | .igetChar => ⟨"iget-char", .field, .f22c,
      [.throws, .continues, .setsRegister], everywhere 0x57⟩
  | .igetShort => ⟨"iget-short", .field, .f22c,
      [.throws, .continues, .setsRegister], everywhere 0x58⟩
  | .iput => ⟨"iput", .field, .f22c, [.throws, .continues], everywhere 0x59⟩
  | .iputWide => ⟨"iput-wide", .field, .f22c, [.throws, .continues], everywhere 0x5a⟩
  | .iputObject => ⟨"iput-object", .field, .f22c, [.throws, .continues], everywhere 0x5b⟩
  | .iputBoolean => ⟨"iput-boolean", .field, .f22c, [.throws, .continues], everywhere 0x5c⟩
  | .iputByte => ⟨"iput-byte", .field, .f22c, [.throws, .continues], everywhere 0x5d⟩
  | .iputChar => ⟨"iput-char", .field, .f22c, [.throws, .continues], everywhere 0x5e⟩
  | .iputShort => ⟨"iput-short", .field, .f22c, [.throws, .continues], everywhere 0x5f⟩
  | .sget => ⟨"sget", .field, .f21c,
      [.throws, .continues, .setsRegister, .staticField], everywhere 0x60⟩
  | .sgetWide => ⟨"sget-wide", .field, .f21c,
      [.throws, .continues, .setsRegister, .setsWide, .staticField], everywhere 0x61⟩
  | .sgetObject => ⟨"sget-object", .field, .f21c,
      [.throws, .continues, .setsRegister, .staticField], everywhere 0x62⟩
  | .sgetBoolean => ⟨"sget-boolean", .field, .f21c,
      [.throws, .continues, .setsRegister, .staticField], everywhere 0x63⟩
  | .sgetByte => ⟨"sget-byte", .field, .f21c,
      [.throws, .continues, .setsRegister, .staticField], everywhere 0x64⟩
  | .sgetChar => ⟨"sget-char", .field, .f21c,
      [.throws, .continues, .setsRegister, .staticField], everywhere 0x65⟩
  | .sgetShort => ⟨"sget-short", .field, .f21c,
      [.throws, .continues, .setsRegister, .staticField], everywhere 0x66⟩
  | .sput => ⟨"sput", .field, .f21c, [.throws, .continues, .staticField], everywhere 0x67⟩
  | .sputWide => ⟨"sput-wide", .field, .f21c,
      [.throws, .continues, .staticField], everywhere 0x68⟩
  | .sputObject => ⟨"sput-object", .field, .f21c,
      [.throws, .continues, .staticField], everywhere 0x69⟩
  | .sputBoolean => ⟨"sput-boolean", .field, .f21c,
      [.throws, .continues, .staticField], everywhere 0x6a⟩
  | .sputByte => ⟨"sput-byte", .field, .f21c,
      [.throws, .continues, .staticField], everywhere 0x6b⟩
  | .sputChar => ⟨"sput-char", .field, .f21c,
      [.throws, .continues, .staticField], everywhere 0x6c⟩
  | .sputShort => ⟨"sput-short", .field, .f21c,
      [.throws, .continues, .staticField], everywhere 0x6d⟩
  | .invokeVirtual => ⟨"invoke-virtual", .method, .f35c,
      [.throws, .continues, .setsResult], everywhere 0x6e⟩
  | .invokeSuper => ⟨"invoke-super", .method, .f35c,
      [.throws, .continues, .setsResult], everywhere 0x6f⟩
  | .invokeDirect => ⟨"invoke-direct", .method, .f35c,
      [.throws, .continues, .setsResult, .initializes], everywhere 0x70⟩
  | .invokeStatic => ⟨"invoke-static", .method, .f35c,
      [.throws, .continues, .setsResult], everywhere 0x71⟩
  | .invokeInterface => ⟨"invoke-interface", .method, .f35c,
      [.throws, .continues, .setsResult], everywhere 0x72⟩
  | .invokeVirtualRange => ⟨"invoke-virtual/range", .method, .f3rc,
      [.throws, .continues, .setsResult], everywhere 0x74⟩
  | .invokeSuperRange => ⟨"invoke-super/range", .method, .f3rc,
      [.throws, .continues, .setsResult], everywhere 0x75⟩
  | .invokeDirectRange => ⟨"invoke-direct/range", .method, .f3rc,
      [.throws, .continues, .setsResult, .initializes], everywhere 0x76⟩
  | .invokeStaticRange => ⟨"invoke-static/range", .method, .f3rc,
      [.throws, .continues, .setsResult], everywhere 0x77⟩
  | .invokeInterfaceRange => ⟨"invoke-interface/range", .method, .f3rc,
      [.throws, .continues, .setsResult], everywhere 0x78⟩
  | .negInt => ⟨"neg-int", .none, .f12x, [.continues, .setsRegister], everywhere 0x7b⟩
  | .notInt => ⟨"not-int", .none, .f12x, [.continues, .setsRegister], everywhere 0x7c⟩
  | .negLong => ⟨"neg-long", .none, .f12x,
      [.continues, .setsRegister, .setsWide], everywhere 0x7d⟩
  | .notLong => ⟨"not-long", .none, .f12x,
      [.continues, .setsRegister, .setsWide], everywhere 0x7e⟩
  | .negFloat => ⟨"neg-float", .none, .f12x, [.continues, .setsRegister], everywhere 0x7f⟩
  | .negDouble => ⟨"neg-double", .none, .f12x,
      [.continues, .setsRegister, .setsWide], everywhere 0x80⟩
  | .intToLong => ⟨"int-to-long", .none, .f12x,
      [.continues, .setsRegister, .setsWide], everywhere 0x81⟩
  | .intToFloat => ⟨"int-to-float", .none, .f12x, [.continues, .setsRegister], everywhere 0x82⟩
  | .intToDouble => ⟨"int-to-double", .none, .f12x,
      [.continues, .setsRegister, .setsWide], everywhere 0x83⟩
  | .longToInt => ⟨"long-to-int", .none, .f12x, [.continues, .setsRegister], everywhere 0x84⟩
  | .longToFloat => ⟨"long-to-float", .none, .f12x, [.continues, .setsRegister], everywhere 0x85⟩
  | .longToDouble => ⟨"long-to-double", .none, .f12x,
      [.continues, .setsRegister, .setsWide], everywhere 0x86⟩
  | .floatToInt => ⟨"float-to-int", .none, .f12x, [.continues, .setsRegister], everywhere 0x87⟩
  | .floatToLong => ⟨"float-to-long", .none, .f12x,
      [.continues, .setsRegister, .setsWide], everywhere 0x88⟩
  | .floatToDouble => ⟨"float-to-double", .none, .f12x,
      [.continues, .setsRegister, .setsWide], everywhere 0x89⟩
  | .doubleToInt => ⟨"double-to-int", .none, .f12x, [.continues, .setsRegister], everywhere 0x8a⟩
  | .doubleToLong => ⟨"double-to-long", .none, .f12x,
      [.continues, .setsRegister, .setsWide], everywhere 0x8b⟩
  | .doubleToFloat => ⟨"double-to-float", .none, .f12x,
      [.continues, .setsRegister], everywhere 0x8c⟩
  | .intToByte => ⟨"int-to-byte", .none, .f12x, [.continues, .setsRegister], everywhere 0x8d⟩
  | .intToChar => ⟨"int-to-char", .none, .f12x, [.continues, .setsRegister], everywhere 0x8e⟩
  | .intToShort => ⟨"int-to-short", .none, .f12x, [.continues, .setsRegister], everywhere 0x8f⟩
  | .addInt => ⟨"add-int", .none, .f23x, [.continues, .setsRegister], everywhere 0x90⟩
  | .subInt => ⟨"sub-int", .none, .f23x, [.continues, .setsRegister], everywhere 0x91⟩
  | .mulInt => ⟨"mul-int", .none, .f23x, [.continues, .setsRegister], everywhere 0x92⟩
  | .divInt => ⟨"div-int", .none, .f23x, [.throws, .continues, .setsRegister], everywhere 0x93⟩
  | .remInt => ⟨"rem-int", .none, .f23x, [.throws, .continues, .setsRegister], everywhere 0x94⟩
  | .andInt => ⟨"and-int", .none, .f23x, [.continues, .setsRegister], everywhere 0x95⟩
  | .orInt => ⟨"or-int", .none, .f23x, [.continues, .setsRegister], everywhere 0x96⟩
  | .xorInt => ⟨"xor-int", .none, .f23x, [.continues, .setsRegister], everywhere 0x97⟩
  | .shlInt => ⟨"shl-int", .none, .f23x, [.continues, .setsRegister], everywhere 0x98⟩
  | .shrInt => ⟨"shr-int", .none, .f23x, [.continues, .setsRegister], everywhere 0x99⟩
  | .ushrInt => ⟨"ushr-int", .none, .f23x, [.continues, .setsRegister], everywhere 0x9a⟩
  | .addLong => ⟨"add-long", .none, .f23x,
      [.continues, .setsRegister, .setsWide], everywhere 0x9b⟩
  | .subLong => ⟨"sub-long", .none, .f23x,
      [.continues, .setsRegister, .setsWide], everywhere 0x9c⟩
  | .mulLong => ⟨"mul-long", .none, .f23x,
      [.continues, .setsRegister, .setsWide], everywhere 0x9d⟩
  | .divLong => ⟨"div-long", .none, .f23x,
      [.throws, .continues, .setsRegister, .setsWide], everywhere 0x9e⟩
  | .remLong => ⟨"rem-long", .none, .f23x,
      [.throws, .continues, .setsRegister, .setsWide], everywhere 0x9f⟩
  | .andLong => ⟨"and-long", .none, .f23x,
      [.continues, .setsRegister, .setsWide], everywhere 0xa0⟩
  | .orLong => ⟨"or-long", .none, .f23x, [.continues, .setsRegister, .setsWide], everywhere 0xa1⟩
  | .xorLong => ⟨"xor-long", .none, .f23x,
      [.continues, .setsRegister, .setsWide], everywhere 0xa2⟩
  | .shlLong => ⟨"shl-long", .none, .f23x,
      [.continues, .setsRegister, .setsWide], everywhere 0xa3⟩
  | .shrLong => ⟨"shr-long", .none, .f23x,
      [.continues, .setsRegister, .setsWide], everywhere 0xa4⟩
  | .ushrLong => ⟨"ushr-long", .none, .f23x,
      [.continues, .setsRegister, .setsWide], everywhere 0xa5⟩
  | .addFloat => ⟨"add-float", .none, .f23x, [.continues, .setsRegister], everywhere 0xa6⟩
  | .subFloat => ⟨"sub-float", .none, .f23x, [.continues, .setsRegister], everywhere 0xa7⟩
  | .mulFloat => ⟨"mul-float", .none, .f23x, [.continues, .setsRegister], everywhere 0xa8⟩
  | .divFloat => ⟨"div-float", .none, .f23x, [.continues, .setsRegister], everywhere 0xa9⟩
  | .remFloat => ⟨"rem-float", .none, .f23x, [.continues, .setsRegister], everywhere 0xaa⟩
  | .addDouble => ⟨"add-double", .none, .f23x,
      [.continues, .setsRegister, .setsWide], everywhere 0xab⟩
  | .subDouble => ⟨"sub-double", .none, .f23x,
      [.continues, .setsRegister, .setsWide], everywhere 0xac⟩
  | .mulDouble => ⟨"mul-double", .none, .f23x,
      [.continues, .setsRegister, .setsWide], everywhere 0xad⟩
  | .divDouble => ⟨"div-double", .none, .f23x,
      [.continues, .setsRegister, .setsWide], everywhere 0xae⟩
  | .remDouble => ⟨"rem-double", .none, .f23x,
      [.continues, .setsRegister, .setsWide], everywhere 0xaf⟩
  | .addInt2addr => ⟨"add-int/2addr", .none, .f12x, [.continues, .setsRegister], everywhere 0xb0⟩
  | .subInt2addr => ⟨"sub-int/2addr", .none, .f12x, [.continues, .setsRegister], everywhere 0xb1⟩
  | .mulInt2addr => ⟨"mul-int/2addr", .none, .f12x, [.continues, .setsRegister], everywhere 0xb2⟩
  | .divInt2addr => ⟨"div-int/2addr", .none, .f12x,
      [.throws, .continues, .setsRegister], everywhere 0xb3⟩
  | .remInt2addr => ⟨"rem-int/2addr", .none, .f12x,
      [.throws, .continues, .setsRegister], everywhere 0xb4⟩
  | .andInt2addr => ⟨"and-int/2addr", .none, .f12x, [.continues, .setsRegister], everywhere 0xb5⟩
  | .orInt2addr => ⟨"or-int/2addr", .none, .f12x, [.continues, .setsRegister], everywhere 0xb6⟩
  | .xorInt2addr => ⟨"xor-int/2addr", .none, .f12x, [.continues, .setsRegister], everywhere 0xb7⟩
  | .shlInt2addr => ⟨"shl-int/2addr", .none, .f12x, [.continues, .setsRegister], everywhere 0xb8⟩
  | .shrInt2addr => ⟨"shr-int/2addr", .none, .f12x, [.continues, .setsRegister], everywhere 0xb9⟩
  | .ushrInt2addr => ⟨"ushr-int/2addr", .none, .f12x,
      [.continues, .setsRegister], everywhere 0xba⟩
  | .addLong2addr => ⟨"add-long/2addr", .none, .f12x,
      [.continues, .setsRegister, .setsWide], everywhere 0xbb⟩
  | .subLong2addr => ⟨"sub-long/2addr", .none, .f12x,
      [.continues, .setsRegister, .setsWide], everywhere 0xbc⟩
  | .mulLong2addr => ⟨"mul-long/2addr", .none, .f12x,
      [.continues, .setsRegister, .setsWide], everywhere 0xbd⟩
  | .divLong2addr => ⟨"div-long/2addr", .none, .f12x,
      [.throws, .continues, .setsRegister, .setsWide], everywhere 0xbe⟩
  | .remLong2addr => ⟨"rem-long/2addr", .none, .f12x,
      [.throws, .continues, .setsRegister, .setsWide], everywhere 0xbf⟩
  | .andLong2addr => ⟨"and-long/2addr", .none, .f12x,
      [.continues, .setsRegister, .setsWide], everywhere 0xc0⟩
  | .orLong2addr => ⟨"or-long/2addr", .none, .f12x,
      [.continues, .setsRegister, .setsWide], everywhere 0xc1⟩
  | .xorLong2addr => ⟨"xor-long/2addr", .none, .f12x,
      [.continues, .setsRegister, .setsWide], everywhere 0xc2⟩
  | .shlLong2addr => ⟨"shl-long/2addr", .none, .f12x,
      [.continues, .setsRegister, .setsWide], everywhere 0xc3⟩
  | .shrLong2addr => ⟨"shr-long/2addr", .none, .f12x,
      [.continues, .setsRegister, .setsWide], everywhere 0xc4⟩
  | .ushrLong2addr => ⟨"ushr-long/2addr", .none, .f12x,
      [.continues, .setsRegister, .setsWide], everywhere 0xc5⟩
  | .addFloat2addr => ⟨"add-float/2addr", .none, .f12x,
      [.continues, .setsRegister], everywhere 0xc6⟩
  | .subFloat2addr => ⟨"sub-float/2addr", .none, .f12x,
      [.continues, .setsRegister], everywhere 0xc7⟩
  | .mulFloat2addr => ⟨"mul-float/2addr", .none, .f12x,
      [.continues, .setsRegister], everywhere 0xc8⟩
  | .divFloat2addr => ⟨"div-float/2addr", .none, .f12x,
      [.continues, .setsRegister], everywhere 0xc9⟩
  | .remFloat2addr => ⟨"rem-float/2addr", .none, .f12x,
      [.continues, .setsRegister], everywhere 0xca⟩
  | .addDouble2addr => ⟨"add-double/2addr", .none, .f12x,
      [.continues, .setsRegister, .setsWide], everywhere 0xcb⟩
  | .subDouble2addr => ⟨"sub-double/2addr", .none, .f12x,
      [.continues, .setsRegister, .setsWide], everywhere 0xcc⟩
  | .mulDouble2addr => ⟨"mul-double/2addr", .none, .f12x,
      [.continues, .setsRegister, .setsWide], everywhere 0xcd⟩
  | .divDouble2addr => ⟨"div-double/2addr", .none, .f12x,
      [.continues, .setsRegister, .setsWide], everywhere 0xce⟩
  | .remDouble2addr => ⟨"rem-double/2addr", .none, .f12x,
      [.continues, .setsRegister, .setsWide], everywhere 0xcf⟩
  | .addIntLit16 => ⟨"add-int/lit16", .none, .f22s, [.continues, .setsRegister], everywhere 0xd0⟩
  | .rsubInt => ⟨"rsub-int", .none, .f22s, [.continues, .setsRegister], everywhere 0xd1⟩
  | .mulIntLit16 => ⟨"mul-int/lit16", .none, .f22s, [.continues, .setsRegister], everywhere 0xd2⟩
  | .divIntLit16 => ⟨"div-int/lit16", .none, .f22s,
      [.throws, .continues, .setsRegister], everywhere 0xd3⟩
  | .remIntLit16 => ⟨"rem-int/lit16", .none, .f22s,
      [.throws, .continues, .setsRegister], everywhere 0xd4⟩
  | .andIntLit16 => ⟨"and-int/lit16", .none, .f22s, [.continues, .setsRegister], everywhere 0xd5⟩
  | .orIntLit16 => ⟨"or-int/lit16", .none, .f22s, [.continues, .setsRegister], everywhere 0xd6⟩
  | .xorIntLit16 => ⟨"xor-int/lit16", .none, .f22s, [.continues, .setsRegister], everywhere 0xd7⟩
  | .addIntLit8 => ⟨"add-int/lit8", .none, .f22b, [.continues, .setsRegister], everywhere 0xd8⟩
  | .rsubIntLit8 => ⟨"rsub-int/lit8", .none, .f22b, [.continues, .setsRegister], everywhere 0xd9⟩
  | .mulIntLit8 => ⟨"mul-int/lit8", .none, .f22b, [.continues, .setsRegister], everywhere 0xda⟩
  | .divIntLit8 => ⟨"div-int/lit8", .none, .f22b,
      [.throws, .continues, .setsRegister], everywhere 0xdb⟩
  | .remIntLit8 => ⟨"rem-int/lit8", .none, .f22b,
      [.throws, .continues, .setsRegister], everywhere 0xdc⟩
  | .andIntLit8 => ⟨"and-int/lit8", .none, .f22b, [.continues, .setsRegister], everywhere 0xdd⟩
  | .orIntLit8 => ⟨"or-int/lit8", .none, .f22b, [.continues, .setsRegister], everywhere 0xde⟩
  | .xorIntLit8 => ⟨"xor-int/lit8", .none, .f22b, [.continues, .setsRegister], everywhere 0xdf⟩
  | .shlIntLit8 => ⟨"shl-int/lit8", .none, .f22b, [.continues, .setsRegister], everywhere 0xe0⟩
  | .shrIntLit8 => ⟨"shr-int/lit8", .none, .f22b, [.continues, .setsRegister], everywhere 0xe1⟩
  | .ushrIntLit8 => ⟨"ushr-int/lit8", .none, .f22b, [.continues, .setsRegister], everywhere 0xe2⟩
  | .igetVolatile => ⟨"iget-volatile", .field, .f22c,
      [.throws, .odex, .continues, .setsRegister, .volatileField], ⟨some (since 9 0xe3), none⟩⟩
  | .iputVolatile => ⟨"iput-volatile", .field, .f22c,
      [.throws, .odex, .continues, .volatileField], ⟨some (since 9 0xe4), none⟩⟩
  | .sgetVolatile => ⟨"sget-volatile", .field, .f21c,
      [.throws, .odex, .continues, .setsRegister, .volatileField, .staticField],
      ⟨some (since 9 0xe5), none⟩⟩
  | .sputVolatile => ⟨"sput-volatile", .field, .f21c,
      [.throws, .odex, .continues, .volatileField, .staticField], ⟨some (since 9 0xe6), none⟩⟩
  | .igetObjectVolatile => ⟨"iget-object-volatile", .field, .f22c,
      [.throws, .odex, .continues, .setsRegister, .volatileField], ⟨some (since 9 0xe7), none⟩⟩
  | .igetWideVolatile => ⟨"iget-wide-volatile", .field, .f22c,
      [.throws, .odex, .continues, .setsRegister, .setsWide, .volatileField],
      ⟨some (since 9 0xe8), none⟩⟩
  | .iputWideVolatile => ⟨"iput-wide-volatile", .field, .f22c,
      [.throws, .odex, .continues, .volatileField], ⟨some (since 9 0xe9), none⟩⟩
  | .sgetWideVolatile => ⟨"sget-wide-volatile", .field, .f21c,
      [.throws, .odex, .continues, .setsRegister, .setsWide, .volatileField, .staticField],
      ⟨some (since 9 0xea), none⟩⟩
  | .sputWideVolatile => ⟨"sput-wide-volatile", .field, .f21c,
      [.throws, .odex, .continues, .volatileField, .staticField], ⟨some (since 9 0xeb), none⟩⟩
  | .iputObjectVolatile => ⟨"iput-object-volatile", .field, .f22c,
      [.throws, .odex, .continues, .volatileField], ⟨some (since 9 0xfc), none⟩⟩
  | .sgetObjectVolatile => ⟨"sget-object-volatile", .field, .f21c,
      [.throws, .odex, .continues, .setsRegister, .volatileField, .staticField],
      ⟨some (since 9 0xfd), none⟩⟩
  | .sputObjectVolatile => ⟨"sput-object-volatile", .field, .f21c,
      [.throws, .odex, .continues, .volatileField, .staticField],
      ⟨some (between 9 19 0xfe), none⟩⟩
  | .throwVerificationError => ⟨"throw-verification-error", .none, .f20bc,
      [.throws, .odex], ⟨some (since 5 0xed), none⟩⟩
  | .executeInline => ⟨"execute-inline", .none, .f35mi,
      [.throws, .odex, .continues, .setsResult], ⟨some (always 0xee), none⟩⟩
  | .executeInlineRange => ⟨"execute-inline/range", .none, .f3rmi,
      [.throws, .odex, .continues, .setsResult], ⟨some (since 8 0xef), none⟩⟩
  | .invokeDirectEmpty => ⟨"invoke-direct-empty", .method, .f35c,
      [.throws, .odex, .continues, .setsResult, .initializes], ⟨some (upTo 13 0xf0), none⟩⟩
  | .invokeObjectInitRange => ⟨"invoke-object-init/range", .method, .f3rc,
      [.throws, .odex, .continues, .setsResult, .initializes], ⟨some (since 14 0xf0), none⟩⟩
  | .returnVoidBarrier => ⟨"return-void-barrier", .none, .f10x,
      [.odex], ⟨some (since 11 0xf1), some (upTo 59 0x73)⟩⟩
  | .returnVoidNoBarrier => ⟨"return-void-no-barrier", .none, .f10x,
      [.odex], ⟨none, some (since 60 0x73)⟩⟩
  | .igetQuick => ⟨"iget-quick", .none, .f22cs,
      [.throws, .odex, .continues, .setsRegister, .quickField],
      ⟨some (always 0xf2), some (always 0xe3)⟩⟩
  | .igetWideQuick => ⟨"iget-wide-quick", .none, .f22cs,
      [.throws, .odex, .continues, .setsRegister, .setsWide, .quickField],
      ⟨some (always 0xf3), some (always 0xe4)⟩⟩
  | .igetObjectQuick => ⟨"iget-object-quick", .none, .f22cs,
      [.throws, .odex, .continues, .setsRegister, .quickField],
      ⟨some (always 0xf4), some (always 0xe5)⟩⟩
  | .iputQuick => ⟨"iput-quick", .none, .f22cs,
      [.throws, .odex, .continues, .quickField], ⟨some (always 0xf5), some (always 0xe6)⟩⟩
  | .iputWideQuick => ⟨"iput-wide-quick", .none, .f22cs,
      [.throws, .odex, .continues, .quickField], ⟨some (always 0xf6), some (always 0xe7)⟩⟩
  | .iputObjectQuick => ⟨"iput-object-quick", .none, .f22cs,
      [.throws, .odex, .continues, .quickField], ⟨some (always 0xf7), some (always 0xe8)⟩⟩
  | .iputBooleanQuick => ⟨"iput-boolean-quick", .none, .f22cs,
      [.throws, .odex, .continues, .quickField], ⟨none, some (always 0xeb)⟩⟩
  | .iputByteQuick => ⟨"iput-byte-quick", .none, .f22cs,
      [.throws, .odex, .continues, .quickField], ⟨none, some (always 0xec)⟩⟩
  | .iputCharQuick => ⟨"iput-char-quick", .none, .f22cs,
      [.throws, .odex, .continues, .quickField], ⟨none, some (always 0xed)⟩⟩
  | .iputShortQuick => ⟨"iput-short-quick", .none, .f22cs,
      [.throws, .odex, .continues, .quickField], ⟨none, some (always 0xee)⟩⟩
  | .igetBooleanQuick => ⟨"iget-boolean-quick", .none, .f22cs,
      [.throws, .odex, .continues, .setsRegister, .quickField], ⟨none, some (always 0xef)⟩⟩
  | .igetByteQuick => ⟨"iget-byte-quick", .none, .f22cs,
      [.throws, .odex, .continues, .setsRegister, .quickField], ⟨none, some (always 0xf0)⟩⟩
  | .igetCharQuick => ⟨"iget-char-quick", .none, .f22cs,
      [.throws, .odex, .continues, .setsRegister, .quickField], ⟨none, some (always 0xf1)⟩⟩
  | .igetShortQuick => ⟨"iget-short-quick", .none, .f22cs,
      [.throws, .odex, .continues, .setsRegister, .quickField], ⟨none, some (always 0xf2)⟩⟩
  | .invokeVirtualQuick => ⟨"invoke-virtual-quick", .none, .f35ms,
      [.throws, .odex, .continues, .setsResult], ⟨some (always 0xf8), some (always 0xe9)⟩⟩
  | .invokeVirtualQuickRange => ⟨"invoke-virtual-quick/range", .none, .f3rms,
      [.throws, .odex, .continues, .setsResult], ⟨some (always 0xf9), some (always 0xea)⟩⟩
  | .invokeSuperQuick => ⟨"invoke-super-quick", .none, .f35ms,
      [.throws, .odex, .continues, .setsResult], ⟨some (upTo 25 0xfa), none⟩⟩
  | .invokeSuperQuickRange => ⟨"invoke-super-quick/range", .none, .f3rms,
      [.throws, .odex, .continues, .setsResult], ⟨some (upTo 25 0xfb), none⟩⟩
  | .invokePolymorphic => ⟨"invoke-polymorphic", .method, .f45cc,
      [.throws, .continues, .setsResult], ⟨none, some (since 87 0xfa)⟩⟩
  | .invokePolymorphicRange => ⟨"invoke-polymorphic/range", .method, .f4rcc,
      [.throws, .continues, .setsResult], ⟨none, some (since 87 0xfb)⟩⟩
  | .invokeCustom => ⟨"invoke-custom", .callSite, .f35c,
      [.throws, .continues, .setsResult], ⟨none, some (since 111 0xfc)⟩⟩
  | .invokeCustomRange => ⟨"invoke-custom/range", .callSite, .f3rc,
      [.throws, .continues, .setsResult], ⟨none, some (since 111 0xfd)⟩⟩
  | .constMethodHandle => ⟨"const-method-handle", .methodHandle, .f21c,
      [.throws, .continues, .setsRegister], ⟨none, some (since 134 0xfe)⟩⟩
  | .constMethodType => ⟨"const-method-type", .prototype, .f21c,
      [.throws, .continues, .setsRegister], ⟨none, some (since 134 0xff)⟩⟩
  | .packedSwitchPayload => ⟨"packed-switch-payload", .none, .packedSwitchPayload,
      [], everywhere 0x100⟩
  | .sparseSwitchPayload => ⟨"sparse-switch-payload", .none, .sparseSwitchPayload,
      [], everywhere 0x200⟩
  | .arrayPayload => ⟨"array-payload", .none, .arrayPayload, [], everywhere 0x300⟩

def name (o : Opcode) : String := o.info.name

def format (o : Opcode) : Format := o.info.format

def operand (o : Opcode) : OperandKind := o.info.operand

def has (o : Opcode) (t : Trait) : Bool := o.info.traits.contains t

/-- The traits as a flag word. -/
def flagBits (o : Opcode) : Nat := (o.info.traits.map Trait.bit).foldr (· + ·) 0

def canThrow (o : Opcode) : Bool := o.has .throws
def isOdex (o : Opcode) : Bool := o.has .odex
def canContinue (o : Opcode) : Bool := o.has .continues
def setsResult (o : Opcode) : Bool := o.has .setsResult
def setsRegister (o : Opcode) : Bool := o.has .setsRegister
def setsWide (o : Opcode) : Bool := o.has .setsWide

def isGoto : Opcode → Bool
  | .goto | .goto16 | .goto32 => true
  | _ => false

def isSwitch : Opcode → Bool
  | .packedSwitch | .sparseSwitch => true
  | _ => false

/-- Branches that compare one register with zero or two registers. -/
def isConditional (o : Opcode) : Bool :=
  match o.format with
  | .f21t | .f22t => true
  | _ => false

/-- The opcode of an assembly name. -/
def ofName? (name : String) : Option Opcode :=
  all.find? fun o => o.name == name

end Opcode

end SymbolicDex
