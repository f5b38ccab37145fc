import SymbolicDex.Member
import SymbolicDex.Text.Blank

/- The methods behind execute-inline: an optimizer replaces calls of a fixed
   set of methods by an index into a table of the running device. There are
   two built-in tables, and a device's own can be given as text. -/
namespace SymbolicDex

/-- How an inlined method is called. -/
inductive CallKind where
  | static
  | virtual
  | direct
deriving DecidableEq

namespace CallKind

/-- Display name of the kind. -/
def name : CallKind → String
  | static => "Static"
  | virtual => "Virtual"
  | direct => "Direct"

end CallKind

structure InlineMethod where
  kind : CallKind
  method : MethodRef
deriving DecidableEq

namespace InlineMethod

/-- The invoke that an execute-inline of this method stands for. -/
def invokeOpcode (m : InlineMethod) (range : Bool) : Opcode :=
  match m.kind, range with
  | .static, false => .invokeStatic
  | .static, true => .invokeStaticRange
  | .virtual, false => .invokeVirtual
  | .virtual, true => .invokeVirtualRange
  | .direct, false => .invokeDirect
  | .direct, true => .invokeDirectRange

end InlineMethod

structure InlineTable where
  methods : List InlineMethod
deriving DecidableEq

namespace InlineTable

def size (t : InlineTable) : Nat := t.methods.length

def method? (t : InlineTable) (index : Nat) : Option InlineMethod :=
  t.methods[index]?

/-! Built-in tables. -/

private def row (kind : CallKind) (owner name : String) (params : List Descriptor)
    (result : Descriptor) : InlineMethod :=
  ⟨kind, ⟨owner, name, ⟨params, result⟩⟩⟩

private def ofString (kind : CallKind) := row kind Descriptor.string

private def emptyMethod : InlineMethod :=
  row .static "Lorg/apache/harmony/dalvik/NativeTestTarget;" "emptyInlineMethod" [] "V"

/-- Methods that `Math` and `StrictMath` share. -/
private def arithmetic (owner : Descriptor) : List InlineMethod := [
  row .static owner "abs" ["I"] "I",
  row .static owner "abs" ["J"] "J",
  row .static owner "abs" ["F"] "F",
  row .static owner "abs" ["D"] "D",
  row .static owner "min" ["I", "I"] "I",
  row .static owner "max" ["I", "I"] "I",
  row .static owner "sqrt" ["D"] "D"]

private def math : List InlineMethod :=
  arithmetic "Ljava/lang/Math;" ++ [
    row .static "Ljava/lang/Math;" "cos" ["D"] "D",
    row .static "Ljava/lang/Math;" "sin" ["D"] "D"]

private def strings35 : List InlineMethod := [
  ofString .virtual "charAt" ["I"] "C",
  ofString .virtual "compareTo" [Descriptor.string] "I",
  ofString .virtual "equals" [Descriptor.object] "Z",
  ofString .virtual "length" [] "I"]

private def strings36 : List InlineMethod := [
  ofString .virtual "charAt" ["I"] "C",
  ofString .virtual "compareTo" [Descriptor.string] "I",
  ofString .virtual "equals" [Descriptor.object] "Z",
  ofString .direct "fastIndexOf" ["I", "I"] "I",
  ofString .virtual "isEmpty" [] "Z",
  ofString .virtual "length" [] "I"]

private def conversions : List InlineMethod := [
  row .static "Ljava/lang/Float;" "floatToIntBits" ["F"] "I",
  row .static "Ljava/lang/Float;" "floatToRawIntBits" ["F"] "I",
  row .static "Ljava/lang/Float;" "intBitsToFloat" ["I"] "F",
  row .static "Ljava/lang/Double;" "doubleToLongBits" ["D"] "J",
  row .static "Ljava/lang/Double;" "doubleToRawLongBits" ["D"] "J",
  row .static "Ljava/lang/Double;" "longBitsToDouble" ["J"] "D"]

/-- The built-in table of a version; everything after 35 has the table of 36. -/
def ofVersion (version : Nat) : InlineTable :=
  if version ≤ 35 then ⟨emptyMethod :: strings35 ++ math⟩
  else ⟨emptyMethod :: strings36 ++ math ++ conversions ++ arithmetic "Ljava/lang/StrictMath;"⟩

/-! Tables as text: one method a line, `static Ljava/lang/Math;->abs(I)I`. The
    word in front is `static`, `virtual` or `direct`, virtual when left out;
    blank lines and lines that start with a hash sign are skipped. -/

/-- A calling word with the blanks after it, off the front of a line. -/
def splitKind (line : List Char) : Option (CallKind × List Char) :=
  [(CallKind.static, "static"), (.virtual, "virtual"), (.direct, "direct")].findSome?
    fun (kind, word) =>
      if word.toList.isPrefixOf line then
        match line.drop word.length with
        | c :: rest =>
          if Text.isSeparator c then some (kind, rest.dropWhile Text.isSeparator) else none
        | [] => none
      else none

/-- Calling kind, class, name and prototype text of a line. The class ends at
    the first arrow, the name at the first parenthesis after it. -/
def splitLine (line : List Char) :
    Option (CallKind × List Char × List Char × List Char) := do
  let (kind, rest) := (splitKind line).getD (.virtual, line)
  let (owner, rest) ← Text.splitBefore ['-', '>'] (rest.dropWhile Text.isSeparator)
  let (name, prototype) ← Text.splitBefore ['('] (rest.drop 2)
  return (kind, owner, name, prototype)

/-- The method of line `number`, which is neither blank nor a comment. -/
def parseLine (number : Nat) (line : List Char) : Checked InlineMethod :=
  match splitLine line with
  | none => Checked.fail (.inlineEntry number (String.ofList line))
  | some (kind, owner, name, prototype) => do
    let prototype ← (Prototype.parse (String.ofList prototype)).within ("line " ++ number.repr)
    return ⟨kind, ⟨String.ofList owner, String.ofList name, prototype⟩⟩

/-- The methods of the lines from number `number` on. -/
def parseLines (number : Nat) : List (List Char) → Checked (List InlineMethod)
  | [] => .ok []
  | line :: lines =>
    let line := Text.trim line
    if line.isEmpty ∨ line.head? = some '#' then parseLines (number + 1) lines
    else do
      let method ← parseLine number line
      let methods ← parseLines (number + 1) lines
      return method :: methods

def parse (text : String) : Checked InlineTable := do
  let methods ← parseLines 1 (Text.lines text.toList)
  return ⟨methods⟩

end InlineTable

end SymbolicDex
