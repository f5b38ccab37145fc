import SymbolicDex.Failure

/- Type descriptors: `I`, `[J`, `Ljava/lang/String;`. They are plain text that
   nobody checks before it gets here, so every function answers on any text. -/
namespace SymbolicDex

abbrev Descriptor := String

namespace Descriptor

def object : Descriptor := "Ljava/lang/Object;"
def string : Descriptor := "Ljava/lang/String;"
def classClass : Descriptor := "Ljava/lang/Class;"
def throwable : Descriptor := "Ljava/lang/Throwable;"
def cloneable : Descriptor := "Ljava/lang/Cloneable;"
def serializable : Descriptor := "Ljava/io/Serializable;"
def methodHandle : Descriptor := "Ljava/lang/invoke/MethodHandle;"
def methodType : Descriptor := "Ljava/lang/invoke/MethodType;"

/-- Stands for a reference whose class cannot be pinned down. -/
def unknown : Descriptor := "Ujava/lang/Object;"

/-- Letters of the primitive types, void left out. -/
def isPrimitiveLetter (c : Char) : Bool :=
  c ∈ ['Z', 'B', 'S', 'C', 'I', 'J', 'F', 'D']

/-- Splits a class name off the text after its `L`: at least one character,
    up to and with the first semicolon. -/
def splitClassName (cs : List Char) : Option (List Char × List Char) :=
  match cs.takeWhile (· ≠ ';'), cs.dropWhile (· ≠ ';') with
  | [], _ => none
  | _, [] => none
  | name, semicolon :: rest => some (name ++ [semicolon], rest)

/-- Splits a field type off the front of a text. -/
def splitFieldType : List Char → Option (List Char × List Char)
  | [] => none
  | c :: cs =>
    if c = '[' then (splitFieldType cs).map fun (t, rest) => (c :: t, rest)
    else if c = 'L' then (splitClassName cs).map fun (t, rest) => (c :: t, rest)
    else if isPrimitiveLetter c then some ([c], cs)
    else none

/-- Accepts a text that is one field type from end to end. -/
def parse (d : String) : Checked Descriptor :=
  match splitFieldType d.toList with
  | some (_, []) => .ok d
  | _ => Checked.fail (.invalidType d)

def isPrimitive (d : Descriptor) : Bool :=
  match d.toList with
  | [c] => isPrimitiveLetter c
  | _ => false

def isArray (d : Descriptor) : Bool :=
  d.toList.head? == some '['

def isReference (d : Descriptor) : Bool :=
  d.toList.head? == some 'L' || d.isArray

def isWide (d : Descriptor) : Bool :=
  d == "J" || d == "D"

/-- Number of leading brackets. -/
def dimensions (d : Descriptor) : Nat :=
  (d.toList.takeWhile (· = '[')).length

/-- One dimension less; a text without a bracket stays as it is. -/
def component (d : Descriptor) : Descriptor :=
  match d.toList with
  | [] => d
  | c :: cs => if c = '[' then String.ofList cs else d

/-- The type under all dimensions. -/
def element (d : Descriptor) : Descriptor :=
  String.ofList (d.toList.dropWhile (· = '['))

/-- `d` under `n` more dimensions. -/
def arrayOf (n : Nat) (d : Descriptor) : Descriptor :=
  String.ofList (List.replicate n '[' ++ d.toList)

/-- Registers a value of this type takes. -/
def registerWidth (d : Descriptor) : Nat :=
  if d == "V" then 0 else if d.isWide then 2 else 1

/-- The text before the last slash of the element type, `L` without one. -/
def package (d : Descriptor) : String :=
  match (d.toList.dropWhile (· = '[')).reverse.dropWhile (· ≠ '/') with
  | [] => "L"
  | _ :: before => String.ofList before.reverse

def samePackage (a b : Descriptor) : Bool :=
  package a == package b

end Descriptor

end SymbolicDex
