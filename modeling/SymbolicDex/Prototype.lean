import SymbolicDex.Descriptor

/- Method prototypes, `(IJ)V`: parameter types without separators between
   parentheses, then the type of the result. -/
namespace SymbolicDex

structure Prototype where
  params : List Descriptor
  result : Descriptor
deriving DecidableEq, Inhabited

namespace Prototype

def text (p : Prototype) : String :=
  "(" ++ String.join p.params ++ ")" ++ p.result

/-- Field types off the front of a text, at most `count`, and what is left. -/
def splitParams : Nat → List Char → List Descriptor × List Char
  | 0, cs => ([], cs)
  | count + 1, cs =>
    match Descriptor.splitFieldType cs with
    | none => ([], cs)
    | some (t, rest) =>
      let (ts, rest) := splitParams count rest
      (String.ofList t :: ts, rest)

/-- A result is void or one field type up to the end of the text. -/
def parseResult (cs : List Char) : Option Descriptor :=
  if cs = ['V'] then some "V"
  else match Descriptor.splitFieldType cs with
    | some (t, []) => some (String.ofList t)
    | _ => none

/-- A parameter takes at least one character, so the length of the text
    bounds their number. -/
def parse? (text : String) : Option Prototype :=
  match text.toList with
  | '(' :: cs =>
    match splitParams cs.length cs with
    | (params, ')' :: rest) => (parseResult rest).map (⟨params, ·⟩)
    | _ => none
  | _ => none

def parse (text : String) : Checked Prototype :=
  match parse? text with
  | some p => .ok p
  | none => Checked.fail (.invalidPrototype text)

/-- Registers the parameters take, the receiver not counted. -/
def registerCount (p : Prototype) : Nat :=
  (p.params.map Descriptor.registerWidth).foldr (· + ·) 0

/-- Parameters first, as a dictionary orders them, then the result. -/
def compare (a b : Prototype) : Ordering :=
  (List.compareLex Ord.compare a.params b.params).then (Ord.compare a.result b.result)

end Prototype

end SymbolicDex
