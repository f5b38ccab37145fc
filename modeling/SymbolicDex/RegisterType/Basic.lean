import SymbolicDex.Descriptor
import SymbolicDex.RegisterType.Category

/- Inferred type of one register at one point of a method. -/
namespace SymbolicDex

/-- A category, with a class for initialized and uninitialized references. -/
structure RegisterType where
  category : Category
  cls : Option Descriptor := none
deriving DecidableEq, Inhabited

namespace RegisterType

def unknown : RegisterType := ⟨.unknown, none⟩
def uninit : RegisterType := ⟨.uninit, none⟩
def null : RegisterType := ⟨.null, none⟩
def conflict : RegisterType := ⟨.conflict, none⟩

def ofCategory (c : Category) : RegisterType := ⟨c, none⟩

def reference (d : Descriptor) : RegisterType := ⟨.reference, some d⟩

def text (t : RegisterType) : String :=
  match t.cls with
  | some d => t.category.name ++ "," ++ d
  | none => t.category.name

/-- Reads what `text` writes: a category, and a class after the first comma. -/
def ofText? (s : String) : Option RegisterType := do
  let cs := s.toList
  let category ← Category.ofName? (String.ofList (cs.takeWhile (· ≠ ',')))
  match cs.dropWhile (· ≠ ',') with
  | [] => return ⟨category, none⟩
  | _ :: cls => return ⟨category, some (String.ofList cls)⟩

/-- Type of a value of a descriptor; a wide type gives its lower half. -/
def ofDescriptor (d : Descriptor) : RegisterType :=
  if d == "Z" then ofCategory .boolean
  else if d == "B" then ofCategory .byte
  else if d == "S" then ofCategory .short
  else if d == "C" then ofCategory .char
  else if d == "I" then ofCategory .integer
  else if d == "F" then ofCategory .float
  else if d == "J" then ofCategory .longLo
  else if d == "D" then ofCategory .doubleLo
  else if d == "V" then unknown
  else reference d

def ofLiteral (v : Int) : RegisterType :=
  ofCategory (Category.ofLiteral v)

/-- The upper half that goes with a lower half. -/
def wideHigh? (t : RegisterType) : Option RegisterType :=
  t.category.wideHigh?.map ofCategory

end RegisterType

end SymbolicDex
