import SymbolicDex.ClassDef

/- Byte offsets of instance fields. -/
namespace SymbolicDex

/-- Fields by ascending offset, inherited ones included, and the size of an
    instance, where a subclass goes on. -/
structure FieldLayout where
  fields : List (Nat × FieldRef)
  size : Nat
deriving DecidableEq

namespace FieldLayout

def empty : FieldLayout := ⟨[], 0⟩

/-- Puts a field at its place in an ascending list, over one at the same
    offset. -/
def insertAt (offset : Nat) (f : FieldRef) : List (Nat × FieldRef) → List (Nat × FieldRef)
  | [] => [(offset, f)]
  | e :: es =>
    if offset < e.1 then (offset, f) :: e :: es
    else if offset = e.1 then (offset, f) :: es
    else e :: insertAt offset f es

def insert (l : FieldLayout) (offset : Nat) (f : FieldRef) : FieldLayout :=
  { l with fields := insertAt offset f l.fields }

def fieldAt? (l : FieldLayout) (offset : Nat) : Option FieldRef :=
  (l.fields.find? (·.1 == offset)).map (·.2)

/-- Offset of the field of a name, the highest one if several have it. -/
def offsetOf? (l : FieldLayout) (name : String) : Option Nat :=
  (l.fields.reverse.find? (·.2.name == name)).map (·.1)

/-- End of the field with the highest offset. -/
def lastEnd? (l : FieldLayout) (fieldSize : Descriptor → Nat) : Option Nat :=
  l.fields.getLast?.map fun e => e.1 + fieldSize e.2.type

end FieldLayout

/-- Fields as a file stores them: by name, then by type. -/
def FieldDef.compare (a b : FieldDef) : Ordering :=
  (Ord.compare a.name b.name).then (Ord.compare a.type b.type)

end SymbolicDex
