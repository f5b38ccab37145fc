import SymbolicDex.Prototype

/- Symbolic references to the members of a class, `Lc;->f:I` and
   `Lc;->m(I)V`, and the order in which a file lists them. -/
namespace SymbolicDex

structure FieldRef where
  owner : Descriptor
  name : String
  type : Descriptor
deriving DecidableEq, Inhabited

namespace FieldRef

def text (f : FieldRef) : String :=
  f.owner ++ "->" ++ f.name ++ ":" ++ f.type

/-- By class, then name, then type. -/
def compare (a b : FieldRef) : Ordering :=
  ((Ord.compare a.owner b.owner).then (Ord.compare a.name b.name)).then
    (Ord.compare a.type b.type)

end FieldRef

structure MethodRef where
  owner : Descriptor
  name : String
  prototype : Prototype
deriving DecidableEq, Inhabited

namespace MethodRef

def text (m : MethodRef) : String :=
  m.owner ++ "->" ++ m.name ++ m.prototype.text

/-- Same name, parameter types and result type. -/
def sameSignature (a b : MethodRef) : Bool :=
  a.name == b.name && a.prototype == b.prototype

/-- The same signature named through another class. -/
def withOwner (m : MethodRef) (owner : Descriptor) : MethodRef :=
  { m with owner := owner }

/-- By class, then name, then prototype. -/
def compare (a b : MethodRef) : Ordering :=
  ((Ord.compare a.owner b.owner).then (Ord.compare a.name b.name)).then
    (a.prototype.compare b.prototype)

end MethodRef

/-- Drops every element equal to the one before it. -/
def dropRepeats {α : Type} [DecidableEq α] : List α → List α
  | [] => []
  | [a] => [a]
  | a :: b :: rest => if a = b then dropRepeats (b :: rest) else a :: dropRepeats (b :: rest)

/-- The distinct elements in ascending order. -/
def sortedDistinct {α : Type} [DecidableEq α] (order : α → α → Ordering) (as : List α) : List α :=
  dropRepeats (as.mergeSort fun a b => (order a b).isLE)

/-- How many elements of the second list the first one lacks, both without
    repetitions and in ascending order: what comes before an element need not be
    looked at again for the next. -/
def countMissing {α : Type} [DecidableEq α] (order : α → α → Ordering) : List α → List α → Nat
  | _, [] => 0
  | known, b :: bs =>
    let known := known.dropWhile fun a => order a b = .lt
    countMissing order known bs + if known.head? = some b then 0 else 1

end SymbolicDex
