import SymbolicDex.Hierarchy.Tables

/- Common supertypes of two reference types. The unknown class is the answer
   when a missing definition leaves it open. -/
namespace SymbolicDex.ClassPath

/-- The interface if the other class implements it, Object if it does not. -/
def commonWithInterface (p : ClassPath) (iface other : Descriptor) : Query Descriptor := do
  match ← p.implements other iface with
  | .ok true => return iface
  | .ok false => return Descriptor.object
  | .error _ => return Descriptor.unknown

/-- The last name that two lists share at the same position. -/
def lastShared : List Descriptor → List Descriptor → Option Descriptor
  | a :: as, b :: bs =>
    match lastShared as bs with
    | some d => some d
    | none => if a = b then some a else none
  | _, _ => none

/-- Both chains are compared from the root down. -/
def commonAncestor (p : ClassPath) (a b : Descriptor) : Descriptor :=
  (lastShared (a :: p.superclassChain a).reverse (b :: p.superclassChain b).reverse).getD
    Descriptor.unknown

/-- Common supertype of two classes that are neither arrays nor unknown. -/
def commonOfClasses (p : ClassPath) (a b : Descriptor) : Query Descriptor :=
  if a = b then return a
  else if a = Descriptor.object ∨ b = Descriptor.object then return Descriptor.object
  else
    match p.isInterface a, p.isInterface b with
    | .ok true, _ => p.commonWithInterface a b
    | _, .ok true => p.commonWithInterface b a
    | .ok false, .ok false => return p.commonAncestor a b
    | _, _ => return Descriptor.unknown

/-- An array shares only Object and the two marker interfaces with a class. -/
def commonOfArrayAndClass (p : ClassPath) (array cls : Descriptor) : Query Descriptor :=
  match p.isInterface cls with
  | .ok true => do
    match ← p.implements array cls with
    | .ok true => return cls
    | _ => return Descriptor.object
  | _ => return Descriptor.object

/-- Dimensions under which an array is an array of objects: an array of
    primitives is an object one dimension down. -/
def objectDimensions (array : Descriptor) : Nat :=
  if array.element.isPrimitive then array.dimensions - 1 else array.dimensions

/-- Arrays of references are covariant; other arrays have only arrays of Object
    above them. -/
def commonOfArrays (p : ClassPath) (a b : Descriptor) : Query Descriptor :=
  if a.dimensions = b.dimensions ∧ a.element.isReference ∧ b.element.isReference then do
    let element ← p.commonOfClasses a.element b.element
    return if element = Descriptor.unknown then Descriptor.unknown
      else Descriptor.arrayOf a.dimensions element
  else
    return Descriptor.arrayOf (min (objectDimensions a) (objectDimensions b)) Descriptor.object

/-- The least common supertype as far as it is known. -/
def commonSuperclass (p : ClassPath) (a b : Descriptor) : Query Descriptor :=
  if a = b then return a
  else if a = Descriptor.unknown ∨ b = Descriptor.unknown then
    return if a = Descriptor.object ∨ b = Descriptor.object then Descriptor.object
      else Descriptor.unknown
  else if a.isArray then
    if b.isArray then p.commonOfArrays a b else p.commonOfArrayAndClass a b
  else if b.isArray then p.commonOfArrayAndClass b a
  else p.commonOfClasses a b

end SymbolicDex.ClassPath
