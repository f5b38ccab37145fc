import SymbolicDex.ClassDef
import SymbolicDex.InlineTable
import SymbolicDex.RuntimeVersion

/- Where class definitions come from. -/
namespace SymbolicDex

/-- A class was needed and no definition of it is known. -/
structure MissingClass where
  descriptor : Descriptor
deriving DecidableEq

namespace MissingClass

def text (m : MissingClass) : String := "Could not resolve class " ++ m.descriptor

end MissingClass

/-- Definitions by descriptor. -/
structure ClassSet where
  classes : List ClassDef
deriving DecidableEq

namespace ClassSet

/-- Of several definitions of a descriptor the first counts. -/
def ofList (classes : List ClassDef) : ClassSet :=
  ⟨ClassDef.firstDefinitions classes⟩

def find? (s : ClassSet) (d : Descriptor) : Option ClassDef :=
  s.classes.find? (·.descriptor == d)

def size (s : ClassSet) : Nat := s.classes.length

end ClassSet

/-- Class sets searched in order, for one runtime. -/
structure ClassPath where
  runtime : RuntimeVersion
  sets : List ClassSet
  inlineTable : InlineTable

/-- What a descriptor stands for on a class path. -/
inductive Shape where
  | unknown
  | array
  | defined (c : ClassDef)
  | missing

namespace ClassPath

/-- A class path with the runtime's own table of inlined methods. -/
def ofSets (runtime : RuntimeVersion) (sets : List ClassSet) : ClassPath :=
  ⟨runtime, sets, InlineTable.ofVersion runtime.inlineVersion⟩

def definition? (p : ClassPath) (d : Descriptor) : Option ClassDef :=
  p.sets.findSome? (·.find? d)

def definition (p : ClassPath) (d : Descriptor) : Except MissingClass ClassDef :=
  match p.definition? d with
  | some c => .ok c
  | none => .error ⟨d⟩

/-- Number of definitions; bounds every walk over distinct classes. -/
def size (p : ClassPath) : Nat := (p.sets.map ClassSet.size).foldr (· + ·) 0

def shape (p : ClassPath) (d : Descriptor) : Shape :=
  if d = Descriptor.unknown then .unknown
  else if d.isArray then .array
  else match p.definition? d with
    | some c => .defined c
    | none => .missing

/-- Arrays and the unknown class count as resolved. -/
def isResolved (p : ClassPath) (d : Descriptor) : Bool :=
  match p.shape d with
  | .missing => false
  | _ => true

def isInterface (p : ClassPath) (d : Descriptor) : Except MissingClass Bool :=
  match p.shape d with
  | .defined c => .ok c.isInterface
  | .missing => .error ⟨d⟩
  | _ => .ok false

def superclass (p : ClassPath) (d : Descriptor) : Except MissingClass (Option Descriptor) :=
  match p.shape d with
  | .defined c => .ok c.superclass
  | .missing => .error ⟨d⟩
  | .array => .ok (some Descriptor.object)
  | .unknown => .ok none

/-- The definition behind a class descriptor; arrays have none. -/
def classDefinition (p : ClassPath) (d : Descriptor) : Except MissingClass ClassDef :=
  match p.shape d with
  | .defined c => .ok c
  | _ => .error ⟨d⟩

/-- An array's elements, one dimension down. -/
def elementType? (p : ClassPath) (d : Descriptor) : Option Descriptor :=
  match p.shape d with
  | .array => some d.component
  | _ => none

/-- The superclasses above `d` that follow on `seen`, at most `count` steps. -/
def chainAfter (p : ClassPath) (self : Descriptor) :
    Nat → List Descriptor → Descriptor → List Descriptor
  | 0, _, _ => []
  | count + 1, seen, d =>
    match p.superclass d with
    | .error _ => [Descriptor.unknown]
    | .ok none => []
    | .ok (some s) =>
      if s = self ∨ s ∈ seen then [Descriptor.unknown]
      else s :: p.chainAfter self count (s :: seen) s

/-- Superclasses from the immediate one to the root. A missing definition or a
    repetition ends the chain with the unknown class. Every name on the chain
    is the superclass of a definition or Object, each at most once. -/
def superclassChain (p : ClassPath) (d : Descriptor) : List Descriptor :=
  p.chainAfter d (p.size + 2) [] d

end ClassPath

end SymbolicDex
