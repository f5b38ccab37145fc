import SymbolicDex.ClassDef

/- The interfaces of a class, in the order they were met. -/
namespace SymbolicDex

/-- A table built from what could be resolved; `complete` when nothing was
    missing. -/
structure Computed (α : Type) where
  value : α
  complete : Bool
deriving DecidableEq

/-- How an interface got into the map of a class. -/
inductive InterfaceEntry where
  /-- Declared by the class or by one of its declared interfaces, and defined. -/
  | direct (definition : ClassDef)
  /-- Reached through the superclass, or the class itself. -/
  | inherited
  /-- Named somewhere but not defined. -/
  | unresolved
deriving DecidableEq

namespace InterfaceEntry

/-- Display name of the way. -/
def name : InterfaceEntry → String
  | direct _ => "Direct"
  | inherited => "Inherited"
  | unresolved => "Unresolved"

/-- The entry as a subclass has it. -/
def throughSuperclass : InterfaceEntry → InterfaceEntry
  | unresolved => unresolved
  | _ => inherited

end InterfaceEntry

/-- Interfaces in order, each once. -/
structure InterfaceMap where
  entries : List (Descriptor × InterfaceEntry)
deriving DecidableEq

namespace InterfaceMap

def empty : InterfaceMap := ⟨[]⟩

def get? (m : InterfaceMap) (d : Descriptor) : Option InterfaceEntry :=
  (m.entries.find? (·.1 == d)).map (·.2)

def contains (m : InterfaceMap) (d : Descriptor) : Bool :=
  (m.get? d).isSome

/-- Adds an entry at the end; the first entry of a descriptor stays. -/
def insert (m : InterfaceMap) (d : Descriptor) (e : InterfaceEntry) : InterfaceMap :=
  if m.contains d then m else ⟨m.entries ++ [(d, e)]⟩

def insertAll (m : InterfaceMap) (entries : List (Descriptor × InterfaceEntry)) :
    InterfaceMap :=
  entries.foldl (fun m e => m.insert e.1 e.2) m

def descriptors (m : InterfaceMap) : List Descriptor := m.entries.map (·.1)

def size (m : InterfaceMap) : Nat := m.entries.length

/-- Every array implements two marker interfaces. -/
def ofArray : InterfaceMap :=
  ⟨[(Descriptor.cloneable, .inherited), (Descriptor.serializable, .inherited)]⟩

/-- Definitions of the direct entries. -/
def directDefinitions (m : InterfaceMap) : List ClassDef :=
  m.entries.filterMap fun e => match e.2 with
    | .direct c => some c
    | _ => none

end InterfaceMap

end SymbolicDex
