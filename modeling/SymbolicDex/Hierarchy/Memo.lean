import SymbolicDex.Hierarchy.InterfaceMap
import SymbolicDex.Hierarchy.Layout.Basic
import SymbolicDex.Hierarchy.Vtable

/- Tables of classes are computed once and remembered. While a table is being
   computed its class is marked busy: a class that meets itself through a
   circular declaration gets an empty incomplete table for the moment, which
   is not remembered. The marks are part of the state, so that a later
   question sees whatever an earlier one left behind. -/
namespace SymbolicDex

/-- The three tables of a class. -/
inductive Facet where
  | interfaces
  | layout
  | vtable
deriving DecidableEq

structure Memo where
  interfaces : List (Descriptor × Computed InterfaceMap) := []
  layouts : List (Descriptor × Computed FieldLayout) := []
  vtables : List (Descriptor × Computed Vtable) := []
  busy : List (Facet × Descriptor) := []
deriving DecidableEq

namespace Memo

def empty : Memo := {}

def isBusy (m : Memo) (f : Facet) (d : Descriptor) : Bool :=
  m.busy.contains (f, d)

def enter (m : Memo) (f : Facet) (d : Descriptor) : Memo :=
  { m with busy := (f, d) :: m.busy }

def leave (m : Memo) (f : Facet) (d : Descriptor) : Memo :=
  { m with busy := m.busy.erase (f, d) }

end Memo

/-- A question to a class path, with the memo it reads and extends. -/
abbrev Query := StateM Memo

namespace Query

/-- The remembered answer if there is one, `circular` if the class is being
    computed already, and otherwise the computed answer, remembered. -/
def once {α : Type} (f : Facet) (d : Descriptor) (remembered : Memo → List (Descriptor × α))
    (store : α → Memo → Memo) (circular : α) (compute : Query α) : Query α := do
  let m ← get
  match (remembered m).lookup d with
  | some a => return a
  | none =>
    if m.isBusy f d then return circular
    else
      set (m.enter f d)
      let a ← compute
      modify fun m => store a (m.leave f d)
      return a

end Query

end SymbolicDex
