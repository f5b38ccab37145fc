/- Records: the trees of named values in which class definitions are kept. -/
namespace SymbolicDex

inductive Record where
  | null
  | int (value : Int)
  | text (value : String)
  | list (items : List Record)
  /-- Named values; the order of the names means nothing. -/
  | object (fields : List (String × Record))

namespace Record

def nat (n : Nat) : Record := int n

/-- An absent value is null. -/
def option {α : Type} (f : α → Record) : Option α → Record
  | none => null
  | some a => f a

def listOf {α : Type} (f : α → Record) (as : List α) : Record :=
  list (as.map f)

/-- A value under the name of its kind. -/
def tagged (kind : String) (value : Record) : Record :=
  object [(kind, value)]

/-! Reading back. -/

def int? : Record → Option Int
  | int v => some v
  | _ => none

def nat? : Record → Option Nat
  | int (.ofNat n) => some n
  | _ => none

def text? : Record → Option String
  | text s => some s
  | _ => none

def option? {α : Type} (f : Record → Option α) : Record → Option (Option α)
  | null => some none
  | r => (f r).map some

def listOf? {α : Type} (f : Record → Option α) : Record → Option (List α)
  | list items => items.mapM f
  | _ => none

def field? (name : String) : Record → Option Record
  | object fields => (fields.find? (·.1 == name)).map (·.2)
  | _ => none

/-- Reads the value of a name. -/
def get? {α : Type} (r : Record) (name : String) (f : Record → Option α) : Option α :=
  (r.field? name).bind f

/-- The kind and the value of a tagged value. -/
def tagged? : Record → Option (String × Record)
  | object [(kind, value)] => some (kind, value)
  | _ => none

end Record

end SymbolicDex
