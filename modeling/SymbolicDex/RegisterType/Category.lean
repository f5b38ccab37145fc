/- Categories of register values and the lattice they form. -/
namespace SymbolicDex

inductive Category where
  /-- Nothing flowed here yet. -/
  | unknown
  /-- Never written on some path. -/
  | uninit
  /-- `this` of a constructor before the superclass constructor ran. -/
  | uninitThis
  /-- A new instance before its constructor ran. -/
  | uninitRef
  | null | one | boolean | byte | posByte | short | posShort | char | integer | float
  | longLo | longHi | doubleLo | doubleHi
  | reference
  /-- Values that have nothing in common met. -/
  | conflict
deriving DecidableEq, Inhabited

namespace Category

def all : List Category := [
  unknown, uninit, uninitThis, uninitRef, null, one, boolean, byte, posByte, short, posShort,
  char, integer, float, longLo, longHi, doubleLo, doubleHi, reference, conflict]

def name : Category → String
  | unknown => "Unknown" | uninit => "Uninit" | uninitThis => "UninitThis"
  | uninitRef => "UninitRef" | null => "Null" | one => "One" | boolean => "Boolean"
  | byte => "Byte" | posByte => "PosByte" | short => "Short" | posShort => "PosShort"
  | char => "Char" | integer => "Integer" | float => "Float" | longLo => "LongLo"
  | longHi => "LongHi" | doubleLo => "DoubleLo" | doubleHi => "DoubleHi"
  | reference => "Reference" | conflict => "Conflict"

def ofName? (name : String) : Option Category :=
  all.find? (·.name == name)

/-- The categories strictly above one, the top left out. Zero is a number and
    the null reference; a bit pattern of a float may pass for an integer. -/
def wider : Category → List Category
  | null => [boolean, posByte, byte, posShort, short, char, integer, float, reference]
  | one => [boolean, posByte, byte, posShort, short, char, integer, float]
  | boolean => [posByte, byte, posShort, short, char, integer, float]
  | posByte => [byte, posShort, short, char, integer]
  | byte => [short, integer]
  | posShort => [short, char, integer]
  | short => [integer]
  | char => [integer]
  | float => [integer]
  | doubleLo => [longLo]
  | doubleHi => [longHi]
  | _ => []

/-- `a` is at or below `b`: unknown is below everything and conflict above. -/
def narrowerOrEqual (a b : Category) : Bool :=
  a == b || a == unknown || b == conflict || a.wider.contains b

/-- Least upper bound: of two comparable categories the upper one, otherwise
    the one whose upper bounds are the common upper bounds. -/
def join (a b : Category) : Category :=
  if a.narrowerOrEqual b then b
  else if b.narrowerOrEqual a then a
  else
    (all.find? fun c => all.all fun d =>
      c.narrowerOrEqual d == (a.narrowerOrEqual d && b.narrowerOrEqual d)).getD conflict

def isWideLow (c : Category) : Bool := c == longLo || c == doubleLo

def isWideHigh (c : Category) : Bool := c == longHi || c == doubleHi

/-- The upper half that goes with a lower half. -/
def wideHigh? : Category → Option Category
  | longLo => some longHi
  | doubleLo => some doubleHi
  | _ => none

/-- May be used as a truth value. -/
def isBooleanLike : Category → Bool
  | null | one | boolean => true
  | _ => false

def isReferenceLike : Category → Bool
  | null | reference | uninitRef | uninitThis => true
  | _ => false

/-- The narrowest category that holds an integer. -/
def ofLiteral (v : Int) : Category :=
  if v < -32768 then integer
  else if v < -128 then short
  else if v < 0 then byte
  else if v = 0 then null
  else if v = 1 then one
  else if v < 128 then posByte
  else if v < 32768 then posShort
  else if v < 65536 then char
  else integer

/-- Category of a value of `source` shifted right by a literal, logically when
    `logical`. A literal of zero leaves the value alone; otherwise its low five
    bits count. -/
def shiftedRight (source : Category) (literal : Int) (logical : Bool) : Category :=
  if literal = 0 then source
  else
    let shift := (literal % 32).toNat
    let narrowed : Option Category := match source with
      | integer | float =>
        if logical then
          if 24 < shift then some posByte else if 16 ≤ shift then some char else none
        else
          if 24 ≤ shift then some byte else if 16 ≤ shift then some short else none
      | short => if !logical && 8 ≤ shift then some byte else none
      | posShort => if 8 ≤ shift then some posByte else none
      | char => if 8 < shift then some posByte else none
      | posByte => some posByte
      | null | one | boolean => some null
      | _ => none
    narrowed.getD (if logical then integer else source)

end Category

end SymbolicDex
