import SymbolicDex.Hierarchy.Layout.Basic
import SymbolicDex.RuntimeVersion

/- Field offsets of the ART runtime: references first, then fields of 8, 4, 2
   and 1 bytes in passes. Bytes skipped for alignment are kept as gaps and
   given to later fields that fit. -/
namespace SymbolicDex.ArtLayout

/-- Size of a field in bytes, by the first letter of its type. -/
def fieldSize (d : Descriptor) : Nat :=
  match d.toList.head? with
  | some 'J' | some 'D' => 8
  | some 'L' | some '[' | some 'I' | some 'F' => 4
  | some 'S' | some 'C' => 2
  | _ => 1

/-- Rank of the primitive types; everything else comes first. -/
def primitiveRank (d : Descriptor) : Nat :=
  if d == "Z" then 1 else if d == "B" then 2 else if d == "C" then 3
  else if d == "S" then 4 else if d == "I" then 5 else if d == "J" then 6
  else if d == "F" then 7 else if d == "D" then 8 else 0

/-- References, wide fields, the rest. -/
def legacyGroup (d : Descriptor) : Nat :=
  if d.isReference then 0 else if d.isWide then 1 else 2

def compareLegacy (a b : FieldDef) : Ordering :=
  (compare (legacyGroup a.type) (legacyGroup b.type)).then (a.compare b)

/-- References first; then larger fields, then by rank of the type. -/
def compareCurrent (a b : FieldDef) : Ordering :=
  match a.type.isReference, b.type.isReference with
  | true, true => a.compare b
  | true, false => .lt
  | false, true => .gt
  | false, false =>
    ((compare (fieldSize b.type) (fieldSize a.type)).then
      (compare (primitiveRank a.type) (primitiveRank b.type))).then (a.compare b)

def order : ArtLayout → FieldDef → FieldDef → Ordering
  | .legacy => compareLegacy
  | .current => compareCurrent

/-- Unused bytes, `size` of them from `offset` on. -/
structure Gap where
  offset : Nat
  size : Nat
deriving DecidableEq

/-- Which of two gaps is offered first. -/
def Gap.before (v : ArtLayout) (a b : Gap) : Bool :=
  match v with
  | .current => b.size < a.size || (a.size == b.size && a.offset < b.offset)
  | .legacy => a.size < b.size || (a.size == b.size && b.offset < a.offset)

/-- The gap offered first. -/
def firstGap? (v : ArtLayout) : List Gap → Option Gap
  | [] => none
  | g :: gs =>
    match firstGap? v gs with
    | none => some g
    | some h => if h.before v g then some h else some g

/-- Splits `count` bytes from `offset` on into aligned gaps of 4, 2 and 1
    bytes; `count` steps are enough. -/
def split : Nat → Nat → Nat → List Gap
  | 0, _, _ => []
  | steps + 1, offset, count =>
    if count = 0 then []
    else
      let size := if 4 ≤ count ∧ offset % 4 = 0 then 4
        else if 2 ≤ count ∧ offset % 2 = 0 then 2 else 1
      ⟨offset, size⟩ :: split steps (offset + size) (count - size)

/-- Gaps of the bytes from `start` to before `stop`. -/
def gapsBetween (start stop : Nat) : List Gap :=
  split (stop - start) start (stop - start)

/-- Layout under construction: the offset behind everything placed, and the
    gaps below it. -/
structure State where
  offset : Nat
  gaps : List Gap
  layout : FieldLayout

namespace State

/-- Brings the offset to a multiple of `n`. -/
def align (s : State) (n : Nat) : State :=
  let aligned := (s.offset + n - 1) / n * n
  { s with offset := aligned, gaps := s.gaps ++ gapsBetween s.offset aligned }

/-- Places a field at the offset, `size` bytes. -/
def append (s : State) (f : FieldRef) (size : Nat) : State :=
  { s with offset := s.offset + size, layout := s.layout.insert s.offset f }

/-- Places a field at the start of a gap and keeps what is left of the gap. -/
def fill (s : State) (g : Gap) (f : FieldRef) (size : Nat) : State :=
  { s with
    gaps := s.gaps.erase g ++ gapsBetween (g.offset + size) (g.offset + g.size)
    layout := s.layout.insert g.offset f }

/-- Places a field in the first gap if it fits there, else at the offset. -/
def place (s : State) (v : ArtLayout) (f : FieldRef) : State :=
  let size := fieldSize f.type
  match firstGap? v s.gaps with
  | some g => if size ≤ g.size then s.fill g f size else s.append f size
  | none => s.append f size

end State

/-- Places the references at the front of the list. -/
def placeReferences (owner : Descriptor) : State → List FieldDef → State × List FieldDef
  | s, [] => (s, [])
  | s, f :: fs =>
    if f.type.isReference then placeReferences owner ((s.align 4).append (f.ref owner) 4) fs
    else (s, f :: fs)

/-- Places fields from the front of the list while they have at least `n`
    bytes. -/
def placePass (v : ArtLayout) (owner : Descriptor) (n : Nat) :
    State → List FieldDef → State × List FieldDef
  | s, [] => (s, [])
  | s, f :: fs =>
    if fieldSize f.type < n then (s, f :: fs)
    else placePass v owner n ((s.align n).place v (f.ref owner)) fs

/-- Fields start after those of the superclass, at 0 without any. -/
def layout (v : ArtLayout) (owner : Descriptor) (inherited : FieldLayout)
    (own : List FieldDef) : FieldLayout :=
  let fields := own.mergeSort fun a b => (order v a b).isLE
  let start : State := ⟨(inherited.lastEnd? fieldSize).getD 0, [], inherited⟩
  let (s, fields) := placeReferences owner start fields
  let (s, fields) := placePass v owner 8 s fields
  let (s, fields) := placePass v owner 4 s fields
  let (s, fields) := placePass v owner 2 s fields
  let (s, _) := placePass v owner 1 s fields
  { s.layout with size := s.offset }

end SymbolicDex.ArtLayout
