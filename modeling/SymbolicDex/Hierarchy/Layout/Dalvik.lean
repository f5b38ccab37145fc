import SymbolicDex.Hierarchy.Layout.Basic

/- Field offsets of the Dalvik runtime. References come first, then the wide
   fields on 8-byte boundaries, then the rest; where the first wide field
   would be off its boundary, one narrow field is pulled in front of it. -/
namespace SymbolicDex.DalvikLayout

inductive FieldKind where
  | reference
  | wide
  | other
deriving DecidableEq

def kindOf (f : FieldDef) : FieldKind :=
  if f.type.isReference then .reference
  else if f.type.isWide then .wide
  else .other

def fieldSize (d : Descriptor) : Nat :=
  if d.isWide then 8 else 4

/-- Replaces, from left to right, every element that satisfies `p` by the next
    one of the supply. -/
def refill {α : Type} (p : α → Bool) : List α → List α → List α
  | [], _ => []
  | x :: xs, supply =>
    if p x then
      match supply with
      | [] => x :: refill p xs []
      | y :: ys => y :: refill p xs ys
    else x :: refill p xs supply

/-- Moves the elements that satisfy `p` to the front: while one that does not
    stands before one that does, the first such is swapped with the last one
    that does. -/
def gather {α : Type} (p : α → Bool) (xs : List α) : List α :=
  let count := (xs.filter p).length
  let front := xs.take count
  let back := (xs.drop count).reverse
  refill (!p ·) front (back.filter p) ++ (refill p back (front.filter (!p ·))).reverse

/-- The last element that satisfies `p`, with `x` put in its place. -/
def exchangeLast {α : Type} (p : α → Bool) (x : α) : List α → Option (α × List α)
  | [] => none
  | y :: ys =>
    match exchangeLast p x ys with
    | some (z, zs) => some (z, y :: zs)
    | none => if p y then some (y, x :: ys) else none

def isKind (k : FieldKind) (f : FieldDef) : Bool := kindOf f == k

/-- The fields after the references. With `odd` set the next offset is not one
    for a wide field: a narrow field goes in front of the wide ones if there is
    one. -/
def afterReferences (odd : Bool) (rest : List FieldDef) : List FieldDef :=
  match rest with
  | [] => []
  | f :: fs =>
    if odd then
      if isKind .wide f then
        match exchangeLast (isKind .other) f fs with
        | some (narrow, fs) => narrow :: gather (isKind .wide) fs
        | none => gather (isKind .wide) rest
      else f :: gather (isKind .wide) fs
    else gather (isKind .wide) rest

/-- The order in which fields get their offsets from `start` on. -/
def ordered (start : Nat) (own : List FieldDef) : List FieldDef :=
  let sorted := own.mergeSort fun a b => (a.compare b).isLE
  let gathered := gather (isKind .reference) sorted
  let count := (sorted.filter (isKind .reference)).length
  let odd := count % 2 ≠ (if start % 8 = 0 then 0 else 1)
  gathered.take count ++ afterReferences odd (gathered.drop count)

/-- Places the fields one after the other. Before the first wide field the
    offset is brought to a multiple of 8. -/
def place (owner : Descriptor) : Bool → Nat → FieldLayout → List FieldDef → FieldLayout
  | _, offset, l, [] => { l with size := offset }
  | seenWide, offset, l, f :: fs =>
    let wide := isKind .wide f
    let offset := if wide && !seenWide && offset % 8 ≠ 0 then offset + 4 else offset
    place owner (seenWide || wide) (offset + fieldSize f.type) (l.insert offset (f.ref owner)) fs

/-- Fields start after those of the superclass; an object header takes 8 bytes. -/
def layout (owner : Descriptor) (inherited : FieldLayout) (own : List FieldDef) : FieldLayout :=
  let start := (inherited.lastEnd? fieldSize).getD 8
  place owner false start inherited (ordered start own)

end SymbolicDex.DalvikLayout
