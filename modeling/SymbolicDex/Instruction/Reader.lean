import SymbolicDex.Instruction.Decoder

/- A stream of instructions with one item of lookahead. -/
namespace SymbolicDex

/-- `units` is what is left of the stream and `address` its first address;
    after a malformed instruction nothing is left. -/
structure Reader where
  table : OpcodeTable
  resolver : Resolver
  address : Nat
  units : List UInt16
  ahead : Option Instruction.Item

namespace Reader

def ofUnits (table : OpcodeTable) (resolver : Resolver) (units : List UInt16) : Reader :=
  ⟨table, resolver, 0, units, none⟩

/-- Takes one item off the stream. -/
def advance (r : Reader) : Option Instruction.Item × Reader :=
  match r.units with
  | [] => (none, r)
  | u :: us =>
    match Instruction.itemAt r.table r.resolver r.address (u :: us) with
    | .error e => (some (.error e), { r with units := [] })
    | .ok (a, i) =>
      (some (.ok (a, i)),
        { r with address := r.address + i.codeUnits, units := (u :: us).drop i.codeUnits })

/-- The item that `next` will give, kept until then. -/
def peek (r : Reader) : Option Instruction.Item × Reader :=
  match r.ahead with
  | some item => (some item, r)
  | none =>
    let (item, r) := r.advance
    (item, { r with ahead := item })

def next (r : Reader) : Option Instruction.Item × Reader :=
  match r.ahead with
  | some item => (some item, { r with ahead := none })
  | none => r.advance

end Reader

end SymbolicDex
