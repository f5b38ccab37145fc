import SymbolicDex.Partition.IdPool

/- Splitting a class list over several files so that none needs more field or
   method ids than it can index. Classes are taken in descriptor order, and a
   new file starts when the next class does not fit into the current one. -/
namespace SymbolicDex

/-- Name of file number `index`: the first has the base name, later ones the
    position counted from one in front of the last dot. -/
def shardName (base : String) (index : Nat) : String :=
  if index = 0 then base
  else
    let number := (index + 1).repr
    match base.toList.reverse.dropWhile (· ≠ '.') with
    | [] => base ++ number
    | dot :: before =>
      let suffix := (base.toList.reverse.takeWhile (· ≠ '.')).reverse
      String.ofList before.reverse ++ number ++ String.ofList (dot :: suffix)

/-- Classes for one output file and the ids they need. -/
structure Shard where
  index : Nat
  name : String
  classes : List ClassDef
  pool : IdPool
deriving DecidableEq

namespace Shard

def add (s : Shard) (c : ClassDef) : Shard :=
  { s with classes := s.classes ++ [c], pool := s.pool.intern c }

end Shard

/-- How many ids a file can index, and the name of the first file. -/
structure Partitioner where
  limit : Nat := 65536
  base : String := "classes.dex"
deriving DecidableEq

namespace Partitioner

def newShard (p : Partitioner) (index : Nat) : Shard :=
  ⟨index, shardName p.base index, [], IdPool.empty⟩

def fits (p : Partitioner) (s : Shard) (c : ClassDef) : Bool :=
  let (fields, methods) := s.pool.projected c
  fields ≤ p.limit && methods ≤ p.limit

/-- The failure for a class that not even an empty file holds. -/
def tooLarge (p : Partitioner) (s : Shard) (c : ClassDef) : Failure :=
  let (fields, methods) := s.pool.projected c
  (Failure.of (.classTooLarge c.descriptor fields methods)).within ("limit " ++ p.limit.repr)

/-- Adds the classes to `current` and the shards after it. -/
def fill (p : Partitioner) (current : Shard) : List ClassDef → Checked (List Shard)
  | [] => .ok (if current.classes.isEmpty then [] else [current])
  | c :: cs =>
    if p.fits current c then p.fill (current.add c) cs
    else if current.classes.isEmpty then .error (p.tooLarge current c)
    else
      let next := p.newShard (current.index + 1)
      if p.fits next c then do
        let shards ← p.fill (next.add c) cs
        return current :: shards
      else .error (p.tooLarge next c)

/-- Classes by descriptor, equal descriptors in input order. -/
def inOrder (classes : List ClassDef) : List ClassDef :=
  ClassDef.firstDefinitions
    (classes.mergeSort fun a b => (compare a.descriptor b.descriptor).isLE)

def partition (p : Partitioner) (classes : List ClassDef) : Checked (List Shard) :=
  p.fill (p.newShard 0) (inOrder classes)

end Partitioner

end SymbolicDex
