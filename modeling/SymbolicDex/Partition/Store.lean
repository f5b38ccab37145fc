import SymbolicDex.Partition.Shard

/- Where serialized shards go: a store of named files, and writing a class
   list into it shard by shard. -/
namespace SymbolicDex

/-- Files by name, ascending, each name once. -/
structure FileStore where
  files : List (String × List UInt8)
deriving DecidableEq

namespace FileStore

def empty : FileStore := ⟨[]⟩

def get? (s : FileStore) (name : String) : Option (List UInt8) :=
  (s.files.find? (·.1 == name)).map (·.2)

/-- Puts a file into its place in an ascending list, in place of one of the
    same name. -/
def insertFile (name : String) (bytes : List UInt8) :
    List (String × List UInt8) → List (String × List UInt8)
  | [] => [(name, bytes)]
  | f :: fs =>
    match compare name f.1 with
    | .lt => (name, bytes) :: f :: fs
    | .eq => (name, bytes) :: fs
    | .gt => f :: insertFile name bytes fs

/-- Opening a file empties it, so writing leaves only what is written now. -/
def write (s : FileStore) (name : String) (bytes : List UInt8) : FileStore :=
  ⟨insertFile name bytes s.files⟩

def size (s : FileStore) : Nat := s.files.length

end FileStore

/-- What a writer left in the file of a shard, and why it stopped if it did. -/
structure Written where
  bytes : List UInt8
  failure : Option Failure := none

/-- Serializes one shard. A writer may remember, in `σ`, what it met in the
    shards before. -/
abbrev ShardWriter (σ : Type) := Shard → StateM σ Written

namespace Partitioner

/-- Writes the shards in order and stops at the first failure. The file of a
    failed shard keeps what its writer left there. -/
def writeShards {σ : Type} (writer : ShardWriter σ) : List Shard → FileStore →
    StateM σ (Checked (List String) × FileStore)
  | [], store => return (.ok [], store)
  | s :: ss, store => do
    let written ← writer s
    let store := store.write s.name written.bytes
    match written.failure with
    | some e => return (.error (e.within ("writing " ++ s.name)), store)
    | none =>
      let (names, store) ← writeShards writer ss store
      return (names.map (s.name :: ·), store)

/-- File names in shard order. A class list that cannot be partitioned leaves
    the store alone. -/
def writeWith {σ : Type} (p : Partitioner) (writer : ShardWriter σ) (classes : List ClassDef)
    (store : FileStore) : StateM σ (Checked (List String) × FileStore) :=
  match p.partition classes with
  | .error e => return (.error e, store)
  | .ok shards => writeShards writer shards store

/-- Writing with a writer that remembers nothing. -/
def write (p : Partitioner) (writer : Shard → Written) (classes : List ClassDef)
    (store : FileStore) : Checked (List String) × FileStore :=
  let plain : ShardWriter Unit := fun s => return writer s
  ((p.writeWith plain classes store).run ()).1

end Partitioner

end SymbolicDex
