import SymbolicDex.Instruction.Basic

/- Turning pool indices into symbolic references. -/
namespace SymbolicDex

/-- Answers, or fails, on an index into each pool. -/
structure Resolver where
  string : Nat → Checked String
  type : Nat → Checked Descriptor
  field : Nat → Checked FieldRef
  method : Nat → Checked MethodRef
  prototype : Nat → Checked Prototype
  callSite : Nat → Checked String
  methodHandle : Nat → Checked String

namespace Resolver

/-- The reference of a kind behind an index; nothing for an opcode that names
    no pool item. -/
def resolve (r : Resolver) (kind : OperandKind) (index : Nat) : Checked (Option Reference) :=
  match kind with
  | .none => .ok none
  | .string => (r.string index).map fun s => some (.string s)
  | .type => (r.type index).map fun t => some (.type t)
  | .field => (r.field index).map fun f => some (.field f)
  | .method => (r.method index).map fun m => some (.method m)
  | .prototype => (r.prototype index).map fun p => some (.prototype p)
  | .callSite => (r.callSite index).map fun c => some (.callSite c)
  | .methodHandle => (r.methodHandle index).map fun h => some (.methodHandle h)

/-- Names every index by itself, for decoding without pools. -/
def placeholders : Resolver where
  string i := .ok ("string@" ++ i.repr)
  type i := .ok ("Ltype@" ++ i.repr ++ ";")
  field i := .ok ⟨"Lclass@" ++ i.repr ++ ";", "field@" ++ i.repr, Descriptor.object⟩
  method i := .ok ⟨"Lclass@" ++ i.repr ++ ";", "method@" ++ i.repr, ⟨[], "V"⟩⟩
  prototype _ := .ok ⟨[], "V"⟩
  callSite i := .ok ("callsite@" ++ i.repr)
  methodHandle i := .ok ("handle@" ++ i.repr)

end Resolver

/-- The index tables of a file. -/
structure Pools where
  strings : List String := []
  types : List Descriptor := []
  fields : List FieldRef := []
  methods : List MethodRef := []
  prototypes : List Prototype := []

namespace Pools

def item {α : Type} (kind : String) (pool : List α) (index : Nat) : Checked α :=
  match pool[index]? with
  | some a => .ok a
  | none => Checked.fail (.poolIndex kind index pool.length)

/-- Call sites and method handles have no table and keep their index. -/
def resolver (p : Pools) : Resolver where
  string := item "string" p.strings
  type := item "type" p.types
  field := item "field" p.fields
  method := item "method" p.methods
  prototype := item "proto" p.prototypes
  callSite i := .ok ("callsite@" ++ i.repr)
  methodHandle i := .ok ("handle@" ++ i.repr)

end Pools

end SymbolicDex
