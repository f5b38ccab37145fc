import SymbolicDex.Hierarchy.Ancestry
import SymbolicDex.RegisterType.Basic

/- Register types where control-flow paths meet. -/
namespace SymbolicDex.RegisterType

/-- Class of a reference that two values join to. Null takes the class of the
    other side; a reference without a class leaves none. -/
def mergeClass (p : ClassPath) (a b : RegisterType) : Query (Option Descriptor) :=
  match a.cls, b.cls with
  | some c, some d => do return some (← p.commonSuperclass c d)
  | some c, none => return if b.category = .null then some c else none
  | none, some d => return if a.category = .null then some d else none
  | none, none => return none

/-- Least upper bound. Classes of references merge to their common supertype;
    uninitialized references merge only with themselves. -/
def merge (p : ClassPath) (a b : RegisterType) : Query RegisterType :=
  if a = b ∨ b.category = .unknown then return a
  else if a.category = .unknown then return b
  else
    match a.category.join b.category with
    | .reference => do return ⟨.reference, ← mergeClass p a b⟩
    | .uninitRef | .uninitThis => return conflict
    | c => return ofCategory c

/-- Merges register by register; what is unknown leaves the other side alone. -/
def mergeAll (p : ClassPath) : List RegisterType → List RegisterType → Query (List RegisterType)
  | a :: as, b :: bs => do
    let c ← if b.category = .unknown then pure a else merge p a b
    let cs ← mergeAll p as bs
    return c :: cs
  | as, _ => return as

end SymbolicDex.RegisterType
