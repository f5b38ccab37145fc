import SymbolicDex.ClassDef

/- The field and method ids one output file needs. -/
namespace SymbolicDex

/-- Distinct references, ascending. -/
structure IdPool where
  fields : List FieldRef
  methods : List MethodRef
deriving DecidableEq

namespace IdPool

def empty : IdPool := ⟨[], []⟩

/-- Ids a writer may add on its own while it finishes a file. -/
def slack : Nat := 10

/-- Adds what a class declares and uses. -/
def intern (p : IdPool) (c : ClassDef) : IdPool :=
  ⟨sortedDistinct FieldRef.compare (p.fields ++ c.fieldRefs),
    sortedDistinct MethodRef.compare (p.methods ++ c.methodRefs)⟩

def fieldCount (p : IdPool) : Nat := p.fields.length
def methodCount (p : IdPool) : Nat := p.methods.length

/-- Field and method counts once `c` is added, slack included. -/
def projected (p : IdPool) (c : ClassDef) : Nat × Nat :=
  (p.fieldCount + countMissing FieldRef.compare p.fields c.fieldRefs + slack,
    p.methodCount + countMissing MethodRef.compare p.methods c.methodRefs + slack)

end IdPool

end SymbolicDex
