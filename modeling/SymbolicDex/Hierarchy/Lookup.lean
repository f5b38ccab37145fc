import SymbolicDex.AnalysisFailure
import SymbolicDex.Hierarchy.Tables

/- Lookups that turn a field offset or a vtable index back into a symbolic
   reference. A member whose class the accessing code may not name is named
   through the first class above the object that it may. -/
namespace SymbolicDex

/-- Why a lookup has no answer. -/
inductive Stop where
  | failed (failure : AnalysisFailure)
  /-- The walk up a circular chain of classes, none of them accessible, does
      not end. -/
  | endless
deriving DecidableEq

abbrev Lookup := ExceptT Stop Query

namespace Lookup

def fail {α : Type} (fault : AnalysisFault) : Lookup α :=
  throw (.failed (AnalysisFailure.of fault))

/-- A missing class is a failure of the lookup. -/
def known {α : Type} (x : Except MissingClass α) : Lookup α :=
  match x with
  | .ok a => return a
  | .error c => fail (.missingClass c)

def ask {α : Type} (q : Query (Except MissingClass α)) : Lookup α := do
  known (← (q : ExceptT Stop Query _))

end Lookup

namespace ClassPath

/-- The first class from `c` up that `accessor` may name, within `count`
    steps. -/
def firstAccessible (p : ClassPath) (accessor : Descriptor) (member : String) :
    Nat → ClassDef → Except Stop ClassDef
  | 0, _ => .error .endless
  | count + 1, c =>
    if c.accessibleFrom accessor then .ok c
    else
      match c.superclass with
      | none => .error (.failed (AnalysisFailure.of (.inaccessible member)))
      | some s =>
        match p.definition s with
        | .error e => .error (.failed (AnalysisFailure.ofMissing e))
        | .ok c => p.firstAccessible accessor member count c

/-- A walk over more classes than there are definitions has met one twice. -/
def accessibleFrom (p : ClassPath) (accessor : Descriptor) (member : String)
    (start : Descriptor) : Lookup ClassDef := do
  let c ← Lookup.known (p.definition start)
  match p.firstAccessible accessor member (p.size + 1) c with
  | .ok c => return c
  | .error e => throw e

/-- The field at an offset of instances of `object`, as `accessor` names it. -/
def resolveField (p : ClassPath) (accessor object : Descriptor) (offset : Nat) :
    Lookup FieldRef := do
  match ← Lookup.ask (p.fieldAt object offset) with
  | none => Lookup.fail (.noFieldAt object offset)
  | some field =>
    let owner ← Lookup.known (p.definition field.owner)
    if owner.accessibleFrom accessor then return field
    else
      let c ← p.accessibleFrom accessor field.text object
      match ← Lookup.ask (p.fieldAt c.descriptor offset) with
      | some visible => return ⟨c.descriptor, visible.name, visible.type⟩
      | none => Lookup.fail (.inaccessibleField field)

/-- The method in a vtable slot of `object`, as `accessor` names it. A super
    call may always name its superclass, and an array has Object's methods. -/
def resolveMethod (p : ClassPath) (accessor object : Descriptor) (index : Nat)
    (isSuper : Bool) : Lookup MethodRef := do
  match ← Lookup.ask (p.methodAt object index) with
  | none => Lookup.fail (.noMethodAt object index)
  | some entry =>
    let method := entry.method
    if isSuper || object.isArray then return method
    else
      let owner ← Lookup.known (p.definition method.owner)
      if owner.accessibleFrom accessor then return method
      else
        let c ← p.accessibleFrom accessor method.text object
        match ← Lookup.ask (p.methodAt c.descriptor index) with
        | some visible => return visible.method.withOwner c.descriptor
        | none => Lookup.fail (.inaccessibleMethod method)

end ClassPath

end SymbolicDex
