import SymbolicDex.Hierarchy.ClassPath
import SymbolicDex.Hierarchy.Layout.Art
import SymbolicDex.Hierarchy.Layout.Dalvik
import SymbolicDex.Hierarchy.Memo

/- The tables of a class: its interfaces, the offsets of its fields and its
   virtual methods. Each level of recursion marks one more defined class busy,
   so the number of definitions bounds the depth. -/
namespace SymbolicDex.ClassPath

/-! Interfaces. -/

/-- Adds a declared interface and what it brings with it. -/
def addInterface (p : ClassPath) (interfacesOf : Descriptor → Query (Computed InterfaceMap))
    (acc : Computed InterfaceMap) (d : Descriptor) : Query (Computed InterfaceMap) := do
  if acc.value.contains d then return acc
  else
    let entry := match p.definition? d with
      | some c => InterfaceEntry.direct c
      | none => InterfaceEntry.unresolved
    let sub ← interfacesOf d
    return ⟨(acc.value.insert d entry).insertAll sub.value.entries,
      acc.complete && entry ≠ .unresolved && sub.complete⟩

/-- Adds what the superclass implements. -/
def addInherited (p : ClassPath) (interfacesOf : Descriptor → Query (Computed InterfaceMap))
    (acc : Computed InterfaceMap) (superclass : Descriptor) :
    Query (Computed InterfaceMap) := do
  let inherited ← interfacesOf superclass
  return ⟨acc.value.insertAll
      (inherited.value.entries.map fun e => (e.1, e.2.throughSuperclass)),
    acc.complete && p.isResolved superclass && inherited.complete⟩

/-- Declared interfaces in order, then the class itself if it is one, then the
    superclass. -/
def collectInterfaces (p : ClassPath)
    (interfacesOf : Descriptor → Query (Computed InterfaceMap)) (c : ClassDef) :
    Query (Computed InterfaceMap) := do
  let acc ← c.interfaces.foldlM (p.addInterface interfacesOf) ⟨InterfaceMap.empty, true⟩
  let acc := if c.isInterface then ⟨acc.value.insert c.descriptor .inherited, acc.complete⟩
    else acc
  match c.superclass with
  | some s => p.addInherited interfacesOf acc s
  | none => return acc

/-- The interfaces of a descriptor, to a depth of `depth` definitions. -/
def interfacesWithin (p : ClassPath) : Nat → Descriptor → Query (Computed InterfaceMap)
  | 0, _ => return ⟨InterfaceMap.empty, false⟩
  | depth + 1, d =>
    match p.shape d with
    | .unknown => return ⟨InterfaceMap.empty, true⟩
    | .array => return ⟨InterfaceMap.ofArray, true⟩
    | .missing => return ⟨InterfaceMap.empty, false⟩
    | .defined c =>
      Query.once .interfaces d (·.interfaces)
        (fun a m => { m with interfaces := (d, a) :: m.interfaces })
        ⟨InterfaceMap.empty, false⟩
        (p.collectInterfaces (p.interfacesWithin depth) c)

/-- All interfaces of a class, whoever in its hierarchy names them. -/
def interfaces (p : ClassPath) (d : Descriptor) : Query (Computed InterfaceMap) :=
  p.interfacesWithin (p.size + 2) d

/-- Definitions of the interfaces that the class or its declared interfaces
    declare; not those reached only through the superclass. -/
def directInterfaces (p : ClassPath) (d : Descriptor) : Query (List ClassDef) := do
  let m ← p.interfaces d
  return m.value.directDefinitions

/-- Whether the class implements an interface. There is no answer when the
    interface is named but not defined, or absent from an incomplete map. -/
def implements (p : ClassPath) (d iface : Descriptor) : Query (Except MissingClass Bool) := do
  let m ← p.interfaces d
  match m.value.get? iface with
  | some .unresolved => return .error ⟨iface⟩
  | some _ => return .ok true
  | none => return if m.complete then .ok false else .error ⟨iface⟩

/-! Field layouts. -/

/-- Where a descriptor has no class of its own, Object's tables stand in. -/
def tableOwner (p : ClassPath) (d : Descriptor) : Descriptor :=
  match p.shape d with
  | .array | .unknown => Descriptor.object
  | _ => d

/-- The layout of a class over that of its superclass. -/
def layoutOver (p : ClassPath) (inherited : FieldLayout) (c : ClassDef) : FieldLayout :=
  match p.runtime.layoutStrategy with
  | .dalvik => DalvikLayout.layout c.descriptor inherited c.instanceFields
  | .art generation => ArtLayout.layout generation c.descriptor inherited c.instanceFields

/-- A missing superclass counts as one without fields. -/
def computeLayout (p : ClassPath)
    (layoutOf : Descriptor → Query (Except MissingClass (Computed FieldLayout)))
    (c : ClassDef) : Query (Computed FieldLayout) :=
  match c.superclass with
  | none => return ⟨p.layoutOver FieldLayout.empty c, true⟩
  | some s => do
    match ← layoutOf s with
    | .ok inherited => return ⟨p.layoutOver inherited.value c, inherited.complete⟩
    | .error _ => return ⟨p.layoutOver FieldLayout.empty c, false⟩

def layoutWithin (p : ClassPath) :
    Nat → Descriptor → Query (Except MissingClass (Computed FieldLayout))
  | 0, _ => return .ok ⟨FieldLayout.empty, false⟩
  | depth + 1, d =>
    let d := p.tableOwner d
    match p.classDefinition d with
    | .error e => return .error e
    | .ok c => do
      let layout ← Query.once .layout d (·.layouts)
        (fun a m => { m with layouts := (d, a) :: m.layouts })
        ⟨FieldLayout.empty, false⟩
        (p.computeLayout (p.layoutWithin depth) c)
      return .ok layout

/-- Offsets of the instance fields of a class, inherited ones included. -/
def layout (p : ClassPath) (d : Descriptor) :
    Query (Except MissingClass (Computed FieldLayout)) :=
  p.layoutWithin (p.size + 2) d

def fieldAt (p : ClassPath) (d : Descriptor) (offset : Nat) :
    Query (Except MissingClass (Option FieldRef)) := do
  let layout ← p.layout d
  return layout.map fun l => l.value.fieldAt? offset

/-! Virtual methods. -/

/-- Puts a default method of an interface into a table whose first `inherited`
    slots come from the superclass. A slot is taken over only if it is abstract
    or holds the default of an interface that is no extension of this one; a
    copy of a taken inherited slot is added at the end. -/
def addDefault (p : ClassPath) (owner : Descriptor) (inherited : Nat) (t : Vtable)
    (e : VtableEntry) : Query Vtable :=
  match Vtable.slot? p.runtime.checksPackagePrivate owner t e with
  | none => return t ++ [e]
  | some i =>
    match t[i]? with
    | none => return t
    | some old => do
      let takeOver : Vtable := if i < inherited then t.set i e ++ [e] else t.set i e
      if old.origin = e.origin then return t
      else if p.isInterface old.origin matches .ok true then
        match ← p.implements old.origin e.origin with
        | .ok false => return takeOver
        | _ => return t
      else if old.isAbstract then return takeOver
      else return t

/-- The table after the default methods of the interfaces. -/
def withDefaults (p : ClassPath) (owner : Descriptor) (ifaces : List ClassDef)
    (inherited : Nat) (t : Vtable) : Query Vtable :=
  (ifaces.flatMap (Vtable.interfaceEntries owner (!·.access.isAbstract))).foldlM
    (p.addDefault owner inherited) t

/-- The table of a class over that of its superclass. An interface adds no
    slots. -/
def vtableOver (p : ClassPath) (inherited : Vtable) (c : ClassDef) : Query (Computed Vtable) := do
  if c.isInterface then return ⟨inherited, true⟩
  else
    let checked := p.runtime.checksPackagePrivate
    let own := Vtable.withOwn checked c inherited
    let ifaces ← p.directInterfaces c.descriptor
    let t ← match p.runtime.vtableStrategy with
      | .legacy => pure (Vtable.withInterfaces checked c.descriptor (fun _ => true) ifaces own)
      | .defaultMethods => do
        let t ← p.withDefaults c.descriptor ifaces inherited.length own
        pure (Vtable.withInterfaces checked c.descriptor (·.access.isAbstract) ifaces t)
    return ⟨t, (← p.interfaces c.descriptor).complete⟩

/-- The table inherited by a class. A missing superclass is replaced by Object
    if that is another class. -/
def inheritedVtable (vtableOf : Descriptor → Query (Except MissingClass (Computed Vtable)))
    (c : ClassDef) : Query (Computed Vtable) :=
  match c.superclass with
  | none => return ⟨[], true⟩
  | some s => do
    match ← vtableOf s with
    | .ok t => return t
    | .error _ =>
      if s = Descriptor.object then return ⟨[], false⟩
      else
        match ← vtableOf Descriptor.object with
        | .ok t => return ⟨t.value, false⟩
        | .error _ => return ⟨[], false⟩

def vtableWithin (p : ClassPath) :
    Nat → Descriptor → Query (Except MissingClass (Computed Vtable))
  | 0, _ => return .ok ⟨[], false⟩
  | depth + 1, d =>
    let d := p.tableOwner d
    match p.classDefinition d with
    | .error e => return .error e
    | .ok c => do
      let t ← Query.once .vtable d (·.vtables)
        (fun a m => { m with vtables := (d, a) :: m.vtables })
        ⟨[], false⟩
        (do
          let inherited ← inheritedVtable (p.vtableWithin depth) c
          let t ← p.vtableOver inherited.value c
          return ⟨t.value, inherited.complete && t.complete⟩)
      return .ok t

/-- Virtual methods of a class by slot. -/
def vtable (p : ClassPath) (d : Descriptor) : Query (Except MissingClass (Computed Vtable)) :=
  p.vtableWithin (p.size + 2) d

def methodAt (p : ClassPath) (d : Descriptor) (index : Nat) :
    Query (Except MissingClass (Option VtableEntry)) := do
  let t ← p.vtable d
  return t.map fun t => t.value[index]?

end SymbolicDex.ClassPath
