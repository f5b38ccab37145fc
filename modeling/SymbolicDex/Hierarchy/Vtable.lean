import SymbolicDex.ClassDef

/- Virtual method tables. A class starts from the table of its superclass; its
   own methods take the slots they override, and what is left goes to the end. -/
namespace SymbolicDex

/-- One slot: the method as the class that added it names it, and the class or
    interface that declares it. -/
structure VtableEntry where
  method : MethodRef
  origin : Descriptor
  access : Access
deriving DecidableEq

abbrev Vtable := List VtableEntry

namespace VtableEntry

/-- A method of the class itself. -/
def declared (owner : Descriptor) (m : MethodDef) : VtableEntry :=
  ⟨m.ref owner, owner, m.access⟩

/-- A method of an interface, named through the class that implements it. -/
def implemented (owner iface : Descriptor) (m : MethodDef) : VtableEntry :=
  ⟨m.ref owner, iface, m.access⟩

def isAbstract (e : VtableEntry) : Bool := e.access.isAbstract

end VtableEntry

/-- By name, then prototype. -/
def MethodDef.compare (a b : MethodDef) : Ordering :=
  (Ord.compare a.name b.name).then (a.prototype.compare b.prototype)

/-- Virtual methods in table order. -/
def ClassDef.sortedVirtualMethods (c : ClassDef) : List MethodDef :=
  c.virtualMethods.mergeSort fun a b => (a.compare b).isLE

namespace Vtable

/-- Whether a method of `owner` may take the slot. Where package-private
    access is checked, such a method is overridden only from its package. -/
def overridable (checked : Bool) (owner : Descriptor) (e : VtableEntry) : Bool :=
  !checked || !e.access.isPackagePrivate || Descriptor.samePackage e.method.owner owner

/-- The first slot of the same signature that a method of `owner` may take. -/
def slot? (checked : Bool) (owner : Descriptor) (t : Vtable) (e : VtableEntry) : Option Nat :=
  t.findIdx? fun old => old.method.sameSignature e.method && overridable checked owner old

/-- Own methods replace the slot they override. -/
def override (checked : Bool) (owner : Descriptor) (t : Vtable) (e : VtableEntry) : Vtable :=
  match slot? checked owner t e with
  | some i => t.set i e
  | none => t ++ [e]

/-- Interface methods are added where no slot has their signature. -/
def supply (checked : Bool) (owner : Descriptor) (t : Vtable) (e : VtableEntry) : Vtable :=
  match slot? checked owner t e with
  | some _ => t
  | none => t ++ [e]

/-- The table after the methods that the class declares. -/
def withOwn (checked : Bool) (c : ClassDef) (t : Vtable) : Vtable :=
  (c.sortedVirtualMethods.map (VtableEntry.declared c.descriptor)).foldl
    (override checked c.descriptor) t

/-- Entries of the methods of an interface that `p` picks. -/
def interfaceEntries (owner : Descriptor) (p : MethodDef → Bool) (iface : ClassDef) :
    List VtableEntry :=
  (iface.sortedVirtualMethods.filter p).map (VtableEntry.implemented owner iface.descriptor)

/-- The table after the methods of the interfaces that `p` picks. -/
def withInterfaces (checked : Bool) (owner : Descriptor) (p : MethodDef → Bool)
    (ifaces : List ClassDef) (t : Vtable) : Vtable :=
  (ifaces.flatMap (interfaceEntries owner p)).foldl (supply checked owner) t

end Vtable

end SymbolicDex
