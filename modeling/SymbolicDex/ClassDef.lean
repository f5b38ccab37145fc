import SymbolicDex.Access
import SymbolicDex.Instruction.Basic

/- Class definitions: fields, methods and the code of methods. -/
namespace SymbolicDex

structure FieldDef where
  name : String
  type : Descriptor
  access : Access
deriving DecidableEq, Inhabited

namespace FieldDef

def isStatic (f : FieldDef) : Bool := f.access.isStatic

def ref (f : FieldDef) (owner : Descriptor) : FieldRef := ⟨owner, f.name, f.type⟩

end FieldDef

/-- A handler without a type catches everything. -/
structure Handler where
  type : Option Descriptor
  address : Nat
deriving DecidableEq

/-- Handlers of the `count` code units from `start` on. -/
structure TryBlock where
  start : Nat
  count : Nat
  handlers : List Handler
deriving DecidableEq

namespace TryBlock

/-- The first address after the block, a 32-bit word like every address. -/
def stop (t : TryBlock) : Nat := (t.start + t.count) % 0x100000000

def covers (t : TryBlock) (address : Nat) : Bool :=
  t.start ≤ address && address < t.stop

end TryBlock

/-- A local variable of the debug info, live from `start` to before `stop`. -/
structure LocalVariable where
  register : Nat
  name : String
  type : Descriptor
  start : Nat
  stop : Nat
deriving DecidableEq

/-- The body of a method. `lines` pairs code addresses with source lines, in
    address order. -/
structure Code where
  registers : Nat
  instructions : List Instruction
  tries : List TryBlock := []
  locals : List LocalVariable := []
  lines : List (Nat × Nat) := []
deriving DecidableEq

namespace Code

/-- Code address of every instruction. -/
def addresses (c : Code) : List Nat :=
  Instruction.addressesFrom 0 c.instructions

/-- The source line an address belongs to. -/
def lineAt? (c : Code) (address : Nat) : Option Nat :=
  ((c.lines.takeWhile (·.1 ≤ address)).getLast?).map (·.2)

def hasOdex (c : Code) : Bool :=
  c.instructions.any (·.opcode.isOdex)

end Code

structure MethodDef where
  name : String
  prototype : Prototype
  access : Access
  code : Option Code := none
deriving DecidableEq, Inhabited

namespace MethodDef

def isStatic (m : MethodDef) : Bool := m.access.isStatic

def isConstructor (m : MethodDef) : Bool :=
  m.name == "<init>" || m.name == "<clinit>"

/-- Static methods, private methods and constructors are called directly. -/
def isDirect (m : MethodDef) : Bool :=
  m.access.isStatic || m.access.isPrivate || m.access.isConstructor || m.isConstructor

def isVirtual (m : MethodDef) : Bool := !m.isDirect

def ref (m : MethodDef) (owner : Descriptor) : MethodRef := ⟨owner, m.name, m.prototype⟩

/-- Registers the parameters take, the receiver included. -/
def registerCount (m : MethodDef) : Nat :=
  m.prototype.registerCount + if m.isStatic then 0 else 1

end MethodDef

structure ClassDef where
  descriptor : Descriptor
  access : Access
  superclass : Option Descriptor
  interfaces : List Descriptor := []
  sourceFile : Option String := none
  fields : List FieldDef := []
  methods : List MethodDef := []
deriving DecidableEq, Inhabited

namespace ClassDef

def isInterface (c : ClassDef) : Bool := c.access.isInterface

def package (c : ClassDef) : String := c.descriptor.package

def instanceFields (c : ClassDef) : List FieldDef := c.fields.filter (!·.isStatic)

def staticFields (c : ClassDef) : List FieldDef := c.fields.filter (·.isStatic)

def virtualMethods (c : ClassDef) : List MethodDef := c.methods.filter (·.isVirtual)

def directMethods (c : ClassDef) : List MethodDef := c.methods.filter (·.isDirect)

def findMethod? (c : ClassDef) (name : String) (p : Prototype) : Option MethodDef :=
  c.methods.find? fun m => m.name == name && m.prototype == p

/-- The instructions of every body. -/
def allInstructions (c : ClassDef) : List Instruction :=
  (c.methods.filterMap (·.code)).flatMap (·.instructions)

/-- Every field the class declares or its code names, ascending. -/
def fieldRefs (c : ClassDef) : List FieldRef :=
  sortedDistinct FieldRef.compare
    (c.fields.map (·.ref c.descriptor) ++ c.allInstructions.filterMap (·.fieldRef?))

/-- Every method the class declares or its code names, ascending. -/
def methodRefs (c : ClassDef) : List MethodRef :=
  sortedDistinct MethodRef.compare
    (c.methods.map (·.ref c.descriptor) ++ c.allInstructions.filterMap (·.methodRef?))

/-- Whether code in `accessor` may name the class: it is public or in the
    same package. -/
def accessibleFrom (c : ClassDef) (accessor : Descriptor) : Bool :=
  c.access.isPublic || Descriptor.samePackage accessor c.descriptor

/-- The list without definitions of descriptors in `seen` or defined before. -/
def firstDefinitionsAfter (seen : List Descriptor) : List ClassDef → List ClassDef
  | [] => []
  | c :: cs =>
    if c.descriptor ∈ seen then firstDefinitionsAfter seen cs
    else c :: firstDefinitionsAfter (c.descriptor :: seen) cs

/-- The list with only the first definition of each descriptor. -/
def firstDefinitions (classes : List ClassDef) : List ClassDef :=
  firstDefinitionsAfter [] classes

end ClassDef

end SymbolicDex
