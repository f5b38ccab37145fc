import SymbolicDex.Text.Number

/- Access flags of classes, fields and methods. Unknown bits are kept. -/
namespace SymbolicDex

structure Access where
  bits : Nat
deriving DecidableEq, Inhabited

namespace Access

def isPublic (a : Access) : Bool := a.bits.testBit 0
def isPrivate (a : Access) : Bool := a.bits.testBit 1
def isProtected (a : Access) : Bool := a.bits.testBit 2
def isStatic (a : Access) : Bool := a.bits.testBit 3
def isInterface (a : Access) : Bool := a.bits.testBit 9
def isAbstract (a : Access) : Bool := a.bits.testBit 10
def isConstructor (a : Access) : Bool := a.bits.testBit 16

/-- Neither public, protected nor private. -/
def isPackagePrivate (a : Access) : Bool :=
  !(a.isPublic || a.isProtected || a.isPrivate)

/-- Names of the bits. Two bits have a second meaning on methods (bridge,
    varargs); the first name is the one written. -/
def names : List (Nat × String) := [
  (0, "PUBLIC"), (1, "PRIVATE"), (2, "PROTECTED"), (3, "STATIC"), (4, "FINAL"),
  (5, "SYNCHRONIZED"), (6, "VOLATILE"), (7, "TRANSIENT"), (8, "NATIVE"), (9, "INTERFACE"),
  (10, "ABSTRACT"), (11, "STRICT"), (12, "SYNTHETIC"), (13, "ANNOTATION"), (14, "ENUM"),
  (16, "CONSTRUCTOR"), (17, "DECLARED_SYNCHRONIZED")]

/-- The bits without a name. -/
def unnamed (a : Access) : Nat :=
  names.foldl (fun bits n => if bits.testBit n.1 then bits - (1 <<< n.1) else bits) a.bits

/-- Names of the set bits divided by a bar, unnamed bits last in hexadecimal. -/
def text (a : Access) : String :=
  let named := (names.filter fun n => a.bits.testBit n.1).map (·.2)
  " | ".intercalate (named ++ if a.unnamed = 0 then [] else [Text.hex a.unnamed])

end Access

end SymbolicDex
