import SymbolicDex.Uleb128

/- A byte buffer with a read index. Reads move the index past what they read
   and leave it alone when they fail; writes append to the end. -/
namespace SymbolicDex

structure ByteCursor where
  bytes : List UInt8
  index : Nat
deriving DecidableEq

namespace ByteCursor

/-- Low byte first. -/
def unitBytes (v : UInt16) : List UInt8 :=
  [v.toUInt8, (v >>> 8).toUInt8]

def seek (c : ByteCursor) (index : Nat) : ByteCursor :=
  { c with index := index }

def readUnit (c : ByteCursor) : Checked (UInt16 × ByteCursor) :=
  match c.bytes.drop c.index with
  | low :: high :: _ => .ok (low.toUInt16 ||| (high.toUInt16 <<< 8), c.seek (c.index + 2))
  | _ => Checked.fail (.endOfUnit c.index)

def readNumber (c : ByteCursor) : Checked (UInt32 × ByteCursor) :=
  if c.bytes.length < c.index then Checked.fail (.endOfNumber c.index)
  else do
    let (value, size) ←
      (Uleb128.decode (c.bytes.drop c.index)).within ("index " ++ c.index.repr)
    return (value, c.seek (c.index + size))

def write (c : ByteCursor) (bytes : List UInt8) : ByteCursor :=
  { c with bytes := c.bytes ++ bytes }

def writeUnit (c : ByteCursor) (v : UInt16) : ByteCursor :=
  c.write (unitBytes v)

def writeNumber (c : ByteCursor) (v : UInt32) : ByteCursor :=
  c.write (Uleb128.encode v)

end ByteCursor

end SymbolicDex
