import SymbolicDex.Failure

/- Unsigned little-endian base 128: seven bits a byte, low group first, the
   top bit set on every byte but the last. A 32-bit value has at most five
   bytes, and reading stops at the fifth whatever its top bit says. -/
namespace SymbolicDex.Uleb128

/-- The groups of `n`, at most `count` of them. -/
def groups : Nat → Nat → List UInt8
  | 0, _ => []
  | count + 1, n =>
    if n < 128 then [n.toUInt8]
    else (n % 128 + 128).toUInt8 :: groups count (n / 128)

def encode (v : UInt32) : List UInt8 :=
  groups 5 v.toNat

/-- Reads on from byte number `count` with `value` collected so far; `total`
    is the length of the stream, for the failure. -/
def decodeFrom (total : Nat) : Nat → UInt32 → List UInt8 → Checked (UInt32 × Nat)
  | _, _, [] => Checked.fail (.unterminatedNumber total)
  | count, value, b :: bs =>
    let value := value + ((b.toNat % 128) <<< (7 * count)).toUInt32
    if b < 128 ∨ count = 4 then .ok (value, count + 1)
    else decodeFrom total (count + 1) value bs

/-- The value at the head of the stream and the number of bytes it takes. -/
def decode (bytes : List UInt8) : Checked (UInt32 × Nat) :=
  decodeFrom bytes.length 0 0 bytes

end SymbolicDex.Uleb128
