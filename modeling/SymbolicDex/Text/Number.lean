/- Number text. Addresses, literals and indices are written in lower-case
   hexadecimal after 0x; a negative literal is written as the word of its
   width that holds it; branch distances always carry a sign. -/
namespace SymbolicDex.Text

/-- Hexadecimal digits after `0x`. -/
def hex (n : Nat) : String :=
  "0x" ++ String.ofList (Nat.toDigits 16 n)

/-- Hexadecimal with at least `width` digits after `0x`. -/
def hexPadded (width n : Nat) : String :=
  let digits := Nat.toDigits 16 n
  "0x" ++ String.ofList (List.replicate (width - digits.length) '0' ++ digits)

/-- The word of `bits` bits holding `v` in two's complement, in hexadecimal. -/
def hexWord (bits : Nat) (v : Int) : String :=
  hex (v % (1 <<< bits : Nat)).toNat

/-- Decimal with a sign in front, `+0` included. -/
def signed : Int → String
  | .ofNat n => "+" ++ n.repr
  | .negSucc n => "-" ++ (n + 1).repr

/-- Decimal, with a sign only when negative. -/
def decimal : Int → String
  | .ofNat n => n.repr
  | .negSucc n => "-" ++ (n + 1).repr

/-- Decimals in square brackets, divided by a comma and a space. -/
def decimals (vs : List Int) : String :=
  "[" ++ ", ".intercalate (vs.map decimal) ++ "]"

end SymbolicDex.Text
