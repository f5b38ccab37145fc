/- Blank characters and lines. Blanks around a line are dropped by the
   Unicode white-space property; inside a line only space and tab divide. -/
namespace SymbolicDex.Text

/-- The Unicode white-space property. -/
def isBlank (c : Char) : Bool :=
  let n := c.toNat
  (0x9 ≤ n && n ≤ 0xd) || n == 0x20 || n == 0x85 || n == 0xa0 || n == 0x1680 ||
    (0x2000 ≤ n && n ≤ 0x200a) || n == 0x2028 || n == 0x2029 || n == 0x202f ||
    n == 0x205f || n == 0x3000

/-- The list without its leading and trailing blanks. -/
def trim (cs : List Char) : List Char :=
  ((cs.dropWhile isBlank).reverse.dropWhile isBlank).reverse

/-- The pieces between line feeds; a text without one is a single piece. -/
def lines : List Char → List (List Char)
  | [] => [[]]
  | c :: cs =>
    if c = '\n' then [] :: lines cs
    else match lines cs with
      | [] => [[c]]
      | l :: ls => (c :: l) :: ls

/-- Space or tab, the separators inside a line. -/
def isSeparator (c : Char) : Bool :=
  c == ' ' || c == '\t'

/-- Splits at the first occurrence of `mark`, which stays at the head of the
    second part. -/
def splitBefore (mark : List Char) : List Char → Option (List Char × List Char)
  | [] => if mark.isEmpty then some ([], []) else none
  | c :: cs =>
    if mark.isPrefixOf (c :: cs) then some ([], c :: cs)
    else (splitBefore mark cs).map fun (before, rest) => (c :: before, rest)

end SymbolicDex.Text
