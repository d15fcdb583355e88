import CuttingPlane.Decimal.Shortest

/-!
# Reading numerals

A decimal numeral stands for the double nearest to it; a tie goes to the even mantissa. Here are the
value of a numeral from its digits, and the numerals that a command line accepts.
-/

namespace CuttingPlane.Decimal

/-- The double nearest to `digits * 10 ^ exponent` under its sign. -/
def toFloat (negative : Bool) (digits : Nat) (exponent : Int) : Float :=
  let size := if 0 ≤ exponent then Float.ofScientific digits false exponent.toNat
    else Float.ofScientific digits true (-exponent).toNat
  if negative then -size else size

def spanDigits (cs : List Char) : List Char × List Char :=
  (cs.takeWhile Char.isDigit, cs.dropWhile Char.isDigit)

def appendDigit (n : Nat) (c : Char) : Nat :=
  10 * n + (c.toNat - '0'.toNat)

def ofDigits (ds : List Char) : Nat :=
  ds.foldl appendDigit 0

/-- A sign at the front of a text, if there is one, and the rest. -/
def takeSign : List Char → Bool × List Char
  | '-' :: cs => (true, cs)
  | '+' :: cs => (false, cs)
  | cs => (false, cs)

/-- The exponent at the end of a numeral: nothing, or a mark, a sign if wanted, and digits. -/
def exponentPart? : List Char → Option Int
  | [] => some 0
  | mark :: cs =>
    if mark == 'e' || mark == 'E' then
      let (negative, ds) := takeSign cs
      if ds.isEmpty || !ds.all Char.isDigit then none
      else some (if negative then -(ofDigits ds : Int) else ofDigits ds)
    else none

/-- The size of a numeral without its sign: a number, or one of the words for what is not finite,
in any case of letters. -/
def size? (cs : List Char) : Option Float :=
  let word := cs.map Char.toLower
  if word = "inf".toList ∨ word = "infinity".toList then some (1 / 0)
  else if word = "nan".toList then some (0 / 0)
  else
    let (whole, rest) := spanDigits cs
    let (fraction, rest) := match rest with
      | '.' :: more => spanDigits more
      | _ => ([], rest)
    if whole.isEmpty && fraction.isEmpty then none
    else (exponentPart? rest).map fun e => toFloat false (ofDigits (whole ++ fraction)) (e - fraction.length)

/-- The double that a numeral stands for: a sign if wanted, digits with a point anywhere, and an
exponent if wanted. -/
def numeral? (cs : List Char) : Option Float :=
  let (negative, rest) := takeSign cs
  (size? rest).map fun x => if negative then -x else x

end CuttingPlane.Decimal
