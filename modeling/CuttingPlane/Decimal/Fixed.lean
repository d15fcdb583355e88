import CuttingPlane.Decimal.Layout
import CuttingPlane.Text

/-!
# Doubles rounded to a number of places

A double rounded to a fixed number of decimal places, exactly and with a half going to the even
neighbour, and the canonical text of the result: no zeros at the end of the fraction, no bare point
and no negative zero.
-/

namespace CuttingPlane.Decimal

/-- A quotient rounded to the nearest whole number; a half goes to the even neighbour. -/
def roundQuotient (num den : Nat) : Nat :=
  let q := num / den
  match compare (2 * (num % den)) den with
  | .lt => q
  | .gt => q + 1
  | .eq => q + q % 2

/-- The size `m * 2 ^ e` in units of `10 ^ (-places)`, rounded to a whole number. -/
def fixedUnits (m : Nat) (e : Int) (places : Nat) : Nat :=
  roundQuotient (m * raise 2 e * Nat.pow 10 places) (raise 2 (-e))

/-- A whole number with the point set before its last `places` digits, filled up with zeros at the
front; without a point if `places` is zero. -/
def setPoint (units places : Nat) : List Char :=
  let ds := digitChars units
  let padded := List.replicate (places + 1 - ds.length) '0' ++ ds
  let whole := padded.length - places
  padded.take whole ++ if places = 0 then [] else '.' :: padded.drop whole

/-- A double with exactly `places` decimals. A negative one keeps its sign even if it rounds to
zero. -/
def fixed (x : Float) (places : Nat) : List Char :=
  match Binary64.parts x with
  | .finite negative m e => (if negative then ['-'] else []) ++ setPoint (fixedUnits m e places) places
  | _ => Form.plain.write x

def dropTrailing (c : Char) (cs : List Char) : List Char :=
  (cs.reverse.dropWhile (· == c)).reverse

/-- Leaves out the zeros at the end of a fraction, and the point if nothing is left after it. -/
def trimFraction (cs : List Char) : List Char :=
  if cs.contains '.' then dropTrailing '.' (dropTrailing '0' cs) else cs

/-- A double with at most `places` decimals. -/
def rounded (x : Float) (places : Nat) : List Char :=
  let trimmed := trimFraction (fixed x places)
  -- What is negative and rounds to zero loses its sign here.
  if trimmed = ['-', '0'] then ['0'] else trimmed

/-- The text of a double with at most `places` decimals. -/
def roundedText (x : Float) (places : Nat) : String :=
  .ofList (rounded x places)

/-- The text of a double with at most `places` decimals; nothing if those are more than can be asked
for. -/
def roundedText? (x : Float) (places : Nat) : Option String :=
  if places ≤ fillLimit then some (roundedText x places) else none

end CuttingPlane.Decimal
