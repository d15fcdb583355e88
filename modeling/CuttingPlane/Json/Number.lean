import CuttingPlane.Decimal.Numeral

/-!
# JSON numbers

A number as it is written and what it is read as. A natural number is read exactly. A double is read
in steps: the digits that fit in 64 bits make a whole number, and that is scaled by a power of ten in
double arithmetic. So a number with more than fifteen digits or a large power of ten may be read as a
neighbour of the double nearest to it.
-/

namespace CuttingPlane.Json

/-- A number as written: the digits before the point, those after it, and the power of ten. -/
structure Number where
  negative : Bool
  whole : List Char
  fraction : List Char
  power : Option Int
deriving Repr, DecidableEq

/-- Appends digits to a number as long as it stays below `2 ^ 64`, and gives the digits that are left
over. -/
def takeDigits (n : Nat) : (digits : List Char) → Nat × List Char
  | [] => (n, [])
  | c :: cs =>
    let longer := Decimal.appendDigit n c
    if longer < Nat.pow 2 64 then takeDigits longer cs else (n, c :: cs)

def powerOfTen (n : Nat) : Float :=
  Binary64.ofWhole false (Nat.pow 10 n)

/-- A double below `2 ^ 64` divided by a power of ten. The greatest power that is a double is
`10 ^ 308`; past it the division takes two steps, and past two of them nothing is left. -/
def scaleDown (x : Float) (n : Nat) : Float :=
  if n ≤ 308 then x / powerOfTen n else x / powerOfTen 308 / powerOfTen (min (n - 308) 308)

/-- A double multiplied by a power of ten, if the product is one. -/
def scaleUp? (x : Float) (n : Nat) : Option Float :=
  if n ≤ 308 then
    let product := x * powerOfTen n
    if product.isFinite then some product else none
  else if x == 0 then some x
  else none

namespace Number

/-- The decimal that a number is read through, its sign left out: the digits that fit in 64 bits. From
the first that does not fit on, digits before the point only raise the power of ten, and digits after
the point are left out. -/
def decimal (n : Number) : Decimal :=
  let (high, dropped) := takeDigits 0 n.whole
  let (digits, ignored) := takeDigits high n.fraction
  { digits
    exponent := n.power.getD 0 + dropped.length - (n.fraction.length - ignored.length : Nat) }

/-- The double that a number is read as; nothing if the number is too large. -/
def toFloat? (n : Number) : Option Float :=
  let x := Binary64.ofWhole false n.decimal.digits
  let size := if n.decimal.exponent < 0 then some (scaleDown x (-n.decimal.exponent).toNat)
    else scaleUp? x n.decimal.exponent.toNat
  -- The sign comes last, so that minus zero is read as such.
  size.map fun x => if n.negative then -x else x

/-- The natural number that is meant, if it is written as one and fits in 64 bits. -/
def toNat? (n : Number) : Option Nat :=
  let value := Decimal.ofDigits n.whole
  if n.fraction.isEmpty ∧ n.power.isNone ∧ ¬n.negative ∧ value < Nat.pow 2 64 then some value else none

end Number
end CuttingPlane.Json
