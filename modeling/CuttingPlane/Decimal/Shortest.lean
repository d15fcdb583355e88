import CuttingPlane.Binary64

/-!
# The shortest decimal of a double

A positive double stands for every real number that rounds to it. Its shortest decimal is the number
with the fewest digits among those, and of several the nearest to the double. Everything is exact:
decimals and doubles are compared by cross multiplication in the natural numbers.
-/

namespace CuttingPlane

/-- A decimal number that is not negative, worth `digits * 10 ^ exponent`. -/
structure Decimal where
  digits : Nat
  exponent : Int
deriving Repr, DecidableEq

namespace Decimal

/-- Where a decimal goes that lies half way between two candidates. -/
inductive Tie where
  | up
  | even
deriving Repr, DecidableEq

/-- `base ^ exponent` for an exponent that is not negative, and `1` below. -/
def raise (base : Nat) (exponent : Int) : Nat :=
  base.pow exponent.toNat

/-- How `a * 10 ^ k` compares with `b * 2 ^ f`. -/
def compareWithBinary (a : Nat) (k : Int) (b : Nat) (f : Int) : Ordering :=
  -- Powers with a negative exponent change sides.
  compare (a * raise 10 k * raise 2 (-f)) (b * raise 2 f * raise 10 (-k))

/-- The reals that round to the double `m * 2 ^ e`, as two ends in units of `2 ^ (e - 2)`. The gap
below is half as wide under a power of two, unless the numbers below are subnormal. -/
def ends (m : Nat) (e : Int) : Nat × Nat :=
  (if m = Nat.pow 2 52 ∧ -1074 < e then 4 * m - 1 else 4 * m - 2, 4 * m + 2)

/-- Whether `d * 10 ^ k` reads back as the double `m * 2 ^ e`: it lies between the ends, and on an end
only if the mantissa is even. -/
def readsBack (m : Nat) (e : Int) (d : Nat) (k : Int) : Bool :=
  let low := compareWithBinary d k (ends m e).1 (e - 2)
  let high := compareWithBinary d k (ends m e).2 (e - 2)
  (low == .gt || low == .eq && m % 2 == 0) && (high == .lt || high == .eq && m % 2 == 0)

def digitCount (n : Nat) : Nat :=
  (Nat.toDigits 10 n).length

/-- The power of ten at the first digit of `m * 2 ^ e`. -/
def leadingPower (m : Nat) (e : Int) : Int :=
  let num := m * raise 2 e
  let den := raise 2 (-e)
  if den ≤ num then (digitCount (num / den) : Int) - 1
  -- Below one the digits of the reciprocal tell, and an exact power of ten must not count one too many.
  else -(digitCount ((den + num - 1) / num - 1) : Int)

/-- The multiple of `10 ^ k` next below `m * 2 ^ e`, counted in `10 ^ k`. -/
def below (m : Nat) (e k : Int) : Nat :=
  (m * raise 2 e * raise 10 (-k)) / (raise 2 (-e) * raise 10 k)

/-- Of two neighbours `d` and `d + 1` on the grid of `10 ^ k` the one nearer to `m * 2 ^ e`. -/
def nearer (tie : Tie) (m : Nat) (e : Int) (d : Nat) (k : Int) : Nat :=
  match compareWithBinary (2 * d + 1) k (2 * m) e with
  | .lt => d + 1
  | .gt => d
  | .eq =>
    match tie with
    | .up => d + 1
    | .even => if d % 2 = 0 then d else d + 1

/-- The decimal with the last digit at `10 ^ k` that reads back as `m * 2 ^ e`, if there is one. -/
def onGrid (tie : Tie) (m : Nat) (e k : Int) : Option Nat :=
  let d := below m e k
  match readsBack m e d k, readsBack m e (d + 1) k with
  | true, true => some (nearer tie m e d k)
  | true, false => some d
  | false, true => some (d + 1)
  | false, false => none

def trim (d : Nat) (k : Int) : Decimal :=
  go d k (digitCount d)
where
  /-- At most `fuel` zeros are left out, and a number has no more zeros than digits. -/
  go (d : Nat) (k : Int) : (fuel : Nat) → Decimal
    | 0 => ⟨d, k⟩
    | fuel + 1 => if d % 10 = 0 then go (d / 10) (k + 1) fuel else ⟨d, k⟩

/-- The first hit on finer and finer grids, `count` of them left before seventeen digits. -/
def search (tie : Tie) (m : Nat) (e k : Int) : (count : Nat) → Decimal
  | 0 => trim (below m e k) k
  | count + 1 =>
    match onGrid tie m e k with
    | some d => trim d k
    | none => search tie m e (k - 1) count

/-- The shortest decimal that reads back as the positive double `m * 2 ^ e`. Seventeen digits always
do. -/
def shortest (tie : Tie) (m : Nat) (e : Int) : Decimal :=
  search tie m e (leadingPower m e) 17

end Decimal
end CuttingPlane
