/-!
# Doubles taken apart

The value of a double as a sign, a whole mantissa and a power of two, and the roundings to a whole
number that the tableau method needs: downward, and to the nearest with halves going away from
zero. Both work on the exact value and keep the sign of a zero result.
-/

namespace CuttingPlane.Binary64

/-- A double taken apart. A finite one is worth `mantissa * 2 ^ exponent` under its sign; the two
zeros have mantissa `0`. -/
inductive Parts where
  | notANumber
  | infinite (negative : Bool)
  | finite (negative : Bool) (mantissa : Nat) (exponent : Int)
deriving Repr, DecidableEq

/-- Whether a sign is the minus sign. -/
def isMinus : Float.Model.UnpackedFloat.Sign → Bool
  | .negative => true
  | .positive => false

/-- The parts of a double. A mantissa is below `2 ^ 53`, and only subnormal numbers, which have the
least exponent `-1074`, have one below `2 ^ 52`. -/
def parts (x : Float) : Parts :=
  match x.toModel.unpack with
  | .notANumber => .notANumber
  | .infinity s => .infinite (isMinus s)
  | .zero s => .finite (isMinus s) 0 (-1074)
  | .finite s m e _ => .finite (isMinus s) m e

/-- The whole number of the given sign and size, rounded to a double; zero keeps the sign. -/
def ofWhole (negative : Bool) (size : Nat) : Float :=
  .ofModel (.pack (.round .binary64 (if negative then .negative else .positive) size 0))

/-- The largest whole number that is not above `x`. What is whole, infinite or no number stays. -/
def floor (x : Float) : Float :=
  match parts x with
  | .finite negative m e =>
    if 0 ≤ e then x
    else
      let unit := Nat.pow 2 (-e).toNat
      -- Under the minus sign, down is away from zero.
      ofWhole negative (if negative then (m + unit - 1) / unit else m / unit)
  | _ => x

/-- The whole number nearest to `x`; a half goes away from zero. What is whole, infinite or no
number stays. -/
def round (x : Float) : Float :=
  match parts x with
  | .finite negative m e =>
    if 0 ≤ e then x
    else
      let unit := Nat.pow 2 (-e).toNat
      ofWhole negative ((2 * m + unit) / (2 * unit))
  | _ => x

end CuttingPlane.Binary64
