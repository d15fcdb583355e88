import CuttingPlane.Binary64

/-!
# Scalars

The numbers that a tableau holds. The method is written once over any type with the field
operations, an order that can be decided and the two roundings to whole numbers; it runs in doubles,
and in exact rational numbers it is the textbook method.
-/

namespace CuttingPlane

/-- Numbers that a tableau can hold. `BEq` is the numbers' own equality: in doubles the two zeros are
equal and a NaN differs from itself. -/
class Scalar (α : Type) extends Zero α, One α, Neg α, Add α, Sub α, Mul α, Div α, LT α, LE α, BEq α where
  ltDecidable : DecidableLT α
  leDecidable : DecidableLE α
  /-- The largest whole number that is not above the given one. -/
  floor : α → α
  /-- The nearest whole number, halves going away from zero. -/
  round : α → α
  /-- Whether the number is neither infinite nor a NaN. -/
  isFinite : α → Bool

namespace Scalar

instance {α : Type} [Scalar α] : DecidableLT α := Scalar.ltDecidable
instance {α : Type} [Scalar α] : DecidableLE α := Scalar.leDecidable

/-- The size of a number; a NaN stays one. -/
def abs {α : Type} [Scalar α] (x : α) : α :=
  if x < 0 then -x else x

/-- The distance of `x` down to the nearest whole number below it. -/
def fract {α : Type} [Scalar α] (x : α) : α :=
  x - Scalar.floor x

end Scalar

/-- Double arithmetic, every operation rounded to the nearest double. -/
instance : Scalar Float where
  zero := 0
  one := 1
  ltDecidable := inferInstance
  leDecidable := inferInstance
  floor := Binary64.floor
  round := Binary64.round
  isFinite := Float.isFinite

/-- Exact arithmetic. -/
instance : Scalar Rat where
  zero := 0
  one := 1
  ltDecidable := inferInstance
  leDecidable := inferInstance
  floor x := (x.floor : Int)
  round x := if x < 0 then -(((-x + 1 / 2).floor : Int) : Rat) else ((x + 1 / 2).floor : Int)
  isFinite _ := true

end CuttingPlane
