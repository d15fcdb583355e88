import CuttingPlane.Decimal.Shortest

/-!
# Written forms of doubles

The shortest decimal of a double laid out as text. A form says where positional writing ends, whether
a whole number keeps a point, how the exponent is marked and which way a tie of two shortest decimals
goes. Three forms are in use: plain numbers in messages, numbers in listings, and JSON numbers.
-/

namespace CuttingPlane.Decimal

/-- The choices that a written form of doubles makes. -/
structure Form where
  /-- A tie of two shortest decimals. -/
  tie : Tie
  /-- Whether a positive double whose first digit stands at this power of ten is written without
  an exponent. -/
  positional : Int → Bool
  /-- What follows the digits of a whole number in positional writing. -/
  wholeMark : String
  /-- What stands before a positive exponent. -/
  plus : String

namespace Form

/-- Numbers in messages: never an exponent, and a whole number has no point. -/
def plain : Form where
  tie := .up
  positional _ := true
  wholeMark := ""
  plus := ""

/-- Numbers in listings: an exponent below `1e-4` and from `1e16` on, and a whole number keeps a
point. -/
def listing : Form where
  tie := .up
  positional p := -4 ≤ p && p < 16
  wholeMark := ".0"
  plus := ""

/-- JSON numbers: an exponent with a sign below `1e-5` and from `1e16` on, ties going to even, and a
whole number keeps a point. -/
def json : Form where
  tie := .even
  positional p := -5 ≤ p && p < 16
  wholeMark := ".0"
  plus := "+"

end Form

def digitChars (n : Nat) : List Char :=
  Nat.toDigits 10 n

/-- A positive decimal without an exponent. -/
def Form.writePositional (form : Form) (d : Decimal) : List Char :=
  let ds := digitChars d.digits
  let point := (ds.length : Int) + d.exponent
  if point ≤ 0 then '0' :: '.' :: List.replicate (-point).toNat '0' ++ ds
  else if point < ds.length then ds.take point.toNat ++ '.' :: ds.drop point.toNat
  else ds ++ List.replicate d.exponent.toNat '0' ++ form.wholeMark.toList

/-- A positive decimal with one digit before the point and an exponent. -/
def Form.writeExponent (form : Form) (d : Decimal) : List Char :=
  let ds := digitChars d.digits
  let power := (ds.length : Int) + d.exponent - 1
  let lead := ds.take 1 ++ if ds.length ≤ 1 then [] else '.' :: ds.drop 1
  let exponent := if power < 0 then '-' :: digitChars (-power).toNat else form.plus.toList ++ digitChars power.toNat
  lead ++ 'e' :: exponent

/-- A positive decimal. -/
def Form.writeDecimal (form : Form) (d : Decimal) : List Char :=
  if form.positional ((digitChars d.digits).length + d.exponent - 1) then form.writePositional d
  else form.writeExponent d

/-- The size of a finite double `m * 2 ^ e`, zero included. -/
def Form.writeSize (form : Form) (m : Nat) (e : Int) : List Char :=
  if m = 0 then '0' :: form.wholeMark.toList else form.writeDecimal (shortest form.tie m e)

/-- A double. The zeros keep their sign; what is not finite is written `NaN`, `inf` or `-inf`. -/
def Form.write (form : Form) (x : Float) : List Char :=
  match Binary64.parts x with
  | .notANumber => "NaN".toList
  | .infinite negative => (if negative then "-inf" else "inf").toList
  | .finite negative m e => (if negative then ['-'] else []) ++ form.writeSize m e

def plainText (x : Float) : String :=
  .ofList (Form.plain.write x)

def listingText (x : Float) : String :=
  .ofList (Form.listing.write x)

end CuttingPlane.Decimal
