/-!
# Alignment

Texts filled up to a width, counted in characters, and how far a text can be filled up.
-/

namespace CuttingPlane

/-- How many characters at most can be asked for to fill a text up, be it blanks of a drawing or places
after a point. -/
def fillLimit : Nat := 65535

/-- A text filled up with spaces on the left to `width` characters. -/
def padLeft (width : Nat) (text : String) : String :=
  "".pushn ' ' (width - text.length) ++ text

end CuttingPlane
