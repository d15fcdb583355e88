import CuttingPlane.Grid
import CuttingPlane.Decimal.Layout
import CuttingPlane.Scalar
import CuttingPlane.Text

/-!
# Bracketed text of a grid

A grid drawn between corner brackets, one line per row, with every entry right-aligned to the widest
entry of the whole grid. A grid without entries is written `[ ]`, and one whose drawing would be too
wide is not drawn.
-/

namespace CuttingPlane

namespace Grid

def entryTexts (g : Grid Float) : List (List String) :=
  g.rows.map fun row => row.map Decimal.plainText

/-- The length of the longest entry of a grid. -/
def widest (g : Grid Float) : Nat :=
  (g.entryTexts.flatten.map String.length).max?.getD 0

/-- How many blanks there are between the corners of the drawing of a grid. -/
def inside (g : Grid Float) : Nat :=
  (g.widest + 1) * g.width - 1

/-- The drawing of a grid, with a line break in front and behind; nothing if more blanks are wanted
between its corners than a text can be filled up with. -/
def bracketed? (g : Grid Float) : Option String :=
  if g.height = 0 ∨ g.width = 0 then some "[ ]"
  else if fillLimit < g.inside then none
  else
    let widest := g.widest
    let gap := "".pushn ' ' g.inside
    let lines := g.entryTexts.map fun row =>
      "  │" ++ String.join (row.map fun t => " " ++ padLeft widest t) ++ " │\n"
    some ("\n  ┌ " ++ gap ++ " ┐\n" ++ String.join lines ++ "  └ " ++ gap ++ " ┘\n\n")

end Grid
end CuttingPlane
