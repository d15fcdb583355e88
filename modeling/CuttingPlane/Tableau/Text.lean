import CuttingPlane.Decimal.Fixed
import CuttingPlane.Tableau.Basic
import CuttingPlane.Text

/-!
# Printed tableaus

The text of a labelled grid: a header with the column labels, a rule, and a line per row with its
label and its entries rounded to two places, all right-aligned.
-/

namespace CuttingPlane

/-- The printed form of a grid under its labels. A row without a label is left out, as is a label
without a row. -/
def labelledText (matrix : Grid Float) (basic nonbasic : List String) : String :=
  let cell := fun text => " " ++ padLeft 8 text
  let line := fun head cells => padLeft 6 head ++ " |" ++ String.join (cells.map cell) ++ "\n"
  let rule := "".pushn '-' (8 + 9 * nonbasic.length) ++ "\n"
  let body := (basic.take matrix.height).mapIdx fun i label =>
    line label ((matrix.row i).map fun x => Decimal.roundedText x 2)
  line "" nonbasic ++ rule ++ String.join body

def Tableau.text (t : Tableau Float) : String :=
  labelledText t.matrix t.basic t.nonbasic

end CuttingPlane
