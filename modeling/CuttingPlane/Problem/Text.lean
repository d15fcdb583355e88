import CuttingPlane.Grid.Text
import CuttingPlane.Problem

/-!
# Printed problems

A problem with its supplies drawn as a column, its consumptions as a grid and its profits as a row,
every line of a drawing indented alike.
-/

namespace CuttingPlane

namespace Problem

/-- The blank characters that a trimmed line loses. -/
def isBlank (c : Char) : Bool :=
  c == ' ' || c == '\n'

def trimBlanks (cs : List Char) : List Char :=
  ((cs.dropWhile isBlank).reverse.dropWhile isBlank).reverse

def splitLines : List Char → List (List Char)
  | [] => [[]]
  | c :: cs =>
    match splitLines cs with
    | [] => [[c]]
    | l :: ls => if c == '\n' then [] :: l :: ls else (c :: l) :: ls

/-- A drawing with every line trimmed and set in by four spaces. -/
def indented (block : String) : String :=
  let lines := splitLines (trimBlanks block.toList)
  String.join (lines.map fun l => "    " ++ String.ofList (trimBlanks l) ++ "\n")

end Problem

/-- The consumptions as a grid as wide as the first row; what other rows lack is zero. -/
def Reading.consumptionGrid {m : Type → Type} [Monad m] (read : Reading m) (p : Problem Float) :
    m (Grid Float) :=
  Grid.tabulateM p.consumption.length (p.consumption.headD []).length fun i j =>
    return (← read.get [] p.consumption[i]?).getD j 0

namespace Problem

def consumptionGrid (p : Problem Float) : Grid Float := (Reading.total.consumptionGrid p).run

def supplyGrid (p : Problem Float) : Grid Float := .ofRows p.supply p.supply.length 1

def profitGrid (p : Problem Float) : Grid Float := .ofRows p.profit 1 p.profit.length

/-- The printed form of a problem; nothing if one of its drawings is too wide. -/
def text? (p : Problem Float) : Option String := do
  let supply ← p.supplyGrid.bracketed?
  let consumption ← p.consumptionGrid.bracketed?
  let profit ← p.profitGrid.bracketed?
  some ("Problem: \x7b\n    supply:\n" ++ indented supply ++ "\n    consumption:\n" ++ indented consumption
    ++ "\n    profit:\n" ++ indented profit ++ "\n\x7d")

end Problem
end CuttingPlane
