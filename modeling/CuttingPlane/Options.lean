import CuttingPlane.Tableau.Basic

/-!
# Options of a solve
-/

namespace CuttingPlane

structure Options (α : Type) where
  /-- The tolerance of comparisons with zero and of wholeness. -/
  epsilon : α
  /-- The largest number of cuts. -/
  maxCuts : Nat
  /-- The pivots of one pass; without a limit it follows from the size of the tableau. -/
  maxPivots : Option Nat
deriving DecidableEq

namespace Options

def defaultEpsilon : Float := 1e-6

def defaultMaxCuts : Nat := 20

/-- Pivots per row and column where no limit is set. -/
def pivotsPerLine : Nat := 10

def default : Options Float := ⟨defaultEpsilon, defaultMaxCuts, none⟩

/-- The pivots of one pass over a tableau. -/
def pivotLimit {α : Type} (options : Options α) (t : Tableau α) : Nat :=
  options.maxPivots.getD (pivotsPerLine * (t.height + t.width))

end Options
end CuttingPlane
