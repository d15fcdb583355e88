import CuttingPlane.Tableau.Text

/-!
# Snapshots

A tableau as it stood after a step, kept under a title that names the step.
-/

namespace CuttingPlane

/-- A titled copy of a labelled grid. -/
structure Snapshot (α : Type) where
  title : String
  matrix : Grid α
  basic : List String
  nonbasic : List String
deriving DecidableEq

namespace Snapshot

def ofTableau {α : Type} (title : String) (t : Tableau α) : Snapshot α :=
  ⟨title, t.matrix, t.basic, t.nonbasic⟩

/-- The printed form: the title on a line of its own, then the grid. -/
def text (s : Snapshot Float) : String :=
  s.title ++ "\n" ++ labelledText s.matrix s.basic s.nonbasic

end Snapshot
end CuttingPlane
