import CuttingPlane.Cut
import CuttingPlane.Options
import CuttingPlane.Search
import CuttingPlane.Solution
import CuttingPlane.StopFlag

/-!
# Solving in whole numbers

Rounds of a pass of the simplex method and a cut, until every value is whole, a pass fails, or the
cuts are spent. A solve looks at its stop flag once per round, before the pass.
-/

namespace CuttingPlane

variable {α : Type} [Scalar α]

/-- A number, replaced by the nearest whole one if that is within `ε`. -/
def snap (x ε : α) : α :=
  let nearest := Scalar.round x
  if Scalar.abs (x - nearest) ≤ ε then nearest else x

namespace Tableau

/-- The solution read off a tableau at whose vertex every value is whole. -/
def wholeSolution (t : Tableau α) (ε : α) (cuts : Nat) : Solution α where
  outcome := .optimal
  values := t.solution.map fun x => snap x ε
  objective := some (snap t.objective ε)
  cuts := cuts
  trace := []

end Tableau

inductive Round (α : Type) where
  | ended (solution : Solution α)
  | cut

/-- The cut of a round after its pass reached an optimum. -/
def cutRound (ε : α) (cuts : Nat) (t : Tableau α) : Run α (Round α) :=
  match t.mostFractional? ε with
  | none => ⟨.ended (t.wholeSolution ε cuts), t, [.solved cuts]⟩
  | some (label, part) =>
    let cut := t.addCut label ε
    match cut.result with
    | .error reason =>
      -- A fractional row without a cut is taken to mean that there is no whole point.
      ⟨.ended (.failed .infeasible cuts), cut.tableau, .fractional label part :: cut.events ++ [.uncut reason]⟩
    | .ok _ => ⟨.cut, cut.tableau, .fractional label part :: cut.events⟩

/-- One round: a pass, then a cut. -/
def runRound (options : Options α) (cuts : Nat) (t : Tableau α) : Run α (Except Fault (Round α)) :=
  let pass := t.optimize options.epsilon (options.pivotLimit t)
  let seen := .round (cuts + 1) :: pass.events
  match pass.result with
  | .error fault => ⟨.error fault, pass.tableau, seen⟩
  | .ok (.unbounded _) => ⟨.ok (.ended (.failed .unbounded cuts)), pass.tableau, seen⟩
  | .ok (.infeasible _) => ⟨.ok (.ended (.failed .infeasible cuts)), pass.tableau, seen⟩
  | .ok .stalled =>
    ⟨.ok (.ended (.failed .nonConvergent cuts)), pass.tableau, seen ++ [.stalled cuts]⟩
  | .ok .optimal =>
    let next := cutRound options.epsilon cuts pass.tableau
    ⟨.ok next.result, next.tableau, seen ++ next.events⟩

/-- The rounds of a solve after `cuts` cuts and the history `past`, with `remaining` cuts to go before
the limit. -/
def rounds (options : Options α) (flag : StopFlag α) :
    (remaining cuts : Nat) → (past : List (Event α)) → Tableau α → Run α (Except Fault (Solution α))
  | remaining, cuts, past, t =>
    if flag.raised past then ⟨.ok (.failed .cancelled cuts), t, [.cancelled cuts]⟩
    else
      let now := runRound options cuts t
      match now.result with
      | .error fault => ⟨.error fault, now.tableau, now.events⟩
      | .ok (.ended solution) => ⟨.ok solution, now.tableau, now.events⟩
      | .ok .cut =>
        match remaining with
        | 0 =>
          -- The cut that goes past the limit is in the tableau already, and it counts.
          ⟨.ok (.failed .nonConvergent (cuts + 1)), now.tableau, now.events ++ [.cutsSpent options.maxCuts]⟩
        | remaining + 1 =>
          let rest := rounds options flag remaining (cuts + 1) (past ++ now.events) now.tableau
          ⟨rest.result, rest.tableau, now.events ++ rest.events⟩

namespace Tableau

/-- Solves a tableau in whole numbers. The snapshots are left in the history. -/
def solve (t : Tableau α) (options : Options α) (flag : StopFlag α) : Run α (Except Fault (Solution α)) :=
  rounds options flag options.maxCuts 0 [] t

/-- The solution of a finished solve, with the snapshots that its sink received. -/
def solveInto (t : Tableau α) (options : Options α) (sink : Sink) (flag : StopFlag α) :
    Run α (Except Fault (Solution α)) :=
  let run := t.solve options flag
  ⟨run.result.map fun s => { s with trace := sink.received run.events }, run.tableau, run.events⟩

/-- Solves with the usual options, never stopped, and keeps the snapshots. -/
def solveByDefault (t : Tableau Float) : Run Float (Except Fault (Solution Float)) :=
  t.solveInto .default .keep .never

end Tableau

/-! ### Solves in the background -/

/-- What joining a background solve gives: the solution with its snapshots, or the fault that ended the
solve. Whoever stops it meanwhile does so through the flag. -/
def Tableau.solveInBackground (t : Tableau α) (options : Options α) (flag : StopFlag α) :
    Except Fault (Solution α) :=
  (t.solveInto options .keep flag).result

end CuttingPlane
