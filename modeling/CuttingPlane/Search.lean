import CuttingPlane.Event.Basic
import CuttingPlane.Tableau.Exchange

/-!
# The search for an optimum

One pass of the simplex method. At every tableau a rule either halts or names the next pivot: first
rows with a negative right-hand side are repaired, then columns that improve the objective enter the
basis. The pass follows the rule until it halts or a budget of pivots is spent. The budget matters:
degenerate tableaus can cycle under this choice of pivots.

All comparisons have a tolerance `ε`: a number counts as negative below `-ε` and as positive above
`ε`.
-/

namespace CuttingPlane

/-- What a pivot is made for. -/
inductive Purpose where
  | repair
  | improve
deriving Repr, DecidableEq

/-- What a rule says at a tableau. -/
inductive Move (ν : Type) where
  | halt (verdict : ν)
  | pivot (purpose : Purpose) (row column : Nat)
deriving Repr, DecidableEq

/-- A rule: the move at a tableau, the events that finding it leaves, and how a pass ends that has no
pivot left where the rule asks for one. -/
structure Rule (α ν : Type) where
  move : Tableau α → Move ν
  notes : Tableau α → List (Event α)
  stalled : ν
  spent : Purpose → Nat → Event α

/-- The state of the right-hand sides after a repair. -/
inductive Feasibility where
  | feasible
  /-- The row has a negative right-hand side and no negative coefficient to pivot on. -/
  | stuck (row : Nat)
  /-- The budget was spent before every row was feasible. -/
  | stalled
deriving Repr, DecidableEq

inductive Verdict where
  | optimal
  /-- The column improves the objective and no row limits it. -/
  | unbounded (column : Nat)
  /-- No column improves the objective, and the row cannot be made feasible. -/
  | infeasible (row : Nat)
  /-- The budget was spent. -/
  | stalled
deriving Repr, DecidableEq

namespace Tableau

variable {α : Type} [Scalar α]

/-- Makes one pivot and records it. -/
def pivotStep (t : Tableau α) (r s : Nat) : Run α (Except Fault Unit) :=
  match t.nonbasic[s]?, t.basic[r]? with
  | some entering, some leaving =>
    let element := t.entry r s
    -- The pivot is announced before its element is looked at.
    if element == 0 then
      ⟨.error (.zeroPivot r s), t, [.pivoting r s entering leaving element, .zeroElement r s]⟩
    else
      let after := t.pivot r s
      ⟨.ok (), after, [.pivoting r s entering leaving element, .pivoted r s entering leaving after]⟩
  | _, _ => ⟨.error .outOfRange, t, []⟩

/-- Keeps the better of two rows; the earlier one stays if it is at most as large. -/
def keepSmaller (best : Option (Nat × α)) (next : Nat × α) : Option (Nat × α) :=
  match best with
  -- With a NaN on either side the comparison fails, and the later row stays.
  | some (i, q) => if q ≤ next.2 then some (i, q) else some next
  | none => some next

end Tableau

namespace Reading

variable {m : Type → Type} [Monad m] (read : Reading m) {α : Type} [Scalar α]

/-! ### Choices -/

/-- The first row, other than the objective, with a negative right-hand side. -/
def infeasibleRow (t : Tableau α) (ε : α) : m (Option Nat) :=
  (List.range t.objectiveRow).findM? fun i => return decide ((← read.rhs t i) < -ε)

/-- The first negative coefficient of row `i`. -/
def negativeColumn (t : Tableau α) (i : Nat) (ε : α) : m (Option Nat) :=
  (List.range' 1 (t.width - 1)).findM? fun j => return decide ((← read.entry t i j) < -ε)

/-- The leftmost column that improves the objective. -/
def enteringColumn (t : Tableau α) (ε : α) : m (Option Nat) :=
  read.negativeColumn t t.objectiveRow ε

/-- The rows that limit the variable of column `s`, each with the limit. -/
def ratios (t : Tableau α) (s : Nat) (ε : α) : m (List (Nat × α)) :=
  (List.range t.objectiveRow).filterMapM fun i => do
    let coefficient ← read.entry t i s
    if ε < coefficient then return some (i, (← read.rhs t i) / coefficient) else return none

/-- The row that limits the variable of column `s` most; the first of several. -/
def leavingRow (t : Tableau α) (s : Nat) (ε : α) : m (Option Nat) :=
  return ((← read.ratios t s ε).foldl Tableau.keepSmaller none).map Prod.fst

/-! ### Moves -/

/-- Repairs the first infeasible row with its first negative coefficient. -/
def repairMove (t : Tableau α) (ε : α) : m (Move Feasibility) := do
  match ← read.infeasibleRow t ε with
  | none => return .halt .feasible
  | some r =>
    match ← read.negativeColumn t r ε with
    | none => return .halt (.stuck r)
    | some s => return .pivot .repair r s

def repairNotes (t : Tableau α) (ε : α) : m (List (Event α)) := do
  match ← read.repairMove t ε with
  | .halt (.stuck r) => return [.stuck r (← read.rowLabel t r) (← read.rhs t r)]
  | _ => return []

/-- Repairs while that is possible, then improves. A row that is stuck does not keep the objective
from being improved, it only decides the verdict. -/
def searchMove (t : Tableau α) (ε : α) : m (Move Verdict) := do
  match ← read.repairMove t ε with
  | .pivot purpose r s => return .pivot purpose r s
  | .halt state =>
    match ← read.enteringColumn t ε with
    | none =>
      match state with
      | .feasible => return .halt .optimal
      | .stuck r => return .halt (.infeasible r)
      -- A move of a repair never halts in this state, only a pass does.
      | .stalled => return .halt .stalled
    | some s =>
      match ← read.leavingRow t s ε with
      | none => return .halt (.unbounded s)
      | some r => return .pivot .improve r s

def ratioNotes (t : Tableau α) (s : Nat) (ε : α) : m (List (Event α)) :=
  return (← read.ratios t s ε).map fun p => .ratio p.1 p.2

/-- The notes of a search that repairs nothing and looks for an improvement. -/
def improveNotes (t : Tableau α) (state : Feasibility) (ε : α) : m (List (Event α)) := do
  match ← read.enteringColumn t ε with
  | none => return if state = .feasible then [.optimum t] else []
  | some s =>
    let tests ← read.ratioNotes t s ε
    match ← read.leavingRow t s ε with
    | none => return tests ++ [.unlimited s (← read.columnLabel t s)]
    | some _ => return tests

def searchNotes (t : Tableau α) (ε : α) : m (List (Event α)) := do
  match ← read.repairMove t ε with
  | .pivot .. => return []
  | .halt state => return (← read.repairNotes t ε) ++ (← read.improveNotes t state ε)

end Reading

namespace Tableau

variable {α : Type} [Scalar α]

/-! ### Choices and moves with stand-ins -/

def infeasibleRow? (t : Tableau α) (ε : α) : Option Nat := (Reading.total.infeasibleRow t ε).run

def negativeColumn? (t : Tableau α) (i : Nat) (ε : α) : Option Nat := (Reading.total.negativeColumn t i ε).run

def enteringColumn? (t : Tableau α) (ε : α) : Option Nat := (Reading.total.enteringColumn t ε).run

def ratios (t : Tableau α) (s : Nat) (ε : α) : List (Nat × α) := (Reading.total.ratios t s ε).run

def leavingRow? (t : Tableau α) (s : Nat) (ε : α) : Option Nat := (Reading.total.leavingRow t s ε).run

def repairMove (t : Tableau α) (ε : α) : Move Feasibility := (Reading.total.repairMove t ε).run

def repairNotes (t : Tableau α) (ε : α) : List (Event α) := (Reading.total.repairNotes t ε).run

def searchMove (t : Tableau α) (ε : α) : Move Verdict := (Reading.total.searchMove t ε).run

def ratioNotes (t : Tableau α) (s : Nat) (ε : α) : List (Event α) := (Reading.total.ratioNotes t s ε).run

def improveNotes (t : Tableau α) (state : Feasibility) (ε : α) : List (Event α) :=
  (Reading.total.improveNotes t state ε).run

def searchNotes (t : Tableau α) (ε : α) : List (Event α) := (Reading.total.searchNotes t ε).run

/-- The ratio test on a column that has to exist, if there are rows to test. -/
def leavingRowStep (t : Tableau α) (s : Nat) (ε : α) : Run α (Except Fault (Option Nat)) :=
  match Reading.checked.leavingRow t s ε with
  | .ok row => ⟨.ok row, t, t.ratioNotes s ε⟩
  | .error fault => ⟨.error fault, t, []⟩

section Equations

variable (t : Tableau α) (ε : α) (i s : Nat)

theorem infeasibleRow?_eq :
    t.infeasibleRow? ε = (List.range t.objectiveRow).find? fun i => t.rhs i < -ε :=
  findM?_eq_pure (m := Id) fun _ _ => rfl

theorem negativeColumn?_eq :
    t.negativeColumn? i ε = (List.range' 1 (t.width - 1)).find? fun j => t.entry i j < -ε :=
  findM?_eq_pure (m := Id) fun _ _ => rfl

theorem enteringColumn?_eq : t.enteringColumn? ε = t.negativeColumn? t.objectiveRow ε := rfl

theorem ratios_eq : t.ratios s ε = (List.range t.objectiveRow).filterMap fun i =>
    if ε < t.entry i s then some (i, t.rhs i / t.entry i s) else none :=
  filterMapM_eq_pure (m := Id) fun _ _ => rfl

theorem leavingRow?_eq : t.leavingRow? s ε = ((t.ratios s ε).foldl keepSmaller none).map Prod.fst := rfl

theorem ratioNotes_eq : t.ratioNotes s ε = (t.ratios s ε).map fun p => .ratio p.1 p.2 := rfl

theorem repairMove_eq : t.repairMove ε =
    match t.infeasibleRow? ε with
    | none => .halt .feasible
    | some r =>
      match t.negativeColumn? r ε with
      | none => .halt (.stuck r)
      | some s => .pivot .repair r s := rfl

theorem repairNotes_eq : t.repairNotes ε =
    match t.repairMove ε with
    | .halt (.stuck r) => [.stuck r (t.rowLabel r) (t.rhs r)]
    | _ => [] := rfl

theorem searchMove_eq : t.searchMove ε =
    match t.repairMove ε with
    | .pivot purpose r s => .pivot purpose r s
    | .halt state =>
      match t.enteringColumn? ε with
      | none =>
        match state with
        | .feasible => .halt .optimal
        | .stuck r => .halt (.infeasible r)
        | .stalled => .halt .stalled
      | some s =>
        match t.leavingRow? s ε with
        | none => .halt (.unbounded s)
        | some r => .pivot .improve r s := rfl

theorem improveNotes_eq (state : Feasibility) : t.improveNotes state ε =
    match t.enteringColumn? ε with
    | none => if state = .feasible then [.optimum t] else []
    | some s =>
      match t.leavingRow? s ε with
      | none => t.ratioNotes s ε ++ [.unlimited s (t.columnLabel s)]
      | some _ => t.ratioNotes s ε := rfl

theorem searchNotes_eq : t.searchNotes ε =
    match t.repairMove ε with
    | .pivot .. => []
    | .halt state => t.repairNotes ε ++ t.improveNotes state ε := rfl

end Equations

end Tableau

/-! ### Passes -/

variable {α : Type} [Scalar α]

def repairRule (ε : α) : Rule α Feasibility where
  move t := t.repairMove ε
  notes t := t.repairNotes ε
  stalled := .stalled
  spent _ r := .repairsSpent r

/-- The rule of a whole pass that may make `limit` pivots. -/
def searchRule (ε : α) (limit : Nat) : Rule α Verdict where
  move t := t.searchMove ε
  notes t := t.searchNotes ε
  stalled := .stalled
  spent
    | .repair, r => .repairsSpent r
    | .improve, _ => .pivotsSpent limit

def Purpose.announce (purpose : Purpose) (row : Nat) : List (Event α) :=
  match purpose with
  | .repair => [.repairing row]
  | .improve => []

/-- Follows a rule for at most `budget` pivots. The result is the verdict and what is left of the
budget. -/
def Rule.follow {ν : Type} (rule : Rule α ν) : (budget : Nat) → Tableau α → Run α (Except Fault (ν × Nat))
  | 0, t =>
    match rule.move t with
    | .halt verdict => ⟨.ok (verdict, 0), t, rule.notes t⟩
    -- Without a pivot to spend, a rule may still halt; only its asking for one ends the pass.
    | .pivot purpose r _ => ⟨.ok (rule.stalled, 0), t, rule.notes t ++ [rule.spent purpose r]⟩
  | budget + 1, t =>
    match rule.move t with
    | .halt verdict => ⟨.ok (verdict, budget + 1), t, rule.notes t⟩
    | .pivot purpose r s =>
      let step := t.pivotStep r s
      let seen := rule.notes t ++ purpose.announce r ++ step.events
      match step.result with
      | .error fault => ⟨.error fault, step.tableau, seen⟩
      | .ok () =>
        let rest := rule.follow budget step.tableau
        ⟨rest.result, rest.tableau, seen ++ rest.events⟩

namespace Tableau

def restore (t : Tableau α) (ε : α) (budget : Nat) : Run α (Except Fault (Feasibility × Nat)) :=
  (repairRule ε).follow budget t

/-- Repairs negative right-hand sides and improves the objective until nothing is left to do. -/
def optimize (t : Tableau α) (ε : α) (budget : Nat) : Run α (Except Fault Verdict) :=
  let run := (searchRule ε budget).follow budget t
  ⟨run.result.map Prod.fst, run.tableau, run.events⟩

end Tableau
end CuttingPlane
