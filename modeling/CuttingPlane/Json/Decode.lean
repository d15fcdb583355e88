import CuttingPlane.Json.Reader
import CuttingPlane.Plan.Basic

/-!
# Reading the library's types

The readers that go with the JSON forms of the library's types.
-/

namespace CuttingPlane

open Json

def Json.readReals : Reader (List Float) :=
  readList readReal

/-! ### Grids and snapshots -/

structure Grid.Draft where
  entries : Option (List Float) := none
  height : Option Nat := none
  width : Option Nat := none

/-- Entries with a height and a width, in this order. -/
def Grid.format : RecordFormat Grid.Draft (List Float × Nat × Nat) where
  start := {}
  slots := [
    .of "entries" readReals Draft.entries fun d x => { d with entries := some x },
    .of "height" readNat Draft.height fun d x => { d with height := some x },
    .of "width" readNat Draft.width fun d x => { d with width := some x }]
  finish d := do some (← d.entries, ← d.height, ← d.width)

/-- Reads a grid. The number of entries has to fit the height and the width. -/
def Grid.read : Reader (Grid Float) := fun cs => do
  let ((entries, height, width), cs) ← readTuple Grid.format cs
  if Nat.pow 2 64 ≤ height * width then .error .oversized
  else
    match Grid.ofColumns? entries height width with
    | some g => .ok (g, cs)
    | none => .error .mistyped

structure Snapshot.Draft where
  title : Option String := none
  matrix : Option (Grid Float) := none
  basic : Option (List String) := none
  nonbasic : Option (List String) := none

def Snapshot.format : RecordFormat Snapshot.Draft (Snapshot Float) where
  start := {}
  slots := [
    .of "step_title" readText Draft.title fun d x => { d with title := some x },
    .of "matrix" Grid.read Draft.matrix fun d x => { d with matrix := some x },
    .of "basic_vars" (readList readText) Draft.basic fun d x => { d with basic := some x },
    .of "nonbasic_vars" (readList readText) Draft.nonbasic fun d x => { d with nonbasic := some x }]
  finish d := do some ⟨← d.title, ← d.matrix, ← d.basic, ← d.nonbasic⟩

def Snapshot.read : Reader (Snapshot Float) :=
  readRecord Snapshot.format

/-! ### Outcomes and solutions -/

/-- Reads the name of an outcome after its opening quote. -/
def Outcome.readName : Reader Outcome := fun cs => do
  let (name, rest) ← readQuoted cs
  match Outcome.ofName? name with
  | some outcome => .ok (outcome, rest)
  | none => .error .mistyped

def Json.readNull (cs : List Char) : Except Offence (List Char) :=
  match skipBlanks cs with
  | [] => .error .truncated
  | 'n' :: rest => expectWord "ull".toList rest
  | cs => .error (offenceAt cs)

/-- Reads an outcome: its name, or a record of the name and `null`. -/
def Outcome.read : Reader Outcome := fun cs =>
  match skipBlanks cs with
  | [] => .error .truncated
  | c :: rest =>
    if c = '"' then Outcome.readName rest
    else if c = '\x7b' then do
      let (outcome, rest) ← Outcome.readName (← expectChar '"' rest)
      let rest ← readNull (← expectChar ':' rest)
      let rest ← expectChar '\x7d' rest
      .ok (outcome, rest)
    else .error .malformed

/-- The values by name and the closing bracket. -/
def Valuation.readValues : (bound : List Char) → (first : Bool) → Valuation Float → Reader (Valuation Float)
  | [], _, _, _ => .error .truncated
  | _ :: bound, first, values, cs => do
    match ← nextItem '\x7d' first cs with
    | none =>
      let rest ← expectChar '\x7d' cs
      .ok (values, rest)
    | some cs =>
      let cs ← expectChar '"' cs
      let (name, cs) ← readQuoted cs
      let (x, cs) ← readReal (← expectChar ':' cs)
      readValues bound false (values.set name x) cs

/-- Reads values by name. Of a name that comes twice the later value counts. -/
def Valuation.read : Reader (Valuation Float) := fun cs =>
  match skipBlanks cs with
  | [] => .error .truncated
  | c :: rest =>
    if c = '\x7b' then readValues rest true .empty rest
    else .error (offenceAt (c :: rest))

structure Solution.Draft where
  outcome : Option Outcome := none
  values : Option (Valuation Float) := none
  objective : Option (Option Float) := none
  cuts : Option Nat := none
  trace : Option (List (Snapshot Float)) := none

/-- The members of a solution. The objective may be missing. -/
def Solution.format : RecordFormat Solution.Draft (Solution Float) where
  start := {}
  slots := [
    .of "outcome" Outcome.read Draft.outcome fun d x => { d with outcome := some x },
    .of "values" Valuation.read Draft.values fun d x => { d with values := some x },
    .of "objective" (readOptional readReal) Draft.objective fun d x => { d with objective := some x },
    .of "cuts" readNat Draft.cuts fun d x => { d with cuts := some x },
    .of "trace" (readList Snapshot.read) Draft.trace fun d x => { d with trace := some x }]
  finish d := do some ⟨← d.outcome, ← d.values, d.objective.getD none, ← d.cuts, ← d.trace⟩

def Solution.read : Reader (Solution Float) :=
  readRecord Solution.format

/-! ### Options, problems, requests and plans -/

structure Options.Draft where
  epsilon : Option Float := none
  maxCuts : Option Nat := none
  maxPivots : Option (Option Nat) := none

/-- The members of options. Each of them may be missing and is then the usual one. -/
def Options.format : RecordFormat Options.Draft (Options Float) where
  start := {}
  slots := [
    .of "epsilon" readReal Draft.epsilon fun d x => { d with epsilon := some x },
    .of "max_cuts" readNat Draft.maxCuts fun d x => { d with maxCuts := some x },
    .of "max_pivots" (readOptional readNat) Draft.maxPivots fun d x => { d with maxPivots := some x }]
  finish d := some ⟨d.epsilon.getD defaultEpsilon, d.maxCuts.getD defaultMaxCuts, d.maxPivots.getD none⟩

def Options.read : Reader (Options Float) :=
  readRecord Options.format

structure Problem.Draft where
  supply : Option (List Float) := none
  consumption : Option (List (List Float)) := none
  profit : Option (List Float) := none

def Problem.format : RecordFormat Problem.Draft (Problem Float) where
  start := {}
  slots := [
    .of "supply" readReals Draft.supply fun d x => { d with supply := some x },
    .of "consumption" (readList readReals) Draft.consumption fun d x => { d with consumption := some x },
    .of "profit" readReals Draft.profit fun d x => { d with profit := some x }]
  finish d := do some ⟨← d.supply, ← d.consumption, ← d.profit⟩

def Problem.read : Reader (Problem Float) :=
  readRecord Problem.format

structure PlanRequest.Draft where
  supply : Option (List Float) := none
  consumption : Option (List (List Float)) := none
  profit : Option (List Float) := none
  options : Option (Options Float) := none

/-- The members of a request. The options may be missing and are then the usual ones. -/
def PlanRequest.format : RecordFormat PlanRequest.Draft (PlanRequest Float) where
  start := {}
  slots := [
    .of "supply" readReals Draft.supply fun d x => { d with supply := some x },
    .of "consumption" (readList readReals) Draft.consumption fun d x => { d with consumption := some x },
    .of "profit" readReals Draft.profit fun d x => { d with profit := some x },
    .of "options" Options.read Draft.options fun d x => { d with options := some x }]
  finish d := do some ⟨← d.supply, ← d.consumption, ← d.profit, d.options.getD .default⟩

def PlanRequest.read : Reader (PlanRequest Float) :=
  readRecord PlanRequest.format

structure Plan.Draft where
  quantities : Option (List Float) := none
  maxIncome : Option Float := none
  cuts : Option Nat := none
  message : Option String := none
  trace : Option (List (Snapshot Float)) := none

def Plan.format : RecordFormat Plan.Draft (Plan Float) where
  start := {}
  slots := [
    .of "quantities" readReals Draft.quantities fun d x => { d with quantities := some x },
    .of "maxIncome" readReal Draft.maxIncome fun d x => { d with maxIncome := some x },
    .of "cuts" readNat Draft.cuts fun d x => { d with cuts := some x },
    .of "message" readText Draft.message fun d x => { d with message := some x },
    .of "trace" (readList Snapshot.read) Draft.trace fun d x => { d with trace := some x }]
  finish d := do some ⟨← d.quantities, ← d.maxIncome, ← d.cuts, ← d.message, ← d.trace⟩

def Plan.read : Reader (Plan Float) :=
  readRecord Plan.format

end CuttingPlane
