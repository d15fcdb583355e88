import CuttingPlane.Event.Notice
import CuttingPlane.Plan.Basic
import CuttingPlane.Problem.Text

/-!
# The wording of planning

Error texts of planning, what a log says of it, and how planning ends that keeps a log.
-/

namespace CuttingPlane

def listText (texts : List String) : String :=
  "[" ++ ", ".intercalate texts ++ "]"

def numbersText (xs : List Float) : String :=
  listText (xs.map Decimal.listingText)

def Field.text : Field → String
  | .supply i => s!"Supply of resource {i}"
  | .consumption i j => s!"Consumption of resource {i} by product {j}"
  | .profit j => s!"Profit of product {j}"

def mismatchText (left right : String) (a b : Nat) : String :=
  s!"{left} != {right}\n{left} = {a}\n{right} = {b}"

def PlanError.message : PlanError Float → String
  | .rowCount rows supplies =>
    mismatchText "input.consumption.len()" "input.supply.len()" rows supplies
  | .rowLength entries profits => mismatchText "row.len()" "input.profit.len()" entries profits
  | .noProducts => "There must be at least one product"
  | .inadmissible fields =>
    "\n".intercalate (fields.map fun p =>
      p.1.text ++ " must be a non-negative number, got " ++ Decimal.plainText p.2)
  | .untabled reason => reason.message
  | .unsolved outcome => "No solution found: " ++ outcome

def PlanEvent.notice : PlanEvent Float → Notice
  | .received request =>
    let rows := listText (request.consumption.map numbersText)
    .of .info s!"Received input:\nsupply: {numbersText request.supply}\nconsumption: {rows}\nprofit: {numbersText request.profit}"
  | .shapesAgree => .of .info "Shape assertions passed"
  | .posed problem => ⟨.info, problem.text?⟩
  | .sized products resources => .of .info s!"Planning {products} products over {resources} resources"
  | .solving event => event.notice
  | .solved solution => .of .info s!"Solution:\n{solution.text}"

/-! ### Planning with a log -/

namespace Plan

/-- Why planning ends without an answer. -/
inductive Breakdown where
  | fault (fault : Fault)
  /-- What the log has to say cannot be put into words. -/
  | unwritable
deriving Repr, DecidableEq

/-- The log of planning from `least` up. -/
def Report.log (report : Report Float) (least : Severity) : Log (PlanEvent Float) :=
  .write PlanEvent.notice least report.events

/-- How planning ends with a log from `least?` up, or without a log. The log is written while the work goes
on, so a log that breaks off ends the work. -/
def Report.ending (report : Report Float) (least? : Option Severity) :
    Except Breakdown (Except (PlanError Float) (Plan Float)) :=
  if least?.any fun least => !(report.log least).isWhole then .error .unwritable
  else report.result.mapError .fault

end Plan
end CuttingPlane
