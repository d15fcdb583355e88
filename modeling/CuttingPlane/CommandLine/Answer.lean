import CuttingPlane.CommandLine.Settings
import CuttingPlane.Json.Decode
import CuttingPlane.Json.Encode
import CuttingPlane.Plan.Text

/-!
# Answers of the program

What the program prints for its arguments and the text of its input file, and the code it ends with.
-/

namespace CuttingPlane.CommandLine

/-- The end of a run: the exit code, the output, the log and the error report. -/
structure Answer where
  code : Nat
  output : String := ""
  log : List LogLine := []
  report : String := ""

def versionText : String := "simplex-gomory 1.0.0\n"

def Refusal.answer : Refusal → Answer
  | .misused => { code := 2 }
  | .help => { code := 0 }
  | .version => { code := 0, output := versionText }

def failed (report : String) (log : List LogLine) : Answer :=
  { code := 1, log, report := "Error: " ++ report }

/-- The example that is planned without an input file: two toys from three resources. -/
def toyExample : PlanRequest Float where
  supply := [150, 130, 120]
  consumption := [[5, 2], [2, 3], [1, 7]]
  profit := [10, 20]
  options := .default

/-- The options of a request with those given as arguments in their place. -/
def Settings.override (s : Settings) (options : Options Float) : Options Float where
  epsilon := s.epsilon.getD options.epsilon
  maxCuts := s.maxCuts.getD options.maxCuts
  maxPivots := s.maxPivots.or options.maxPivots

def planText (plan : Plan Float) (withTrace : Bool) : String :=
  let steps := plan.trace.mapIdx fun i s => s!"Step {i + 1}: {s.text}\n"
  let amounts := plan.quantities.mapIdx fun j x => s!"x{j + 1} = {Decimal.roundedText x 6}\n"
  (if withTrace then String.join steps else "") ++ plan.message ++ "\n" ++ String.join amounts
    ++ s!"Maximal income: {Decimal.roundedText plan.maxIncome 6}\nCuts: {plan.cuts}\n"

/-- Plans for a request and prints the plan. -/
def Settings.plan (s : Settings) (request : PlanRequest Float) : Answer :=
  let report := Plan.compute { request with options := s.override request.options } .never
  let log := (report.log s.logLevel).lines
  match report.ending (some s.logLevel) with
  | .error _ => { code := 101, log }
  | .ok (.error reason) => failed reason.message log
  | .ok (.ok plan) =>
    let output := if s.json then plan.toJson.render .pretty ++ "\n" else planText plan s.trace
    { code := 0, output, log }

/-- The answer for a text of the input file, which is absent if the file cannot be read. -/
def Settings.answer (s : Settings) (contents : Option String) : Answer :=
  match s.input with
  | none => s.plan toyExample
  | some path =>
    match contents with
    | none => failed ("Reading " ++ path) []
    | some text =>
      match Json.readDocument PlanRequest.read text with
      | .error _ => failed ("Parsing " ++ path) []
      | .ok request => s.plan request

/-- The answer for the arguments, given the texts of the files that can be read. -/
def run (arguments : List String) (files : String → Option String) : Answer :=
  match ({} : Settings).read arguments with
  | .error refusal => refusal.answer
  | .ok s => s.answer (s.input.bind files)

end CuttingPlane.CommandLine
