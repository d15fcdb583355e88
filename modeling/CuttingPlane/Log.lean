/-!
# Logs

A log tells what happened, line by line, to a reader who asks for a least severity. What has to be said
of an event is a notice; the notices that matter enough are written, in order. A notice that cannot be
put into words breaks the work off at that point, but only if it would have been written.
-/

namespace CuttingPlane

inductive Severity where
  | error
  | warn
  | info
  | debug
  | trace
deriving Repr, DecidableEq

namespace Severity

/-- The rank of a severity, the gravest first. -/
def rank : Severity → Nat
  | error => 0
  | warn => 1
  | info => 2
  | debug => 3
  | trace => 4

def name : Severity → String
  | error => "error"
  | warn => "warn"
  | info => "info"
  | debug => "debug"
  | trace => "trace"

def ofName? (s : String) : Option Severity :=
  [error, warn, info, debug, trace].find? fun v => v.name == s

end Severity

structure LogLine where
  severity : Severity
  text : String
deriving Repr, DecidableEq

/-- What there is to say of an event: how much it matters and the wording, which is missing if a drawing
in it is too wide. -/
structure Notice where
  severity : Severity
  text? : Option String

namespace Notice

def of (severity : Severity) (text : String) : Notice :=
  ⟨severity, some text⟩

/-- Whether a notice is written into a log from `least` up. -/
def isWanted (n : Notice) (least : Severity) : Bool :=
  n.severity.rank ≤ least.rank

/-- Whether a log from `least` up can go on after a notice. -/
def isWritable (n : Notice) (least : Severity) : Bool :=
  !n.isWanted least || n.text?.isSome

/-- The line of a notice in a log from `least` up. -/
def line? (n : Notice) (least : Severity) : Option LogLine :=
  if n.isWanted least then n.text?.map fun text => ⟨n.severity, text⟩ else none

end Notice

/-- A log of work that went through `events`: all of the work if `isWhole`, and else what came before the
first notice that could not be written. -/
structure Log (ε : Type) where
  events : List ε
  lines : List LogLine
  isWhole : Bool

/-- The log of a history from `least` up. -/
def Log.write {ε : Type} (notice : ε → Notice) (least : Severity) (history : List ε) : Log ε :=
  let noticed := history.map fun e => (e, notice e)
  let written := noticed.takeWhile fun p => p.2.isWritable least
  { events := written.map Prod.fst
    lines := written.filterMap fun p => p.2.line? least
    isWhole := written.length == history.length }

end CuttingPlane
