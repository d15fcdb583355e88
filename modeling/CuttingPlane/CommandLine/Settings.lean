import CuttingPlane.Decimal.Numeral
import CuttingPlane.Log

/-!
# Command line settings

The arguments of the program and what they set. Arguments are worked off from left to right, and the
first that cannot be used ends the reading, as do the requests for help and for the version.
-/

namespace CuttingPlane.CommandLine

structure Settings where
  /-- The file with the request; without one an example is planned. -/
  input : Option String := none
  /-- Print every snapshot. -/
  trace : Bool := false
  /-- Print the plan as JSON. -/
  json : Bool := false
  maxCuts : Option Nat := none
  epsilon : Option Float := none
  maxPivots : Option Nat := none
  /-- How often more log lines were asked for. -/
  verbosity : Nat := 0

/-- The least severity of the log lines that are shown. -/
def Settings.logLevel (s : Settings) : Severity :=
  match s.verbosity with
  | 0 => .warn
  | 1 => .info
  | 2 => .debug
  | _ => .trace

inductive Refusal where
  | misused
  | help
  | version
deriving Repr, DecidableEq

inductive Switch where
  | trace
  | json
  | verbose
  | help
  | version
deriving Repr, DecidableEq

inductive Setting where
  | input
  | maxCuts
  | epsilon
  | maxPivots
deriving Repr, DecidableEq

def Switch.ofName? (name : String) : Option Switch :=
  [("trace", trace), ("json", json), ("verbose", verbose), ("help", help), ("version", version)].lookup name

def Switch.ofLetter? (c : Char) : Option Switch :=
  [('t', trace), ('v', verbose), ('h', help), ('V', version)].lookup c

def Setting.ofName? (name : String) : Option Setting :=
  [("input", input), ("max-cuts", maxCuts), ("epsilon", epsilon), ("max-pivots", maxPivots)].lookup name

def Setting.ofLetter? (c : Char) : Option Setting :=
  [('i', input)].lookup c

/-- A natural number below `2 ^ 64` in decimal digits, with a plus sign if wanted. -/
def natural? (text : String) : Option Nat :=
  let ds := match text.toList with
    | '+' :: ds => ds
    | ds => ds
  if ds.isEmpty || !ds.all Char.isDigit then none
  else
    let n := Decimal.ofDigits ds
    if n < Nat.pow 2 64 then some n else none

/-- Turns a switch on. Only the asking for log lines can be repeated. -/
def Settings.turnOn (s : Settings) : Switch → Except Refusal Settings
  | .trace => if s.trace then .error .misused else .ok { s with trace := true }
  | .json => if s.json then .error .misused else .ok { s with json := true }
  | .verbose => .ok { s with verbosity := s.verbosity + 1 }
  | .help => .error .help
  | .version => .error .version

/-- Puts a value in a place that has none yet. -/
def assign {β : Type} (old new : Option β) (put : Option β → Settings) : Except Refusal Settings :=
  if old.isSome || new.isNone then .error .misused else .ok (put new)

/-- Gives a setting its value. No setting can be given twice. -/
def Settings.give (s : Settings) (setting : Setting) (value : String) : Except Refusal Settings :=
  match setting with
  | .input =>
    assign s.input (if value.isEmpty then none else some value) fun v => { s with input := v }
  | .maxCuts => assign s.maxCuts (natural? value) fun v => { s with maxCuts := v }
  | .epsilon => assign s.epsilon (Decimal.numeral? value.toList) fun v => { s with epsilon := v }
  | .maxPivots => assign s.maxPivots (natural? value) fun v => { s with maxPivots := v }

def splitAtEquals (cs : List Char) : List Char × Option (List Char) :=
  let name := cs.takeWhile (· != '=')
  match cs.dropWhile (· != '=') with
  | [] => (name, none)
  | _ :: value => (name, some value)

/-- Works off a long option after its dashes. A setting without a value is left over. -/
def Settings.readLong (s : Settings) (cs : List Char) : Except Refusal (Settings × Option Setting) := do
  let (name, value) := splitAtEquals cs
  let name := String.ofList name
  match Switch.ofName? name, Setting.ofName? name, value with
  | some switch, _, none => .ok (← s.turnOn switch, none)
  | none, some setting, some value => .ok (← s.give setting (.ofList value), none)
  | none, some setting, none => .ok (s, some setting)
  | _, _, _ => .error .misused

/-- Works off the letters after one dash. What follows the letter of a setting is its value, with or
without an equality sign; a setting without a value is left over. -/
def Settings.readLetters (s : Settings) : List Char → Except Refusal (Settings × Option Setting)
  | [] => .ok (s, none)
  | c :: cs =>
    match Switch.ofLetter? c, Setting.ofLetter? c with
    | some switch, _ =>
      match s.turnOn switch with
      | .ok s => s.readLetters cs
      | .error refusal => .error refusal
    | none, some setting =>
      match cs with
      | [] => .ok (s, some setting)
      | '=' :: value => do .ok (← s.give setting (.ofList value), none)
      | value => do .ok (← s.give setting (.ofList value), none)
    | none, none => .error .misused

/-- Works off one argument. There are only options, no other arguments. -/
def Settings.readArgument (s : Settings) (arg : String) : Except Refusal (Settings × Option Setting) :=
  match arg.toList with
  | '-' :: '-' :: name => s.readLong name
  | '-' :: c :: letters => s.readLetters (c :: letters)
  | _ => .error .misused

/-- Whether an argument can only be an option. -/
def isOption (arg : String) : Bool :=
  match arg.toList with
  | '-' :: _ :: _ => true
  | _ => false

/-- Works off all arguments. A pair of dashes ends the options, and nothing may follow it. -/
def Settings.read (s : Settings) : List String → Except Refusal Settings
  | [] => .ok s
  | arg :: rest =>
    if arg = "--" then if rest.isEmpty then .ok s else .error .misused
    else
      match s.readArgument arg with
      | .error refusal => .error refusal
      | .ok (s, none) => s.read rest
      | .ok (s, some setting) =>
        match rest with
        | [] => .error .misused
        | value :: rest =>
          -- What looks like an option is not taken for a value, be it a negative number.
          if isOption value then .error .misused
          else
            match s.give setting value with
            | .error refusal => .error refusal
            | .ok s => s.read rest

end CuttingPlane.CommandLine
