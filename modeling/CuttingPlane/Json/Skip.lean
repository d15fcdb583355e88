import CuttingPlane.Json.Token

/-!
# Skipping values

A value that nobody asked for is passed over. It has to be JSON, to any depth, but less is checked
than of a value that is read: a number may be out of range, and escapes in a quoted text need only
their hexadecimal digits.
-/

namespace CuttingPlane.Json

inductive Bracket where
  | square
  | curly
deriving Repr, DecidableEq

def Bracket.close : Bracket → Char
  | .square => ']'
  | .curly => '\x7d'

/-- Passes over the digits at the front, of which there has to be one. -/
def skipDigits (cs : List Char) : Except Offence (List Char) :=
  match Decimal.spanDigits cs with
  | ([], _) => .error .malformed
  | (_, rest) => .ok rest

def skipPower : List Char → Except Offence (List Char)
  | c :: cs => if c = 'e' ∨ c = 'E' then skipDigits (Decimal.takeSign cs).2 else .ok (c :: cs)
  | [] => .ok []

def skipNumber (cs : List Char) : Except Offence (List Char) := do
  let rest ← match Decimal.spanDigits cs with
    | ([], _) => .error .malformed
    | ('0' :: _ :: _, _) => .error .malformed
    | (_, rest) => .ok rest
  match rest with
  | '.' :: more => skipPower (← skipDigits more)
  | _ => skipPower rest

/-- Passes over the next character of a quoted text; nothing is left to pass over at the closing
quote. -/
def skipChar : List Char → Except Offence (Bool × List Char)
  | [] => .error .truncated
  | '"' :: cs => .ok (false, cs)
  | ['\\'] => .error .truncated
  | '\\' :: 'u' :: cs => do
    let (_, cs) ← readHex cs
    .ok (true, cs)
  | '\\' :: c :: cs => if (unescape? c).isSome then .ok (true, cs) else .error .malformed
  | c :: cs => if c.toNat < 32 then .error .malformed else .ok (true, cs)

def skipChars : (bound : List Char) → List Char → Except Offence (List Char)
  | [], _ => .error .truncated
  | _ :: bound, cs => do
    match ← skipChar cs with
    | (false, cs) => .ok cs
    | (true, cs) => skipChars bound cs

def skipQuoted (cs : List Char) : Except Offence (List Char) :=
  skipChars cs cs

def skipScalar : List Char → Except Offence (List Char)
  | [] => .error .truncated
  | c :: rest =>
    if c = 'n' then expectWord "ull".toList rest
    else if c = 't' then expectWord "rue".toList rest
    else if c = 'f' then expectWord "alse".toList rest
    else if c = '"' then skipQuoted rest
    else if c = '-' then skipNumber rest
    else if c.isDigit then skipNumber (c :: rest)
    else .error .malformed

/-- Passes over what stands before an item inside a bracket: the name of a member and its colon. -/
def skipName (bracket : Bracket) (cs : List Char) : Except Offence (List Char) :=
  match bracket with
  | .square => .ok cs
  | .curly => do
    let cs ← expectChar '"' cs
    let cs ← skipQuoted cs
    expectChar ':' cs

/-- Passes over what follows a value inside brackets: closing brackets up to a comma, or up to the
end of the outermost one. What is left of the brackets is given back. -/
def leaveBrackets : List Bracket → List Char → Except Offence (List Bracket × List Char)
  | [], cs => .ok ([], cs)
  | bracket :: outer, cs =>
    match skipBlanks cs with
    | [] => .error .truncated
    | c :: rest =>
      if c = ',' then .ok (bracket :: outer, rest)
      else if c = bracket.close then leaveBrackets outer rest
      else .error .malformed

def Bracket.ofChar? (c : Char) : Option Bracket :=
  if c = '[' then some .square else if c = '\x7b' then some .curly else none

/-- Passes over a value inside of brackets and over all that follows in them. -/
def skipInside : (bound : List Char) → (outer : List Bracket) → List Char → Except Offence (List Char)
  | [], _, _ => .error .truncated
  | _ :: bound, outer, cs => do
    let onward := fun (left : List Bracket × List Char) =>
      match left with
      | ([], rest) => .ok rest
      | (bracket :: outer, rest) => do skipInside bound (bracket :: outer) (← skipName bracket rest)
    match skipBlanks cs with
    | [] => .error .truncated
    | c :: rest =>
      match Bracket.ofChar? c with
      | none => onward (← leaveBrackets outer (← skipScalar (c :: rest)))
      | some bracket =>
        -- Nothing stands in an empty bracket, so it is left at once.
        if (skipBlanks rest).head? = some bracket.close then
          onward (← leaveBrackets outer ((skipBlanks rest).drop 1))
        else onward (bracket :: outer, rest)

def skipValue (cs : List Char) : Except Offence (List Char) :=
  skipInside cs [] cs

end CuttingPlane.Json
