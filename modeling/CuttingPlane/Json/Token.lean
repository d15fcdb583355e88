import CuttingPlane.Json.Number

/-!
# JSON tokens

Blanks, numbers, quoted texts and words at the front of a JSON text. Reading goes from left to right
and stops at the first offence. Everything here is strict: no leading zeros or plus signs, no control
characters in a quoted text and no half of a surrogate pair.
-/

namespace CuttingPlane.Json

inductive Offence where
  /-- It is no JSON, or holds a number out of the range of doubles. -/
  | malformed
  /-- It is JSON so far, but not of the type that is wanted. -/
  | mistyped
  /-- It ends too early. -/
  | truncated
  /-- It announces a grid with more entries than can be counted in 64 bits. -/
  | oversized
deriving Repr, DecidableEq

/-- A reader takes a value from the front of a text and leaves the rest. Where a reader repeats a step
that takes up at least one character, the text itself bounds the number of steps: a list of characters
is handed on that loses one with every step, and when it is empty, so is what is left of the text. -/
abbrev Reader (β : Type) := List Char → Except Offence (β × List Char)

/-! ### Blanks and words -/

/-- Whether a character may stand between tokens. -/
def isBlank (c : Char) : Bool :=
  c == ' ' || c == '\n' || c == '\t' || c == '\r'

def skipBlanks (cs : List Char) : List Char :=
  cs.dropWhile isBlank

def expectWord : (word : List Char) → List Char → Except Offence (List Char)
  | [], cs => .ok cs
  | _ :: _, [] => .error .truncated
  | w :: ws, c :: cs => if c = w then expectWord ws cs else .error .malformed

/-- Takes one character, after blanks. -/
def expectChar (wanted : Char) (cs : List Char) : Except Offence (List Char) :=
  match skipBlanks cs with
  | [] => .error .truncated
  | c :: rest => if c = wanted then .ok rest else .error .malformed

/-! ### Numbers -/

/-- The offence of a text in which a digit is wanted and not found. -/
def noDigit : List Char → Offence
  | [] => .truncated
  | _ :: _ => .malformed

/-- The digits before the point: one zero, or digits that begin with another one. -/
def readWhole (cs : List Char) : Except Offence (List Char × List Char) :=
  match Decimal.spanDigits cs with
  | ([], rest) => .error (noDigit rest)
  | ('0' :: _ :: _, _) => .error .malformed
  | (ds, rest) => .ok (ds, rest)

/-- The digits after a point, if there is one. -/
def readFraction : List Char → Except Offence (List Char × List Char)
  | '.' :: cs =>
    match Decimal.spanDigits cs with
    | ([], rest) => .error (noDigit rest)
    | (ds, rest) => .ok (ds, rest)
  | cs => .ok ([], cs)

/-- The power of ten after its mark, if there is one. -/
def readPower : List Char → Except Offence (Option Int × List Char)
  | c :: cs =>
    if c = 'e' ∨ c = 'E' then
      let (negative, rest) := Decimal.takeSign cs
      match Decimal.spanDigits rest with
      | ([], rest) => .error (noDigit rest)
      | (ds, rest) =>
        let size : Int := Decimal.ofDigits ds
        .ok (some (if negative then -size else size), rest)
    else .ok (none, c :: cs)
  | [] => .ok (none, [])

/-- Takes a number from the front. One that is too large is refused, also where no double is wanted. -/
def readNumber : Reader Number := fun cs => do
  let (negative, cs) := match cs with
    | '-' :: rest => (true, rest)
    | _ => (false, cs)
  let (whole, cs) ← readWhole cs
  let (fraction, cs) ← readFraction cs
  let (power, cs) ← readPower cs
  let number : Number := { negative, whole, fraction, power }
  if number.toFloat?.isSome then .ok (number, cs) else .error .malformed

/-! ### Quoted texts -/

def hexValue? (c : Char) : Option Nat :=
  if '0' ≤ c ∧ c ≤ '9' then some (c.toNat - '0'.toNat)
  else if 'a' ≤ c ∧ c ≤ 'f' then some (c.toNat - 'a'.toNat + 10)
  else if 'A' ≤ c ∧ c ≤ 'F' then some (c.toNat - 'A'.toNat + 10)
  else none

def byteCount (cs : List Char) : Nat :=
  cs.foldl (fun n c => n + c.utf8Size) 0

/-- Four hexadecimal digits. With fewer than four bytes left the text counts as cut off. -/
def readHex : Reader Nat
  | a :: b :: c :: d :: rest =>
    match hexValue? a, hexValue? b, hexValue? c, hexValue? d with
    | some a, some b, some c, some d => .ok (((a * 16 + b) * 16 + c) * 16 + d, rest)
    | _, _, _, _ => .error .malformed
  | cs => .error (if byteCount cs < 4 then .truncated else .malformed)

def unescape? (c : Char) : Option Char :=
  if c = '"' ∨ c = '\\' ∨ c = '/' then some c
  else if c = 'b' then some '\x08'
  else if c = 'f' then some '\x0c'
  else if c = 'n' then some '\n'
  else if c = 'r' then some '\r'
  else if c = 't' then some '\t'
  else none

/-- Takes the second half of a surrogate pair and puts it together with the first. -/
def readLowSurrogate (high : Nat) (cs : List Char) : Except Offence (Char × List Char) := do
  let cs ← expectWord ['\\', 'u'] cs
  let (low, cs) ← readHex cs
  if 0xDC00 ≤ low ∧ low ≤ 0xDFFF then
    .ok (Char.ofNat (0x10000 + (high - 0xD800) * 0x400 + (low - 0xDC00)), cs)
  else .error .malformed

def readEscape : Reader Char
  | [] => .error .truncated
  | c :: cs =>
    if c = 'u' then do
      let (n, cs) ← readHex cs
      if 0xDC00 ≤ n ∧ n ≤ 0xDFFF then .error .malformed
      else if 0xD800 ≤ n ∧ n ≤ 0xDBFF then readLowSurrogate n cs
      else .ok (Char.ofNat n, cs)
    else
      match unescape? c with
      | some c => .ok (c, cs)
      | none => .error .malformed

/-- The next character of a quoted text; nothing at the closing quote. -/
def readChar : Reader (Option Char)
  | [] => .error .truncated
  | c :: cs =>
    if c = '"' then .ok (none, cs)
    else if c = '\\' then do
      let (c, cs) ← readEscape cs
      .ok (some c, cs)
    else if c.toNat < 32 then .error .malformed
    else .ok (some c, cs)

def readChars : (bound : List Char) → Reader (List Char)
  | [], _ => .error .truncated
  | _ :: bound, cs => do
    match ← readChar cs with
    | (none, cs) => .ok ([], cs)
    | (some c, cs) =>
      let (text, cs) ← readChars bound cs
      .ok (c :: text, cs)

def readQuoted : Reader String := fun cs => do
  let (text, cs) ← readChars cs cs
  .ok (.ofList text, cs)

/-! ### The wrong type -/

/-- The offence of a value of the wrong type that was read with this result. -/
def Offence.ofReading {β : Type} : Except Offence β → Offence
  | .ok _ => .mistyped
  | .error offence => offence

/-- The offence of a value that is not of the type wanted. A word, a number or a quoted text has to be
in order first. -/
def offenceAt : List Char → Offence
  | [] => .truncated
  | c :: rest =>
    if c = 'n' then .ofReading (expectWord "ull".toList rest)
    else if c = 't' then .ofReading (expectWord "rue".toList rest)
    else if c = 'f' then .ofReading (expectWord "alse".toList rest)
    else if c = '"' then .ofReading (readQuoted rest)
    else if c = '-' ∨ c.isDigit then .ofReading (readNumber (c :: rest))
    else if c = '[' ∨ c = '\x7b' then .mistyped
    else .malformed

end CuttingPlane.Json
