import CuttingPlane.Decimal.Layout

/-!
# JSON values and their text

A tree of JSON values and its two written forms: on one line without blanks, and indented by two
spaces per level. Numbers that are not finite have no JSON form and are written `null`.
-/

namespace CuttingPlane

/-- A JSON value. A record lists its members in the order of writing. -/
inductive Json where
  | null
  | boolean (b : Bool)
  | natural (n : Nat)
  | real (x : Float)
  | text (s : String)
  | list (items : List Json)
  | record (members : List (String × Json))

namespace Json

inductive Style where
  | compact
  | pretty
deriving Repr, DecidableEq

def hexDigit (n : Nat) : Char :=
  if n < 10 then Char.ofNat ('0'.toNat + n) else Char.ofNat ('a'.toNat + (n - 10))

/-- A character inside a quoted text. Quotes, backslashes and control characters are escaped. -/
def escape (c : Char) : List Char :=
  if c = '"' then ['\\', '"']
  else if c = '\\' then ['\\', '\\']
  else if c = '\x08' then ['\\', 'b']
  else if c = '\t' then ['\\', 't']
  else if c = '\n' then ['\\', 'n']
  else if c = '\x0c' then ['\\', 'f']
  else if c = '\r' then ['\\', 'r']
  else if c.toNat < 32 then ['\\', 'u', '0', '0', hexDigit (c.toNat / 16), hexDigit (c.toNat % 16)]
  else [c]

def quote (s : String) : List Char :=
  '"' :: s.toList.flatMap escape ++ ['"']

def writeReal (x : Float) : List Char :=
  match Binary64.parts x with
  | .finite .. => Decimal.Form.json.write x
  | _ => "null".toList

namespace Style

/-- What stands between two lines at a depth. -/
def newline (style : Style) (depth : Nat) : List Char :=
  match style with
  | compact => []
  | pretty => '\n' :: List.replicate (2 * depth) ' '

def colon (style : Style) : List Char :=
  match style with
  | compact => [':']
  | pretty => [':', ' ']

end Style

mutual

/-- The text of a value that begins at a depth. -/
def write (style : Style) (depth : Nat) : Json → List Char
  | null => "null".toList
  | boolean b => (if b then "true" else "false").toList
  | natural n => Decimal.digitChars n
  | real x => writeReal x
  | text s => quote s
  | list items =>
    match items with
    | [] => "[]".toList
    | item :: rest =>
      '[' :: style.newline (depth + 1) ++ write style (depth + 1) item ++ writeItems style (depth + 1) rest
        ++ style.newline depth ++ [']']
  | record members =>
    match members with
    | [] => ['\x7b', '\x7d']
    | (name, value) :: rest =>
      '\x7b' :: style.newline (depth + 1) ++ quote name ++ style.colon ++ write style (depth + 1) value
        ++ writeMembers style (depth + 1) rest ++ style.newline depth ++ ['\x7d']

def writeItems (style : Style) (depth : Nat) : List Json → List Char
  | [] => []
  | item :: rest => ',' :: style.newline depth ++ write style depth item ++ writeItems style depth rest

def writeMembers (style : Style) (depth : Nat) : List (String × Json) → List Char
  | [] => []
  | (name, value) :: rest =>
    ',' :: style.newline depth ++ quote name ++ style.colon ++ write style depth value
      ++ writeMembers style depth rest

end

def render (style : Style) (value : Json) : String :=
  .ofList (write style 0 value)

end Json
end CuttingPlane
