import CuttingPlane.Json.Skip

/-!
# Reading typed JSON

Readers for numbers, texts, lists and records. A record may be written with its members by name, in
any order and with others between them, or as a list of its members in their order. Reading stops at
the first offence: a value of the wrong type, a member that comes twice, and at the end of a record a
member that is missing.
-/

namespace CuttingPlane.Json

/-! ### Values without parts -/

/-- A number, given to `use`. -/
def readNumberAs {β : Type} (use : Number → Option β) : Reader β := fun cs =>
  match skipBlanks cs with
  | [] => .error .truncated
  | c :: rest =>
    if c = '-' ∨ c.isDigit then do
      let (number, rest) ← readNumber (c :: rest)
      match use number with
      | some x => .ok (x, rest)
      | none => .error .mistyped
    else .error (offenceAt (c :: rest))

/-- A double: any number. -/
def readReal : Reader Float :=
  readNumberAs Number.toFloat?

/-- A natural number below `2 ^ 64`, written without point and exponent. -/
def readNat : Reader Nat :=
  readNumberAs Number.toNat?

def readText : Reader String := fun cs =>
  match skipBlanks cs with
  | [] => .error .truncated
  | c :: rest => if c = '"' then readQuoted rest else .error (offenceAt (c :: rest))

def readOptional {β : Type} (item : Reader β) : Reader (Option β) := fun cs =>
  match skipBlanks cs with
  | 'n' :: rest => do
    let rest ← expectWord "ull".toList rest
    .ok (none, rest)
  | cs => do
    let (x, rest) ← item cs
    .ok (some x, rest)

/-! ### Lists -/

/-- Goes on to the next item inside a bracket, or to its end: the text from the item on, or nothing
when the closing character is next. Between items stands a comma, and none before the end. -/
def nextItem (close : Char) (first : Bool) (cs : List Char) : Except Offence (Option (List Char)) :=
  match skipBlanks cs with
  | [] => .error .truncated
  | c :: rest =>
    if c = close then .ok none
    else if first then .ok (some (c :: rest))
    else if c = ',' then
      match skipBlanks rest with
      | [] => .error .truncated
      | c :: rest => if c = close then .error .malformed else .ok (some (c :: rest))
    else .error .malformed

def readItems {β : Type} (item : Reader β) : (bound : List Char) → (first : Bool) → Reader (List β)
  | [], _, _ => .error .truncated
  | _ :: bound, first, cs => do
    match ← nextItem ']' first cs with
    | none =>
      let rest ← expectChar ']' cs
      .ok ([], rest)
    | some cs =>
      let (x, cs) ← item cs
      let (xs, cs) ← readItems item bound false cs
      .ok (x :: xs, cs)

def readList {β : Type} (item : Reader β) : Reader (List β) := fun cs =>
  match skipBlanks cs with
  | [] => .error .truncated
  | c :: rest =>
    if c = '[' then readItems item rest true rest
    else .error (offenceAt (c :: rest))

/-! ### Records -/

/-- A member of a record that is being read into a draft: its name, whether the draft has it, and the
reading of its value into the draft. -/
structure Slot (δ : Type) where
  name : String
  isFilled : δ → Bool
  fill : δ → Reader δ

/-- The slot that is read by `item` and kept by `put`. -/
def Slot.of {δ β : Type} (name : String) (item : Reader β) (get : δ → Option β) (put : δ → β → δ) :
    Slot δ where
  name := name
  isFilled draft := (get draft).isSome
  fill draft cs := do
    let (x, rest) ← item cs
    .ok (put draft x, rest)

/-- How a record is read: an empty draft, the members, and the record that a draft makes, if no
member is missing. -/
structure RecordFormat (δ β : Type) where
  start : δ
  slots : List (Slot δ)
  finish : δ → Option β

/-- The end of a record, with nothing missing. -/
def finishRecord {δ β : Type} (form : RecordFormat δ β) (draft : δ) : Except Offence β :=
  match form.finish draft with
  | some x => .ok x
  | none => .error .mistyped

/-- The members of a record in their order, inside square brackets; the last ones may be left out if
the draft can do without. -/
def readInOrder {δ : Type} : List (Slot δ) → (first : Bool) → δ → Reader δ
  | [], _, draft, cs => .ok (draft, cs)
  | slot :: slots, first, draft, cs => do
    match ← nextItem ']' first cs with
    | none => .ok (draft, cs)
    | some cs =>
      let (draft, cs) ← slot.fill draft cs
      readInOrder slots false draft cs

/-- A record as a list, after its opening bracket. -/
def readPositional {δ β : Type} (form : RecordFormat δ β) : Reader β := fun cs => do
  let (draft, cs) ← readInOrder form.slots true form.start cs
  let x ← finishRecord form draft
  let cs ← expectChar ']' cs
  .ok (x, cs)

/-- One member of a record after its name. Members without a slot are passed over. -/
def readMember {δ : Type} (slots : List (Slot δ)) (name : String) (draft : δ) : Reader δ := fun cs =>
  match slots.find? fun slot => slot.name == name with
  | some slot => do
    -- A member that comes twice is refused, even with the same value.
    if slot.isFilled draft then .error .mistyped
    else slot.fill draft (← expectChar ':' cs)
  | none => do
    let cs ← skipValue (← expectChar ':' cs)
    .ok (draft, cs)

/-- The members of a record by name, up to its closing bracket. -/
def readMembers {δ : Type} (slots : List (Slot δ)) : (bound : List Char) → (first : Bool) → δ → Reader δ
  | [], _, _, _ => .error .truncated
  | _ :: bound, first, draft, cs => do
    match ← nextItem '\x7d' first cs with
    | none => .ok (draft, cs)
    | some cs =>
      let cs ← expectChar '"' cs
      let (name, cs) ← readQuoted cs
      let (draft, cs) ← readMember slots name draft cs
      readMembers slots bound false draft cs

/-- A record by name, after its opening bracket. -/
def readNamed {δ β : Type} (form : RecordFormat δ β) : Reader β := fun cs => do
  let (draft, cs) ← readMembers form.slots cs true form.start cs
  let x ← finishRecord form draft
  let cs ← expectChar '\x7d' cs
  .ok (x, cs)

/-- A record in either form. -/
def readRecord {δ β : Type} (form : RecordFormat δ β) : Reader β := fun cs =>
  match skipBlanks cs with
  | [] => .error .truncated
  | c :: rest =>
    if c = '[' then readPositional form rest
    else if c = '\x7b' then readNamed form rest
    else .error (offenceAt (c :: rest))

/-- A record that can only be written as a list. -/
def readTuple {δ β : Type} (form : RecordFormat δ β) : Reader β := fun cs =>
  match skipBlanks cs with
  | [] => .error .truncated
  | c :: rest =>
    if c = '[' then readPositional form rest else .error (offenceAt (c :: rest))

/-! ### Whole texts -/

/-- The value that a text consists of, blanks around it apart. -/
def readDocument {β : Type} (value : Reader β) (text : String) : Except Offence β := do
  let (x, rest) ← value text.toList
  if (skipBlanks rest).isEmpty then .ok x else .error .malformed

end CuttingPlane.Json
