import Schemii.Designs.Validation

/-!
# Changes of column types

`classify_type_change` of `migrations/type_changes.py`: which declarations of a column type are
equivalent, and which changes keep every value. The lower case of a text and the decimal digits are
those of Unicode and are the parameter `Unicode`.
-/

set_option autoImplicit false

namespace Schemii.Migrations

open Designs

/-- What the texts of the interpreter know about characters. -/
structure Unicode where
  lower : String → String
  digit : Char → Option ℕ

/-- The disposition of a type change. -/
inductive TypeChangeDisposition
  | equivalent
  | safe
  | blocked
  deriving DecidableEq, Repr

/-- `TypeChangeDecision`. -/
structure TypeChangeDecision where
  disposition : TypeChangeDisposition
  reason : String
  deriving DecidableEq, Repr

/-- `_ParsedType`. -/
inductive ParsedType
  | integer (rank : ℕ)
  | float (rank : ℕ)
  | boolean
  | varchar (length : Option ℕ)
  | text
  | numeric (modifiers : Option (ℕ × ℕ))
  | timestamp (zone : Bool) (precision : ℕ)
  | time (zone : Bool) (precision : ℕ)
  deriving DecidableEq, Repr

/-! ### Reading a declaration -/

/-- The words of a text, as `split` gives them. -/
def splitWords : List Char → List Char → List (List Char)
  | [], word => if word.isEmpty then [] else [word.reverse]
  | c :: rest, word =>
    if isSpace c then (if word.isEmpty then [] else [word.reverse]) ++ splitWords rest []
    else splitWords rest (c :: word)

/-- `_normalized`. -/
def normalizedType (U : Unicode) (value : String) : List Char :=
  [' '].intercalate (splitWords (U.lower value).toList [])

/-- The rest of a text after a part it starts with. -/
def afterPart (part : String) (text : List Char) : Option (List Char) :=
  if part.toList <+: text then some (text.drop part.toList.length) else none

/-- The rest of a text after spaces. -/
def afterSpaces (text : List Char) : List Char :=
  text.dropWhile isSpace

/-- A number of at least one digit, and the rest after it. -/
def readNumber (U : Unicode) (text : List Char) : Option (ℕ × List Char) :=
  let digits := text.takeWhile fun c ↦ (U.digit c).isSome
  if digits.isEmpty then none
  else some ((digits.filterMap U.digit).foldl (fun number digit ↦ 10 * number + digit) 0,
    text.drop digits.length)

/-- A number in parentheses, and the rest after it. -/
def readModifier (U : Unicode) (text : List Char) : Option (ℕ × List Char) := do
  let opened ← afterPart "(" (afterSpaces text)
  let (number, rest) ← readNumber U (afterSpaces opened)
  let closed ← afterPart ")" (afterSpaces rest)
  some (number, closed)

/-- One or two numbers in parentheses at the end of a text. -/
def readPrecision (U : Unicode) (text : List Char) : Option (ℕ × ℕ) := do
  let opened ← afterPart "(" (afterSpaces text)
  let (precision, rest) ← readNumber U (afterSpaces opened)
  match afterPart "," (afterSpaces rest) with
  | none => do
    let closed ← afterPart ")" (afterSpaces rest)
    if closed.isEmpty then some (precision, 0) else none
  | some scaled => do
    let (scale, rest) ← readNumber U (afterSpaces scaled)
    let closed ← afterPart ")" (afterSpaces rest)
    if closed.isEmpty then some (precision, scale) else none

/-- The time zone at the end of a temporal declaration. -/
def readZone (text : List Char) : Option Bool :=
  if text.isEmpty then some false
  else if text = "with time zone".toList then some true
  else if text = "without time zone".toList then some false
  else none

/-- A temporal declaration after its name: an optional precision and an optional time zone. -/
def readTemporal (U : Unicode) (text : List Char) : Option (Bool × ℕ) :=
  match readModifier U text with
  | some (precision, rest) => (readZone (afterSpaces rest)).map fun zone ↦ (zone, precision)
  | none => (readZone (afterSpaces text)).map fun zone ↦ (zone, 6)

/-- An optional precision at the end of a text. -/
def readOnlyModifier (U : Unicode) (text : List Char) : Option (Option ℕ) :=
  match readModifier U text with
  | some (length, rest) => if rest.isEmpty then some (some length) else none
  | none => if (afterSpaces text).isEmpty then some none else none

/-- The rest of a declaration after one of its names. -/
def afterVarchar (text : List Char) : Option (List Char) :=
  afterPart "character varying" text <|> afterPart "varchar" text

/-- `_parse`. -/
def parseType (U : Unicode) (value : String) : Option ParsedType :=
  let normalized := normalizedType U value
  let named (names : List String) : Bool := normalized ∈ names.map String.toList
  if named ["smallint", "int2"] then some (.integer 0)
  else if named ["integer", "int", "int4"] then some (.integer 1)
  else if named ["bigint", "int8"] then some (.integer 2)
  else if named ["real", "float4"] then some (.float 0)
  else if named ["double precision", "float8"] then some (.float 1)
  else if named ["boolean", "bool"] then some .boolean
  else if named ["text"] then some .text
  else
    ((afterVarchar normalized).bind fun rest ↦ (readOnlyModifier U rest).map .varchar) <|>
    ((afterPart "numeric" normalized <|> afterPart "decimal" normalized).bind fun rest ↦
      if (afterSpaces rest).isEmpty then some (.numeric none)
      else (readPrecision U rest).map fun modifiers ↦ .numeric (some modifiers)) <|>
    ((afterPart "timestamp" normalized).bind fun rest ↦
      (readTemporal U rest).map fun (zone, precision) ↦ .timestamp zone precision) <|>
    ((afterPart "timestamptz" normalized).bind fun rest ↦
      (readOnlyModifier U rest).map fun precision ↦ .timestamp true (precision.getD 6)) <|>
    ((afterPart "time" normalized).bind fun rest ↦
      (readTemporal U rest).map fun (zone, precision) ↦ .time zone precision) <|>
    ((afterPart "timetz" normalized).bind fun rest ↦
      (readOnlyModifier U rest).map fun precision ↦ .time true (precision.getD 6))

/-! ### Deciding -/

/-- The decision on two declarations that are read and differ. -/
def decideTypeChange : ParsedType → ParsedType → TypeChangeDecision
  | .integer old, .integer new =>
    if new > old then ⟨.safe, "The integer range only increases"⟩ else narrows
  | .float old, .float new =>
    if new > old then ⟨.safe, "The floating-point precision only increases"⟩ else narrows
  | .text, .text => ⟨.safe, "The target has no length limit"⟩
  | .varchar _, .text => ⟨.safe, "The target has no length limit"⟩
  | .text, .varchar none => ⟨.safe, "The target has no length limit"⟩
  | .varchar _, .varchar none => ⟨.safe, "The target removes the length limit"⟩
  | .varchar (some old), .varchar (some new) =>
    if new ≥ old then ⟨.safe, "The character limit only increases"⟩ else narrows
  | .numeric _, .numeric none => ⟨.safe, "The target removes precision and scale limits"⟩
  | .numeric (some (oldPrecision, oldScale)), .numeric (some (newPrecision, newScale)) =>
    if newScale ≥ oldScale ∧
        (newPrecision : ℤ) - newScale ≥ (oldPrecision : ℤ) - oldScale then
      ⟨.safe, "The target preserves both integral digits and fractional scale"⟩
    else narrows
  | .timestamp oldZone old, .timestamp newZone new =>
    if oldZone = newZone ∧ new > old then ⟨.safe, "The temporal precision only increases"⟩
    else narrows
  | .time oldZone old, .time newZone new =>
    if oldZone = newZone ∧ new > old then ⟨.safe, "The temporal precision only increases"⟩
    else narrows
  | _, _ => narrows
where
  /-- The decision when no rule applies. -/
  narrows : TypeChangeDecision :=
    ⟨.blocked, "The conversion can narrow, reinterpret, or reject existing values"⟩

/-- `classify_type_change`. -/
def classifyTypeChange (U : Unicode) (before after : String) : TypeChangeDecision :=
  if normalizedType U before = normalizedType U after then
    ⟨.equivalent, "The type declarations are identical"⟩
  else
    match parseType U before, parseType U after with
    | some old, some new =>
      if old = new then ⟨.equivalent, "The declarations are PostgreSQL aliases"⟩
      else decideTypeChange old new
    | _, _ => ⟨.blocked, "The conversion is not in Schemii's value-preserving type map"⟩

end Schemii.Migrations
