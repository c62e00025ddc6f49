import Mathlib.Tactic

/-!
# JSON values and their texts

JSON values whose numbers are kept as they are written, the text of a value as `json.dumps` writes it
without escaping letters (`dumps`), and the size of that text in UTF-8 (`wireSize`). The size of a list
is the sum of what its items take, a separator each (`wireSize_array_cons`).
-/

set_option autoImplicit false

namespace Schemii.Foundations

/-- A JSON value. Numbers are their literals. -/
inductive JsonValue
  | null
  | bool (value : Bool)
  | number (literal : String)
  | string (value : String)
  | array (items : List JsonValue)
  | object (members : List (String × JsonValue))
  deriving Repr, BEq

namespace JsonValue

/-- `None`, a boolean, a number or a text. -/
def isScalar : JsonValue → Bool
  | .array _ => false
  | .object _ => false
  | _ => true

/-- The value of a key. -/
def get? : JsonValue → String → Option JsonValue
  | .object members, key => members.lookup key
  | _, _ => none

/-- The value of a key, or another. -/
def getD (value : JsonValue) (key : String) (other : JsonValue) : JsonValue :=
  (value.get? key).getD other

/-- Whether Python takes a value for true. -/
def truthy : JsonValue → Bool
  | .null => false
  | .bool value => value
  | .number literal => literal ∉ ["0", "-0", "0.0", "-0.0"]
  | .string value => !value.isEmpty
  | .array items => !items.isEmpty
  | .object members => !members.isEmpty

/-! ### Texts -/

/-- A hexadecimal digit. -/
def hexDigit (digit : ℕ) : Char :=
  if digit < 10 then Char.ofNat (48 + digit) else Char.ofNat (87 + digit)

/-- A character in a JSON text. -/
def escape (c : Char) : List Char :=
  if c = '"' then ['\\', '"']
  else if c = '\\' then ['\\', '\\']
  else if c = '\n' then ['\\', 'n']
  else if c = '\r' then ['\\', 'r']
  else if c = '\t' then ['\\', 't']
  else if c.toNat = 8 then ['\\', 'b']
  else if c.toNat = 12 then ['\\', 'f']
  else if c.toNat < 32 then ['\\', 'u', '0', '0', hexDigit (c.toNat / 16), hexDigit (c.toNat % 16)]
  else [c]

/-- A text between quotes. -/
def quoted (text : String) : String :=
  "\"" ++ String.ofList (text.toList.flatMap escape) ++ "\""

mutual

/-- `json.dumps` with `ensure_ascii=False`. -/
def dumps : JsonValue → String
  | .null => "null"
  | .bool true => "true"
  | .bool false => "false"
  | .number literal => literal
  | .string value => quoted value
  | .array items => "[" ++ dumpsItems items ++ "]"
  | .object members => "\x7b" ++ dumpsMembers members ++ "\x7d"

/-- The items of a list. -/
def dumpsItems : List JsonValue → String
  | [] => ""
  | [item] => dumps item
  | item :: next :: rest => dumps item ++ ", " ++ dumpsItems (next :: rest)

/-- The members of a dictionary. -/
def dumpsMembers : List (String × JsonValue) → String
  | [] => ""
  | [(key, value)] => quoted key ++ ": " ++ dumps value
  | (key, value) :: next :: rest =>
    quoted key ++ ": " ++ dumps value ++ ", " ++ dumpsMembers (next :: rest)

end

/-- The size of the text of a value in UTF-8. -/
def wireSize (value : JsonValue) : ℕ :=
  (dumps value).utf8ByteSize

/-! ### The size of a list -/

/-- What the items of a list take with a separator each. -/
def itemsSize (items : List JsonValue) : ℕ :=
  (items.map fun item ↦ item.wireSize + 2).sum

theorem itemsSize_append (first second : List JsonValue) :
    itemsSize (first ++ second) = itemsSize first + itemsSize second := by
  unfold itemsSize
  rw [List.map_append, List.sum_append]

theorem dumpsItems_size (item : JsonValue) (rest : List JsonValue) :
    (dumpsItems (item :: rest)).utf8ByteSize + 2 = itemsSize (item :: rest) := by
  induction rest generalizing item with
  | nil => rfl
  | cons next rest ih =>
    have hseparator : (", " : String).utf8ByteSize = 2 := by decide
    rw [dumpsItems, String.utf8ByteSize_append, String.utf8ByteSize_append, hseparator, add_assoc, ih]
    rfl

theorem wireSize_array_cons (item : JsonValue) (rest : List JsonValue) :
    (JsonValue.array (item :: rest)).wireSize = itemsSize (item :: rest) := by
  have hopen : ("[" : String).utf8ByteSize = 1 := by decide
  have hclose : ("]" : String).utf8ByteSize = 1 := by decide
  rw [wireSize, dumps, String.utf8ByteSize_append, String.utf8ByteSize_append, hopen, hclose,
    ← dumpsItems_size]
  omega

end JsonValue

end Schemii.Foundations
