import Schemii.Migrations.TypeChanges
import Mathlib

/-!
# The column types of PostgreSQL

What a declaration of a column type means to PostgreSQL: its tokens, where unquoted words fold the
case of ASCII letters and quoted parts are taken as they are; the built-in types that the tokens name,
with the documented aliases and default modifiers; and the values of these types. The definitions
follow PostgreSQL and not the source.
-/

set_option autoImplicit false

namespace Schemii.Migrations

open Designs

/-! ### Tokens -/

/-- A token of a declaration. -/
inductive Token
  | word (text : List Char)
  | quoted (quote : Char) (text : List Char)
  | symbol (c : Char)
  deriving DecidableEq, Repr

/-- A character of a word. -/
def isWordChar (c : Char) : Bool := c.isAlphanum || c = '_' || c = '$' || decide (127 < c.toNat)

/-- A character between tokens. -/
def isPostgresSpace (c : Char) : Bool := c.toNat = 32 ∨ (9 ≤ c.toNat ∧ c.toNat ≤ 13)

/-- A character that begins and ends a quoted part. -/
def isQuote (c : Char) : Bool := c = '"' ∨ c = '\''

/-- Where a reader of tokens stands: after a part of a word, after a part of a quoted text, or after a
quote that ends it unless it is doubled. -/
inductive LexState
  | word (text : List Char)
  | quoted (quote : Char) (text : List Char)
  | closing (quote : Char) (text : List Char)

/-- The token that ends here. -/
def LexState.flush : LexState → List Token
  | .word [] => []
  | .word text => [.word text.reverse]
  | .quoted quote text => [.quoted quote text.reverse]
  | .closing quote text => [.quoted quote text.reverse]

/-- A character after a token. -/
def startToken (c : Char) : List Token × LexState :=
  if isWordChar c then ([], .word [c.toLower])
  else if isPostgresSpace c then ([], .word [])
  else if isQuote c then ([], .quoted c [])
  else ([.symbol c], .word [])

/-- The tokens of a text. -/
def lexFrom : LexState → List Char → List Token
  | state, [] => state.flush
  | .word text, c :: rest =>
    if isWordChar c then lexFrom (.word (c.toLower :: text)) rest
    else (LexState.word text).flush ++ (startToken c).1 ++ lexFrom (startToken c).2 rest
  | .quoted quote text, c :: rest =>
    if c = quote then lexFrom (.closing quote text) rest else lexFrom (.quoted quote (c :: text)) rest
  | .closing quote text, c :: rest =>
    if c = quote then lexFrom (.quoted quote (c :: text)) rest
    else .quoted quote text.reverse :: (startToken c).1 ++ lexFrom (startToken c).2 rest

/-- The tokens of a declaration. -/
def tokens (declaration : String) : List Token := lexFrom (.word []) declaration.toList

/-! ### Built-in types -/

/-- The built-in types that declarations may name. -/
inductive PostgresType
  | smallint
  | integer
  | bigint
  | real
  | doublePrecision
  | boolean
  | text
  | varchar (length : Option ℕ)
  | numeric (modifiers : Option (ℕ × ℕ))
  | timestamp (zone : Bool) (precision : ℕ)
  | time (zone : Bool) (precision : ℕ)
  deriving DecidableEq, Repr

/-- Words without quotes. -/
def words (names : List String) : List Token := names.map fun name ↦ .word name.toList

/-- The number that digits write. -/
def decimal (digits : List Char) : Option ℕ :=
  if digits ≠ [] ∧ digits.all Char.isDigit then
    some (digits.foldl (fun number c ↦ 10 * number + (c.toNat - 48)) 0)
  else none

/-- A length or a precision in parentheses, if there is one, and what comes after it. -/
def typeModifier : List Token → Option (Option ℕ × List Token)
  | .symbol '(' :: .word digits :: .symbol ')' :: rest =>
    (decimal digits).map fun number ↦ (some number, rest)
  | .symbol '(' :: _ => none
  | rest => some (none, rest)

/-- A precision and a scale in parentheses, if they are there. Without a scale it is zero. -/
def numericModifiers : List Token → Option (Option (ℕ × ℕ))
  | [] => some none
  | [.symbol '(', .word precision, .symbol ')'] =>
    (decimal precision).map fun precision ↦ some (precision, 0)
  | [.symbol '(', .word precision, .symbol ',', .word scale, .symbol ')'] =>
    (decimal precision).bind fun precision ↦ (decimal scale).map fun scale ↦ some (precision, scale)
  | _ => none

/-- The time zone at the end of a temporal type. -/
def timeZone (rest : List Token) : Option Bool :=
  if rest = [] then some false
  else if rest = words ["with", "time", "zone"] then some true
  else if rest = words ["without", "time", "zone"] then some false
  else none

/-- A precision in seconds: at most microseconds are kept, which is also the default. -/
def temporalPrecision (precision : Option ℕ) : ℕ := min (precision.getD 6) 6

/-- What the first word of a built-in type says about the others. -/
inductive TypeHead
  | simple (type : PostgresType)
  | double
  | varchar
  | character
  | numeric
  | timestamp
  | timestamptz
  | time
  | timetz
  deriving DecidableEq, Repr

/-- The first words of the built-in types. -/
def typeHeads : List (String × TypeHead) :=
  [("smallint", .simple .smallint), ("int2", .simple .smallint), ("integer", .simple .integer),
    ("int", .simple .integer), ("int4", .simple .integer), ("bigint", .simple .bigint),
    ("int8", .simple .bigint), ("real", .simple .real), ("float4", .simple .real), ("double", .double),
    ("float8", .simple .doublePrecision), ("boolean", .simple .boolean), ("bool", .simple .boolean),
    ("text", .simple .text), ("varchar", .varchar), ("character", .character), ("numeric", .numeric),
    ("decimal", .numeric), ("timestamp", .timestamp), ("timestamptz", .timestamptz), ("time", .time),
    ("timetz", .timetz)]

/-- What a word says when it is the first one. -/
def typeHead (name : List Char) : Option TypeHead :=
  (typeHeads.find? fun entry ↦ decide (entry.1.toList = name)).map Prod.snd

/-- A type of variable length after its name. -/
def readVarchar (rest : List Token) : Option PostgresType :=
  (typeModifier rest).bind fun (length, rest) ↦ if rest = [] then some (.varchar length) else none

/-- A temporal type after its name. -/
def readTemporalType (build : Bool → ℕ → PostgresType) (rest : List Token) : Option PostgresType :=
  (typeModifier rest).bind fun (precision, rest) ↦
    (timeZone rest).map fun zone ↦ build zone (temporalPrecision precision)

/-- A temporal type after its short name. -/
def readZonedType (build : ℕ → PostgresType) (rest : List Token) : Option PostgresType :=
  (typeModifier rest).bind fun (precision, rest) ↦
    if rest = [] then some (build (temporalPrecision precision)) else none

/-- The built-in type after its first word. -/
def readRest : TypeHead → List Token → Option PostgresType
  | .simple type, rest => if rest = [] then some type else none
  | .double, rest => if rest = words ["precision"] then some .doublePrecision else none
  | .varchar, rest => readVarchar rest
  | .character, .word second :: rest => if second = "varying".toList then readVarchar rest else none
  | .character, _ => none
  | .numeric, rest => (numericModifiers rest).map .numeric
  | .timestamp, rest => readTemporalType .timestamp rest
  | .timestamptz, rest => readZonedType (.timestamp true) rest
  | .time, rest => readTemporalType .time rest
  | .timetz, rest => readZonedType (.time true) rest

/-- The built-in type that tokens name. -/
def readType : List Token → Option PostgresType
  | .word name :: rest => (typeHead name).bind fun head ↦ readRest head rest
  | _ => none

/-- The built-in type that a declaration names. -/
def postgresType (declaration : String) : Option PostgresType := readType (tokens declaration)

/-- Two declarations name the same type: the same built-in type, or another one in the same tokens. -/
def SameType (left right : String) : Prop :=
  postgresType left = postgresType right ∧ (postgresType left = none → tokens left = tokens right)

/-! ### Values -/

/-- The values of the built-in types. Numbers are exact; times count microseconds. -/
inductive PostgresValue
  | number (value : ℚ)
  | negativeZero
  | infinity (negative : Bool)
  | notANumber
  | boolean (value : Bool)
  | text (value : List Char)
  | timestamp (zone : Bool) (microseconds : ℤ)
  | timestampInfinity (zone negative : Bool)
  | time (zone : Bool) (microseconds offset : ℤ)

/-- An integer of so many bits. -/
def IntegerValue (bits : ℕ) (value : PostgresValue) : Prop :=
  ∃ number : ℤ, value = .number number ∧ -2 ^ (bits - 1) ≤ number ∧ number < 2 ^ (bits - 1)

/-- A binary floating-point number with so many bits of mantissa and the exponents of its last bit. -/
def FloatValue (bits : ℕ) (least greatest : ℤ) (value : PostgresValue) : Prop :=
  value = .negativeZero ∨ (∃ negative, value = .infinity negative) ∨ value = .notANumber ∨
    ∃ mantissa exponent : ℤ, value = .number (mantissa * 2 ^ exponent) ∧ |mantissa| < 2 ^ bits ∧
      least ≤ exponent ∧ exponent ≤ greatest

/-- Microseconds that are a whole number of units of a precision. -/
def AtPrecision (precision : ℕ) (microseconds : ℤ) : Prop :=
  (10 : ℤ) ^ (6 - precision) ∣ microseconds

/-- The values of a type. -/
def PostgresType.Holds : PostgresType → PostgresValue → Prop
  | .smallint, value => IntegerValue 16 value
  | .integer, value => IntegerValue 32 value
  | .bigint, value => IntegerValue 64 value
  | .real, value => FloatValue 24 (-149) 104 value
  | .doublePrecision, value => FloatValue 53 (-1074) 971 value
  | .boolean, value => ∃ flag, value = .boolean flag
  | .text, value => ∃ characters, value = .text characters
  | .varchar none, value => ∃ characters, value = .text characters
  | .varchar (some length), value => ∃ characters, value = .text characters ∧ characters.length ≤ length
  | .numeric none, value => value = .notANumber ∨ (∃ negative, value = .infinity negative) ∨
      ∃ (digits : ℤ) (scale : ℕ), value = .number (digits / 10 ^ scale)
  | .numeric (some (precision, scale)), value => value = .notANumber ∨
      ∃ digits : ℤ, value = .number (digits / 10 ^ scale) ∧ |digits| < 10 ^ precision
  | .timestamp zone precision, value => (∃ negative, value = .timestampInfinity zone negative) ∨
      ∃ microseconds, value = .timestamp zone microseconds ∧ AtPrecision precision microseconds
  | .time zone precision, value =>
      ∃ microseconds offset, value = .time zone microseconds offset ∧ AtPrecision precision microseconds

end Schemii.Migrations
