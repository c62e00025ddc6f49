import Schemii.Foundations.PostgresLexer

/-!
# Identifiers and literals in the text of a query

The compiler of a semantic model writes names as quoted identifiers and the values of conditions as
constants with backslash escapes. Its two functions, `sqlIdentifier` and `sqlLiteral`, are placed in
the text of a query without any other escaping.

`encodings_are_one_token`: wherever they are placed between tokens, PostgreSQL reads one identifier
or one string constant, whose value is the original text, and reads the text around it as before.
The induction is over the original text (`read_escaped`, `read_doubled`): in each character the
reader returns to the inside of the constant with one character more.
-/

set_option autoImplicit false

namespace Schemii.SemanticModels

open Foundations.PostgresLexer

/-- The values that a condition compares with. A number with a fraction keeps its text. -/
inductive Scalar
  | boolean (value : Bool)
  | integer (value : ℤ)
  | float (finite : Bool) (text : List Char)
  | text (value : List Char)
  | other
  deriving DecidableEq, Repr

/-- `str.replace` of one character. -/
def replaceChar (old : Char) (new : List Char) (text : List Char) : List Char :=
  text.flatMap fun c ↦ if c = old then new else [c]

/-- `_identifier`. -/
def sqlIdentifier (value : List Char) : List Char :=
  '"' :: replaceChar '"' ['"', '"'] value ++ ['"']

/-- `_literal` of a text. -/
def sqlText (value : List Char) : List Char :=
  'E' :: '\'' :: replaceChar '\'' ['\'', '\''] (replaceChar '\\' ['\\', '\\'] value) ++ ['\'']

/-- `_literal`. -/
def sqlLiteral : Scalar → Except String (List Char)
  | .boolean value => .ok (if value then "TRUE" else "FALSE").toList
  | .float finite text => if finite then .ok text else .error "Filter numbers must be finite."
  | .integer value => .ok (toString value).toList
  | .text value =>
    if Char.ofNat 0 ∉ value then .ok (sqlText value)
    else .error "Filter values must be text, numbers, or booleans; use is_null for NULL."
  | .other => .error "Filter values must be text, numbers, or booleans; use is_null for NULL."

/-! ### Reading them -/

theorem read_escaped (value front : List Char) :
    reading (.string .escape front)
        (replaceChar '\'' ['\'', '\''] (replaceChar '\\' ['\\', '\\'] value)) =
      ([], .string .escape (front ++ value)) := by
  induction value generalizing front with
  | nil => simp [replaceChar, reading]
  | cons c value ih =>
    -- What one character becomes is read from the inside of the constant to its inside.
    have hone : reading (.string .escape front)
        (replaceChar '\'' ['\'', '\''] (replaceChar '\\' ['\\', '\\'] [c])) =
        ([], .string .escape (front ++ [c])) := by
      by_cases hbackslash : c = '\\'
      · subst hbackslash
        simp [replaceChar, reading, step, inString, afterBackslash, digitValue, unescaped, followedBy]
      · by_cases hquote : c = '\''
        · subst hquote
          simp [replaceChar, reading, step, inString, Quoted.doubles, followedBy]
        · simp [replaceChar, reading, step, inString, hbackslash, hquote, followedBy]
    have hsplit : replaceChar '\'' ['\'', '\''] (replaceChar '\\' ['\\', '\\'] (c :: value)) =
        replaceChar '\'' ['\'', '\''] (replaceChar '\\' ['\\', '\\'] [c]) ++
          replaceChar '\'' ['\'', '\''] (replaceChar '\\' ['\\', '\\'] value) := by
      simp [replaceChar]
    rw [hsplit, reading_append, hone, ih]
    simp [followedBy]

theorem read_doubled (value front : List Char) :
    reading (.quotedIdentifier false front) (replaceChar '"' ['"', '"'] value) =
      ([], .quotedIdentifier false (front ++ value)) := by
  induction value generalizing front with
  | nil => simp [replaceChar, reading]
  | cons c value ih =>
    have hone : reading (.quotedIdentifier false front) (replaceChar '"' ['"', '"'] [c]) =
        ([], .quotedIdentifier false (front ++ [c])) := by
      by_cases hquote : c = '"'
      · subst hquote
        simp [replaceChar, reading, step, followedBy]
      · simp [replaceChar, reading, step, hquote, followedBy]
    have hsplit : replaceChar '"' ['"', '"'] (c :: value) =
        replaceChar '"' ['"', '"'] [c] ++ replaceChar '"' ['"', '"'] value := by
      simp [replaceChar]
    rw [hsplit, reading_append, hone, ih]
    simp [followedBy]

theorem read_sqlText (value : List Char) :
    reading .start (sqlText value) = ([], .closing .escape value) := by
  have hinitial : reading .start ['E', '\''] = ([], .string .escape []) := by decide
  have hquote : reading (.string .escape value) ['\''] = ([], .closing .escape value) := by
    simp [reading, step, inString, followedBy]
  have hsplit : sqlText value = ['E', '\''] ++
      (replaceChar '\'' ['\'', '\''] (replaceChar '\\' ['\\', '\\'] value) ++ ['\'']) := rfl
  rw [hsplit, reading_append, hinitial, reading_append, read_escaped, List.nil_append, hquote]
  rfl

theorem read_sqlIdentifier (value : List Char) :
    reading .start (sqlIdentifier value) = ([], .identifierClosing false value) := by
  have hinitial : reading .start ['"'] = ([], .quotedIdentifier false []) := by decide
  have hquote : reading (.quotedIdentifier false value) ['"'] =
      ([], .identifierClosing false value) := by
    simp [reading, step, followedBy]
  have hsplit : sqlIdentifier value = ['"'] ++ (replaceChar '"' ['"', '"'] value ++ ['"']) := rfl
  rw [hsplit, reading_append, hinitial, reading_append, read_doubled, List.nil_append, hquote]
  rfl

/-- Assumes: a text that does not continue a constant. Behind a literal it is read as if it stood
alone. -/
theorem tokens_sqlText_append {value after : List Char} (h : continuesConstant after = false) :
    tokens (sqlText value ++ after) = .stringConstant value :: tokens after := by
  rw [tokens, tokensFrom_append, read_sqlText, tokensFrom_closing h]
  rfl

/-- Assumes: a text that does not begin with a double quote. Behind an identifier it is read as if it
stood alone. -/
theorem tokens_sqlIdentifier_append {value after : List Char} (h : after.head? ≠ some '"') :
    tokens (sqlIdentifier value ++ after) = .quotedIdentifier value :: tokens after := by
  rw [tokens, tokensFrom_append, read_sqlIdentifier]
  cases after with
  | nil => rfl
  | cons c rest =>
    have hquote : c ≠ '"' := by simpa using h
    rw [tokensFrom_cons, tokens, tokensFrom_cons]
    simp [step, hquote, followedBy, identifierToken]

/-- Assumes: a text without the null character. Between texts that end and begin at the boundary of a
token there, its literal is read as one string constant and, unless it is empty, its identifier as one
quoted identifier; each has the original text as its value, and the tokens of the texts around it
are those that they have alone. -/
theorem encodings_are_one_token (value before after : List Char) (hnull : Char.ofNat 0 ∉ value) :
    (Fresh (reading .start before).2 'E' → continuesConstant after = false →
      ∃ text, sqlLiteral (.text value) = .ok text ∧
        tokens (before ++ text ++ after) =
          tokens before ++ [.stringConstant value] ++ tokens after) ∧
    (value ≠ [] → Fresh (reading .start before).2 '"' → after.head? ≠ some '"' →
      tokens (before ++ sqlIdentifier value ++ after) =
        tokens before ++ [.quotedIdentifier value] ++ tokens after) := by
  constructor
  · intro hbefore hafter
    refine ⟨sqlText value, by rw [sqlLiteral, if_pos hnull], ?_⟩
    have hcut : tokens (before ++ (sqlText value ++ after)) =
        tokens before ++ tokens (sqlText value ++ after) := tokensFrom_append_cons hbefore
    rw [List.append_assoc, hcut, tokens_sqlText_append hafter]
    simp
  · intro _ hbefore hafter
    have hcut : tokens (before ++ (sqlIdentifier value ++ after)) =
        tokens before ++ tokens (sqlIdentifier value ++ after) := tokensFrom_append_cons hbefore
    rw [List.append_assoc, hcut, tokens_sqlIdentifier_append hafter]
    simp

/-- A value with a quote and a backslash at its end, and a name with a double quote, in the brackets
of a list. -/
theorem quotes_between_brackets :
    (∃ text, sqlLiteral (.text "'o\"\\".toList) = .ok text ∧
      tokens ("x IN (".toList ++ text ++ ") --".toList) =
        tokens "x IN (".toList ++ [.stringConstant "'o\"\\".toList] ++ tokens ") --".toList) ∧
    tokens ("x IN (".toList ++ sqlIdentifier "'o\"\\".toList ++ ") --".toList) =
      tokens "x IN (".toList ++ [.quotedIdentifier "'o\"\\".toList] ++ tokens ") --".toList :=
  have hencoded := encodings_are_one_token "'o\"\\".toList "x IN (".toList ") --".toList (by decide)
  ⟨hencoded.1 (by decide) (by decide), hencoded.2 (by decide) (by decide) (by decide)⟩

end Schemii.SemanticModels
