import Mathlib.Data.List.Basic
import Mathlib.Tactic

/-!
# The lexical rules of PostgreSQL

PostgreSQL divides a text into tokens before it looks at its grammar. The reader of this module
takes one character at a time (`step`), with `standard_conforming_strings` on: string constants
plain and with backslash escapes, with Unicode escapes, and of bits, constants that continue on a
later line, quoted identifiers, dollar quotes, line comments, nested block comments, words, numbers,
parameters and operators. `tokens` is what it makes of a whole text.

A text that PostgreSQL refuses at this stage is read on behind the piece that the refusing rule
takes: letters directly behind a number stay with the number, and a construct that the text leaves
open is the token `unterminated`. An escape by number stands for the character with that code.

`reading_append` divides a reading at any place. `Fresh` says that a character begins a token where a
text ends, and `tokensFrom_closing` that a string constant ends where no quote continues it.
-/

set_option autoImplicit false

namespace Schemii.Foundations.PostgresLexer

/-! ### Characters -/

/-- The white space between tokens. -/
def isSpace (c : Char) : Bool := [' ', '\t', '\n', '\r', '\x0b', '\x0c'].contains c

/-- The characters that end a line. -/
def isNewline (c : Char) : Bool := c == '\n' || c == '\r'

/-- The characters a word starts with: a letter, an underscore, anything beyond ASCII. -/
def isIdentStart (c : Char) : Bool := c.isAlpha || c == '_' || 128 ≤ c.toNat

theorem isDigit_of_isIdentStart {c : Char} (h : isIdentStart c) : c.isDigit = false := by
  have hvalue : c.toNat = c.val.toNat := rfl
  have halpha : c.isAlpha =
      (decide ('A'.val ≤ c.val ∧ c.val ≤ 'Z'.val) ||
        (decide ('a'.val ≤ c.val) && decide (c.val ≤ 'z'.val))) :=
    rfl
  simp only [isIdentStart, halpha, Bool.or_eq_true, Bool.and_eq_true, decide_eq_true_eq, beq_iff_eq,
    UInt32.le_iff_toNat_le, hvalue] at h
  simp only [Char.isDigit, Bool.and_eq_false_iff, decide_eq_false_iff_not, UInt32.le_iff_toNat_le]
  rcases h with (hletter | rfl) | hlarge
  · simp at hletter ⊢
    omega
  · decide
  · simp
    omega

/-- The characters that continue the tag of a dollar quote. -/
def isTagCont (c : Char) : Bool := isIdentStart c || c.isDigit

/-- The characters that continue a word. -/
def isIdentCont (c : Char) : Bool := isTagCont c || c == '$'

/-- The characters that let an operator end in a sign. -/
def isSpecialOperatorChar (c : Char) : Bool :=
  ['~', '!', '@', '#', '^', '&', '|', Char.ofNat 96, '?', '%'].contains c

/-- The characters of an operator. -/
def isOperatorChar (c : Char) : Bool :=
  isSpecialOperatorChar c || ['+', '-', '*', '/', '<', '>', '='].contains c

/-! ### Tokens and states -/

/-- The kinds of constants between single quotes. -/
inductive Quoted
  | plain
  | escape
  | unicode
  | bit
  | hex
  deriving DecidableEq, Repr

/-- Tokens. A dollar quote is a string constant, and so is one with backslash escapes. -/
inductive Token
  | word (text : List Char)
  | quotedIdentifier (value : List Char)
  | unicodeIdentifier (value : List Char)
  | stringConstant (value : List Char)
  | unicodeString (value : List Char)
  | bitString (value : List Char)
  | hexString (value : List Char)
  | number (text : List Char)
  | parameter (text : List Char)
  | operator (text : List Char)
  | symbol (text : List Char)
  | unterminated
  deriving DecidableEq, Repr

/-- The token of a constant between single quotes. -/
def Quoted.token : Quoted → List Char → Token
  | .plain, value => .stringConstant value
  | .escape, value => .stringConstant value
  | .unicode, value => .unicodeString value
  | .bit, value => .bitString value
  | .hex, value => .hexString value

/-- A doubled quote stands for a quote, except in constants of bits. -/
def Quoted.doubles : Quoted → Bool
  | .bit => false
  | .hex => false
  | _ => true

/-- What stands between two quotes that may belong to one constant: white space, a hyphen that may
begin a comment, a line comment. -/
inductive Gap
  | space
  | hyphen
  | comment
  deriving DecidableEq, Repr

/-- What the reader is in the middle of. -/
inductive State
  | start
  | word (text : List Char)
  /-- A single `u` and an ampersand. -/
  | ampersand (letter : Char)
  /-- A number, behind the part of it that ends in the sign of its exponent. -/
  | number (head text : List Char)
  /-- A number that ends in the letter of an exponent, and a sign. -/
  | signed (text : List Char) (sign : Char)
  | dot
  | colon
  | operator (text : List Char)
  /-- A dollar sign and the start of a tag. -/
  | dollar (tag : List Char)
  | dollarBody (tag body : List Char)
  | parameter (text : List Char)
  | string (kind : Quoted) (value : List Char)
  /-- A backslash in a constant with escapes. -/
  | backslash (value : List Char)
  /-- An escape by number: its letter, its base, its digits so far and how many may follow. -/
  | code (value : List Char) (letter : Char) (base : ℕ) (number : Option ℕ) (left : ℕ)
  /-- A closing quote. -/
  | closing (kind : Quoted) (value : List Char)
  /-- What follows a constant, and whether it holds the end of a line. -/
  | gap (kind : Quoted) (value : List Char) (newline : Bool) (kindOfGap : Gap)
  | quotedIdentifier (unicode : Bool) (value : List Char)
  | identifierClosing (unicode : Bool) (value : List Char)
  | lineComment
  /-- A block comment: how deep, and the character that may begin a mark. -/
  | blockComment (depth : ℕ) (last : Option Char)
  deriving DecidableEq, Repr

/-! ### One character -/

/-- The tokens of a run of operator characters: signs at its end stand alone unless one of the
special characters occurs. -/
def splitOperator (text : List Char) : List Token :=
  match text with
  | [] => []
  | first :: rest =>
    if text.any isSpecialOperatorChar then [.operator text]
    else
      let signs := (rest.reverse.takeWhile fun c ↦ c == '+' || c == '-').reverse
      .operator (first :: rest.take (rest.length - signs.length)) ::
        signs.map fun c ↦ .operator [c]

/-- The state and the tokens behind the first character of a token. -/
def fresh (c : Char) : List Token × State :=
  if isSpace c then ([], .start)
  else if c = '\'' then ([], .string .plain [])
  else if c = '"' then ([], .quotedIdentifier false [])
  else if c = '$' then ([], .dollar [])
  else if c = '.' then ([], .dot)
  else if c = ':' then ([], .colon)
  else if isOperatorChar c then ([], .operator [c])
  else if isIdentStart c then ([], .word [c])
  else if c.isDigit then ([], .number [] [c])
  else ([.symbol [c]], .start)

/-- Tokens that are complete, then the first character of a new one. -/
def followedBy (complete : List Token) (next : List Token × State) : List Token × State :=
  (complete ++ next.1, next.2)

/-- A character behind a run of operator characters: a line comment or a block comment cuts it. -/
def afterOperator (text : List Char) (c : Char) : List Token × State :=
  if c = '-' ∧ text.getLast? = some '-' then (splitOperator text.dropLast, .lineComment)
  else if c = '*' ∧ text.getLast? = some '/' then
    (splitOperator text.dropLast, .blockComment 1 none)
  else if isOperatorChar c then ([], .operator (text ++ [c]))
  else followedBy (splitOperator text) (fresh c)

/-- The constant that a letter before a quote begins. -/
def quotedOfPrefix (text : List Char) : Option Quoted :=
  match text with
  | [c] =>
    if c = 'e' ∨ c = 'E' then some .escape
    else if c = 'b' ∨ c = 'B' then some .bit
    else if c = 'x' ∨ c = 'X' then some .hex
    else none
  | _ => none

/-- A character behind a word. -/
def afterWord (text : List Char) (c : Char) : List Token × State :=
  if isIdentCont c then ([], .word (text ++ [c]))
  else if c = '\'' then
    match quotedOfPrefix text with
    | some kind => ([], .string kind [])
    | none => ([.word text], .string .plain [])
  else if c = '&' ∧ (text = ['u'] ∨ text = ['U']) then ([], .ampersand (text.headD 'u'))
  else followedBy [.word text] (fresh c)

/-- A character behind a number. -/
def afterNumber (head text : List Char) (c : Char) : List Token × State :=
  if isTagCont c ∨ c = '$' ∧ text.any isIdentStart then ([], .number head (text ++ [c]))
  else if c = '.' ∧ head = [] ∧ text.all (fun d ↦ d.isDigit || d == '_') then
    ([], .number head (text ++ [c]))
  else if c = '.' ∧ head = [] ∧ text.length > 1 ∧ text.getLast? = some '.' then
    ([.number text.dropLast, .symbol ['.', '.']], .start)
  else if (c = '+' ∨ c = '-') ∧ head = [] ∧ (text.getLast? = some 'e' ∨ text.getLast? = some 'E') ∧
      text.dropLast.all (fun d ↦ d.isDigit || d == '_' || d == '.') then
    ([], .signed text c)
  else followedBy [.number (head ++ text)] (fresh c)

/-- What a character behind a backslash stands for. -/
def unescaped (c : Char) : Char :=
  if c = 'b' then '\x08'
  else if c = 'f' then '\x0c'
  else if c = 'n' then '\n'
  else if c = 'r' then '\r'
  else if c = 't' then '\t'
  else if c = 'v' then '\x0b'
  else c

/-- The value of a digit in a base up to sixteen. -/
def digitValue (base : ℕ) (c : Char) : Option ℕ :=
  let value := if c.isDigit then some (c.toNat - 48)
    else if 'a' ≤ c ∧ c ≤ 'f' then some (c.toNat - 87)
    else if 'A' ≤ c ∧ c ≤ 'F' then some (c.toNat - 55)
    else none
  value.filter (· < base)

/-- A character between single quotes. -/
def inString (kind : Quoted) (value : List Char) (c : Char) : List Token × State :=
  if c = '\'' then ([], .closing kind value)
  else if c = '\\' ∧ kind = .escape then ([], .backslash value)
  else ([], .string kind (value ++ [c]))

/-- A character behind a backslash. -/
def afterBackslash (value : List Char) (c : Char) : List Token × State :=
  match digitValue 8 c with
  | some digit => ([], .code value c 8 (some digit) 2)
  | none =>
    if c = 'x' then ([], .code value c 16 none 2)
    else if c = 'u' then ([], .code value c 16 none 4)
    else if c = 'U' then ([], .code value c 16 none 8)
    else ([], .string .escape (value ++ [unescaped c]))

/-- A character in or behind an escape by number. -/
def inCode (value : List Char) (letter : Char) (base : ℕ) (number : Option ℕ) (left : ℕ) (c : Char) :
    List Token × State :=
  match left, digitValue base c with
  | more + 1, some digit => ([], .code value letter base (some (number.getD 0 * base + digit)) more)
  | _, _ => inString .escape (value ++ [number.elim letter Char.ofNat]) c

/-- A character behind a constant between single quotes, up to where it is clear that no quote
continues the constant. -/
def inGap (kind : Quoted) (value : List Char) (newline : Bool) (gap : Gap) (c : Char) :
    List Token × State :=
  match gap with
  | .space =>
    if c = '\'' ∧ newline then ([], .string kind value)
    else if isSpace c then ([], .gap kind value (newline || isNewline c) .space)
    else if c = '-' then ([], .gap kind value newline .hyphen)
    else followedBy [kind.token value] (fresh c)
  | .hyphen =>
    if c = '-' then ([], .gap kind value newline .comment)
    else followedBy [kind.token value] (afterOperator ['-'] c)
  | .comment =>
    if isNewline c then ([], .gap kind value true .space) else ([], .gap kind value newline .comment)

/-- The identifier between double quotes. -/
def identifierToken (unicode : Bool) (value : List Char) : Token :=
  if unicode then .unicodeIdentifier value else .quotedIdentifier value

/-- One character: the tokens that are then complete and the state behind it. -/
def step : State → Char → List Token × State
  | .start, c => fresh c
  | .word text, c => afterWord text c
  | .ampersand letter, c =>
    if c = '\'' then ([], .string .unicode [])
    else if c = '"' then ([], .quotedIdentifier true [])
    else followedBy [.word [letter]] (afterOperator ['&'] c)
  | .number head text, c => afterNumber head text c
  | .signed text sign, c =>
    if c.isDigit then ([], .number (text ++ [sign]) [c])
    else followedBy [.number text] (afterOperator [sign] c)
  | .dot, c =>
    if c.isDigit then ([], .number [] ['.', c])
    else if c = '.' then ([.symbol ['.', '.']], .start)
    else followedBy [.symbol ['.']] (fresh c)
  | .colon, c =>
    if c = ':' ∨ c = '=' then ([.symbol [':', c]], .start)
    else followedBy [.symbol [':']] (fresh c)
  | .operator text, c => afterOperator text c
  | .dollar tag, c =>
    if c = '$' then ([], .dollarBody tag [])
    else if tag = [] then
      if c.isDigit then ([], .parameter [c])
      else if isIdentStart c then ([], .dollar [c])
      else followedBy [.symbol ['$']] (fresh c)
    else if isTagCont c then ([], .dollar (tag ++ [c]))
    else followedBy [.symbol ['$']] (afterWord tag c)
  | .dollarBody tag body, c =>
    let delimiter := '$' :: tag ++ ['$']
    if delimiter <:+ body ++ [c] then
      ([.stringConstant ((body ++ [c]).take (body.length + 1 - delimiter.length))], .start)
    else ([], .dollarBody tag (body ++ [c]))
  | .parameter text, c =>
    if isTagCont c ∨ c = '$' ∧ text.any isIdentStart then ([], .parameter (text ++ [c]))
    else followedBy [.parameter text] (fresh c)
  | .string kind value, c => inString kind value c
  | .backslash value, c => afterBackslash value c
  | .code value letter base number left, c => inCode value letter base number left c
  | .closing kind value, c =>
    if c = '\'' ∧ kind.doubles then ([], .string kind (value ++ [c]))
    else inGap kind value false .space c
  | .gap kind value newline gap, c => inGap kind value newline gap c
  | .quotedIdentifier unicode value, c =>
    if c = '"' then ([], .identifierClosing unicode value)
    else ([], .quotedIdentifier unicode (value ++ [c]))
  | .identifierClosing unicode value, c =>
    if c = '"' then ([], .quotedIdentifier unicode (value ++ [c]))
    else followedBy [identifierToken unicode value] (fresh c)
  | .lineComment, c => if isNewline c then ([], .start) else ([], .lineComment)
  | .blockComment depth last, c =>
    if c = '*' ∧ last = some '/' then ([], .blockComment (depth + 1) none)
    else if c = '/' ∧ last = some '*' then
      ([], if depth ≤ 1 then .start else .blockComment (depth - 1) none)
    else ([], .blockComment depth (some c))

/-- The tokens that the end of the text completes. -/
def finish : State → List Token
  | .start => []
  | .lineComment => []
  | .word text => [.word text]
  | .ampersand letter => [.word [letter], .operator ['&']]
  | .number head text => [.number (head ++ text)]
  | .signed text sign => [.number text, .operator [sign]]
  | .dot => [.symbol ['.']]
  | .colon => [.symbol [':']]
  | .operator text => splitOperator text
  | .dollar [] => [.symbol ['$']]
  | .dollar tag => [.symbol ['$'], .word tag]
  | .parameter text => [.parameter text]
  | .closing kind value => [kind.token value]
  | .gap kind value _ .hyphen => [kind.token value, .operator ['-']]
  | .gap kind value _ _ => [kind.token value]
  | .identifierClosing unicode value => [identifierToken unicode value]
  | _ => [.unterminated]

/-! ### Readings -/

/-- A text read from a state. -/
def reading (state : State) : List Char → List Token × State
  | [] => ([], state)
  | c :: rest => followedBy (step state c).1 (reading (step state c).2 rest)

/-- The tokens of a text that is read from a state to its end. -/
def tokensFrom (state : State) (text : List Char) : List Token :=
  (reading state text).1 ++ finish (reading state text).2

/-- The tokens of a text. -/
def tokens (text : List Char) : List Token := tokensFrom .start text

theorem reading_append (state : State) (text rest : List Char) :
    reading state (text ++ rest) =
      followedBy (reading state text).1 (reading (reading state text).2 rest) := by
  induction text generalizing state with
  | nil => simp [reading, followedBy]
  | cons c text ih =>
    simp only [List.cons_append, reading, ih (step state c).2]
    simp [followedBy]

theorem tokensFrom_append (state : State) (text rest : List Char) :
    tokensFrom state (text ++ rest) =
      (reading state text).1 ++ tokensFrom (reading state text).2 rest := by
  simp [tokensFrom, reading_append, followedBy]

theorem tokensFrom_cons (state : State) (c : Char) (rest : List Char) :
    tokensFrom state (c :: rest) = (step state c).1 ++ tokensFrom (step state c).2 rest := by
  simp [tokensFrom, reading, followedBy]

/-! ### Boundaries of tokens -/

/-- A character begins a token where a text ends in a state: whatever the text holds is complete. -/
def Fresh (state : State) (c : Char) : Prop :=
  step state c = followedBy (finish state) (fresh c)

instance (state : State) (c : Char) : Decidable (Fresh state c) :=
  inferInstanceAs (Decidable (step state c = followedBy (finish state) (fresh c)))

/-- Assumes: a character that begins a token behind a text. The text keeps its tokens. -/
theorem tokensFrom_append_cons {state : State} {text rest : List Char} {c : Char}
    (h : Fresh (reading state text).2 c) :
    tokensFrom state (text ++ c :: rest) = tokensFrom state text ++ tokens (c :: rest) := by
  rw [tokensFrom_append, tokensFrom_cons, h]
  simp [tokensFrom, tokens, followedBy, reading, step]

/-- The state of the reader at a place between a constant and what follows it. -/
def Gap.state : Gap → State
  | .space => .start
  | .hyphen => .operator ['-']
  | .comment => .lineComment

/-- A text continues a constant behind white space and line comments: it has a quote behind the end
of a line. -/
def continues (newline : Bool) : Gap → List Char → Bool
  | _, [] => false
  | .space, c :: rest =>
    if c = '\'' then newline
    else if isSpace c then continues (newline || isNewline c) .space rest
    else if c = '-' then continues newline .hyphen rest
    else false
  | .hyphen, c :: rest => c = '-' && continues newline .comment rest
  | .comment, c :: rest =>
    if isNewline c then continues true .space rest else continues newline .comment rest

/-- A text goes on with the constant that ends before it. -/
def continuesConstant : List Char → Bool
  | [] => false
  | c :: rest => c = '\'' || continues false .space (c :: rest)

/-- Assumes: a text that does not continue the constant before it. The constant is a token, and the
text is read as if it stood alone. -/
theorem tokensFrom_gap {kind : Quoted} {value : List Char} {newline : Bool} {gap : Gap}
    {text : List Char} (h : continues newline gap text = false) :
    tokensFrom (.gap kind value newline gap) text = kind.token value :: tokensFrom gap.state text := by
  induction text generalizing newline gap with
  | nil => cases gap <;> rfl
  | cons c rest ih =>
    rw [tokensFrom_cons, tokensFrom_cons]
    cases gap with
    | space =>
      rw [continues] at h
      split_ifs at h with hquote hspace hhyphen
      · have hstart : step (Gap.state .space) '\'' = ([], .string .plain []) := by decide
        have hstring : inGap kind value false .space '\'' =
            ([kind.token value], .string .plain []) := by
          simp [inGap, isSpace, fresh, followedBy]
        rw [hquote, h, hstart, step, hstring]
        rfl
      · have hnot : c ≠ '\'' := hquote
        simpa [step, inGap, hnot, hspace, fresh, Gap.state] using ih h
      · subst hhyphen
        have hoperator : fresh '-' = ([], .operator ['-']) := by decide
        simpa [step, inGap, Gap.state, hoperator, isSpace] using ih h
      · simp [step, inGap, hquote, hspace, hhyphen, Gap.state, followedBy]
    | hyphen =>
      rw [continues, Bool.and_eq_false_iff] at h
      by_cases hhyphen : c = '-'
      · subst hhyphen
        have hcomment : continues newline .comment rest = false := by simpa using h
        have hstate : step (Gap.state .hyphen) '-' = ([], .lineComment) := by decide
        rw [hstate]
        simpa [step, inGap, Gap.state] using ih hcomment
      · simp [step, inGap, hhyphen, Gap.state, followedBy]
    | comment =>
      rw [continues] at h
      split_ifs at h with hnewline
      · simpa [step, inGap, hnewline, Gap.state] using ih h
      · simpa [step, inGap, hnewline, Gap.state] using ih h

/-- Assumes: a text that does not continue the constant before it. The constant is a token, and the
text is read as if it stood alone. -/
theorem tokensFrom_closing {kind : Quoted} {value text : List Char}
    (h : continuesConstant text = false) :
    tokensFrom (.closing kind value) text = kind.token value :: tokens text := by
  cases text with
  | nil => rfl
  | cons c rest =>
    rw [continuesConstant, Bool.or_eq_false_iff] at h
    have hquote : c ≠ '\'' := by simpa using h.1
    have hgap : tokensFrom (.gap kind value false .space) (c :: rest) = _ := tokensFrom_gap h.2
    rw [tokensFrom_cons] at hgap ⊢
    simpa [step, hquote, tokens, Gap.state] using hgap

end Schemii.Foundations.PostgresLexer
