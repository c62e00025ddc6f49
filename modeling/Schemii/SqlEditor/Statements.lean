import Schemii.Foundations.PostgresLexer

/-!
# The statements of an editor's text

The editor decides in the browser which part of its text a run submits. `sqlStatementRanges` scans
the text once, in one of five modes: code, a quoted text, a dollar quote, a block comment, a line
comment that it skips at once. It cuts the text at the semicolons of the first mode, and
`sqlForRun` chooses the statement under the caret.

`semicolonsFrom` are the semicolons that PostgreSQL reads as tokens, and `segments` the trimmed
parts between them. `WellRead` is a condition on a text under which the two cut alike: before its
last semicolon it holds no `Misread` place, which the scanner takes for something else: a dollar sign
in a word, a dollar quote whose tag is not ASCII, a backslash in a constant whose opening quote it
misjudged, or a carriage return that ends a line comment.
-/

set_option autoImplicit false

namespace Schemii.SqlEditor

open Foundations.PostgresLexer

/-! ### The scanner of the browser -/

/-- `\s` of a regular expression. -/
def isJsSpace (c : Char) : Bool :=
  isSpace c || [0xa0, 0x1680, 0x2028, 0x2029, 0x202f, 0x205f, 0x3000, 0xfeff].contains c.toNat ||
    0x2000 ≤ c.toNat && c.toNat ≤ 0x200a

/-- `\w` of a regular expression. -/
def isJsWord (c : Char) : Bool := c.isAlphanum || c == '_'

/-- A part of a source, by the places where it starts and ends. -/
structure Range where
  start : ℕ
  stop : ℕ
  sql : List Char
  deriving DecidableEq, Repr

/-- `trimmedRange`. -/
def trimmedRange (source : List Char) (start stop : ℕ) : Option Range :=
  let part := (source.take stop).drop start
  let first := start + (part.takeWhile isJsSpace).length
  let last := stop - ((part.dropWhile isJsSpace).reverse.takeWhile isJsSpace).length
  if first < last then some ⟨first, last, (source.take last).drop first⟩ else none

/-- The variables of the scan. -/
structure Scan where
  index : ℕ
  start : ℕ
  quote : Option Char
  escapeString : Bool
  dollarQuote : Option (List Char)
  blockDepth : ℕ
  ranges : List Range
  deriving DecidableEq, Repr

/-- The opening of a dollar quote where a text starts:
`/^\$(?:[A-Za-z_][A-Za-z0-9_]*)?\$/`. -/
def dollarTag : List Char → Option (List Char)
  | '$' :: after =>
    let tag := if after.head?.any fun c ↦ c.isAlpha || c == '_' then after.takeWhile isJsWord else []
    if (after.drop tag.length).head? = some '$' then some ('$' :: tag ++ ['$']) else none
  | _ => none

/-- The letter before a quote begins a constant with escapes, as the scanner judges by the two
characters before the quote. -/
def escapePrefix (before : List Char) : Bool :=
  match before.reverse with
  | e :: earlier =>
    (e == 'e' || e == 'E') && !(earlier.head?.any fun c ↦ isJsWord c || c == '$')
  | [] => false

/-- One round of the scan. -/
def scanStep (sql : List Char) (scan : Scan) : Scan :=
  match sql.drop scan.index with
  | [] => scan
  | character :: after =>
    let next := after.head?
    match scan.dollarQuote, scan.quote with
    | some dollarQuote, _ =>
      if dollarQuote <+: character :: after then
        { scan with index := scan.index + dollarQuote.length, dollarQuote := none }
      else { scan with index := scan.index + 1 }
    | none, some quote =>
      if character = quote then
        if next = some quote then { scan with index := scan.index + 2 }
        else { scan with index := scan.index + 1, quote := none, escapeString := false }
      else if character = '\\' ∧ quote = '\'' ∧ scan.escapeString ∧ next.isSome then
        { scan with index := scan.index + 2 }
      else { scan with index := scan.index + 1 }
    | none, none =>
      if 0 < scan.blockDepth then
        if character = '/' ∧ next = some '*' then
          { scan with index := scan.index + 2, blockDepth := scan.blockDepth + 1 }
        else if character = '*' ∧ next = some '/' then
          { scan with index := scan.index + 2, blockDepth := scan.blockDepth - 1 }
        else { scan with index := scan.index + 1 }
      else if character = '-' ∧ next = some '-' then
        -- The index of the next newline, or the end of the text.
        { scan with index := scan.index + 2 + (after.tail.takeWhile fun c ↦ c != '\n').length + 1 }
      else if character = '/' ∧ next = some '*' then
        { scan with index := scan.index + 2, blockDepth := 1 }
      else if character = '\'' ∨ character = '"' then
        { scan with
          index := scan.index + 1
          quote := some character
          escapeString := character == '\'' && escapePrefix (sql.take scan.index) }
      else
        match dollarTag (character :: after) with
        | some dollarQuote =>
          { scan with index := scan.index + dollarQuote.length, dollarQuote := some dollarQuote }
        | none =>
          if character = ';' then
            { scan with
              index := scan.index + 1
              start := scan.index + 1
              ranges := scan.ranges ++ (trimmedRange sql scan.start scan.index).toList }
          else { scan with index := scan.index + 1 }

/-- The rounds of the scan while the index is inside the text. -/
def scanLoop (sql : List Char) : ℕ → Scan → Scan
  | 0, scan => scan
  | rounds + 1, scan =>
    if scan.index < sql.length then scanLoop sql rounds (scanStep sql scan) else scan

/-- The ranges behind the scan, with the part behind the last semicolon. -/
def Scan.finalRanges (sql : List Char) (scan : Scan) : List Range :=
  scan.ranges ++ (trimmedRange sql scan.start sql.length).toList

/-- The scan at the start of a text. -/
def Scan.initial : Scan := ⟨0, 0, none, false, none, 0, []⟩

/-- `sqlStatementRanges`. A round moves the index forward, so the loop ends within as many rounds as
the text has characters. -/
def sqlStatementRanges (sql : List Char) : List Range :=
  (scanLoop sql sql.length Scan.initial).finalRanges sql

/-- `String.prototype.trim`. -/
def jsTrim (text : List Char) : List Char :=
  ((text.dropWhile isJsSpace).reverse.dropWhile isJsSpace).reverse

/-- `sqlForRun`. -/
def sqlForRun (sql : List Char) (selectionStart selectionEnd : Option ℕ) (all : Bool) : List Char :=
  if all then jsTrim sql
  else
    let start := selectionStart.getD 0
    let stop := selectionEnd.getD start
    if start ≠ stop then jsTrim ((sql.take (max start stop)).drop (min start stop))
    else
      let ranges := sqlStatementRanges sql
      match ranges.find? fun range ↦ range.start ≤ start && start ≤ range.stop with
      | some containing => containing.sql
      | none =>
        match (ranges.filter fun range ↦ range.stop ≤ start).getLast? with
        | some preceding => preceding.sql
        | none => ((ranges.find? fun range ↦ start ≤ range.start).map Range.sql).getD []

/-! ### The statements that PostgreSQL reads -/

/-- The semicolon as a token. -/
def semicolon : Token := .symbol [';']

/-- The places of the semicolons that are read as tokens. -/
def semicolonsFrom (state : State) (index : ℕ) : List Char → List ℕ
  | [] => []
  | c :: rest =>
    (if semicolon ∈ (step state c).1 then [index] else []) ++
      semicolonsFrom (step state c).2 (index + 1) rest

/-- The trimmed parts of a source, from a place on, that lie between some places. -/
def segmentsFrom (source : List Char) (start : ℕ) : List ℕ → List Range
  | [] => (trimmedRange source start source.length).toList
  | stop :: rest =>
    (trimmedRange source start stop).toList ++ segmentsFrom source (stop + 1) rest

/-- The trimmed parts of a text between the semicolons that PostgreSQL reads as tokens. -/
def segments (sql : List Char) : List Range := segmentsFrom sql 0 (semicolonsFrom .start 0 sql)

/-! ### The texts that the scanner reads well -/

/-- The reader is between tokens or in one that a quote ends: in no constant, quoted identifier,
dollar quote or comment. -/
def isCode : State → Bool
  | .dollarBody _ _ => false
  | .string _ _ => false
  | .backslash _ => false
  | .code _ _ _ _ _ => false
  | .gap _ _ _ .comment => false
  | .quotedIdentifier _ _ => false
  | .lineComment => false
  | .blockComment _ _ => false
  | _ => true

/-- The kind of the constant that the reader is in. -/
def quotedIn : State → Option Quoted
  | .string kind _ => some kind
  | .code _ _ _ _ _ => some .escape
  | _ => none

/-- The reader is in a line comment. -/
def inLineComment : State → Bool
  | .gap _ _ _ .comment => true
  | .lineComment => true
  | _ => false

/-- The reader is in a word, or in one that refuses a number or a parameter. -/
def inWord : State → Bool
  | .word _ => true
  | .number _ _ => true
  | .parameter _ => true
  | _ => false

/-- A quote where the reader is in a state opens a constant, or continues it on a later line. -/
def opensConstant (state : State) (c : Char) : Bool :=
  c == '\'' && isCode state && match state with
    | .closing _ _ => false
    | _ => true

/-- A reading that remembers how the scanner judged the quote that was opened last. -/
structure Watch where
  escapes : Bool
  state : State
  before : List Char

/-- One character further. -/
def Watch.step (watch : Watch) (c : Char) : Watch where
  escapes := if opensConstant watch.state c then escapePrefix watch.before else watch.escapes
  state := (Foundations.PostgresLexer.step watch.state c).2
  before := watch.before ++ [c]

/-- A character that the scanner takes for something else than PostgreSQL. -/
inductive Misread (watch : Watch) : Char → List Char → Prop
  /-- A dollar sign inside a word, followed by the rest of a tag. -/
  | dollarInWord {rest tag : List Char} (hword : inWord (step watch.state '$').2)
      (htag : dollarTag ('$' :: rest) = some tag) : Misread watch '$' rest
  /-- The dollar sign behind a tag with a character beyond ASCII. -/
  | dollarTag {rest tag : List Char} (hstate : watch.state = .dollar tag)
      (hascii : ¬ tag.all fun c ↦ c.toNat < 128) : Misread watch '$' rest
  /-- A backslash in a constant that has escapes for one of the two only. -/
  | backslash {rest : List Char} {kind : Quoted} (hstate : quotedIn watch.state = some kind)
      (hkind : watch.escapes ≠ decide (kind = .escape)) : Misread watch '\\' rest
  /-- A carriage return that is not part of a line end in a line comment. -/
  | carriageReturn {c : Char} {rest : List Char} (hstate : inLineComment watch.state)
      (hnewline : c ≠ '\n') : Misread watch '\r' (c :: rest)

/-- A text, from a place on, holds no character before a semicolon that the scanner takes for
something else. -/
def WellReadFrom (watch : Watch) : List Char → Prop
  | [] => True
  | c :: rest => (';' ∈ rest → ¬ Misread watch c rest) ∧ WellReadFrom (watch.step c) rest

/-- A text that the scanner reads well. -/
def WellRead (sql : List Char) : Prop := WellReadFrom ⟨false, .start, []⟩ sql

end Schemii.SqlEditor
