import Schemii.SqlEditor.Statements

/-!
# One character of code

In code, outside of constants, quoted identifiers, dollar quotes and comments, the scanner of the
editor and PostgreSQL's reader see the same characters. This module says what each of them leads to
in the reader, whatever token it is in the middle of.

* `semicolon_notMem_step`: no other character is read as a semicolon.
* `step_ordinary`, `step_dollar`: a plain character stays in code.
* `step_semicolon`, `step_quote`, `step_doubleQuote`, `step_dollarSign`: the characters with a meaning
  to the scanner.
* `pending_step`, `step_hyphen`, `step_asterisk`: the two characters that begin a comment.
-/

set_option autoImplicit false

namespace Schemii.SqlEditor

open Foundations.PostgresLexer

variable {c : Char} {state : State} {text : List Char}

/-! ### Other characters than a semicolon -/

theorem semicolon_notMem_splitOperator : semicolon ∉ splitOperator text := by
  cases text with
  | nil => simp [splitOperator]
  | cons first rest =>
    simp only [splitOperator]
    split_ifs <;> simp [semicolon]

theorem semicolon_ne_token (kind : Quoted) (value : List Char) : semicolon ≠ kind.token value := by
  cases kind <;> simp [semicolon, Quoted.token]

theorem semicolon_ne_identifierToken (unicode : Bool) (value : List Char) :
    semicolon ≠ identifierToken unicode value := by
  cases unicode <;> simp [semicolon, identifierToken]

variable {next : List Token × State} {complete : List Token}

theorem semicolon_notMem_followedBy
    (hcomplete : semicolon ∉ complete) (hnext : semicolon ∉ next.1) :
    semicolon ∉ (followedBy complete next).1 := by
  simpa [followedBy] using ⟨hcomplete, hnext⟩

theorem semicolon_notMem_fresh (hc : c ≠ ';') : semicolon ∉ (fresh c).1 := by
  unfold fresh
  split_ifs <;> simp [semicolon, hc.symm]

theorem semicolon_notMem_afterOperator (hc : c ≠ ';') : semicolon ∉ (afterOperator text c).1 := by
  unfold afterOperator
  split_ifs
  · exact semicolon_notMem_splitOperator
  · exact semicolon_notMem_splitOperator
  · simp
  · exact semicolon_notMem_followedBy semicolon_notMem_splitOperator (semicolon_notMem_fresh hc)

theorem semicolon_notMem_afterWord (hc : c ≠ ';') : semicolon ∉ (afterWord text c).1 := by
  unfold afterWord
  split_ifs
  · simp
  · cases quotedOfPrefix text <;> simp [semicolon]
  · simp
  · exact semicolon_notMem_followedBy (by simp [semicolon]) (semicolon_notMem_fresh hc)

theorem semicolon_notMem_afterNumber {head : List Char} (hc : c ≠ ';') :
    semicolon ∉ (afterNumber head text c).1 := by
  unfold afterNumber
  split_ifs
  · simp
  · simp
  · simp [semicolon]
  · simp
  · exact semicolon_notMem_followedBy (by simp [semicolon]) (semicolon_notMem_fresh hc)

theorem semicolon_notMem_inGap {kind : Quoted} {value : List Char} {newline : Bool} {gap : Gap}
    (hc : c ≠ ';') : semicolon ∉ (inGap kind value newline gap c).1 := by
  have htoken : semicolon ∉ [kind.token value] := by simpa using semicolon_ne_token kind value
  cases gap with
  | space =>
    simp only [inGap]
    split_ifs
    · simp
    · simp
    · simp
    · exact semicolon_notMem_followedBy htoken (semicolon_notMem_fresh hc)
  | hyphen =>
    simp only [inGap]
    split_ifs
    · simp
    · exact semicolon_notMem_followedBy htoken (semicolon_notMem_afterOperator hc)
  | comment =>
    simp only [inGap]
    split_ifs <;> simp

theorem inString_fst (kind : Quoted) (value : List Char) (c : Char) :
    (inString kind value c).1 = [] := by
  unfold inString
  split_ifs <;> rfl

theorem semicolon_notMem_step (hc : c ≠ ';') : semicolon ∉ (step state c).1 := by
  cases state with
  | start => exact semicolon_notMem_fresh hc
  | word text => exact semicolon_notMem_afterWord hc
  | ampersand letter =>
    rw [step]
    split_ifs
    · simp
    · simp
    · exact semicolon_notMem_followedBy (by simp [semicolon]) (semicolon_notMem_afterOperator hc)
  | number head text => exact semicolon_notMem_afterNumber hc
  | signed text sign =>
    rw [step]
    split_ifs
    · simp
    · exact semicolon_notMem_followedBy (by simp [semicolon]) (semicolon_notMem_afterOperator hc)
  | dot =>
    rw [step]
    split_ifs
    · simp
    · simp [semicolon]
    · exact semicolon_notMem_followedBy (by simp [semicolon]) (semicolon_notMem_fresh hc)
  | colon =>
    rw [step]
    split_ifs
    · simp [semicolon]
    · exact semicolon_notMem_followedBy (by simp [semicolon]) (semicolon_notMem_fresh hc)
  | operator text => exact semicolon_notMem_afterOperator hc
  | dollar tag =>
    rw [step]
    split_ifs
    · simp
    · simp
    · simp
    · exact semicolon_notMem_followedBy (by simp [semicolon]) (semicolon_notMem_fresh hc)
    · simp
    · exact semicolon_notMem_followedBy (by simp [semicolon]) (semicolon_notMem_afterWord hc)
  | dollarBody tag body =>
    rw [step]
    split_ifs <;> simp [semicolon]
  | parameter text =>
    rw [step]
    split_ifs
    · simp
    · exact semicolon_notMem_followedBy (by simp [semicolon]) (semicolon_notMem_fresh hc)
  | string kind value => simp [step, inString_fst]
  | backslash value =>
    simp only [step, afterBackslash]
    split
    · simp
    · split_ifs <;> simp
  | code value letter base number left =>
    simp only [step]
    unfold inCode
    split
    · simp
    · simp [inString_fst]
  | closing kind value =>
    rw [step]
    split_ifs
    · simp
    · exact semicolon_notMem_inGap hc
  | gap kind value newline gap => exact semicolon_notMem_inGap hc
  | quotedIdentifier unicode value =>
    rw [step]
    split_ifs <;> simp
  | identifierClosing unicode value =>
    rw [step]
    split_ifs
    · simp
    · exact semicolon_notMem_followedBy
        (by simpa using semicolon_ne_identifierToken unicode value) (semicolon_notMem_fresh hc)
  | lineComment =>
    rw [step]
    split_ifs <;> simp
  | blockComment depth last =>
    rw [step]
    split_ifs <;> simp

/-! ### One character of code -/

/-- The character of an operator that the next one may make a comment of. -/
def pending : State → Option Char
  | .operator text => text.getLast?
  | .signed _ sign => some sign
  | .gap _ _ _ .hyphen => some '-'
  | _ => none

/-- A state in which the next character does not mean something special to the reader. -/
def isSettled : State → Bool
  | .closing _ _ => false
  | .identifierClosing _ _ => false
  | .dollar _ => false
  | state => isCode state

/-- What a character of code leads to: a state of code whose operator, if it is in one, ends in the
character. -/
structure Ordinary (c : Char) (result : List Token × State) : Prop where
  settled : isSettled result.2
  pending : ∀ other, pending result.2 = some other → other = c

/-- A character that has no meaning of its own to the scanner. -/
def IsPlain (c : Char) : Prop := c ≠ '\'' ∧ c ≠ '"' ∧ c ≠ '$' ∧ c ≠ ';'

theorem Ordinary.followedBy (h : Ordinary c next) : Ordinary c (followedBy complete next) where
  settled := h.settled
  pending := h.pending

theorem fresh_ordinary (hc : IsPlain c) : Ordinary c (fresh c) := by
  obtain ⟨hquote, hdouble, hdollar, hsemicolon⟩ := hc
  unfold fresh
  rw [if_neg hquote, if_neg hdouble, if_neg hdollar]
  split_ifs
  · exact ⟨rfl, by simp [pending]⟩
  · exact ⟨rfl, by simp [pending]⟩
  · exact ⟨rfl, by simp [pending]⟩
  · exact ⟨rfl, by simp [pending, eq_comm]⟩
  · exact ⟨rfl, by simp [pending]⟩
  · exact ⟨rfl, by simp [pending]⟩
  · exact ⟨rfl, by simp [pending]⟩

/-- Assumes: a plain character that makes no comment of an operator. It continues or ends it. -/
theorem afterOperator_ordinary (hc : IsPlain c)
    (hhyphen : c = '-' → text.getLast? ≠ some '-') (hslash : c = '*' → text.getLast? ≠ some '/') :
    Ordinary c (afterOperator text c) := by
  unfold afterOperator
  split_ifs with h₁ h₂ h₃
  · exact absurd h₁.2 (hhyphen h₁.1)
  · exact absurd h₂.2 (hslash h₂.1)
  · exact ⟨rfl, fun other h ↦ by simpa [pending, eq_comm] using h⟩
  · exact (fresh_ordinary hc).followedBy

theorem afterWord_ordinary (hc : IsPlain c) : Ordinary c (afterWord text c) := by
  unfold afterWord
  split_ifs with h₁ h₂ h₃
  · exact ⟨rfl, by simp [pending]⟩
  · exact absurd h₂ hc.1
  · exact ⟨rfl, by simp [pending]⟩
  · exact (fresh_ordinary hc).followedBy

theorem afterNumber_ordinary {head : List Char} (hc : IsPlain c) :
    Ordinary c (afterNumber head text c) := by
  unfold afterNumber
  split_ifs with h₁ h₂ h₃ h₄
  · exact ⟨rfl, by simp [pending]⟩
  · exact ⟨rfl, by simp [pending]⟩
  · exact ⟨rfl, by simp [pending]⟩
  · exact ⟨rfl, fun other h ↦ by simpa [pending, eq_comm] using h⟩
  · exact (fresh_ordinary hc).followedBy

/-- Assumes: a plain character behind a constant, outside of a comment and not a second hyphen. It
continues or ends what stands between constants. -/
theorem inGap_ordinary {kind : Quoted} {value : List Char} {newline : Bool} {gap : Gap}
    (hc : IsPlain c) (hcomment : gap ≠ .comment) (hhyphen : gap = .hyphen → c ≠ '-') :
    Ordinary c (inGap kind value newline gap c) := by
  cases gap with
  | space =>
    simp only [inGap]
    split_ifs with h₁ h₂ h₃
    · exact absurd h₁.1 hc.1
    · exact ⟨rfl, by simp [pending]⟩
    · exact ⟨rfl, by simp [pending, h₃]⟩
    · exact (fresh_ordinary hc).followedBy
  | hyphen =>
    simp only [inGap, if_neg (hhyphen rfl)]
    exact (afterOperator_ordinary hc (fun h ↦ absurd h (hhyphen rfl)) (by simp)).followedBy
  | comment => exact absurd rfl hcomment

/-- Assumes: a plain character of code that makes no comment of an operator, outside of the start of
a dollar quote. -/
theorem step_ordinary (hcode : isCode state) (hdollar : ∀ tag, state ≠ .dollar tag) (hc : IsPlain c)
    (hhyphen : c = '-' → pending state ≠ some '-') (hslash : c = '*' → pending state ≠ some '/') :
    Ordinary c (step state c) := by
  cases state with
  | start => exact fresh_ordinary hc
  | word text => exact afterWord_ordinary hc
  | ampersand letter =>
    rw [step, if_neg hc.1, if_neg hc.2.1]
    exact (afterOperator_ordinary hc (by simp) (by simp)).followedBy
  | number head text => exact afterNumber_ordinary hc
  | signed text sign =>
    rw [step]
    split_ifs
    · exact ⟨rfl, by simp [pending]⟩
    · refine Ordinary.followedBy (afterOperator_ordinary hc ?_ ?_)
      · exact fun h ↦ by simpa [pending] using hhyphen h
      · exact fun h ↦ by simpa [pending] using hslash h
  | dot =>
    rw [step]
    split_ifs
    · exact ⟨rfl, by simp [pending]⟩
    · exact ⟨rfl, by simp [pending]⟩
    · exact (fresh_ordinary hc).followedBy
  | colon =>
    rw [step]
    split_ifs
    · exact ⟨rfl, by simp [pending]⟩
    · exact (fresh_ordinary hc).followedBy
  | operator text => exact afterOperator_ordinary hc hhyphen hslash
  | dollar tag => exact absurd rfl (hdollar tag)
  | dollarBody tag body => cases hcode
  | parameter text =>
    rw [step]
    split_ifs
    · exact ⟨rfl, by simp [pending]⟩
    · exact (fresh_ordinary hc).followedBy
  | string kind value => cases hcode
  | backslash value => cases hcode
  | code value letter base number left => cases hcode
  | closing kind value =>
    rw [step, if_neg fun h ↦ hc.1 h.1]
    exact inGap_ordinary hc (by simp) (by simp)
  | gap kind value newline gap =>
    refine inGap_ordinary hc ?_ ?_
    · rintro rfl
      cases hcode
    · rintro rfl rfl
      exact hhyphen rfl rfl
  | quotedIdentifier unicode value => cases hcode
  | identifierClosing unicode value =>
    rw [step, if_neg hc.2.1]
    exact (fresh_ordinary hc).followedBy
  | lineComment => cases hcode
  | blockComment depth last => cases hcode

/-- Assumes: a plain character behind the start of a dollar quote. It continues the tag, or the start
was none and the character is read as behind it. -/
theorem step_dollar (tag : List Char) (hc : IsPlain c) :
    Ordinary c (step (.dollar tag) c) ∨
      step (.dollar tag) c = ([], .dollar (tag ++ [c])) ∧
        (if tag = [] then isIdentStart c else isTagCont c) := by
  rw [step, if_neg hc.2.2.1]
  split_ifs with hempty hdigit hstart htag
  · exact .inl ⟨rfl, by simp [pending]⟩
  · exact .inr ⟨by rw [hempty]; rfl, hstart⟩
  · exact .inl ((fresh_ordinary hc).followedBy)
  · exact .inr ⟨rfl, htag⟩
  · exact .inl ((afterWord_ordinary hc).followedBy)

/-! ### The characters with a meaning -/

/-- A character that is part of no tag, number, operator or white space. -/
structure IsDelimiter (c : Char) : Prop where
  tag : isTagCont c = false
  start : isIdentStart c = false
  digit : c.isDigit = false
  operator : isOperatorChar c = false
  space : isSpace c = false
  mark : c ≠ '.' ∧ c ≠ ':' ∧ c ≠ '=' ∧ c ≠ '+' ∧ c ≠ '-' ∧ c ≠ '*' ∧ c ≠ '&'

theorem isDelimiter (hc : c ∈ [';', '\'', '"', '$']) : IsDelimiter c := by
  fin_cases hc <;> exact ⟨by decide, by decide, by decide, by decide, by decide, by decide⟩

/-- A character ends what the reader is in and begins a token. -/
def Ends (c : Char) (result : List Token × State) : Prop :=
  ∃ complete, result = followedBy complete (fresh c)

theorem fresh_ends (c : Char) : Ends c (fresh c) := ⟨[], rfl⟩

theorem Ends.followedBy (h : Ends c next) :
    Ends c (followedBy complete next) := by
  obtain ⟨before, rfl⟩ := h
  exact ⟨complete ++ before, by simp [Foundations.PostgresLexer.followedBy]⟩

theorem afterOperator_ends (hc : IsDelimiter c) : Ends c (afterOperator text c) := by
  rw [afterOperator, if_neg fun h ↦ hc.mark.2.2.2.2.1 h.1, if_neg fun h ↦ hc.mark.2.2.2.2.2.1 h.1,
    if_neg (by simp [hc.operator])]
  exact (fresh_ends c).followedBy

theorem afterWord_ends (hc : IsDelimiter c) (hdollar : c ≠ '$') (hquote : c ≠ '\'') :
    Ends c (afterWord text c) := by
  rw [afterWord, if_neg (by simp [isIdentCont, hc.tag, hdollar]), if_neg hquote,
    if_neg fun h ↦ hc.mark.2.2.2.2.2.2 h.1]
  exact (fresh_ends c).followedBy

theorem afterNumber_ends {head : List Char} (hc : IsDelimiter c)
    (hdollar : c = '$' → text.any isIdentStart = false) : Ends c (afterNumber head text c) := by
  obtain ⟨hdot, -, -, hplus, hminus, -, -⟩ := hc.mark
  rw [afterNumber, if_neg (by simpa [hc.tag] using hdollar), if_neg fun h ↦ hdot h.1,
    if_neg fun h ↦ hdot h.1, if_neg fun h ↦ h.1.elim hplus hminus]
  exact (fresh_ends c).followedBy

theorem inGap_ends {kind : Quoted} {value : List Char} {newline : Bool} {gap : Gap}
    (hc : IsDelimiter c) (hcomment : gap ≠ .comment) (hquote : ¬ (c = '\'' ∧ newline)) :
    Ends c (inGap kind value newline gap c) := by
  have hhyphen := hc.mark.2.2.2.2.1
  cases gap with
  | space =>
    simp only [inGap, if_neg hquote, hc.space, Bool.false_eq_true, if_false, if_neg hhyphen]
    exact (fresh_ends c).followedBy
  | hyphen =>
    simp only [inGap, if_neg hhyphen]
    exact (afterOperator_ends hc).followedBy
  | comment => exact absurd rfl hcomment

/-- Assumes: a delimiter that is no single quote, in a state of code that gives it no meaning. It ends
what the reader is in. -/
theorem step_ends (hcode : isCode state) (hc : IsDelimiter c) (hdollar : c ≠ '$') (hquote : c ≠ '\'')
    (hdouble : c = '"' → ∀ letter, state ≠ .ampersand letter)
    (hclosing : c = '"' → ∀ unicode value, state ≠ .identifierClosing unicode value) :
    Ends c (step state c) := by
  cases state with
  | start => exact fresh_ends c
  | word text => exact afterWord_ends hc hdollar hquote
  | ampersand letter =>
    rw [step, if_neg hquote, if_neg fun h ↦ hdouble h letter rfl]
    exact (afterOperator_ends hc).followedBy
  | number head text => exact afterNumber_ends hc fun h ↦ absurd h hdollar
  | signed text sign =>
    rw [step, if_neg (by simp [hc.digit])]
    exact (afterOperator_ends hc).followedBy
  | dot =>
    rw [step, if_neg (by simp [hc.digit]), if_neg hc.mark.1]
    exact (fresh_ends c).followedBy
  | colon =>
    rw [step, if_neg fun h ↦ h.elim hc.mark.2.1 hc.mark.2.2.1]
    exact (fresh_ends c).followedBy
  | operator text => exact afterOperator_ends hc
  | dollar tag =>
    rw [step, if_neg hdollar]
    split_ifs with hempty hdigit hstart htag
    · exact absurd hdigit (by simp [hc.digit])
    · exact absurd hstart (by simp [hc.start])
    · exact (fresh_ends c).followedBy
    · exact absurd htag (by simp [hc.tag])
    · exact (afterWord_ends hc hdollar hquote).followedBy
  | dollarBody tag body => cases hcode
  | parameter text =>
    rw [step, if_neg (by simp [hc.tag, hdollar])]
    exact (fresh_ends c).followedBy
  | string kind value => cases hcode
  | backslash value => cases hcode
  | code value letter base number left => cases hcode
  | closing kind value =>
    rw [step, if_neg fun h ↦ hquote h.1]
    exact inGap_ends hc (by simp) (by simp)
  | gap kind value newline gap =>
    exact inGap_ends hc (by rintro rfl; cases hcode) fun h ↦ hquote h.1
  | quotedIdentifier unicode value => cases hcode
  | identifierClosing unicode value =>
    rw [step, if_neg fun h ↦ hclosing h unicode value rfl]
    exact (fresh_ends c).followedBy
  | lineComment => cases hcode
  | blockComment depth last => cases hcode

theorem step_semicolon (hcode : isCode state) :
    semicolon ∈ (step state ';').1 ∧ (step state ';').2 = .start := by
  have hends : Ends ';' (step state ';') :=
    step_ends hcode (isDelimiter (by simp)) (by decide) (by decide) (by simp) (by simp)
  obtain ⟨complete, hresult⟩ := hends
  have hfresh : fresh ';' = ([semicolon], .start) := by decide
  simp [hresult, hfresh, followedBy]

/-- Assumes: a state of code that is not behind a closing double quote. A double quote opens an
identifier. -/
theorem step_doubleQuote (hcode : isCode state)
    (hclosing : ∀ unicode value, state ≠ .identifierClosing unicode value) :
    ∃ unicode value, (step state '"').2 = .quotedIdentifier unicode value := by
  by_cases hletter : ∃ letter, state = .ampersand letter
  · obtain ⟨letter, rfl⟩ := hletter
    exact ⟨true, [], by simp [step]⟩
  · have hends : Ends '"' (step state '"') := step_ends hcode (isDelimiter (by simp)) (by decide)
      (by decide) (fun _ letter h ↦ hletter ⟨letter, h⟩) fun _ ↦ hclosing
    obtain ⟨complete, hresult⟩ := hends
    have hfresh : fresh '"' = ([], .quotedIdentifier false []) := by decide
    exact ⟨false, [], by simp [hresult, hfresh, followedBy]⟩

/-- What a single quote leads to: the inside of a constant. -/
def OpensConstant (result : List Token × State) : Prop := ∃ kind value, result.2 = .string kind value

theorem OpensConstant.followedBy (h : OpensConstant next) : OpensConstant (followedBy complete next) := h

theorem Ends.opensConstant {result : List Token × State} (h : Ends '\'' result) :
    OpensConstant result := by
  obtain ⟨complete, rfl⟩ := h
  have hfresh : fresh '\'' = ([], .string .plain []) := by decide
  rw [hfresh]
  exact ⟨.plain, [], rfl⟩

theorem afterWord_quote : OpensConstant (afterWord text '\'') := by
  have hnot : isIdentCont '\'' = false := by decide
  rw [afterWord, if_neg (by simp [hnot]), if_pos rfl]
  cases quotedOfPrefix text with
  | none => exact ⟨.plain, [], rfl⟩
  | some kind => exact ⟨kind, [], rfl⟩

/-- Assumes: a state of code that is not behind a closing quote. A single quote opens a constant or
continues one. -/
theorem step_quote (hcode : isCode state) (hclosing : ∀ kind value, state ≠ .closing kind value) :
    OpensConstant (step state '\'') := by
  have hc : IsDelimiter '\'' := isDelimiter (by simp)
  cases state with
  | start => exact (fresh_ends '\'').opensConstant
  | word text => exact afterWord_quote
  | ampersand letter => exact ⟨.unicode, [], by simp [step]⟩
  | number head text => exact (afterNumber_ends hc (by simp)).opensConstant
  | signed text sign =>
    rw [step, if_neg (by simp [hc.digit])]
    exact ((afterOperator_ends hc).followedBy).opensConstant
  | dot =>
    rw [step, if_neg (by simp [hc.digit]), if_neg hc.mark.1]
    exact ((fresh_ends _).followedBy).opensConstant
  | colon =>
    rw [step, if_neg (by simp)]
    exact ((fresh_ends _).followedBy).opensConstant
  | operator text => exact (afterOperator_ends hc).opensConstant
  | dollar tag =>
    rw [step, if_neg (by simp)]
    split_ifs with hempty hdigit hstart htag
    · exact absurd hdigit (by simp [hc.digit])
    · exact absurd hstart (by simp [hc.start])
    · exact ((fresh_ends _).followedBy).opensConstant
    · exact absurd htag (by simp [hc.tag])
    · exact afterWord_quote.followedBy
  | dollarBody tag body => cases hcode
  | parameter text =>
    rw [step, if_neg (by simp [hc.tag])]
    exact ((fresh_ends _).followedBy).opensConstant
  | string kind value => cases hcode
  | backslash value => cases hcode
  | code value letter base number left => cases hcode
  | closing kind value => exact absurd rfl (hclosing kind value)
  | gap kind value newline gap =>
    by_cases hnewline : gap = .space ∧ newline
    · obtain ⟨rfl, hnewline⟩ := hnewline
      exact ⟨kind, value, by simp [step, inGap, hnewline]⟩
    · cases gap with
      | space => exact (inGap_ends hc (by simp) fun h ↦ hnewline ⟨rfl, h.2⟩).opensConstant
      | hyphen =>
              exact ((afterOperator_ends hc).followedBy).opensConstant
      | comment => cases hcode
  | quotedIdentifier unicode value => cases hcode
  | identifierClosing unicode value =>
    rw [step, if_neg (by simp)]
    exact ((fresh_ends _).followedBy).opensConstant
  | lineComment => cases hcode
  | blockComment depth last => cases hcode

/-- Assumes: a state of code that does not hold the start of a dollar quote. A dollar sign starts one,
or continues a word. -/
theorem step_dollarSign (hcode : isCode state) (hdollar : ∀ tag, state ≠ .dollar tag) :
    (step state '$').2 = .dollar [] ∨
      inWord (step state '$').2 ∧ isSettled (step state '$').2 ∧
        pending (step state '$').2 = none := by
  have hc : IsDelimiter '$' := isDelimiter (by simp)
  have hends (result : List Token × State) (h : Ends '$' result) : result.2 = .dollar [] ∨
      inWord result.2 ∧ isSettled result.2 ∧ pending result.2 = none := by
    obtain ⟨complete, rfl⟩ := h
    have hfresh : fresh '$' = ([], .dollar []) := by decide
    rw [hfresh]
    exact .inl rfl
  cases state with
  | start => exact hends _ (fresh_ends _)
  | word text =>
    have hword : isIdentCont '$' = true := by decide
    simp [step, afterWord, hword, inWord, isSettled, isCode, pending]
  | ampersand letter =>
    rw [step, if_neg (by simp), if_neg (by simp)]
    exact hends _ ((afterOperator_ends hc).followedBy)
  | number head text =>
    by_cases hletter : text.any isIdentStart
    · rw [step, afterNumber, if_pos (.inr ⟨rfl, hletter⟩)]
      exact .inr ⟨rfl, rfl, rfl⟩
    · exact hends _ (afterNumber_ends hc fun _ ↦ by simpa using hletter)
  | signed text sign =>
    rw [step, if_neg (by simp [hc.digit])]
    exact hends _ ((afterOperator_ends hc).followedBy)
  | dot =>
    rw [step, if_neg (by simp [hc.digit]), if_neg hc.mark.1]
    exact hends _ ((fresh_ends _).followedBy)
  | colon =>
    rw [step, if_neg (by simp)]
    exact hends _ ((fresh_ends _).followedBy)
  | operator text => exact hends _ (afterOperator_ends hc)
  | dollar tag => exact absurd rfl (hdollar tag)
  | dollarBody tag body => cases hcode
  | parameter text =>
    by_cases hletter : text.any isIdentStart
    · rw [step, if_pos (.inr ⟨rfl, hletter⟩)]
      exact .inr ⟨rfl, rfl, rfl⟩
    · rw [step, if_neg (by simpa [hc.tag] using hletter)]
      exact hends _ ((fresh_ends _).followedBy)
  | string kind value => cases hcode
  | backslash value => cases hcode
  | code value letter base number left => cases hcode
  | closing kind value =>
    rw [step, if_neg (by simp)]
    exact hends _ (inGap_ends hc (by simp) (by simp))
  | gap kind value newline gap =>
    exact hends _ (inGap_ends hc (by rintro rfl; cases hcode) (by simp))
  | quotedIdentifier unicode value => cases hcode
  | identifierClosing unicode value =>
    rw [step, if_neg (by simp)]
    exact hends _ ((fresh_ends _).followedBy)
  | lineComment => cases hcode
  | blockComment depth last => cases hcode

/-! ### Comments -/

/-- Assumes: a state of code, and a character that may begin the mark of a comment and does not
complete one. The next character may complete it. -/
theorem pending_step (hcode : isCode state) (hmark : c = '-' ∨ c = '/')
    (hpending : c = '-' → pending state ≠ some '-') : pending (step state c).2 = some c := by
  have hfresh : fresh c = ([], .operator [c]) := by rcases hmark with rfl | rfl <;> decide
  have htag : isTagCont c = false := by rcases hmark with rfl | rfl <;> decide
  have hstart : isIdentStart c = false := by rcases hmark with rfl | rfl <;> decide
  have hdigit : c.isDigit = false := by rcases hmark with rfl | rfl <;> decide
  have hspace : isSpace c = false := by rcases hmark with rfl | rfl <;> decide
  have hoperator : isOperatorChar c = true := by rcases hmark with rfl | rfl <;> decide
  have hne : c ≠ '\'' ∧ c ≠ '"' ∧ c ≠ '$' ∧ c ≠ '.' ∧ c ≠ ':' ∧ c ≠ '=' ∧ c ≠ '&' ∧ c ≠ '*' := by
    rcases hmark with rfl | rfl <;> decide
  obtain ⟨hquote, hdouble, hdollar, hdot, hcolon, hequals, hampersand, hstar⟩ := hne
  have hword : isIdentCont c = false := by simp [isIdentCont, htag, hdollar]
  have hafter (text : List Char) (hlast : c = '-' → text.getLast? ≠ some '-') :
      pending (afterOperator text c).2 = some c := by
    rw [afterOperator, if_neg fun h ↦ hlast h.1 h.2, if_neg fun h ↦ hstar h.1, if_pos hoperator]
    simp [pending]
  have hwordAfter (text : List Char) : pending (afterWord text c).2 = some c := by
    simp [afterWord, hword, hquote, hampersand, hfresh, followedBy, pending]
  cases state with
  | start => simp [step, hfresh, pending]
  | word text => exact hwordAfter text
  | ampersand letter =>
    rw [step, if_neg hquote, if_neg hdouble]
    exact hafter ['&'] (by simp)
  | number head text =>
    rw [step, afterNumber, if_neg (by simp [htag, hdollar]), if_neg fun h ↦ hdot h.1,
      if_neg fun h ↦ hdot h.1]
    split_ifs
    · rfl
    · simp [hfresh, followedBy, pending]
  | signed text sign =>
    rw [step, if_neg (by simp [hdigit])]
    exact hafter [sign] fun h ↦ by simpa [pending] using hpending h
  | dot => simp [step, hdigit, hdot, hfresh, followedBy, pending]
  | colon => simp [step, hcolon, hequals, hfresh, followedBy, pending]
  | operator text => exact hafter text hpending
  | dollar tag =>
    rw [step, if_neg hdollar]
    split_ifs with hempty hdigits hletter hcont
    · exact absurd hdigits (by simp [hdigit])
    · exact absurd hletter (by simp [hstart])
    · simp [hfresh, followedBy, pending]
    · exact absurd hcont (by simp [htag])
    · exact hwordAfter tag
  | dollarBody tag body => cases hcode
  | parameter text => simp [step, htag, hdollar, hfresh, followedBy, pending]
  | string kind value => cases hcode
  | backslash value => cases hcode
  | code value letter base number left => cases hcode
  | closing kind value =>
    rw [step, if_neg fun h ↦ hquote h.1]
    rcases hmark with rfl | rfl
    · simp [inGap, hspace, pending]
    · simp [inGap, hspace, hfresh, followedBy, pending]
  | gap kind value newline gap =>
    cases gap with
    | space =>
      rcases hmark with rfl | rfl
      · simp [step, inGap, hspace, pending]
      · simp [step, inGap, hspace, hfresh, followedBy, pending]
    | hyphen =>
      have hnot : c ≠ '-' := fun h ↦ hpending h rfl
      simp only [step, inGap, if_neg hnot]
      exact hafter ['-'] fun h ↦ absurd h hnot
    | comment => cases hcode
  | quotedIdentifier unicode value => cases hcode
  | identifierClosing unicode value => simp [step, hdouble, hfresh, followedBy, pending]
  | lineComment => cases hcode
  | blockComment depth last => cases hcode

theorem step_hyphen (hpending : pending state = some '-') :
    inLineComment (step state '-').2 := by
  have hafter (text : List Char) (hlast : text.getLast? = some '-') :
      afterOperator text '-' = (splitOperator text.dropLast, .lineComment) := by
    rw [afterOperator, if_pos ⟨rfl, hlast⟩]
  cases state with
  | operator text =>
    rw [step, hafter text hpending]
    rfl
  | signed text sign =>
    have hdigit : Char.isDigit '-' = false := by decide
    rw [step, if_neg (by simp [hdigit]), hafter [sign] (by simpa [pending] using hpending)]
    rfl
  | gap kind value newline gap =>
    cases gap with
    | hyphen => rfl
    | space => cases hpending
    | comment => cases hpending
  | _ => cases hpending

theorem step_asterisk (hpending : pending state = some '/') :
    (step state '*').2 = .blockComment 1 none := by
  have hafter (text : List Char) (hlast : text.getLast? = some '/') :
      afterOperator text '*' = (splitOperator text.dropLast, .blockComment 1 none) := by
    rw [afterOperator, if_neg (by simp), if_pos ⟨rfl, hlast⟩]
  cases state with
  | operator text =>
    rw [step, hafter text hpending]
  | signed text sign =>
    have hdigit : Char.isDigit '*' = false := by decide
    rw [step, if_neg (by simp [hdigit]), hafter [sign] (by simpa [pending] using hpending)]
    rfl
  | gap kind value newline gap =>
    cases gap with
    | hyphen => simp [pending] at hpending
    | space => cases hpending
    | comment => cases hpending
  | _ => cases hpending

end Schemii.SqlEditor
