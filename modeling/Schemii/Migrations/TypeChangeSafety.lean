import Schemii.Migrations.PostgresTypes

/-!
# Safe type changes keep every value

What `classify_type_change` says about two declarations, against the types and values of PostgreSQL.
A declaration is plain when it has no quotes and no characters that only Unicode folds or counts as
spaces or digits (`Plain`); what `_parse` makes of a plain declaration is what PostgreSQL makes of it.

* `safe_iff`, `Widens.holds`, `Widens.trans`: the rules of the classifier.
* `normalizedType_plain`: `_normalized` keeps the tokens of a plain declaration.
* `postgresType_of_parse`: `_parse` reads plain declarations as PostgreSQL does.
* `safe_changes_keep_values`, `equivalent_same_type_iff`: the decisions.
-/

set_option autoImplicit false

namespace Schemii.Migrations

open Designs

variable {type : PostgresType} {value : PostgresValue} {declaration : String} {rest : List Token}

/-! ### Inclusions of values -/

theorem IntegerValue.mono {bits more : ℕ} (h : bits ≤ more)
    (hvalue : IntegerValue bits value) : IntegerValue more value := by
  obtain ⟨number, rfl, hleast, hgreatest⟩ := hvalue
  have hpow : (2 : ℤ) ^ (bits - 1) ≤ 2 ^ (more - 1) :=
    pow_le_pow_right₀ (by norm_num) (Nat.sub_le_sub_right h 1)
  exact ⟨number, rfl, (neg_le_neg hpow).trans hleast, hgreatest.trans_le hpow⟩

theorem FloatValue.mono {bits more : ℕ} {least lower greatest higher : ℤ} (hbits : bits ≤ more)
    (hleast : lower ≤ least) (hgreatest : greatest ≤ higher)
    (hvalue : FloatValue bits least greatest value) : FloatValue more lower higher value := by
  rcases hvalue with hzero | hinfinity | hnan | ⟨mantissa, exponent, hnumber, hmantissa, hlow, hhigh⟩
  · exact .inl hzero
  · exact .inr (.inl hinfinity)
  · exact .inr (.inr (.inl hnan))
  · have hpow : (2 : ℤ) ^ bits ≤ 2 ^ more := pow_le_pow_right₀ (by norm_num) hbits
    exact .inr (.inr (.inr ⟨mantissa, exponent, hnumber, hmantissa.trans_le hpow,
      hleast.trans hlow, hhigh.trans hgreatest⟩))

theorem AtPrecision.mono {precision finer : ℕ} (h : precision ≤ finer) {microseconds : ℤ}
    (hmicroseconds : AtPrecision precision microseconds) : AtPrecision finer microseconds :=
  (pow_dvd_pow (10 : ℤ) (Nat.sub_le_sub_left h 6)).trans hmicroseconds

theorem numeric_mono {precision scale newPrecision newScale : ℕ} (hscale : scale ≤ newScale)
    (hdigits : (precision : ℤ) - scale ≤ (newPrecision : ℤ) - newScale)
    (hvalue : (PostgresType.numeric (some (precision, scale))).Holds value) :
    (PostgresType.numeric (some (newPrecision, newScale))).Holds value := by
  rcases hvalue with hnan | ⟨digits, rfl, hbound⟩
  · exact .inl hnan
  refine .inr ⟨digits * 10 ^ (newScale - scale), ?_, ?_⟩
  · have hpow : (10 : ℚ) ^ newScale = 10 ^ scale * 10 ^ (newScale - scale) := by
      rw [← pow_add, Nat.add_sub_of_le hscale]
    congr 1
    push_cast
    rw [hpow]
    field_simp
  · have hpositive : (0 : ℤ) < 10 ^ (newScale - scale) := by positivity
    have hpow : (10 : ℤ) ^ precision * 10 ^ (newScale - scale) ≤ 10 ^ newPrecision := by
      rw [← pow_add]
      exact pow_le_pow_right₀ (by norm_num) (by omega)
    calc |digits * 10 ^ (newScale - scale)|
        = |digits| * 10 ^ (newScale - scale) := by rw [abs_mul, abs_of_pos hpositive]
      _ < 10 ^ precision * 10 ^ (newScale - scale) := mul_lt_mul_of_pos_right hbound hpositive
      _ ≤ 10 ^ newPrecision := hpow

/-! ### The rules of the classifier -/

/-- The type that a declaration means as it was read. -/
def ParsedType.denote : ParsedType → PostgresType
  | .integer 0 => .smallint
  | .integer 1 => .integer
  | .integer _ => .bigint
  | .float 0 => .real
  | .float _ => .doublePrecision
  | .boolean => .boolean
  | .varchar length => .varchar length
  | .text => .text
  | .numeric modifiers => .numeric modifiers
  | .timestamp zone precision => .timestamp zone (min precision 6)
  | .time zone precision => .time zone (min precision 6)

/-- The bits of the integer types. -/
def integerBits (rank : ℕ) : ℕ := if rank = 0 then 16 else if rank = 1 then 32 else 64

theorem integerBits_mono {rank larger : ℕ} (h : rank ≤ larger) :
    integerBits rank ≤ integerBits larger := by
  unfold integerBits
  split_ifs <;> omega

theorem holds_integer (rank : ℕ) (value : PostgresValue) :
    (ParsedType.integer rank).denote.Holds value ↔ IntegerValue (integerBits rank) value := by
  match rank with
  | 0 => exact Iff.rfl
  | 1 => exact Iff.rfl
  | _ + 2 => exact Iff.rfl

/-- The rules by which a change between two readings is safe. -/
inductive SafeRule : ParsedType → ParsedType → Prop
  | integer {old new : ℕ} (h : old < new) : SafeRule (.integer old) (.integer new)
  | float {old new : ℕ} (h : old < new) : SafeRule (.float old) (.float new)
  | text : SafeRule .text .text
  | toText (length : Option ℕ) : SafeRule (.varchar length) .text
  | toVarchar : SafeRule .text (.varchar none)
  | unlimited (length : Option ℕ) : SafeRule (.varchar length) (.varchar none)
  | varchar {old new : ℕ} (h : old ≤ new) : SafeRule (.varchar (some old)) (.varchar (some new))
  | anyNumeric (modifiers : Option (ℕ × ℕ)) : SafeRule (.numeric modifiers) (.numeric none)
  | numeric {oldPrecision oldScale newPrecision newScale : ℕ} (hscale : oldScale ≤ newScale)
      (hdigits : (oldPrecision : ℤ) - oldScale ≤ (newPrecision : ℤ) - newScale) :
      SafeRule (.numeric (some (oldPrecision, oldScale))) (.numeric (some (newPrecision, newScale)))
  | timestamp (zone : Bool) {old new : ℕ} (h : old < new) :
      SafeRule (.timestamp zone old) (.timestamp zone new)
  | time (zone : Bool) {old new : ℕ} (h : old < new) : SafeRule (.time zone old) (.time zone new)

theorem safe_iff {old new : ParsedType} :
    (decideTypeChange old new).disposition = .safe ↔ SafeRule old new := by
  constructor
  · intro h
    unfold decideTypeChange decideTypeChange.narrows at h
    split at h
    case h_1 =>
      split at h
      · next hlarger => exact .integer hlarger
      · cases h
    case h_2 =>
      split at h
      · next hlarger => exact .float hlarger
      · cases h
    case h_3 => exact .text
    case h_4 length => exact .toText length
    case h_5 => exact .toVarchar
    case h_6 length => exact .unlimited length
    case h_7 =>
      split at h
      · next hlonger => exact .varchar hlonger
      · cases h
    case h_8 modifiers => exact .anyNumeric modifiers
    case h_9 =>
      split at h
      · next hwider => exact .numeric hwider.1 hwider.2
      · cases h
    case h_10 oldZone old newZone new =>
      split at h
      · next hfiner =>
        obtain ⟨rfl, hfiner⟩ := hfiner
        exact .timestamp oldZone hfiner
      · cases h
    case h_11 oldZone old newZone new =>
      split at h
      · next hfiner =>
        obtain ⟨rfl, hfiner⟩ := hfiner
        exact .time oldZone hfiner
      · cases h
    case h_12 => cases h
  · intro h
    cases h with
    | integer h => simp [decideTypeChange, h]
    | float h => simp [decideTypeChange, h]
    | text => rfl
    | toText length => rfl
    | toVarchar => rfl
    | unlimited length => rfl
    | varchar h => simp [decideTypeChange, h]
    | anyNumeric modifiers => rfl
    | numeric hscale hdigits => simp only [decideTypeChange, if_pos (And.intro hscale hdigits)]
    | timestamp zone h => simp [decideTypeChange, h]
    | time zone h => simp [decideTypeChange, h]

/-- A change that the classifier does not block: the same reading, or a safe change. -/
def Widens (old new : ParsedType) : Prop :=
  old = new ∨ (decideTypeChange old new).disposition = .safe

theorem Widens.holds {old new : ParsedType} (h : Widens old new)
    (hvalue : old.denote.Holds value) : new.denote.Holds value := by
  rcases h with rfl | h
  · exact hvalue
  cases safe_iff.mp h with
  | integer hlarger =>
    rw [holds_integer] at hvalue ⊢
    exact hvalue.mono (integerBits_mono (le_of_lt hlarger))
  | @float old new hlarger =>
    obtain ⟨rank, rfl⟩ : ∃ rank, new = rank + 1 := ⟨new - 1, by omega⟩
    cases old with
    | zero => exact FloatValue.mono (by norm_num) (by norm_num) (by norm_num) hvalue
    | succ old => exact hvalue
  | text => exact hvalue
  | toText length =>
    cases length with
    | none => exact hvalue
    | some length =>
      obtain ⟨characters, rfl, -⟩ := hvalue
      exact ⟨characters, rfl⟩
  | toVarchar => exact hvalue
  | unlimited length =>
    cases length with
    | none => exact hvalue
    | some length =>
      obtain ⟨characters, rfl, -⟩ := hvalue
      exact ⟨characters, rfl⟩
  | varchar hlonger =>
    obtain ⟨characters, rfl, hlength⟩ := hvalue
    exact ⟨characters, rfl, hlength.trans hlonger⟩
  | anyNumeric modifiers =>
    cases modifiers with
    | none => exact hvalue
    | some modifiers =>
      rcases hvalue with hnan | ⟨digits, rfl, -⟩
      · exact .inl hnan
      · exact .inr (.inr ⟨digits, modifiers.2, rfl⟩)
  | numeric hscale hdigits => exact numeric_mono hscale hdigits hvalue
  | timestamp zone hfiner =>
    rcases hvalue with hinfinity | ⟨microseconds, rfl, hprecision⟩
    · exact .inl hinfinity
    · exact .inr ⟨microseconds, rfl, hprecision.mono (min_le_min_right 6 hfiner.le)⟩
  | time zone hfiner =>
    obtain ⟨microseconds, offset, rfl, hprecision⟩ := hvalue
    exact ⟨microseconds, offset, rfl, hprecision.mono (min_le_min_right 6 hfiner.le)⟩

theorem decide_ne_equivalent (old new : ParsedType) :
    (decideTypeChange old new).disposition ≠ .equivalent := by
  unfold decideTypeChange decideTypeChange.narrows
  split <;> (try split) <;> simp

theorem SafeRule.trans {old middle new : ParsedType} (h : SafeRule old middle)
    (hnext : SafeRule middle new) : SafeRule old new := by
  cases h with
  | integer h =>
    cases hnext with
    | integer hnext => exact .integer (h.trans hnext)
  | float h =>
    cases hnext with
    | float hnext => exact .float (h.trans hnext)
  | text => exact hnext
  | toText length =>
    cases hnext with
    | text => exact .toText length
    | toVarchar => exact .unlimited length
  | toVarchar =>
    cases hnext with
    | toText => exact .text
    | unlimited => exact .toVarchar
  | unlimited length =>
    cases hnext with
    | toText => exact .toText length
    | unlimited => exact .unlimited length
  | varchar h =>
    cases hnext with
    | toText => exact .toText _
    | unlimited => exact .unlimited _
    | varchar hnext => exact .varchar (h.trans hnext)
  | anyNumeric modifiers =>
    cases hnext with
    | anyNumeric => exact .anyNumeric modifiers
  | numeric hscale hdigits =>
    cases hnext with
    | anyNumeric => exact .anyNumeric _
    | numeric hnextScale hnextDigits =>
      exact .numeric (hscale.trans hnextScale) (hdigits.trans hnextDigits)
  | timestamp zone h =>
    cases hnext with
    | timestamp _ hnext => exact .timestamp zone (h.trans hnext)
  | time zone h =>
    cases hnext with
    | time _ hnext => exact .time zone (h.trans hnext)

theorem Widens.trans {old middle new : ParsedType} (h : Widens old middle)
    (hnext : Widens middle new) : Widens old new := by
  rcases h with rfl | h
  · exact hnext
  rcases hnext with rfl | hnext
  · exact .inr h
  · exact .inr (safe_iff.mpr ((safe_iff.mp h).trans (safe_iff.mp hnext)))

/-! ### Tokens of plain texts -/

/-- A character that the interpreter and PostgreSQL take for the same, outside of quotes. -/
def plainChar (c : Char) : Bool :=
  (isPostgresSpace c || decide (33 ≤ c.toNat ∧ c.toNat ≤ 126)) && !isQuote c

/-- The characters of a text are plain. -/
def PlainChars (text : List Char) : Prop := ∀ c ∈ text, plainChar c = true

/-- A text does not go on with a character of a word. -/
def EndsWord (text : List Char) : Prop := ∀ c, text.head? = some c → isWordChar c = false

theorem PlainChars.of_append {text rest : List Char} (h : PlainChars (text ++ rest)) :
    PlainChars text ∧ PlainChars rest :=
  ⟨fun c hc ↦ h c (List.mem_append_left _ hc), fun c hc ↦ h c (List.mem_append_right _ hc)⟩

variable {c : Char}

theorem plainChar_notQuote (h : plainChar c = true) : isQuote c = false := by
  simp only [plainChar, Bool.and_eq_true, Bool.not_eq_true'] at h
  exact h.2

theorem plainChar_lt (h : plainChar c = true) : c.toNat < 128 := by
  simp only [plainChar, isPostgresSpace, Bool.and_eq_true, Bool.or_eq_true, decide_eq_true_eq] at h
  omega

theorem plainChar_isSpace (h : plainChar c = true) : isSpace c = isPostgresSpace c := by
  simp only [plainChar, isPostgresSpace, Bool.and_eq_true, Bool.or_eq_true, decide_eq_true_eq] at h
  simp only [isSpace, isPostgresSpace, List.mem_cons, List.not_mem_nil, or_false, decide_eq_decide]
  omega

theorem notWordChar_of_isPostgresSpace (h : isPostgresSpace c = true) :
    isWordChar c = false := by
  simp only [isPostgresSpace, decide_eq_true_eq] at h
  rw [← Char.ofNat_toNat c]
  generalize c.toNat = code at h
  have hcode : code ∈ [32, 9, 10, 11, 12, 13] := by
    simp only [List.mem_cons, List.not_mem_nil, or_false]
    omega
  clear h
  revert code
  decide

theorem isWordChar_toLower (c : Char) : isWordChar c.toLower = isWordChar c := by
  by_cases hupper : c.isUpper
  · have halpha : c.isAlpha = true := Bool.or_eq_true_iff.mpr (.inl hupper)
    simp [isWordChar, Char.isAlphanum, halpha]
  · rw [Char.toLower_eq_of_not_isUpper hupper]

theorem startToken_toLower (c : Char) : startToken c.toLower = startToken c := by
  by_cases hupper : c.isUpper
  · have halpha : c.isAlpha = true := Bool.or_eq_true_iff.mpr (.inl hupper)
    have hword : isWordChar c = true := by simp [isWordChar, Char.isAlphanum, halpha]
    unfold startToken
    rw [if_pos hword, if_pos ((isWordChar_toLower c).trans hword), Char.toLower_toLower_eq_toLower]
  · rw [Char.toLower_eq_of_not_isUpper hupper]

theorem startToken_state (hword : isWordChar c = false) (hquote : isQuote c = false) :
    (startToken c).2 = .word [] := by
  unfold startToken
  rw [hword, hquote]
  split <;> simp_all
  split <;> rfl

theorem lexFrom_toLower {text : List Char} (h : PlainChars text) (run : List Char) :
    lexFrom (.word run) (text.map Char.toLower) = lexFrom (.word run) text := by
  induction text generalizing run with
  | nil => rfl
  | cons c rest ih =>
    have hrest : PlainChars rest := fun d hd ↦ h d (List.mem_cons_of_mem _ hd)
    rw [List.map_cons, lexFrom, lexFrom, isWordChar_toLower, startToken_toLower,
      Char.toLower_toLower_eq_toLower]
    split
    · exact ih hrest _
    · next hword =>
      rw [startToken_state (by simpa using hword) (plainChar_notQuote (h c List.mem_cons_self)),
        ih hrest]

/-- A text ends its words where the next one does not go on with a character of a word. -/
theorem lexFrom_append {text rest : List Char} (h : PlainChars text) (hrest : EndsWord rest)
    (run : List Char) :
    lexFrom (.word run) (text ++ rest) = lexFrom (.word run) text ++ lexFrom (.word []) rest := by
  induction text generalizing run with
  | nil =>
    cases rest with
    | nil => simp [lexFrom, LexState.flush]
    | cons c rest =>
      have hword : isWordChar c = false := hrest c rfl
      simp [lexFrom, hword, LexState.flush]
  | cons c text ih =>
    have htext : PlainChars text := fun d hd ↦ h d (List.mem_cons_of_mem _ hd)
    rw [List.cons_append, lexFrom, lexFrom]
    split
    · exact ih htext _
    · next hword =>
      rw [startToken_state (by simpa using hword) (plainChar_notQuote (h c List.mem_cons_self)),
        ih htext, List.append_assoc, List.append_assoc, List.append_assoc]

theorem lexFrom_space (h : isPostgresSpace c = true) (rest : List Char) :
    lexFrom (.word []) (c :: rest) = lexFrom (.word []) rest := by
  have hword := notWordChar_of_isPostgresSpace h
  simp [lexFrom, hword, startToken, h, LexState.flush]

theorem lexFrom_spaces {spaces : List Char} (h : ∀ c ∈ spaces, isPostgresSpace c = true)
    (rest : List Char) : lexFrom (.word []) (spaces ++ rest) = lexFrom (.word []) rest := by
  induction spaces with
  | nil => rfl
  | cons c spaces ih =>
    rw [List.cons_append, lexFrom_space (h c List.mem_cons_self),
      ih fun d hd ↦ h d (List.mem_cons_of_mem _ hd)]

theorem lexFrom_splitWords {text word : List Char} (htext : PlainChars text)
    (hword : PlainChars word) :
    lexFrom (.word []) ([' '].intercalate (splitWords text word)) =
      lexFrom (.word []) (word.reverse ++ text) := by
  induction text generalizing word with
  | nil =>
    unfold splitWords
    split
    · next hempty => simp_all
    · simp [List.intercalate]
  | cons c text ih =>
    have hrest : PlainChars text := fun d hd ↦ htext d (List.mem_cons_of_mem _ hd)
    have hreverse : PlainChars word.reverse := fun d hd ↦ hword d (List.mem_reverse.1 hd)
    have hplain := htext c List.mem_cons_self
    rw [splitWords, plainChar_isSpace hplain]
    split
    · next hspace =>
      have hends : ∀ (d : Char) (rest : List Char), isPostgresSpace d = true → EndsWord (d :: rest) :=
        fun d rest hd found hfound ↦ by
          cases hfound
          exact notWordChar_of_isPostgresSpace hd
      have hnil : PlainChars ([] : List Char) := fun d hd ↦ by cases hd
      have htokens := ih hrest hnil
      rw [List.reverse_nil, List.nil_append] at htokens
      rw [lexFrom_append hreverse (hends c text hspace), lexFrom_space hspace, ← htokens]
      cases hwords : splitWords text [] with
      | nil =>
        split
        · next hempty => simp_all [List.intercalate, lexFrom, LexState.flush]
        · simp [List.intercalate, lexFrom, LexState.flush]
      | cons first others =>
        split
        · next hempty => simp_all [lexFrom, LexState.flush]
        · have hjoined : [' '].intercalate ([word.reverse] ++ first :: others) =
              word.reverse ++ ' ' :: [' '].intercalate (first :: others) := by
            simp [List.intercalate]
          rw [hjoined, lexFrom_append hreverse (hends ' ' _ rfl), lexFrom_space rfl]
    · have hnext : PlainChars (c :: word) := fun d hd ↦ by
        rcases List.mem_cons.1 hd with rfl | hd
        · exact hplain
        · exact hword d hd
      rw [ih hrest hnext, List.reverse_cons, List.append_assoc, List.singleton_append]

/-! ### Reading plain declarations -/

/-- What the interpreter knows about ASCII characters. -/
structure Unicode.Ascii (U : Unicode) : Prop where
  lower : ∀ text : String, (∀ c ∈ text.toList, c.toNat < 128) →
    (U.lower text).toList = text.toList.map Char.toLower
  digit : ∀ c : Char, c.toNat < 128 → U.digit c = if c.isDigit then some (c.toNat - 48) else none

/-- A declaration that the interpreter and PostgreSQL read alike: its characters are plain, and no word
has `with` joined to the name of a temporal type. -/
def Plain (declaration : String) : Prop :=
  PlainChars declaration.toList ∧ ∀ text, .word text ∈ tokens declaration →
    ¬ "timestampwith".toList <+: text ∧ ¬ "timewith".toList <+: text

section Reading

variable {U : Unicode} {text rest : List Char}

theorem plainChar_toLower {c : Char} (h : plainChar c = true) : plainChar c.toLower = true := by
  have hlt := plainChar_lt h
  rw [← Char.ofNat_toNat c] at h ⊢
  generalize c.toNat = code at h hlt
  revert h
  revert code
  decide

theorem plainChars_intercalate (parts : List (List Char)) (h : ∀ part ∈ parts, PlainChars part) :
    PlainChars ([' '].intercalate parts) := by
  match parts with
  | [] => exact fun c hc ↦ by cases hc
  | [part] =>
    rw [List.intercalate_singleton]
    exact h part List.mem_cons_self
  | part :: next :: rest =>
    rw [List.intercalate_cons_cons]
    have hrest := plainChars_intercalate (next :: rest)
      fun other hother ↦ h other (List.mem_cons_of_mem _ hother)
    intro c hc
    rcases List.mem_append.1 hc with hc | hc
    · rcases List.mem_append.1 hc with hc | hc
      · exact h part List.mem_cons_self c hc
      · rw [List.mem_singleton.1 hc]
        decide
    · exact hrest c hc

theorem PlainChars.splitWords {text word : List Char} (htext : PlainChars text)
    (hword : PlainChars word) :
    PlainChars ([' '].intercalate (Migrations.splitWords text word)) := by
  have hparts : ∀ part ∈ Migrations.splitWords text word, PlainChars part := by
    induction text generalizing word with
    | nil =>
      intro part hpart
      unfold Migrations.splitWords at hpart
      split at hpart
      · cases hpart
      · rw [List.mem_singleton.1 hpart]
        exact fun c hc ↦ hword c (List.mem_reverse.1 hc)
    | cons c text ih =>
      have hrest : PlainChars text := fun d hd ↦ htext d (List.mem_cons_of_mem _ hd)
      intro part hpart
      rw [Migrations.splitWords] at hpart
      split at hpart
      · rcases List.mem_append.1 hpart with hfirst | hlater
        · split at hfirst
          · cases hfirst
          · rw [List.mem_singleton.1 hfirst]
            exact fun d hd ↦ hword d (List.mem_reverse.1 hd)
        · exact ih hrest (fun d hd ↦ by cases hd) part hlater
      · refine ih hrest (fun d hd ↦ ?_) part hpart
        rcases List.mem_cons.1 hd with rfl | hd
        · exact htext d List.mem_cons_self
        · exact hword d hd
  exact plainChars_intercalate _ hparts

/-- `_normalized` keeps plain characters plain, and their tokens. -/
theorem normalizedType_plain (hU : U.Ascii) (h : PlainChars declaration.toList) :
    PlainChars (normalizedType U declaration) ∧
      lexFrom (.word []) (normalizedType U declaration) = tokens declaration := by
  have hlower := hU.lower declaration fun c hc ↦ plainChar_lt (h c hc)
  have hplain : PlainChars (declaration.toList.map Char.toLower) := by
    intro c hc
    obtain ⟨d, hd, rfl⟩ := List.mem_map.1 hc
    exact plainChar_toLower (h d hd)
  have hnil : PlainChars ([] : List Char) := fun d hd ↦ by cases hd
  unfold normalizedType
  rw [hlower]
  refine ⟨hplain.splitWords hnil, ?_⟩
  rw [lexFrom_splitWords hplain hnil, List.reverse_nil, List.nil_append, lexFrom_toLower h]
  rfl

variable {part : String}

theorem afterPart_eq (h : afterPart part text = some rest) :
    text = part.toList ++ rest := by
  unfold afterPart at h
  split at h
  · next hinitial =>
    cases h
    exact (List.prefix_iff_eq_append.1 hinitial).symm
  · cases h

theorem afterPart_symbol (c : Char) (hpart : part.toList = [c])
    (h : afterPart part text = some rest) : text = c :: rest := by
  rw [afterPart_eq h, hpart]
  rfl

theorem lexFrom_afterSpaces (h : PlainChars text) :
    lexFrom (.word []) (afterSpaces text) = lexFrom (.word []) text := by
  have hsplit := List.takeWhile_append_dropWhile (p := isSpace) (l := text)
  conv_rhs => rw [← hsplit]
  refine (lexFrom_spaces (fun c hc ↦ ?_) _).symm
  rw [← plainChar_isSpace (h c ((List.takeWhile_subset _) hc))]
  exact List.mem_takeWhile_imp hc

theorem PlainChars.afterSpaces (h : PlainChars text) : PlainChars (Migrations.afterSpaces text) :=
  fun c hc ↦ h c (List.dropWhile_subset _ hc)

theorem endsWord_of_afterSpaces (h : PlainChars text) (hends : EndsWord (afterSpaces text)) :
    EndsWord text := by
  intro c hc
  cases text with
  | nil => cases hc
  | cons d rest =>
    cases hc
    cases hspace : isSpace c with
    | true =>
      rw [plainChar_isSpace (h c List.mem_cons_self)] at hspace
      exact notWordChar_of_isPostgresSpace hspace
    | false =>
      refine hends c ?_
      simp [afterSpaces, hspace]

theorem lexFrom_symbol {c : Char} (hword : isWordChar c = false) (hspace : isPostgresSpace c = false)
    (hquote : isQuote c = false) (rest : List Char) :
    lexFrom (.word []) (c :: rest) = .symbol c :: lexFrom (.word []) rest := by
  simp [lexFrom, startToken, hword, hspace, hquote, LexState.flush]

theorem lexFrom_digits {digits : List Char} (hne : digits ≠ []) (hdigits : digits.all Char.isDigit)
    (hrest : EndsWord rest) :
    lexFrom (.word []) (digits ++ rest) = .word digits :: lexFrom (.word []) rest := by
  have hdigit : ∀ c : Char, c.isDigit = true → isWordChar c = true ∧ c.toLower = c := by
    intro c hc
    refine ⟨by simp [isWordChar, Char.isAlphanum, hc], Char.toLower_eq_of_not_isUpper fun hupper ↦ ?_⟩
    have hletter : 'A'.val ≤ c.val ∧ c.val ≤ 'Z'.val := of_decide_eq_true hupper
    simp only [Char.isDigit, Bool.and_eq_true, decide_eq_true_eq, UInt32.le_iff_toNat_le] at hc hletter
    simp at hc hletter
    omega
  have hruns : ∀ run : List Char, lexFrom (.word run) (digits ++ rest) =
      (LexState.word (digits.reverse ++ run)).flush ++ lexFrom (.word []) rest := by
    clear hne
    induction digits with
    | nil =>
      intro run
      cases rest with
      | nil => simp [lexFrom, LexState.flush]
      | cons c rest => simp [lexFrom, hrest c rfl, LexState.flush]
    | cons c digits ih =>
      intro run
      rw [List.all_cons, Bool.and_eq_true] at hdigits
      obtain ⟨hword, hlower⟩ := hdigit c hdigits.1
      rw [List.cons_append, lexFrom, if_pos hword, hlower, ih hdigits.2, List.reverse_cons,
        List.append_assoc, List.singleton_append]
  rw [hruns, List.append_nil]
  cases hreversed : digits.reverse with
  | nil => exact absurd (List.reverse_eq_nil_iff.1 hreversed) hne
  | cons c others => simp [LexState.flush, ← hreversed]

theorem readNumber_plain (hU : U.Ascii) (h : PlainChars text) {number : ℕ}
    (hread : readNumber U text = some (number, rest)) :
    ∃ digits, text = digits ++ rest ∧ digits ≠ [] ∧ digits.all Char.isDigit = true ∧
      decimal digits = some number := by
  unfold readNumber at hread
  simp only at hread
  split at hread
  · cases hread
  next hnonempty =>
  simp only [Option.some.injEq, Prod.mk.injEq] at hread
  obtain ⟨hnumber, hrest⟩ := hread
  generalize hdigits : text.takeWhile (fun c ↦ (U.digit c).isSome) = digits at *
  have hmem : ∀ c ∈ digits, c.isDigit = true ∧ U.digit c = some (c.toNat - 48) := by
    intro c hc
    have hsome := List.mem_takeWhile_imp (hdigits ▸ hc)
    have hplain := h c ((List.takeWhile_subset _) (hdigits ▸ hc))
    rw [hU.digit c (plainChar_lt hplain)] at hsome ⊢
    split at hsome
    · next hdigit => simp [hdigit]
    · cases hsome
  have hall : digits.all Char.isDigit = true := List.all_eq_true.2 fun c hc ↦ (hmem c hc).1
  have hne : digits ≠ [] := by simpa using hnonempty
  have hvalues : digits.filterMap U.digit = digits.map fun c ↦ c.toNat - 48 := by
    rw [← List.filterMap_eq_map]
    exact List.filterMap_congr fun c hc ↦ (hmem c hc).2
  refine ⟨digits, ?_, hne, hall, ?_⟩
  · rw [← hrest, ← hdigits]
    exact (List.prefix_iff_eq_append.1 (List.takeWhile_prefix _)).symm
  · rw [decimal, if_pos ⟨hne, hall⟩, ← hnumber, hvalues, List.foldl_map]

theorem lexFrom_afterPart {c : Char} (hword : isWordChar c = false)
    (hspace : isPostgresSpace c = false) (hquote : isQuote c = false) (h : PlainChars text)
    (hpart : afterSpaces text = c :: rest) :
    lexFrom (.word []) text = .symbol c :: lexFrom (.word []) rest ∧ PlainChars rest ∧
      EndsWord text := by
  refine ⟨?_, fun d hd ↦ h.afterSpaces d (hpart ▸ List.mem_cons_of_mem _ hd),
    endsWord_of_afterSpaces h fun d hd ↦ ?_⟩
  · rw [← lexFrom_afterSpaces h, hpart, lexFrom_symbol hword hspace hquote]
  · rw [hpart] at hd
    cases hd
    exact hword

theorem lexFrom_number (hU : U.Ascii) (h : PlainChars text) {number : ℕ}
    (hread : readNumber U (afterSpaces text) = some (number, rest)) :
    PlainChars rest ∧ (EndsWord rest → ∃ digits, decimal digits = some number ∧
      lexFrom (.word []) text = .word digits :: lexFrom (.word []) rest) := by
  obtain ⟨digits, heq, hne, hall, hnumber⟩ := readNumber_plain hU h.afterSpaces hread
  refine ⟨fun c hc ↦ h.afterSpaces c (heq ▸ List.mem_append_right _ hc), fun hends ↦
    ⟨digits, hnumber, ?_⟩⟩
  rw [← lexFrom_afterSpaces h, heq, lexFrom_digits hne hall hends]

theorem readModifier_plain (hU : U.Ascii) (h : PlainChars text) {number : ℕ}
    (hread : readModifier U text = some (number, rest)) :
    PlainChars rest ∧ EndsWord text ∧
      typeModifier (lexFrom (.word []) text) = some (some number, lexFrom (.word []) rest) := by
  simp only [readModifier, Option.bind_eq_bind, Option.bind_eq_some_iff] at hread
  obtain ⟨opened, hopened, ⟨found, between⟩, hnumber, closed, hclosed, hresult⟩ := hread
  simp only [Option.some.injEq, Prod.mk.injEq] at hresult
  obtain ⟨rfl, rfl⟩ := hresult
  obtain ⟨htokens, hplain, hends⟩ :=
    lexFrom_afterPart (by decide) (by decide) (by decide) h
      (afterPart_symbol '(' rfl hopened)
  obtain ⟨hbetween, hdigits⟩ := lexFrom_number hU hplain hnumber
  obtain ⟨hclosing, hrest, hstops⟩ :=
    lexFrom_afterPart (by decide) (by decide) (by decide) hbetween
      (afterPart_symbol ')' rfl hclosed)
  obtain ⟨digits, hvalue, hword⟩ := hdigits hstops
  refine ⟨hrest, hends, ?_⟩
  rw [htokens, hword, hclosing, typeModifier, hvalue]
  rfl

theorem lexFrom_blank (h : PlainChars text) (hblank : (afterSpaces text).isEmpty = true) :
    lexFrom (.word []) text = [] ∧ EndsWord text := by
  have hnil := List.isEmpty_iff.1 hblank
  refine ⟨?_, endsWord_of_afterSpaces h fun c hc ↦ ?_⟩
  · rw [← lexFrom_afterSpaces h, hnil]
    rfl
  · rw [hnil] at hc
    cases hc

theorem readOnlyModifier_plain (hU : U.Ascii) (h : PlainChars text) {length : Option ℕ}
    (hread : readOnlyModifier U text = some length) :
    EndsWord text ∧ typeModifier (lexFrom (.word []) text) = some (length, []) := by
  unfold readOnlyModifier at hread
  split at hread
  · next number rest hmodifier =>
    split at hread
    · next hempty =>
      cases hread
      obtain ⟨-, hends, hmodifier⟩ := readModifier_plain hU h hmodifier
      rw [List.isEmpty_iff.1 hempty] at hmodifier
      exact ⟨hends, hmodifier⟩
    · cases hread
  · split at hread
    · next hblank =>
      cases hread
      obtain ⟨htokens, hends⟩ := lexFrom_blank h hblank
      exact ⟨hends, by rw [htokens]; rfl⟩
    · cases hread

theorem readPrecision_plain (hU : U.Ascii) (h : PlainChars text) {modifiers : ℕ × ℕ}
    (hread : readPrecision U text = some modifiers) :
    EndsWord text ∧ numericModifiers (lexFrom (.word []) text) = some (some modifiers) := by
  simp only [readPrecision, Option.bind_eq_bind, Option.bind_eq_some_iff] at hread
  obtain ⟨opened, hopened, ⟨precision, between⟩, hprecision, hrest⟩ := hread
  obtain ⟨htokens, hplain, hends⟩ :=
    lexFrom_afterPart (by decide) (by decide) (by decide) h
      (afterPart_symbol '(' rfl hopened)
  obtain ⟨hbetween, hdigits⟩ := lexFrom_number hU hplain hprecision
  refine ⟨hends, ?_⟩
  split at hrest
  · simp only [Option.bind_eq_some_iff] at hrest
    obtain ⟨closed, hclosed, hresult⟩ := hrest
    split at hresult
    · next hempty =>
      cases hresult
      obtain ⟨hclosing, -, hstops⟩ :=
        lexFrom_afterPart (by decide) (by decide) (by decide) hbetween
          (afterPart_symbol ')' rfl hclosed)
      obtain ⟨digits, hvalue, hword⟩ := hdigits hstops
      rw [htokens, hword, hclosing, List.isEmpty_iff.1 hempty]
      simp [lexFrom, LexState.flush, numericModifiers, hvalue]
    · cases hresult
  · next scaled hscaled =>
    simp only [Option.bind_eq_some_iff] at hrest
    obtain ⟨⟨scale, last⟩, hscale, closed, hclosed, hresult⟩ := hrest
    split at hresult
    · next hempty =>
      cases hresult
      obtain ⟨hcomma, hscaledPlain, hstops⟩ :=
        lexFrom_afterPart (by decide) (by decide) (by decide) hbetween
          (afterPart_symbol ',' rfl hscaled)
      obtain ⟨hlast, hscaleDigits⟩ := lexFrom_number hU hscaledPlain hscale
      obtain ⟨hclosing, -, hstopsScale⟩ :=
        lexFrom_afterPart (by decide) (by decide) (by decide) hlast
          (afterPart_symbol ')' rfl hclosed)
      obtain ⟨digits, hvalue, hword⟩ := hdigits hstops
      obtain ⟨scaleDigits, hscaleValue, hscaleWord⟩ := hscaleDigits hstopsScale
      rw [htokens, hword, hcomma, hscaleWord, hclosing, List.isEmpty_iff.1 hempty]
      simp [lexFrom, LexState.flush, numericModifiers, hvalue, hscaleValue]
    · cases hresult

variable {zone : Bool}

theorem readZone_plain (hread : readZone text = some zone) :
    timeZone (lexFrom (.word []) text) = some zone ∧
      typeModifier (lexFrom (.word []) text) = some (none, lexFrom (.word []) text) := by
  unfold readZone at hread
  split at hread
  · next hempty =>
    cases hread
    rw [List.isEmpty_iff.1 hempty]
    decide
  split at hread
  · next hwith =>
    cases hread
    rw [hwith]
    decide
  split at hread
  · next hwithout =>
    cases hread
    rw [hwithout]
    decide
  · cases hread

theorem readTemporal_plain (hU : U.Ascii) (h : PlainChars text) {precision : ℕ}
    (hread : readTemporal U text = some (zone, precision)) :
    ∃ given tokens, typeModifier (lexFrom (.word []) text) = some (given, tokens) ∧
      timeZone tokens = some zone ∧ given.getD 6 = precision := by
  unfold readTemporal at hread
  split at hread
  · next number rest hmodifier =>
    obtain ⟨found, hzone, hresult⟩ := Option.map_eq_some_iff.1 hread
    cases hresult
    obtain ⟨hrest, -, htokens⟩ := readModifier_plain hU h hmodifier
    refine ⟨some _, _, htokens, ?_, rfl⟩
    rw [← lexFrom_afterSpaces hrest]
    exact (readZone_plain hzone).1
  · obtain ⟨found, hzone, hresult⟩ := Option.map_eq_some_iff.1 hread
    cases hresult
    obtain ⟨htime, hmodifier⟩ := readZone_plain hzone
    rw [lexFrom_afterSpaces h] at htime hmodifier
    exact ⟨none, _, hmodifier, htime, rfl⟩

theorem lexFrom_named (name : List String) (h : PlainChars text)
    (hpart : afterPart part text = some rest) (hends : PlainChars rest → EndsWord rest)
    (hname : lexFrom (.word []) part.toList = words name) :
    lexFrom (.word []) text = words name ++ lexFrom (.word []) rest := by
  obtain rfl := afterPart_eq hpart
  obtain ⟨hplain, hrest⟩ := h.of_append
  rw [lexFrom_append hplain (hends hrest), hname]

theorem endsWord_temporal (hU : U.Ascii) {name : List Char}
    (hwith : .word (name ++ "with".toList) ∈
      lexFrom (.word []) (name ++ "with time zone".toList))
    (hwithout : .word (name ++ "without".toList) ∈
      lexFrom (.word []) (name ++ "without time zone".toList)) (h : PlainChars rest) {precision : ℕ}
    (hread : readTemporal U rest = some (zone, precision))
    (hjoined : ∀ word, .word word ∈ lexFrom (.word []) (name ++ rest) →
      ¬ (name ++ "with".toList) <+: word) : EndsWord rest := by
  unfold readTemporal at hread
  split at hread
  · next hmodifier => exact (readModifier_plain hU h hmodifier).2.1
  obtain ⟨found, hzone, -⟩ := Option.map_eq_some_iff.1 hread
  cases rest with
  | nil => exact fun c hc ↦ by cases hc
  | cons c rest =>
    intro d hd
    cases hd
    cases hspace : isSpace c with
    | true =>
      rw [plainChar_isSpace (h c List.mem_cons_self)] at hspace
      exact notWordChar_of_isPostgresSpace hspace
    | false =>
      have hsame : afterSpaces (c :: rest) = c :: rest := by simp [afterSpaces, hspace]
      rw [hsame] at hzone
      unfold readZone at hzone
      rw [if_neg (by simp)] at hzone
      split at hzone
      · next heq =>
        rw [heq] at hjoined
        exact absurd List.prefix_rfl (hjoined _ hwith)
      split at hzone
      · next heq =>
        rw [heq] at hjoined
        exact absurd ⟨"out".toList, by simp⟩ (hjoined _ hwithout)
      · cases hzone

theorem readType_head (name : String) (tokens : List Token) (head : TypeHead)
    (h : typeHead name.toList = some head) :
    readType (words [name] ++ tokens) = readRest head tokens := by
  change (typeHead name.toList).bind (fun head ↦ readRest head tokens) = _
  rw [h, Option.bind_some]

/-- A `varchar` after one of its names. -/
theorem readType_varchar (hU : U.Ascii) (h : PlainChars text) (name : List String)
    (hpart : afterPart part text = some rest)
    (hname : lexFrom (.word []) part.toList = words name)
    (htype : ∀ tokens, readType (words name ++ tokens) = readVarchar tokens)
    {length : Option ℕ} (hread : readOnlyModifier U rest = some length) :
    readType (lexFrom (.word []) text) = some (.varchar length) := by
  have hrest := (PlainChars.of_append (afterPart_eq hpart ▸ h)).2
  obtain ⟨hends, hmodifier⟩ := readOnlyModifier_plain hU hrest hread
  rw [lexFrom_named name h hpart (fun _ ↦ hends) hname, htype, readVarchar, hmodifier]
  rfl

theorem readType_numeric (hU : U.Ascii) (h : PlainChars text) (name : List String)
    (hpart : afterPart part text = some rest)
    (hname : lexFrom (.word []) part.toList = words name)
    (htype : ∀ tokens, readType (words name ++ tokens) = (numericModifiers tokens).map .numeric)
    {parsed : ParsedType}
    (hread : (if (afterSpaces rest).isEmpty then some (.numeric none)
      else (readPrecision U rest).map fun modifiers ↦ .numeric (some modifiers)) = some parsed) :
    readType (lexFrom (.word []) text) = some parsed.denote := by
  have hrest := (PlainChars.of_append (afterPart_eq hpart ▸ h)).2
  split at hread
  · next hblank =>
    cases hread
    obtain ⟨htokens, hends⟩ := lexFrom_blank hrest hblank
    rw [lexFrom_named name h hpart (fun _ ↦ hends) hname, htype, htokens]
    rfl
  · obtain ⟨modifiers, hprecision, rfl⟩ := Option.map_eq_some_iff.1 hread
    obtain ⟨hends, hmodifiers⟩ := readPrecision_plain hU hrest hprecision
    rw [lexFrom_named name h hpart (fun _ ↦ hends) hname, htype, hmodifiers]
    rfl

theorem readType_temporal (hU : U.Ascii) (h : PlainChars text) (name : List String)
    (build : Bool → ℕ → PostgresType) (hpart : afterPart part text = some rest)
    (hname : lexFrom (.word []) part.toList = words name)
    (htype : ∀ tokens, readType (words name ++ tokens) = readTemporalType build tokens)
    (hends : EndsWord rest) {precision : ℕ} (hread : readTemporal U rest = some (zone, precision)) :
    readType (lexFrom (.word []) text) = some (build zone (min precision 6)) := by
  have hrest := (PlainChars.of_append (afterPart_eq hpart ▸ h)).2
  obtain ⟨given, tokens, hmodifier, hzone, rfl⟩ := readTemporal_plain hU hrest hread
  rw [lexFrom_named name h hpart (fun _ ↦ hends) hname, htype, readTemporalType, hmodifier,
    Option.bind_some]
  simp only [hzone]
  rfl

theorem readType_zoned (hU : U.Ascii) (h : PlainChars text) (name : List String)
    (build : ℕ → PostgresType) (hpart : afterPart part text = some rest)
    (hname : lexFrom (.word []) part.toList = words name)
    (htype : ∀ tokens, readType (words name ++ tokens) = readZonedType build tokens)
    {precision : Option ℕ} (hread : readOnlyModifier U rest = some precision) :
    readType (lexFrom (.word []) text) = some (build (min (precision.getD 6) 6)) := by
  have hrest := (PlainChars.of_append (afterPart_eq hpart ▸ h)).2
  obtain ⟨hends, hmodifier⟩ := readOnlyModifier_plain hU hrest hread
  rw [lexFrom_named name h hpart (fun _ ↦ hends) hname, htype, readZonedType, hmodifier]
  rfl

/-- The types that are named without modifiers. -/
def simpleTypes : List (String × ParsedType) :=
  [("smallint", .integer 0), ("int2", .integer 0), ("integer", .integer 1), ("int", .integer 1),
    ("int4", .integer 1), ("bigint", .integer 2), ("int8", .integer 2), ("real", .float 0),
    ("float4", .float 0), ("double precision", .float 1), ("float8", .float 1),
    ("boolean", .boolean), ("bool", .boolean), ("text", .text)]

theorem readType_simple : ∀ entry ∈ simpleTypes,
    readType (lexFrom (.word []) entry.1.toList) = some entry.2.denote := by
  decide

end Reading

/-- Assumes: one of the names of a simple type, and its type. The table of simple types has it. -/
theorem simpleType_named {names : List String} {text : List Char} {type parsed : ParsedType}
    (h : decide (text ∈ names.map String.toList) = true ∧ some type = some parsed)
    (htable : ∀ name ∈ names, (name, type) ∈ simpleTypes) :
    ∃ entry ∈ simpleTypes, text = entry.1.toList ∧ parsed = entry.2 := by
  obtain ⟨hname, hparsed⟩ := h
  obtain ⟨name, hmem, rfl⟩ := List.mem_map.mp (of_decide_eq_true hname)
  exact ⟨(name, type), htable name hmem, rfl, (Option.some.inj hparsed).symm⟩

/-- What `_parse` makes of a text that it reads. -/
theorem parseType_cases {U : Unicode} {parsed : ParsedType}
    (h : parseType U declaration = some parsed) :
    (∃ entry ∈ simpleTypes, normalizedType U declaration = entry.1.toList ∧ parsed = entry.2) ∨
    (∃ part rest length, (part = "character varying" ∨ part = "varchar") ∧
      afterPart part (normalizedType U declaration) = some rest ∧
      readOnlyModifier U rest = some length ∧ parsed = .varchar length) ∨
    (∃ part rest, (part = "numeric" ∨ part = "decimal") ∧
      afterPart part (normalizedType U declaration) = some rest ∧
      (if (afterSpaces rest).isEmpty then some (.numeric none)
        else (readPrecision U rest).map fun modifiers ↦ .numeric (some modifiers)) = some parsed) ∨
    (∃ part rest zone precision, (part = "timestamp" ∧ parsed = .timestamp zone precision ∨
        part = "time" ∧ parsed = .time zone precision) ∧
      afterPart part (normalizedType U declaration) = some rest ∧
      readTemporal U rest = some (zone, precision)) ∨
    ∃ part rest precision, (part = "timestamptz" ∧ parsed = .timestamp true (Option.getD precision 6) ∨
        part = "timetz" ∧ parsed = .time true (Option.getD precision 6)) ∧
      afterPart part (normalizedType U declaration) = some rest ∧
      readOnlyModifier U rest = some precision := by
  unfold parseType at h
  generalize normalizedType U declaration = text at h
  rcases ite_eq_iff.mp h with hsmall | ⟨-, h⟩
  · exact .inl (simpleType_named hsmall (by decide))
  rcases ite_eq_iff.mp h with hinteger | ⟨-, h⟩
  · exact .inl (simpleType_named hinteger (by decide))
  rcases ite_eq_iff.mp h with hbig | ⟨-, h⟩
  · exact .inl (simpleType_named hbig (by decide))
  rcases ite_eq_iff.mp h with hreal | ⟨-, h⟩
  · exact .inl (simpleType_named hreal (by decide))
  rcases ite_eq_iff.mp h with hdouble | ⟨-, h⟩
  · exact .inl (simpleType_named hdouble (by decide))
  rcases ite_eq_iff.mp h with hboolean | ⟨-, h⟩
  · exact .inl (simpleType_named hboolean (by decide))
  rcases ite_eq_iff.mp h with htext | ⟨-, h⟩
  · exact .inl (simpleType_named htext (by decide))
  right
  simp only [Option.orElse_eq_orElse, Option.orElse_eq_or, Option.or_eq_some_iff,
    Option.bind_eq_some_iff, Option.map_eq_some_iff, afterVarchar] at h
  rcases h with ⟨rest, hrest, length, hread, rfl⟩ | ⟨-, ⟨rest, hrest, hread⟩ |
    ⟨-, ⟨rest, hrest, ⟨zone, precision⟩, hread, rfl⟩ | ⟨-, ⟨rest, hrest, precision, hread, rfl⟩ |
    ⟨-, ⟨rest, hrest, ⟨zone, precision⟩, hread, rfl⟩ | ⟨-, rest, hrest, precision, hread, rfl⟩⟩⟩⟩⟩
  · rcases hrest with hrest | ⟨-, hrest⟩
    · exact .inl ⟨_, rest, length, .inl rfl, hrest, hread, rfl⟩
    · exact .inl ⟨_, rest, length, .inr rfl, hrest, hread, rfl⟩
  · rcases hrest with hrest | ⟨-, hrest⟩
    · exact .inr (.inl ⟨_, rest, .inl rfl, hrest, hread⟩)
    · exact .inr (.inl ⟨_, rest, .inr rfl, hrest, hread⟩)
  · exact .inr (.inr (.inl ⟨_, rest, zone, precision, .inl ⟨rfl, rfl⟩, hrest, hread⟩))
  · exact .inr (.inr (.inr ⟨_, rest, precision, .inl ⟨rfl, rfl⟩, hrest, hread⟩))
  · exact .inr (.inr (.inl ⟨_, rest, zone, precision, .inr ⟨rfl, rfl⟩, hrest, hread⟩))
  · exact .inr (.inr (.inr ⟨_, rest, precision, .inr ⟨rfl, rfl⟩, hrest, hread⟩))

section Decisions

variable {U : Unicode}

/-- `_parse` reads a plain declaration as PostgreSQL does. -/
theorem postgresType_of_parse (hU : U.Ascii) (h : Plain declaration)
    {parsed : ParsedType} (hparsed : parseType U declaration = some parsed) :
    postgresType declaration = some parsed.denote := by
  obtain ⟨hplain, htokens⟩ := normalizedType_plain hU h.1
  have hjoined := h.2
  rw [← htokens] at hjoined
  unfold postgresType
  rw [← htokens]
  have hcases := parseType_cases hparsed
  generalize normalizedType U declaration = text at hplain hjoined hcases
  rcases hcases with ⟨entry, hentry, rfl, rfl⟩ | ⟨part, rest, length, hpart, hrest, hread, rfl⟩ |
    ⟨part, rest, hpart, hrest, hread⟩ | ⟨part, rest, zone, precision, hpart, hrest, hread⟩ |
    ⟨part, rest, precision, hpart, hrest, hread⟩
  · exact readType_simple entry hentry
  · rcases hpart with rfl | rfl
    · exact readType_varchar hU hplain ["character", "varying"] hrest (by decide)
        (fun tokens ↦ readType_head "character" (words ["varying"] ++ tokens) .character
          (by decide)) hread
    · exact readType_varchar hU hplain ["varchar"] hrest (by decide)
        (fun tokens ↦ readType_head "varchar" tokens .varchar (by decide)) hread
  · rcases hpart with rfl | rfl
    · exact readType_numeric hU hplain ["numeric"] hrest (by decide)
        (fun tokens ↦ readType_head "numeric" tokens .numeric (by decide)) hread
    · exact readType_numeric hU hplain ["decimal"] hrest (by decide)
        (fun tokens ↦ readType_head "decimal" tokens .numeric (by decide)) hread
  · have htext := afterPart_eq hrest
    have hplainRest := (PlainChars.of_append (htext ▸ hplain)).2
    rcases hpart with ⟨rfl, rfl⟩ | ⟨rfl, rfl⟩
    · have hends := endsWord_temporal hU (by decide) (by decide) hplainRest hread
        fun word hword ↦ (hjoined word (htext ▸ hword)).1
      exact readType_temporal hU hplain ["timestamp"] .timestamp hrest (by decide)
        (fun tokens ↦ readType_head "timestamp" tokens .timestamp (by decide)) hends hread
    · have hends := endsWord_temporal hU (by decide) (by decide) hplainRest hread
        fun word hword ↦ (hjoined word (htext ▸ hword)).2
      exact readType_temporal hU hplain ["time"] .time hrest (by decide)
        (fun tokens ↦ readType_head "time" tokens .time (by decide)) hends hread
  · rcases hpart with ⟨rfl, rfl⟩ | ⟨rfl, rfl⟩
    · exact readType_zoned hU hplain ["timestamptz"] (.timestamp true) hrest (by decide)
        (fun tokens ↦ readType_head "timestamptz" tokens .timestamptz (by decide)) hread
    · exact readType_zoned hU hplain ["timetz"] (.time true) hrest (by decide)
        (fun tokens ↦ readType_head "timetz" tokens .timetz (by decide)) hread

/-! ### Declarations of built-in types are plain -/

/-- A token that a plain text has. -/
def PlainToken : Token → Prop
  | .word text => PlainChars text ∧ ¬ "timestampwith".toList <+: text ∧ ¬ "timewith".toList <+: text
  | .quoted _ _ => False
  | .symbol c => plainChar c = true

theorem plainToken_words {names : List String}
    (h : ∀ name ∈ names, name.toList.all plainChar = true ∧
      ¬ "timestampwith".toList <+: name.toList ∧ ¬ "timewith".toList <+: name.toList) :
    ∀ token ∈ words names, PlainToken token := by
  intro token htoken
  obtain ⟨name, hname, rfl⟩ := List.mem_map.1 htoken
  obtain ⟨hplain, hjoined⟩ := h name hname
  exact ⟨fun c hc ↦ List.all_eq_true.1 hplain c hc, hjoined⟩

theorem plainToken_decimal {digits : List Char} {number : ℕ} (h : decimal digits = some number) :
    PlainToken (.word digits) := by
  unfold decimal at h
  split at h
  next hdigits =>
    have hdigit : ∀ c ∈ digits, c.isDigit = true := fun c hc ↦ List.all_eq_true.1 hdigits.2 c hc
    have hplain : ∀ c : Char, c.isDigit = true → plainChar c = true ∧ c ≠ 't' := by
      intro c hc
      have hrange : 48 ≤ c.toNat ∧ c.toNat ≤ 57 := by
        simp only [Char.isDigit, ge_iff_le, Bool.and_eq_true, decide_eq_true_eq,
          UInt32.le_iff_toNat_le] at hc
        exact hc
      have hcode : c.toNat < 58 := by omega
      rw [← Char.ofNat_toNat c]
      generalize c.toNat = code at hrange hcode
      obtain ⟨hleast, -⟩ := hrange
      revert hleast
      revert code
      decide
    have hnot : ∀ rest : List Char, ¬ 't' :: rest <+: digits := fun rest hinitial ↦ by
      obtain ⟨others, rfl⟩ := hinitial
      exact (hplain 't' (hdigit 't' List.mem_cons_self)).2 rfl
    exact ⟨fun c hc ↦ (hplain c (hdigit c hc)).1, hnot _, hnot _⟩
  next => cases h

theorem plainToken_typeModifier {tokens : List Token} {length : Option ℕ}
    (h : typeModifier tokens = some (length, rest)) (hrest : ∀ token ∈ rest, PlainToken token) :
    ∀ token ∈ tokens, PlainToken token := by
  unfold typeModifier at h
  split at h
  · next digits others =>
    obtain ⟨number, hnumber, hresult⟩ := Option.map_eq_some_iff.1 h
    cases hresult
    simp only [List.forall_mem_cons]
    exact ⟨rfl, plainToken_decimal hnumber, rfl, hrest⟩
  · cases h
  · cases h
    exact hrest

theorem plainToken_numericModifiers {tokens : List Token} {modifiers : Option (ℕ × ℕ)}
    (h : numericModifiers tokens = some modifiers) : ∀ token ∈ tokens, PlainToken token := by
  have hnil : ∀ token ∈ ([] : List Token), PlainToken token := fun token htoken ↦ by cases htoken
  unfold numericModifiers at h
  split at h
  · exact hnil
  · next precision =>
    obtain ⟨number, hnumber, -⟩ := Option.map_eq_some_iff.1 h
    simp only [List.forall_mem_cons]
    exact ⟨rfl, plainToken_decimal hnumber, rfl, hnil⟩
  · next precision scale =>
    obtain ⟨number, hnumber, hscaled⟩ := Option.bind_eq_some_iff.1 h
    obtain ⟨other, hother, -⟩ := Option.map_eq_some_iff.1 hscaled
    simp only [List.forall_mem_cons]
    exact ⟨rfl, plainToken_decimal hnumber, rfl, plainToken_decimal hother, rfl, hnil⟩
  · cases h

theorem plainToken_timeZone {tokens : List Token} {zone : Bool} (h : timeZone tokens = some zone) :
    ∀ token ∈ tokens, PlainToken token := by
  unfold timeZone at h
  split at h
  · next hnil =>
    rw [hnil]
    exact fun token htoken ↦ by cases htoken
  split at h
  · next hwith =>
    rw [hwith]
    exact plainToken_words (by decide)
  split at h
  · next hwithout =>
    rw [hwithout]
    exact plainToken_words (by decide)
  · cases h

theorem plainToken_temporal {build : Bool → ℕ → PostgresType}
    (h : readTemporalType build rest = some type) :
    ∀ token ∈ rest, PlainToken token := by
  obtain ⟨⟨precision, others⟩, hmodifier, hzone⟩ := Option.bind_eq_some_iff.1 h
  obtain ⟨zone, hzone, -⟩ := Option.map_eq_some_iff.1 hzone
  exact plainToken_typeModifier hmodifier (plainToken_timeZone hzone)

theorem plainToken_zoned {build : ℕ → PostgresType}
    (h : readZonedType build rest = some type) : ∀ token ∈ rest, PlainToken token := by
  obtain ⟨⟨precision, others⟩, hmodifier, hend⟩ := Option.bind_eq_some_iff.1 h
  obtain ⟨hnil, -⟩ := Option.ite_none_right_eq_some.1 hend
  exact plainToken_typeModifier hmodifier (hnil ▸ fun token htoken ↦ by cases htoken)

theorem plainToken_varchar (h : readVarchar rest = some type) : ∀ token ∈ rest, PlainToken token := by
  obtain ⟨⟨length, others⟩, hmodifier, hend⟩ := Option.bind_eq_some_iff.1 h
  obtain ⟨hnil, -⟩ := Option.ite_none_right_eq_some.1 hend
  exact plainToken_typeModifier hmodifier (hnil ▸ fun token htoken ↦ by cases htoken)

theorem plainToken_readRest {head : TypeHead}
    (h : readRest head rest = some type) : ∀ token ∈ rest, PlainToken token := by
  unfold readRest at h
  split at h
  · obtain ⟨rfl, -⟩ := Option.ite_none_right_eq_some.1 h
    exact fun token htoken ↦ by cases htoken
  · obtain ⟨rfl, -⟩ := Option.ite_none_right_eq_some.1 h
    exact plainToken_words (by decide)
  · exact plainToken_varchar h
  · obtain ⟨rfl, hvarchar⟩ := Option.ite_none_right_eq_some.1 h
    have hvarying : ∀ token ∈ words ["varying"], PlainToken token :=
      plainToken_words (by decide)
    exact List.forall_mem_cons.2 ⟨hvarying _ List.mem_cons_self, plainToken_varchar hvarchar⟩
  · cases h
  · obtain ⟨modifiers, hmodifiers, -⟩ := Option.map_eq_some_iff.1 h
    exact plainToken_numericModifiers hmodifiers
  · exact plainToken_temporal h
  · exact plainToken_zoned h
  · exact plainToken_temporal h
  · exact plainToken_zoned h

theorem plainToken_readType {tokens : List Token}
    (h : readType tokens = some type) : ∀ token ∈ tokens, PlainToken token := by
  match tokens with
  | [] => exact fun token htoken ↦ by cases htoken
  | .quoted quote text :: rest => cases h
  | .symbol c :: rest => cases h
  | .word name :: rest =>
    obtain ⟨head, hhead, hrest⟩ := Option.bind_eq_some_iff.1 h
    obtain ⟨entry, hentry, -⟩ := Option.map_eq_some_iff.1 hhead
    have hplain : ∀ name ∈ typeHeads.map Prod.fst, name.toList.all plainChar = true ∧
        ¬ "timestampwith".toList <+: name.toList ∧ ¬ "timewith".toList <+: name.toList := by
      decide
    have hname : entry.1.toList = name := by simpa using List.find?_some hentry
    have hmem : .word name ∈ words (typeHeads.map Prod.fst) :=
      hname ▸ List.mem_map_of_mem (List.mem_map_of_mem (List.mem_of_find?_eq_some hentry))
    exact List.forall_mem_cons.2 ⟨plainToken_words hplain _ hmem, plainToken_readRest hrest⟩

theorem exists_word {text run : List Char} {c : Char} (h : c ∈ run) :
    ∃ word, .word word ∈ lexFrom (.word run) text ∧ c ∈ word := by
  have hflush : .word run.reverse ∈ (LexState.word run).flush := by
    cases run with
    | nil => cases h
    | cons d run => exact List.mem_singleton.2 rfl
  induction text generalizing run with
  | nil => exact ⟨run.reverse, hflush, List.mem_reverse.2 h⟩
  | cons d text ih =>
    rw [lexFrom]
    split
    · exact ih (List.mem_cons_of_mem _ h) (List.mem_singleton.2 rfl)
    · exact ⟨run.reverse, List.mem_append_left _ (List.mem_append_left _ hflush),
        List.mem_reverse.2 h⟩

theorem exists_quoted (text : List Char) (quote : Char) (run : List Char) :
    (∃ content, .quoted quote content ∈ lexFrom (.quoted quote run) text) ∧
      ∃ content, .quoted quote content ∈ lexFrom (.closing quote run) text := by
  induction text generalizing run with
  | nil => exact ⟨⟨_, List.mem_singleton.2 rfl⟩, ⟨_, List.mem_singleton.2 rfl⟩⟩
  | cons d text ih =>
    rw [lexFrom, lexFrom]
    split
    · exact ⟨(ih run).2, (ih _).1⟩
    · exact ⟨(ih _).1, ⟨_, List.mem_cons_self⟩⟩

theorem plainChar_of_isUpper {c : Char} (h : c.isUpper = true) : plainChar c = true := by
  have hletter : 'A'.val ≤ c.val ∧ c.val ≤ 'Z'.val := of_decide_eq_true h
  simp only [UInt32.le_iff_toNat_le] at hletter
  have hrange : 65 ≤ c.toNat ∧ c.toNat ≤ 90 := hletter
  have hcode : c.toNat < 91 := by omega
  clear h hletter
  rw [← Char.ofNat_toNat c]
  generalize c.toNat = code at hrange hcode
  obtain ⟨hleast, -⟩ := hrange
  revert hleast
  revert code
  decide

theorem plainChars_of_tokens {text : List Char} (run : List Char)
    (h : ∀ token ∈ lexFrom (.word run) text, PlainToken token) : PlainChars text := by
  induction text generalizing run with
  | nil => exact fun c hc ↦ by cases hc
  | cons c text ih =>
    refine List.forall_mem_cons.2 ?_
    rw [lexFrom] at h
    split at h
    · refine ⟨?_, ih _ h⟩
      obtain ⟨word, hmem, hc⟩ : ∃ word, .word word ∈ lexFrom (.word (c.toLower :: run)) text ∧
          c.toLower ∈ word := exists_word List.mem_cons_self
      have hlower := (h _ hmem).1 _ hc
      by_cases hupper : c.isUpper
      · exact plainChar_of_isUpper hupper
      · rwa [Char.toLower_eq_of_not_isUpper hupper] at hlower
    · next hword =>
      unfold startToken at h
      rw [if_neg hword] at h
      split at h
      · next hspace =>
        refine ⟨?_, ih [] fun token htoken ↦ h token (List.mem_append_right _ htoken)⟩
        have hquote : isQuote c = false := by
          by_contra hquote
          simp only [isQuote, Bool.not_eq_false, decide_eq_true_eq] at hquote
          rcases hquote with rfl | rfl <;> exact absurd hspace (by decide)
        simp [plainChar, hspace, hquote]
      split at h
      · obtain ⟨content, hcontent⟩ := (exists_quoted text c []).1
        exact (h _ (List.mem_append_right _ hcontent)).elim
      · exact ⟨h (.symbol c) (List.mem_append_left _ (List.mem_append_right _ List.mem_cons_self)),
          ih [] fun token htoken ↦ h token (List.mem_append_right _ htoken)⟩

theorem plain_of_postgresType (h : postgresType declaration = some type) : Plain declaration := by
  have htokens := plainToken_readType h
  exact ⟨plainChars_of_tokens [] htokens, fun text htext ↦ (htokens _ htext).2⟩

/-! ### The decisions -/

theorem classify_safe {old new : String} (h : (classifyTypeChange U old new).disposition = .safe) :
    ∃ before after, parseType U old = some before ∧ parseType U new = some after ∧
      Widens before after := by
  unfold classifyTypeChange at h
  split at h
  · cases h
  split at h
  · next before after hbefore hafter =>
    split at h
    · cases h
    · exact ⟨before, after, hbefore, hafter, .inr h⟩
  · cases h

theorem parseType_congr {old new : String} (h : normalizedType U old = normalizedType U new) :
    parseType U old = parseType U new := by
  unfold parseType
  rw [h]

theorem classify_ne_blocked {old new : String} :
    (classifyTypeChange U old new).disposition ≠ .blocked ↔
      normalizedType U old = normalizedType U new ∨
        ∃ before after, parseType U old = some before ∧ parseType U new = some after ∧
          Widens before after := by
  unfold classifyTypeChange
  split
  · next hsame => exact ⟨fun _ ↦ .inl hsame, fun _ ↦ by simp⟩
  next hdiffer =>
  split
  · next before after hbefore hafter =>
    split
    · next hsame => exact ⟨fun _ ↦ .inr ⟨before, after, hbefore, hafter, .inl hsame⟩, fun _ ↦ by simp⟩
    · next hne =>
      constructor
      · intro h
        refine .inr ⟨before, after, hbefore, hafter, .inr ?_⟩
        cases hdecision : (decideTypeChange before after).disposition with
        | safe => rfl
        | blocked => exact absurd hdecision h
        | equivalent => exact absurd hdecision (decide_ne_equivalent before after)
      · rintro (hsame | ⟨_, _, hold, hnew, hwidens⟩)
        · exact absurd hsame hdiffer
        · obtain rfl := Option.some.inj (hold.symm.trans hbefore)
          obtain rfl := Option.some.inj (hnew.symm.trans hafter)
          rcases hwidens with hsame | hsafe
          · exact absurd hsame hne
          · rw [hsafe]
            simp
  · next hnone =>
    constructor
    · exact fun h ↦ absurd rfl h
    · rintro (hsame | ⟨before, after, hold, hnew, -⟩)
      · exact absurd hsame hdiffer
      · exact absurd hnew (hnone before after hold)

/-- Assumes: what the interpreter knows about ASCII characters. A change between declarations of
built-in types that the classifier calls safe keeps every value, and the changes that it does not block
compose. -/
theorem safe_changes_keep_values (U : Unicode) (hU : U.Ascii) :
    (∀ old new source target, (classifyTypeChange U old new).disposition = .safe →
      postgresType old = some source → postgresType new = some target →
        ∀ value, source.Holds value → target.Holds value) ∧
    ∀ old middle new, (classifyTypeChange U old middle).disposition ≠ .blocked →
      (classifyTypeChange U middle new).disposition ≠ .blocked →
        (classifyTypeChange U old new).disposition ≠ .blocked := by
  constructor
  · intro old new source target hsafe hsource htarget value hvalue
    obtain ⟨before, after, hbefore, hafter, hwidens⟩ := classify_safe hsafe
    rw [postgresType_of_parse hU (plain_of_postgresType hsource) hbefore] at hsource
    rw [postgresType_of_parse hU (plain_of_postgresType htarget) hafter] at htarget
    cases hsource
    cases htarget
    exact hwidens.holds hvalue
  · intro old middle new hfirst hsecond
    rw [classify_ne_blocked] at hfirst hsecond ⊢
    rcases hfirst with hfirst | ⟨before, between, hbefore, hbetween, hfirst⟩
    · rw [hfirst, parseType_congr hfirst]
      exact hsecond
    rcases hsecond with hsecond | ⟨found, after, hfound, hafter, hsecond⟩
    · exact .inr ⟨before, between, hbefore, parseType_congr hsecond ▸ hbetween, hfirst⟩
    · obtain rfl := Option.some.inj (hbetween.symm.trans hfound)
      exact .inr ⟨before, after, hbefore, hafter, hfirst.trans hsecond⟩

/-- The lower case and the digits of ASCII. -/
def asciiUnicode : Unicode where
  lower := fun text ↦ String.ofList (text.toList.map Char.toLower)
  digit := fun c ↦ if c.isDigit then some (c.toNat - 48) else none

theorem asciiUnicode_ascii : asciiUnicode.Ascii where
  lower _ _ := String.toList_ofList
  digit _ _ := rfl

/-- A decimal column gets more digits, and a time a finer precision after an alias. -/
theorem decimal_widened :
    (PostgresType.numeric (some (10, 2))).Holds (.number (-12345 / 100)) ∧
    (PostgresType.numeric (some (12, 3))).Holds (.number (-12345 / 100)) ∧
    (classifyTypeChange asciiUnicode "TIMESTAMP(3) with time zone" "timestamptz").disposition ≠
      .blocked := by
  have hvalue : (PostgresType.numeric (some (10, 2))).Holds (.number (-12345 / 100)) :=
    .inr ⟨-12345, by norm_num, by norm_num⟩
  refine ⟨hvalue, (safe_changes_keep_values asciiUnicode asciiUnicode_ascii).1 "numeric(10, 2)"
    "DECIMAL ( 12,3 )" (.numeric (some (10, 2))) (.numeric (some (12, 3))) (by decide)
    (by decide) (by decide) _ hvalue, ?_⟩
  exact (safe_changes_keep_values asciiUnicode asciiUnicode_ascii).2 _
    "timestamp (4) with time zone" _ (by decide) (by decide)

end Decisions

end Schemii.Migrations
