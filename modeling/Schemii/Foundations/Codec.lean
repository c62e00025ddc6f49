import Schemii.Foundations.Json

/-!
# Values written as JSON

A `Codec` writes values as JSON documents and reads them back. Reading may refuse a document, but what
it reads from a written value is that value (`faithful`), and a value that was read once is read again
from what is written for it (`stable`). Codecs of texts, booleans, words of an
enumeration, values that may be null and lists are given once; a record reads its fields with
`Json.readField` and refuses fields it does not have with `Json.Known`.
-/

set_option autoImplicit false

namespace Schemii.Foundations

/-- How values of a type are written and read. -/
structure Codec (α : Type) where
  dump : α → Json
  read : Json → Option α
  faithful : ∀ value found, read (dump value) = some found → found = value
  stable : ∀ document value, read document = some value → read (dump value) = some value

/-- An enumeration whose values are written as words. -/
class Spelled (α : Type) where
  word : α → String
  values : List α
  complete : ∀ value, value ∈ values
  injective : Function.Injective word

namespace Codec

/-- Texts that pass a test. -/
def text (accepts : String → Bool) : Codec String where
  dump := .string
  read
    | .string value => if accepts value then some value else none
    | _ => none
  faithful := by
    intro value found h
    simp only [Option.ite_none_right_eq_some, Option.some.injEq] at h
    exact h.2.symm
  stable := by
    intro document value h
    cases document with
    | string text =>
      simp only [Option.ite_none_right_eq_some, Option.some.injEq] at h
      rw [← h.2]
      exact if_pos h.1
    | _ => exact nomatch h

/-- Booleans. -/
def flag : Codec Bool where
  dump := .bool
  read
    | .bool value => some value
    | _ => none
  faithful := by
    intro value found h
    exact (Option.some.inj h).symm
  stable := fun _ _ _ ↦ rfl

/-- The words of an enumeration. -/
def word (α : Type) [Spelled α] : Codec α where
  dump := fun value ↦ .string (Spelled.word value)
  read
    | .string name => Spelled.values.find? fun value ↦ Spelled.word value = name
    | _ => none
  faithful := by
    intro value found h
    have hword := List.find?_some h
    exact Spelled.injective (of_decide_eq_true hword)
  stable := by
    intro _ value _
    have hsome : (Spelled.values.find? fun other : α ↦
        decide (Spelled.word other = Spelled.word value)).isSome :=
      List.find?_isSome.mpr ⟨value, Spelled.complete value, by simp⟩
    obtain ⟨found, hfound⟩ := Option.isSome_iff_exists.mp hsome
    have hword := List.find?_some hfound
    obtain rfl := Spelled.injective (of_decide_eq_true hword)
    exact hfound

/-- Values that may be null. -/
def nullable {α : Type} (codec : Codec α) (hnull : ∀ value, codec.dump value ≠ .null) :
    Codec (Option α) where
  dump
    | some value => codec.dump value
    | none => .null
  read
    | .null => some none
    | document => (codec.read document).map some
  faithful := by
    intro value found h
    cases value with
    | none => exact (Option.some.inj h).symm
    | some value =>
      have hread : (codec.read (codec.dump value)).map some = some found := by
        revert h
        cases hdump : codec.dump value <;> simp_all
      obtain ⟨inner, hinner, rfl⟩ := Option.map_eq_some_iff.mp hread
      rw [codec.faithful value inner hinner]
  stable := by
    intro document value h
    cases value with
    | none => rfl
    | some value =>
      have hread : (codec.read document).map some = some (some value) := by
        revert h
        cases document <;> simp
      obtain ⟨inner, hinner, hsame⟩ := Option.map_eq_some_iff.mp hread
      obtain rfl := Option.some.inj hsame
      have hstable := codec.stable document inner hinner
      have hnonnull := hnull inner
      show (match codec.dump inner with
        | .null => some none
        | document => (codec.read document).map some) = _
      revert hstable hnonnull
      cases codec.dump inner <;> simp_all

end Codec

/-! ### Lists -/

namespace Json

/-- Read a list of at least and at most so many items. -/
def readList {α : Type} (read : Json → Option α) (minimum maximum : ℕ) : Json → Option (List α)
  | .array items =>
    if minimum ≤ items.length ∧ items.length ≤ maximum then items.mapM read else none
  | _ => none

theorem readList_dump {α : Type} {dump : α → Json} {read : Json → Option α} {minimum maximum : ℕ}
    {values found : List α}
    (h : ∀ value ∈ values, ∀ found, read (dump value) = some found → found = value)
    (hread : readList read minimum maximum (.array (values.map dump)) = some found) :
    found = values := by
  simp only [readList, Option.ite_none_right_eq_some] at hread
  replace hread := hread.2
  induction values generalizing found with
  | nil => simpa using hread.symm
  | cons value values ih =>
    rw [List.map_cons, List.mapM_cons] at hread
    simp only [Option.bind_eq_bind, Option.bind_eq_some_iff, Option.pure_def,
      Option.some.injEq] at hread
    obtain ⟨first, hfirst, rest, hrest, rfl⟩ := hread
    rw [h value List.mem_cons_self first hfirst,
      ih (fun value hvalue ↦ h value (List.mem_cons_of_mem _ hvalue)) hrest]

/-- Assumes: a list was read, and what is read of an item is read again. So is the list. -/
theorem readList_stable {α : Type} {dump : α → Json} {read : Json → Option α} {minimum maximum : ℕ}
    {document : Json} {values : List α}
    (h : ∀ item value, read item = some value → read (dump value) = some value)
    (hread : readList read minimum maximum document = some values) :
    readList read minimum maximum (.array (values.map dump)) = some values := by
  cases document with
  | array items =>
    simp only [readList, Option.ite_none_right_eq_some, List.length_map] at hread ⊢
    obtain ⟨hlength, hitems⟩ := hread
    have hsame : values.length = items.length ∧ (values.map dump).mapM read = some values := by
      clear hlength
      induction items generalizing values with
      | nil =>
        obtain rfl : values = [] := by simpa using hitems.symm
        exact ⟨rfl, rfl⟩
      | cons item items ih =>
        simp only [List.mapM_cons, Option.bind_eq_bind, Option.bind_eq_some_iff, Option.pure_def,
          Option.some.injEq] at hitems
        obtain ⟨value, hvalue, rest, hrest, rfl⟩ := hitems
        obtain ⟨hlength, hagain⟩ := ih hrest
        refine ⟨by simp [hlength], ?_⟩
        rw [List.map_cons, List.mapM_cons, h item value hvalue, hagain]
        rfl
    rw [hsame.1]
    exact ⟨hlength, hsame.2⟩
  | _ => exact nomatch hread

end Json

/-- Lists of at least and at most so many items. -/
def Codec.list {α : Type} (codec : Codec α) (minimum maximum : ℕ) : Codec (List α) where
  dump := fun values ↦ .array (values.map codec.dump)
  read := Json.readList codec.read minimum maximum
  faithful := fun _ _ h ↦ Json.readList_dump (fun value _ ↦ codec.faithful value) h
  stable := fun _ _ h ↦ Json.readList_stable codec.stable h

/-! ### Records -/

/-- Read the field of a record, or take its default when the record does not have it. -/
def Json.readField {α : Type} (read : Json → Option α) (document : Json) (name : String)
    (default : Option α) : Option α :=
  match document with
  | .object fields =>
    match fields.lookup name with
    | some value => read value
    | none => default
  | _ => none

/-- The field of a record, or its default when the record does not have it. -/
def Codec.field {α : Type} (codec : Codec α) (document : Json) (name : String)
    (default : Option α) : Option α :=
  document.readField codec.read name default

/-- The document is a dictionary of known fields. -/
def Json.Known (names : List String) : Json → Bool
  | .object fields => fields.all fun field ↦ field.1 ∈ names
  | _ => false

variable {fields : List (String × Json)} {name : String} {α : Type}

theorem Json.readField_of_lookup {read : Json → Option α}
    {default : Option α} {value : Json} (h : fields.lookup name = some value) :
    Json.readField read (.object fields) name default = read value := by
  simp only [Json.readField, h]

theorem Codec.field_dump {codec : Codec α} {default : Option α} {value found : α}
    (hlookup : fields.lookup name = some (codec.dump value))
    (h : codec.field (.object fields) name default = some found) : found = value := by
  rw [field, Json.readField_of_lookup hlookup] at h
  exact codec.faithful value found h

/-- Assumes: a field was read. Its value is what the record has under the name, or the default. -/
theorem Json.readField_eq_some {read : Json → Option α} {document : Json}
    {default : Option α} {value : α} (h : document.readField read name default = some value) :
    ∃ fields, document = .object fields ∧
      ((∃ written, fields.lookup name = some written ∧ read written = some value) ∨
        (fields.lookup name = none ∧ default = some value)) := by
  cases document with
  | object fields =>
    refine ⟨fields, rfl, ?_⟩
    cases hlookup : fields.lookup name with
    | none =>
      simp only [Json.readField, hlookup] at h
      exact .inr ⟨rfl, h⟩
    | some written =>
      simp only [Json.readField, hlookup] at h
      exact .inl ⟨written, rfl, h⟩
  | null => exact nomatch h
  | bool _ => exact nomatch h
  | number _ => exact nomatch h
  | string _ => exact nomatch h
  | array _ => exact nomatch h

/-- The value is read from what is written for it. -/
def Codec.Accepts {α : Type} (codec : Codec α) (value : α) : Prop :=
  codec.read (codec.dump value) = some value

theorem Codec.accepts_of_field {codec : Codec α} {document : Json}
    {default : Option α} {value : α} (h : codec.field document name default = some value)
    (hdefault : ∀ other ∈ default, codec.Accepts other) : codec.Accepts value := by
  obtain ⟨fields, -, ⟨written, -, hread⟩ | ⟨-, hmissing⟩⟩ := Json.readField_eq_some h
  · exact codec.stable written value hread
  · exact hdefault value hmissing

theorem Codec.field_of_accepts {codec : Codec α}
    {default : Option α} {value : α} (h : codec.Accepts value)
    (hlookup : fields.lookup name = some (codec.dump value)) :
    codec.field (.object fields) name default = some value := by
  rw [field, Json.readField_of_lookup hlookup]
  exact h

end Schemii.Foundations
