import Mathlib.Tactic

/-!
# JSON documents

Documents as the serializers of the repository produce them: null, booleans, integers, texts, lists,
and dictionaries as lists of fields in their order.

Two documents are the same when they look the same from outside: at every path of keys and list
positions both hold nothing or values of the same shape (`Same`). The order of the fields of a
dictionary is not seen, the order of a list is. `same_array` and `same_object` say when two lists and
two dictionaries are the same. The `==` of Python compares the same way, except that it takes a
boolean for the number 0 or 1 (`equals`).
-/

set_option autoImplicit false

namespace Schemii.Foundations

/-- A JSON document. -/
inductive Json
  | null
  | bool (value : Bool)
  | number (value : ℤ)
  | string (value : String)
  | array (items : List Json)
  | object (fields : List (String × Json))
  deriving Repr

namespace Json

/-! ### Depth -/

mutual

/-- How deep the lists and dictionaries of a document are nested. -/
def depth : Json → ℕ
  | .array items => depthItems items + 1
  | .object fields => depthFields fields + 1
  | _ => 0

/-- The depth of the deepest item. -/
def depthItems : List Json → ℕ
  | [] => 0
  | item :: rest => max (depth item) (depthItems rest)

/-- The depth of the deepest field. -/
def depthFields : List (String × Json) → ℕ
  | [] => 0
  | (_, value) :: rest => max (depth value) (depthFields rest)

end

theorem depth_lt_of_mem {items : List Json} {item : Json} (h : item ∈ items) :
    item.depth < (Json.array items).depth := by
  rw [depth, Nat.lt_succ_iff]
  induction items with
  | nil => exact nomatch h
  | cons first rest ih =>
    rw [depthItems]
    rcases List.mem_cons.mp h with rfl | hrest
    · exact le_max_left _ _
    · exact (ih hrest).trans (le_max_right _ _)

variable {fields : List (String × Json)} {key : String}

theorem depth_lt_of_lookup {value : Json}
    (h : fields.lookup key = some value) : value.depth < (Json.object fields).depth := by
  rw [depth, Nat.lt_succ_iff]
  induction fields with
  | nil => exact nomatch h
  | cons field rest ih =>
    obtain ⟨name, first⟩ := field
    rw [depthFields]
    rw [List.lookup_cons] at h
    split at h
    · obtain rfl := Option.some.inj h
      exact le_max_left _ _
    · exact (ih h).trans (le_max_right _ _)

/-! ### Lookups -/

theorem mem_of_lookup {value : Json} (h : fields.lookup key = some value) : (key, value) ∈ fields := by
  obtain ⟨before, after, rfl, -⟩ := List.lookup_eq_some_iff.mp h
  simp

theorem lookup_ne_none_iff :
    fields.lookup key ≠ none ↔ key ∈ fields.map Prod.fst := by
  rw [← Option.isSome_iff_ne_none, List.lookup_isSome_iff]
  constructor
  · intro hany
    obtain ⟨field, hfield, hkey⟩ := hany
    exact List.mem_map.mpr ⟨field, hfield, (beq_iff_eq.mp hkey).symm⟩
  · intro hmember
    obtain ⟨field, hfield, rfl⟩ := List.mem_map.mp hmember
    exact ⟨field, hfield, beq_self_eq_true _⟩

/-! ### Paths -/

/-- One step of a path. -/
inductive Segment
  | key (name : String)
  | index (position : ℕ)
  deriving DecidableEq, Repr

/-- The value one step below. -/
def child : Json → Segment → Option Json
  | .object fields, .key name => fields.lookup name
  | .array items, .index position => items[position]?
  | _, _ => none

/-- The value at a path. -/
def at? : Json → List Segment → Option Json
  | document, [] => some document
  | document, segment :: rest => (document.child segment).bind fun value ↦ value.at? rest

/-- What is seen of a value without looking below it. -/
inductive Shape
  | null
  | bool (value : Bool)
  | number (value : ℤ)
  | string (value : String)
  | array (length : ℕ)
  | object
  deriving DecidableEq, Repr

/-- The shape of a document. -/
def shape : Json → Shape
  | .null => .null
  | .bool value => .bool value
  | .number value => .number value
  | .string value => .string value
  | .array items => .array items.length
  | .object _ => .object

/-- Two documents hold the same at every path. -/
def Same (first second : Json) : Prop :=
  ∀ path, (first.at? path).map shape = (second.at? path).map shape

/-- Nothing, or the same documents, is found in two places. -/
def SameOption : Option Json → Option Json → Prop
  | none, none => True
  | some first, some second => Same first second
  | _, _ => False

theorem Same.refl (document : Json) : Same document document :=
  fun _ ↦ rfl

theorem SameOption.refl (document : Option Json) : SameOption document document := by
  cases document with
  | none => trivial
  | some document => exact Same.refl document

/-- Two documents are the same when they have the same shape and the same below each step. -/
theorem same_of_child {first second : Json} (hshape : first.shape = second.shape)
    (hchild : ∀ segment, SameOption (first.child segment) (second.child segment)) :
    Same first second := by
  intro path
  cases path with
  | nil => exact congrArg some hshape
  | cons segment rest =>
    have hsegment := hchild segment
    rw [at?, at?]
    cases hfirst : first.child segment with
    | none =>
      rw [hfirst] at hsegment
      cases hsecond : second.child segment with
      | none => rfl
      | some value =>
        rw [hsecond] at hsegment
        exact hsegment.elim
    | some value =>
      rw [hfirst] at hsegment
      cases hsecond : second.child segment with
      | none =>
        rw [hsecond] at hsegment
        exact hsegment.elim
      | some other =>
        rw [hsecond] at hsegment
        exact hsegment rest

/-! ### Changing one value -/

/-- Put a value under a key, in its place when the key is there already. -/
def setField (fields : List (String × Json)) (key : String) (value : Json) :
    List (String × Json) :=
  match fields with
  | [] => [(key, value)]
  | (name, old) :: rest =>
    if name = key then (name, value) :: rest else (name, old) :: setField rest key value

/-- Take a key out of a dictionary. -/
def eraseField (fields : List (String × Json)) (key : String) : List (String × Json) :=
  fields.filter fun field ↦ field.1 ≠ key

theorem lookup_setField_self (fields : List (String × Json)) (key : String) (value : Json) :
    (setField fields key value).lookup key = some value := by
  induction fields with
  | nil => simp [setField]
  | cons field rest ih =>
    obtain ⟨name, old⟩ := field
    rw [setField]
    split_ifs with hname
    · simp [hname]
    · rw [List.lookup_cons, beq_eq_false_iff_ne.mpr (Ne.symm hname)]
      exact ih

theorem lookup_setField_of_ne (fields : List (String × Json)) {key other : String}
    (hne : other ≠ key) (value : Json) :
    (setField fields key value).lookup other = fields.lookup other := by
  induction fields with
  | nil => simp [setField, hne]
  | cons field rest ih =>
    obtain ⟨name, old⟩ := field
    rw [setField]
    split_ifs with hname
    · subst hname
      rw [List.lookup_cons, List.lookup_cons, beq_eq_false_iff_ne.mpr hne]
    · rw [List.lookup_cons, List.lookup_cons, ih]

theorem setField_self {value : Json}
    (h : fields.lookup key = some value) : setField fields key value = fields := by
  induction fields with
  | nil => exact nomatch h
  | cons field rest ih =>
    obtain ⟨name, old⟩ := field
    rw [List.lookup_cons] at h
    rw [setField]
    split_ifs with hname
    · subst hname
      rw [beq_self_eq_true] at h
      obtain rfl := Option.some.inj h
      rfl
    · rw [beq_eq_false_iff_ne.mpr (Ne.symm hname)] at h
      rw [ih h]

theorem setField_setField (fields : List (String × Json)) (key : String) (first second : Json) :
    setField (setField fields key first) key second = setField fields key second := by
  induction fields with
  | nil => simp [setField]
  | cons field rest ih =>
    obtain ⟨name, old⟩ := field
    rw [setField, setField]
    split_ifs with hname
    · rw [setField, if_pos hname]
    · rw [setField, if_neg hname, ih]

theorem lookup_eraseField_self (fields : List (String × Json)) (key : String) :
    (eraseField fields key).lookup key = none := by
  rw [List.lookup_eq_none_iff]
  intro field hfield
  have hne := of_decide_eq_true (List.mem_filter.mp hfield).2
  exact bne_iff_ne.mpr (Ne.symm hne)

theorem lookup_eraseField_of_ne (fields : List (String × Json)) {key other : String}
    (hne : other ≠ key) : (eraseField fields key).lookup other = fields.lookup other := by
  unfold eraseField
  induction fields with
  | nil => rfl
  | cons field rest ih =>
    obtain ⟨name, old⟩ := field
    by_cases hname : name = key
    · subst hname
      rw [List.filter_cons_of_neg (by simp), List.lookup_cons, beq_eq_false_iff_ne.mpr hne]
      exact ih
    · rw [List.filter_cons_of_pos (by simpa using hname), List.lookup_cons, List.lookup_cons, ih]

/-- Put a value one step below. -/
def setChild : Json → Segment → Json → Json
  | .object fields, .key name, value => .object (setField fields name value)
  | .array items, .index position, value => .array (items.set position value)
  | document, _, _ => document

/-- Put a value at a path. -/
def replaceAt : Json → List Segment → Json → Json
  | _, [], value => value
  | document, segment :: rest, value =>
    match document.child segment with
    | some below => document.setChild segment (below.replaceAt rest value)
    | none => document

variable {document below : Json}

theorem child_setChild {segment : Segment}
    (h : document.child segment = some below) (value : Json) :
    (document.setChild segment value).child segment = some value := by
  match document, segment with
  | .object fields, .key name => exact lookup_setField_self fields name value
  | .array items, .index position =>
    have hbound := (List.getElem?_eq_some_iff.mp h).1
    simp [child, setChild, hbound]

theorem setChild_self {segment : Segment}
    (h : document.child segment = some below) : document.setChild segment below = document := by
  match document, segment with
  | .object fields, .key name => exact congrArg Json.object (setField_self h)
  | .array items, .index position =>
    obtain ⟨hbound, rfl⟩ := List.getElem?_eq_some_iff.mp h
    exact congrArg Json.array (List.set_getElem_self hbound)

theorem setChild_setChild (document : Json) (segment : Segment) (first second : Json) :
    (document.setChild segment first).setChild segment second =
      document.setChild segment second := by
  match document, segment with
  | .object fields, .key name => exact congrArg Json.object (setField_setField fields name _ _)
  | .array items, .index position => exact congrArg Json.array (List.set_set first)
  | .object fields, .index position => rfl
  | .array items, .key name => rfl
  | .null, _ => rfl
  | .bool _, _ => rfl
  | .number _, _ => rfl
  | .string _, _ => rfl

theorem at?_append (document : Json) (path rest : List Segment) :
    document.at? (path ++ rest) = (document.at? path).bind fun value ↦ value.at? rest := by
  induction path generalizing document with
  | nil => rfl
  | cons segment path ih =>
    rw [List.cons_append, at?, at?]
    cases document.child segment with
    | none => rfl
    | some below => exact ih below

variable {path : List Segment}

theorem at?_replaceAt (h : document.at? path = some below) (value : Json) :
    (document.replaceAt path value).at? path = some value := by
  induction path generalizing document with
  | nil => rfl
  | cons segment path ih =>
    rw [at?] at h
    obtain ⟨next, hnext, hbelow⟩ := Option.bind_eq_some_iff.mp h
    rw [replaceAt, hnext]
    simp only [at?, child_setChild hnext, Option.bind_some]
    exact ih hbelow

theorem replaceAt_self
    (h : document.at? path = some below) : document.replaceAt path below = document := by
  induction path generalizing document with
  | nil => exact Option.some.inj h.symm
  | cons segment path ih =>
    rw [at?] at h
    obtain ⟨next, hnext, hbelow⟩ := Option.bind_eq_some_iff.mp h
    rw [replaceAt, hnext]
    simp only
    rw [ih hbelow, setChild_self hnext]

theorem replaceAt_replaceAt (h : document.at? path = some below) (first second : Json) :
    (document.replaceAt path first).replaceAt path second = document.replaceAt path second := by
  induction path generalizing document with
  | nil => rfl
  | cons segment path ih =>
    rw [at?] at h
    obtain ⟨next, hnext, hbelow⟩ := Option.bind_eq_some_iff.mp h
    have hfirst : document.replaceAt (segment :: path) first =
        document.setChild segment (next.replaceAt path first) := by
      rw [replaceAt, hnext]
    rw [hfirst, replaceAt, replaceAt, hnext, child_setChild hnext]
    simp only
    rw [setChild_setChild, ih hbelow]

theorem replaceAt_append {document below next : Json} {segment : Segment}
    (h : document.at? path = some below) (hnext : below.child segment = some next)
    (value : Json) :
    document.replaceAt (path ++ [segment]) value =
      document.replaceAt path (below.setChild segment value) := by
  induction path generalizing document with
  | nil =>
    obtain rfl := Option.some.inj h
    simp only [List.nil_append, replaceAt, hnext]
  | cons first path ih =>
    rw [at?] at h
    obtain ⟨middle, hmiddle, hbelow⟩ := Option.bind_eq_some_iff.mp h
    rw [List.cons_append, replaceAt, replaceAt, hmiddle]
    simp only
    rw [ih hbelow]

theorem same_array {first second : List Json} (hlength : first.length = second.length)
    (hitems : ∀ position : ℕ, SameOption first[position]? second[position]?) :
    Same (.array first) (.array second) := by
  refine same_of_child (congrArg Shape.array hlength) ?_
  intro segment
  cases segment with
  | key name => trivial
  | index position => exact hitems position

variable {first second : List (String × Json)}

theorem same_object (hfields : ∀ key, SameOption (first.lookup key) (second.lookup key)) :
    Same (.object first) (.object second) := by
  refine same_of_child rfl ?_
  intro segment
  cases segment with
  | key name => exact hfields name
  | index position => trivial

/-! ### The equality of Python -/

mutual

/-- `==` of two documents: a boolean equals the number 0 or 1. -/
def equals : Json → Json → Bool
  | .null, .null => true
  | .bool first, .bool second => first = second
  | .bool first, .number second => (if first then 1 else 0) = second
  | .number first, .bool second => first = if second then 1 else 0
  | .number first, .number second => first = second
  | .string first, .string second => first = second
  | .array first, .array second => equalItems first second
  | .object first, .object second => first.length = second.length && equalFields first second
  | _, _ => false

/-- `==` of two lists. -/
def equalItems : List Json → List Json → Bool
  | [], [] => true
  | first :: rest, second :: others => equals first second && equalItems rest others
  | _, _ => false

/-- Whether every field of a dictionary has an equal one in another. -/
def equalFields : List (String × Json) → List (String × Json) → Bool
  | [], _ => true
  | (key, first) :: rest, others =>
    (match others.lookup key with
      | some second => equals first second
      | none => false) && equalFields rest others

end

theorem equalItems_spec {first second : List Json} (h : equalItems first second = true) :
    first.length = second.length ∧ ∀ (position : ℕ) (x y : Json), first[position]? = some x →
      second[position]? = some y → equals x y = true := by
  induction first generalizing second with
  | nil =>
    cases second with
    | nil => exact ⟨rfl, fun _ _ _ hx ↦ nomatch hx⟩
    | cons y others => exact nomatch h
  | cons x rest ih =>
    cases second with
    | nil => exact nomatch h
    | cons y others =>
      rw [equalItems, Bool.and_eq_true] at h
      obtain ⟨hlength, hitems⟩ := ih h.2
      refine ⟨congrArg (· + 1) hlength, ?_⟩
      intro position left right hleft hright
      cases position with
      | zero =>
        obtain rfl := Option.some.inj hleft
        obtain rfl := Option.some.inj hright
        exact h.1
      | succ position =>
        rw [List.getElem?_cons_succ] at hleft hright
        exact hitems position left right hleft hright

theorem equalFields_spec
    (h : equalFields first second = true) {field : String × Json} (hfield : field ∈ first) :
    ∃ value, second.lookup field.1 = some value ∧ equals field.2 value = true := by
  induction first with
  | nil => exact nomatch hfield
  | cons head rest ih =>
    obtain ⟨key, value⟩ := head
    rw [equalFields, Bool.and_eq_true] at h
    rcases List.mem_cons.mp hfield with rfl | hrest
    · split at h
      · next other hother => exact ⟨other, hother, h.1⟩
      · exact nomatch h.1
    · exact ih h.2 hrest

/-- Assumes: equal dictionaries, the first with distinct keys. Under every key both have nothing, or
equal values. -/
theorem equals_object (hfirst : (first.map Prod.fst).Nodup)
    (h : equals (.object first) (.object second) = true) (key : String) :
    (first.lookup key = none ∧ second.lookup key = none) ∨
      ∃ x y, first.lookup key = some x ∧ second.lookup key = some y ∧ equals x y = true := by
  rw [equals, Bool.and_eq_true, decide_eq_true_eq] at h
  obtain ⟨hlength, hfields⟩ := h
  cases hx : first.lookup key with
  | some x =>
    obtain ⟨y, hy, hequals⟩ := equalFields_spec hfields (mem_of_lookup hx)
    exact Or.inr ⟨x, y, rfl, hy, hequals⟩
  | none =>
    refine Or.inl ⟨rfl, ?_⟩
    -- the keys of the first are keys of the second, and there are as many
    have hsubset : first.map Prod.fst ⊆ second.map Prod.fst := by
      intro name hname
      obtain ⟨field, hfield, rfl⟩ := List.mem_map.mp hname
      obtain ⟨y, hy, -⟩ := equalFields_spec hfields hfield
      exact List.mem_map.mpr ⟨_, mem_of_lookup hy, rfl⟩
    have hperm : List.Perm (first.map Prod.fst) (second.map Prod.fst) := by
      refine (List.subperm_of_subset hfirst hsubset).perm_of_length_le ?_
      rw [List.length_map, List.length_map, hlength]
    by_contra hsome
    have hkey : key ∈ first.map Prod.fst := hperm.mem_iff.mpr (lookup_ne_none_iff.mp hsome)
    exact lookup_ne_none_iff.mpr hkey hx

end Json

end Schemii.Foundations
