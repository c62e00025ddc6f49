import Schemii.Common.JsonDelta
import Schemii.Foundations.ThreeWayMerge

/-!
# When two design values are equivalent

`_equivalent_value` of `migrations/planner.py`: the comparison under which designs are merged and
planned. It is Python's `==`, except that columns are compared by identifier and not by position,
that the recorded dependencies of an expression are sets, and that check expressions of a table with
known column types are compared after normalisation.

A path is a list of steps, `.name` into a dictionary and `[identifier]` into a list, which the
source writes as one text (`pathText`). Field names and identifiers contain no dot and no bracket,
so the conditions of the source on the text are conditions on the steps. A position of a list is
written `[position]` as well, and no identifier of a table is a numeral (`CheckRules.numeral`).

The normal form of a check expression is computed by a parser library; it is a parameter, by table.

`comparison` states that the equivalence is one, path by path, and that values below equivalent
values are equivalent, under the step into the identified item also where the source compared by
position.
-/

set_option autoImplicit false

namespace Schemii.Migrations

open Foundations Common

/-! ### Paths -/

/-- One step of a design path. -/
inductive PathStep
  | field (name : String)
  | item (identifier : String)
  deriving DecidableEq, Repr

/-- The path as the source writes it. -/
def pathText (path : List PathStep) : String :=
  path.foldl (fun text step ↦ match step with
    | .field name => if text = "" then name else text ++ "." ++ name
    | .item identifier => text ++ "[" ++ identifier ++ "]") ""

/-- The text ends with `.columns`. -/
def endsWithColumns (path : List PathStep) : Bool :=
  path.length ≥ 2 ∧ path.getLast? = some (.field "columns")

/-- The steps start with an item of a field `checks`. -/
def startsWithChecks : List PathStep → Bool
  | .field name :: .item _ :: _ => name = "checks"
  | _ => false

/-- A part of the text is `.checks[`. -/
def passesChecks : List PathStep → Bool
  | [] => false
  | _ :: rest => startsWithChecks rest || passesChecks rest

/-- `_UNORDERED_DEPENDENCY_FIELDS`. -/
def unorderedDependencyFields : List String :=
  ["column_ids", "expression_source_column_ids", "generated_source_column_ids",
    "predicate_column_ids"]

/-- `_unordered_dependency_path`. -/
def unorderedDependencyPath (path : List PathStep) : Bool :=
  match path.getLast? with
  | some (.field name) =>
    name ∈ unorderedDependencyFields ∧ (name = "column_ids" → passesChecks path)
  | _ => false

/-! ### Lists of identified objects -/

/-- `_id_list`. -/
def isIdList : Json → Bool
  | .array items => items.all fun item ↦ (identifier item).isSome
  | _ => false

/-- The identifiers of a list, in order. -/
def itemIds (items : List Json) : List String :=
  items.filterMap identifier

/-- `_item_map`: the last item with an identifier. -/
def itemOf (items : List Json) (id : String) : Option Json :=
  items.reverse.find? fun item ↦ identifier item = some id

/-- The values below a value. -/
def childAt : Json → PathStep → Option Json
  | .object fields, .field name => fields.lookup name
  | .array items, .item id => if isIdList (.array items) then itemOf items id else none
  | _, _ => none

/-- The documents that are merged. -/
def designDocuments : Documents PathStep Json where
  child := childAt

/-! ### Check expressions -/

/-- The normal forms of the check expressions of the tables whose column types are known. -/
structure CheckRules (N : Type) where
  normalizer : String → Option (String → Option N)
  numeral : ∀ position : ℕ, normalizer (toString position) = none

variable {N : Type} [DecidableEq N]
variable {left right : List Json} {path : List PathStep} {T : CheckRules N}

/-- `equivalent_check_expressions`: the same text, or the same normal form. A text that does not
parse has none. -/
def equivalentCheckExpressions (normalize : String → Option N) (left right : String) : Bool :=
  left = right ∨ ((normalize left).isSome ∧ normalize left = normalize right)

/-- The normal form that applies to a value at a path: it is the expression of a check of a table
with known column types. -/
def CheckRules.rule (T : CheckRules N) : List PathStep → Option (String → Option N)
  | [.field first, .item table, .field second, .item _, .field third] =>
    if first = "tables" ∧ second = "checks" ∧ third = "expression" then T.normalizer table else none
  | _ => none

/-! ### Equivalence -/

/-- Two values that may be missing are equivalent when both are missing or both are there and
equivalent. -/
def optionEquivalent (inner : Json → Json → Bool) : Option Json → Option Json → Bool
  | none, none => true
  | some left, some right => inner left right
  | _, _ => false

/-- Two collections of keys are the same, and so is what is under each key. -/
def keyedEquivalent (inner : String → Json → Json → Bool) (leftKeys rightKeys : List String)
    (left right : String → Option Json) : Bool :=
  leftKeys.all (fun key ↦ key ∈ rightKeys) && rightKeys.all (fun key ↦ key ∈ leftKeys) &&
    leftKeys.all fun key ↦ optionEquivalent (inner key) (left key) (right key)

/-- Whether a value is a text. -/
def isText : Json → Bool
  | .string _ => true
  | _ => false

/-- Every item is a text. -/
def areTexts (items : List Json) : Bool :=
  items.all isText

/-- The texts of a list. -/
def textsOf (items : List Json) : List String :=
  items.filterMap fun item ↦ match item with
    | .string text => some text
    | _ => none

/-- The body of `_equivalent_value` for values that are there, with `inner` for its own calls. -/
def equivalentStep (T : CheckRules N) (inner : List PathStep → Json → Json → Bool)
    (path : List PathStep) (left right : Json) : Bool :=
  match T.rule path, left, right with
  | some normalize, .string left, .string right => equivalentCheckExpressions normalize left right
  | _, .array left, .array right =>
    if endsWithColumns path ∧ isIdList (.array left) ∧ isIdList (.array right) then
      keyedEquivalent (fun id ↦ inner (path ++ [.item id])) (itemIds left) (itemIds right)
        (itemOf left) (itemOf right)
    else if unorderedDependencyPath path ∧ areTexts left ∧ areTexts right then
      textsOf left ⊆ textsOf right ∧ textsOf right ⊆ textsOf left
    else
      left.length = right.length ∧ (List.range left.length).all fun position ↦
        optionEquivalent (inner (path ++ [.item (toString position)])) left[position]?
          right[position]?
  | _, .object left, .object right =>
    keyedEquivalent (fun key ↦ inner (path ++ [.field key])) (left.map Prod.fst)
      (right.map Prod.fst) (fun key ↦ left.lookup key) (fun key ↦ right.lookup key)
  | _, left, right => left.equals right

/-- `_equivalent_value` for values of a bounded depth. -/
def equivalentWithin (T : CheckRules N) : ℕ → List PathStep → Json → Json → Bool
  | 0, _, _, _ => false
  | depth + 1, path, left, right => equivalentStep T (equivalentWithin T depth) path left right

/-- `_equivalent_value` for values that are there. -/
def equivalentValue (T : CheckRules N) (path : List PathStep) (left right : Json) : Bool :=
  equivalentWithin T (left.depth + 1) path left right

/-! ### The recursion without its bound -/

/-- Assumes: keys that are exactly those under which something is. The collections are equivalent
exactly when what is under every key is. -/
theorem keyedEquivalent_iff {inner : String → Json → Json → Bool} {leftKeys rightKeys : List String}
    {left right : String → Option Json} (hleft : ∀ key, key ∈ leftKeys ↔ left key ≠ none)
    (hright : ∀ key, key ∈ rightKeys ↔ right key ≠ none) :
    keyedEquivalent inner leftKeys rightKeys left right = true ↔
      ∀ key, optionEquivalent (inner key) (left key) (right key) = true := by
  simp only [keyedEquivalent, Bool.and_eq_true, List.all_eq_true, decide_eq_true_eq]
  constructor
  · rintro ⟨⟨hsub, hsup⟩, hinner⟩ key
    by_cases hkey : key ∈ leftKeys
    · exact hinner key hkey
    · have hother : key ∉ rightKeys := fun hmem ↦ hkey (hsup key hmem)
      rw [hleft key, not_not] at hkey
      rw [hright key, not_not] at hother
      rw [hkey, hother]
      rfl
  · intro hall
    have hboth : ∀ key, left key ≠ none ↔ right key ≠ none := by
      intro key
      have hkey := hall key
      cases hl : left key <;> cases hr : right key <;> simp_all [optionEquivalent]
    refine ⟨⟨fun key hkey ↦ ?_, fun key hkey ↦ ?_⟩, fun key _ ↦ hall key⟩
    · exact (hright key).mpr ((hboth key).mp ((hleft key).mp hkey))
    · exact (hleft key).mpr ((hboth key).mpr ((hright key).mp hkey))

theorem mem_keys_iff (fields : List (String × Json)) (key : String) :
    key ∈ fields.map Prod.fst ↔ fields.lookup key ≠ none :=
  Json.lookup_ne_none_iff.symm

theorem mem_itemIds_iff (items : List Json) (id : String) :
    id ∈ itemIds items ↔ itemOf items id ≠ none := by
  unfold itemIds itemOf
  rw [List.mem_filterMap, ← Option.isSome_iff_ne_none, List.find?_isSome]
  constructor
  · rintro ⟨item, hmem, hid⟩
    exact ⟨item, List.mem_reverse.mpr hmem, by simpa using hid⟩
  · rintro ⟨item, hmem, hid⟩
    exact ⟨item, List.mem_reverse.mp hmem, by simpa using hid⟩

theorem itemOf_eq_some {items : List Json} {id : String} {item : Json}
    (h : itemOf items id = some item) : item ∈ items ∧ identifier item = some id := by
  unfold itemOf at h
  refine ⟨List.mem_reverse.mp (List.mem_of_find?_eq_some h), ?_⟩
  simpa using List.find?_some h

theorem optionEquivalent_congr {inner other : Json → Json → Bool} {left right : Option Json}
    (h : ∀ value ∈ left, ∀ against, inner value against = other value against) :
    optionEquivalent inner left right = optionEquivalent other left right := by
  cases left with
  | none => cases right <;> rfl
  | some value =>
    cases right with
    | none => rfl
    | some against => exact h value rfl against

/-- Assumes: two comparisons that agree on everything less deep. One step with either is the
same. -/
theorem equivalentStep_congr (T : CheckRules N) {inner other : List PathStep → Json → Json → Bool}
    {left : Json} (h : ∀ path value against, value.depth < left.depth →
      inner path value against = other path value against) (path : List PathStep) (right : Json) :
    equivalentStep T inner path left right = equivalentStep T other path left right := by
  have hkeyed : ∀ {keys others : List String} {get got : String → Option Json}
      {place : String → PathStep}, (∀ key, ∀ value ∈ get key, value.depth < left.depth) →
      keyedEquivalent (fun key ↦ inner (path ++ [place key])) keys others get got =
        keyedEquivalent (fun key ↦ other (path ++ [place key])) keys others get got := by
    intro keys others get got place hdepth
    unfold keyedEquivalent
    congr 2
    funext key
    exact optionEquivalent_congr fun value hvalue against ↦ h _ _ _ (hdepth key value hvalue)
  unfold equivalentStep
  split
  · rfl
  next items against =>
    have hitem : ∀ position : ℕ,
        optionEquivalent (inner (path ++ [.item (toString position)])) items[position]?
            against[position]? =
          optionEquivalent (other (path ++ [.item (toString position)])) items[position]?
            against[position]? := by
      intro position
      exact optionEquivalent_congr fun value hvalue against ↦
        h _ _ _ (Json.depth_lt_of_mem (List.mem_of_getElem? hvalue))
    split
    · exact hkeyed fun id value hvalue ↦ Json.depth_lt_of_mem (itemOf_eq_some hvalue).1
    split
    · rfl
    · simp only [hitem]
  next fields against =>
    exact hkeyed fun key value hvalue ↦ Json.depth_lt_of_lookup hvalue
  · rfl

theorem equivalentWithin_eq (T : CheckRules N) {first second : ℕ} {left : Json}
    (hfirst : left.depth < first) (hsecond : left.depth < second) (path : List PathStep)
    (right : Json) : equivalentWithin T first path left right =
      equivalentWithin T second path left right := by
  induction first generalizing second path left right with
  | zero => omega
  | succ first ih =>
    cases second with
    | zero => omega
    | succ second =>
      exact equivalentStep_congr T
        (fun path value against hdepth ↦ ih (by omega) (by omega) path against) path right

/-- `_equivalent_value` by its own calls. -/
theorem equivalentValue_eq (T : CheckRules N) (path : List PathStep) (left right : Json) :
    equivalentValue T path left right =
      equivalentStep T (equivalentValue T) path left right := by
  show equivalentStep T (equivalentWithin T left.depth) path left right = _
  refine equivalentStep_congr T (fun place value against hdepth ↦ ?_) path right
  exact equivalentWithin_eq T hdepth (Nat.lt_succ_self _) place against

/-! ### The cases of the comparison -/

/-- Equivalence of values that may be missing. -/
def Equivalent (T : CheckRules N) (path : List PathStep) (left right : Option Json) : Prop :=
  optionEquivalent (equivalentValue T path) left right = true

section Cases

variable {T : CheckRules N} {path : List PathStep}

theorem equivalent_object_iff {left right : List (String × Json)} :
    Equivalent T path (some (.object left)) (some (.object right)) ↔
      ∀ key, Equivalent T (path ++ [.field key]) (left.lookup key) (right.lookup key) := by
  unfold Equivalent
  rw [optionEquivalent, equivalentValue_eq]
  have hstep : equivalentStep T (equivalentValue T) path (.object left) (.object right) =
      keyedEquivalent (fun key ↦ equivalentValue T (path ++ [.field key])) (left.map Prod.fst)
        (right.map Prod.fst) (fun key ↦ left.lookup key) (fun key ↦ right.lookup key) := by
    unfold equivalentStep
    cases T.rule path <;> rfl
  rw [hstep]
  exact keyedEquivalent_iff (mem_keys_iff left) (mem_keys_iff right)

/-- Two lists of columns are equivalent when what they hold under every identifier is. -/
theorem equivalent_columns_iff (hcolumns : endsWithColumns path = true)
    (hleft : isIdList (.array left) = true) (hright : isIdList (.array right) = true) :
    Equivalent T path (some (.array left)) (some (.array right)) ↔
      ∀ id, Equivalent T (path ++ [.item id]) (itemOf left id) (itemOf right id) := by
  unfold Equivalent
  rw [optionEquivalent, equivalentValue_eq]
  have hstep : equivalentStep T (equivalentValue T) path (.array left) (.array right) =
      keyedEquivalent (fun id ↦ equivalentValue T (path ++ [.item id])) (itemIds left)
        (itemIds right) (itemOf left) (itemOf right) := by
    unfold equivalentStep
    cases T.rule path <;> simp [hcolumns, hleft, hright]
  rw [hstep]
  exact keyedEquivalent_iff (mem_itemIds_iff left) (mem_itemIds_iff right)

theorem equivalent_texts_iff (hplain : endsWithColumns path = false)
    (hunordered : unorderedDependencyPath path = true) (hleft : areTexts left = true)
    (hright : areTexts right = true) :
    Equivalent T path (some (.array left)) (some (.array right)) ↔
      ∀ text, text ∈ textsOf left ↔ text ∈ textsOf right := by
  unfold Equivalent
  rw [optionEquivalent, equivalentValue_eq]
  have hstep : equivalentStep T (equivalentValue T) path (.array left) (.array right) =
      decide (textsOf left ⊆ textsOf right ∧ textsOf right ⊆ textsOf left) := by
    unfold equivalentStep
    cases T.rule path <;> simp [hplain, hunordered, hleft, hright]
  rw [hstep, decide_eq_true_eq]
  exact ⟨fun h text ↦ ⟨fun hmem ↦ h.1 hmem, fun hmem ↦ h.2 hmem⟩,
    fun h ↦ ⟨fun text ↦ (h text).mp, fun text ↦ (h text).mpr⟩⟩

/-- A list is compared by position. -/
def Positional (path : List PathStep) (left right : List Json) : Prop :=
  ¬ (endsWithColumns path ∧ isIdList (.array left) ∧ isIdList (.array right)) ∧
    ¬ (unorderedDependencyPath path ∧ areTexts left ∧ areTexts right)

theorem equivalent_array_iff (hpositional : Positional path left right) :
    Equivalent T path (some (.array left)) (some (.array right)) ↔
      ∀ position : ℕ, Equivalent T (path ++ [.item (toString position)]) left[position]?
        right[position]? := by
  unfold Equivalent
  rw [optionEquivalent, equivalentValue_eq]
  have hstep : equivalentStep T (equivalentValue T) path (.array left) (.array right) =
      decide (left.length = right.length ∧ (List.range left.length).all fun position ↦
        optionEquivalent (equivalentValue T (path ++ [.item (toString position)])) left[position]?
          right[position]?) := by
    unfold equivalentStep
    cases T.rule path <;> simp only [if_neg hpositional.1, if_neg hpositional.2]
  rw [hstep, decide_eq_true_eq]
  simp only [List.all_eq_true, List.mem_range]
  constructor
  · rintro ⟨hlength, hall⟩ position
    by_cases hbound : position < left.length
    · exact hall position hbound
    · rw [List.getElem?_eq_none (by omega), List.getElem?_eq_none (by omega)]
      rfl
  · intro hall
    refine ⟨?_, fun position _ ↦ hall position⟩
    by_contra hlength
    rcases Nat.lt_or_gt_of_ne hlength with hlt | hlt
    · have hend := hall left.length
      rw [List.getElem?_eq_none le_rfl, List.getElem?_eq_getElem hlt] at hend
      exact nomatch hend
    · have hend := hall right.length
      rw [List.getElem?_eq_none le_rfl, List.getElem?_eq_getElem hlt] at hend
      exact nomatch hend

/-- A value that is neither a list nor a dictionary, as `==` sees it. -/
inductive Atom
  | null
  | number (value : ℤ)
  | text (value : String)
  deriving DecidableEq, Repr

/-- The atom of a value. -/
def atomOf : Json → Option Atom
  | .null => some .null
  | .bool value => some (.number (if value then 1 else 0))
  | .number value => some (.number value)
  | .string value => some (.text value)
  | .array _ => none
  | .object _ => none

/-- How two atoms compare at a path. -/
def AtomEquivalent (T : CheckRules N) (path : List PathStep) (left right : Atom) : Prop :=
  match T.rule path, left, right with
  | some normalize, .text left, .text right =>
    equivalentCheckExpressions normalize left right = true
  | _, left, right => left = right

/-- Assumes: a value that is an atom. `==` holds for the values with the same atom. -/
theorem equals_atom_iff {left right : Json} {atom : Atom} (hatom : atomOf left = some atom) :
    left.equals right = true ↔ atomOf right = some atom := by
  cases left with
  | array items => cases hatom
  | object fields => cases hatom
  | bool value =>
    obtain rfl := Option.some.inj hatom
    cases right with
    | bool other => cases value <;> cases other <;> simp [atomOf, Json.equals]
    | _ => simp [atomOf, Json.equals, eq_comm]
  | _ =>
    obtain rfl := Option.some.inj hatom
    cases right <;> simp [atomOf, Json.equals, eq_comm]

/-- Two atoms compare by equality, unless both are check expressions with a normal form. -/
theorem atomEquivalent_iff_eq {left right : Atom}
    (h : T.rule path = none ∨ (∀ text, left ≠ .text text) ∨ ∀ text, right ≠ .text text) :
    AtomEquivalent T path left right ↔ left = right := by
  unfold AtomEquivalent
  split
  · simp_all
  · exact Iff.rfl

/-- Assumes: a value that is an atom. It is equivalent to atoms that compare with it. -/
theorem equivalent_atom_iff {left right : Json} {atom : Atom} (hatom : atomOf left = some atom) :
    Equivalent T path (some left) (some right) ↔
      ∃ other, atomOf right = some other ∧ AtomEquivalent T path atom other := by
  unfold Equivalent
  rw [optionEquivalent, equivalentValue_eq]
  by_cases htexts : ∃ normalize first second, T.rule path = some normalize ∧
      left = .string first ∧ right = .string second
  · obtain ⟨normalize, first, second, hrule, rfl, rfl⟩ := htexts
    obtain rfl := Option.some.inj hatom
    simp [equivalentStep, AtomEquivalent, hrule, atomOf]
  · have hstep : equivalentStep T (equivalentValue T) path left right = left.equals right := by
      unfold equivalentStep
      cases left <;> cases right <;> cases hrule : T.rule path <;> simp_all [atomOf]
    have hequal : ∀ other, atomOf right = some other →
        (AtomEquivalent T path atom other ↔ atom = other) := by
      intro other hother
      refine atomEquivalent_iff_eq ?_
      by_contra hcases
      simp only [not_or, not_forall, not_not] at hcases
      obtain ⟨hrule, ⟨first, rfl⟩, ⟨second, rfl⟩⟩ := hcases
      obtain ⟨normalize, hnormalize⟩ := Option.ne_none_iff_exists'.mp hrule
      cases left <;> cases right <;> simp_all [atomOf]
    rw [hstep, equals_atom_iff hatom]
    constructor
    · exact fun hsame ↦ ⟨atom, hsame, (hequal atom hsame).mpr rfl⟩
    · rintro ⟨other, hother, hsame⟩
      rw [(hequal other hother).mp hsame]
      exact hother

theorem atomOf_eq_none_of_equivalent {left right : Json} (hatom : atomOf left = none)
    (h : Equivalent T path (some left) (some right)) : atomOf right = none := by
  unfold Equivalent at h
  rw [optionEquivalent, equivalentValue_eq] at h
  unfold equivalentStep at h
  cases hrule : T.rule path <;> cases left <;> cases right <;> simp_all [atomOf, Json.equals]

theorem object_of_equivalent {left : List (String × Json)} {right : Json}
    (h : Equivalent T path (some (.object left)) (some right)) :
    ∃ fields, right = .object fields := by
  have hatom := atomOf_eq_none_of_equivalent rfl h
  cases right with
  | object fields => exact ⟨fields, rfl⟩
  | array items =>
    unfold Equivalent at h
    rw [optionEquivalent, equivalentValue_eq] at h
    unfold equivalentStep at h
    cases hrule : T.rule path <;> simp_all [Json.equals]
  | _ => cases hatom

theorem array_of_equivalent {left : List Json} {right : Json}
    (h : Equivalent T path (some (.array left)) (some right)) : ∃ items, right = .array items := by
  have hatom := atomOf_eq_none_of_equivalent rfl h
  cases right with
  | array items => exact ⟨items, rfl⟩
  | object fields =>
    unfold Equivalent at h
    rw [optionEquivalent, equivalentValue_eq] at h
    unfold equivalentStep at h
    cases hrule : T.rule path <;> simp_all [Json.equals]
  | _ => cases hatom

theorem equivalent_none_left {right : Option Json} :
    Equivalent T path none right ↔ right = none := by
  cases right <;> simp [Equivalent, optionEquivalent]

theorem equivalent_none_right {left : Option Json} :
    Equivalent T path left none ↔ left = none := by
  cases left <;> simp [Equivalent, optionEquivalent]

theorem AtomEquivalent.refl (atom : Atom) : AtomEquivalent T path atom atom := by
  unfold AtomEquivalent
  split <;> simp_all [equivalentCheckExpressions]

theorem AtomEquivalent.symm {left right : Atom} (h : AtomEquivalent T path left right) :
    AtomEquivalent T path right left := by
  unfold AtomEquivalent at h ⊢
  cases hrule : T.rule path <;> cases left <;> cases right <;>
    simp_all [equivalentCheckExpressions]
  rcases h with rfl | ⟨hsome, hsame⟩
  · exact .inl rfl
  · exact .inr ⟨hsame ▸ hsome, hsame.symm⟩

theorem AtomEquivalent.trans {first second third : Atom} (h : AtomEquivalent T path first second)
    (hnext : AtomEquivalent T path second third) : AtomEquivalent T path first third := by
  unfold AtomEquivalent at h hnext ⊢
  cases hrule : T.rule path <;> cases first <;> cases second <;> cases third <;>
    simp_all [equivalentCheckExpressions]
  rcases h with rfl | ⟨hsome, hsame⟩
  · exact hnext
  · rcases hnext with rfl | ⟨-, hlast⟩
    · exact .inr ⟨hsome, hsame⟩
    · exact .inr ⟨hsome, hsame.trans hlast⟩

omit [DecidableEq N] in
theorem rule_eq_none {step : PathStep} (hstep : step ≠ .field "expression") :
    T.rule (path ++ [step]) = none := by
  by_contra hsome
  have hlast : (path ++ [step]).getLast? = some (.field "expression") := by
    revert hsome
    generalize path ++ [step] = whole
    intro hsome
    unfold CheckRules.rule at hsome
    split at hsome
    · split at hsome
      next hnames => simp [hnames.2.2]
      · exact absurd rfl hsome
    · exact absurd rfl hsome
  simp only [List.getLast?_append, List.getLast?_singleton, Option.some_or, Option.some.injEq]
    at hlast
  exact hstep hlast

theorem atomOf_eq_text {value : Json} {text : String} (h : atomOf value = some (.text text)) :
    value = .string text := by
  cases value <;> simp_all [atomOf]

/-- Assumes: texts that are equivalent at a path that is not an expression. They are equal. -/
theorem text_of_equivalent {step : PathStep} (hstep : step ≠ .field "expression") {text : String}
    {right : Option Json} (h : Equivalent T (path ++ [step]) (some (.string text)) right) :
    right = some (.string text) := by
  cases right with
  | none => exact nomatch equivalent_none_right.mp h
  | some value =>
    obtain ⟨other, hother, hsame⟩ := (equivalent_atom_iff rfl).mp h
    rw [atomEquivalent_iff_eq (.inl (rule_eq_none hstep))] at hsame
    subst hsame
    rw [atomOf_eq_text hother]

theorem identifier_eq_some_iff {value : Json} {id : String} :
    identifier value = some id ↔ ∃ fields, value = .object fields ∧
      fields.lookup "id" = some (.string id) := by
  unfold identifier
  constructor
  · intro h
    split at h
    next fields =>
      split at h
      next text htext => exact ⟨fields, rfl, by rw [htext, Option.some.inj h]⟩
      · cases h
    · cases h
  · rintro ⟨fields, rfl, hid⟩
    simp [hid]

/-- Assumes: a value that is equivalent to a text at a path that is not an expression. It is that
text. -/
theorem text_of_equivalent_right {step : PathStep} (hstep : step ≠ .field "expression")
    {text : String} {left : Option Json}
    (h : Equivalent T (path ++ [step]) left (some (.string text))) :
    left = some (.string text) := by
  cases left with
  | none => exact nomatch equivalent_none_left.mp h
  | some value =>
    cases hatom : atomOf value with
    | none => exact nomatch atomOf_eq_none_of_equivalent hatom h
    | some atom =>
      obtain ⟨other, hother, hsame⟩ := (equivalent_atom_iff hatom).mp h
      rw [atomEquivalent_iff_eq (.inl (rule_eq_none hstep))] at hsame
      obtain rfl := Option.some.inj hother
      subst hsame
      rw [atomOf_eq_text hatom]

theorem identifier_eq_of_equivalent {left right : Json}
    (h : Equivalent T path (some left) (some right)) : identifier left = identifier right := by
  refine Option.ext fun id ↦ ?_
  rw [identifier_eq_some_iff, identifier_eq_some_iff]
  constructor
  · rintro ⟨fields, rfl, hid⟩
    obtain ⟨others, rfl⟩ := object_of_equivalent h
    have hkey := equivalent_object_iff.mp h "id"
    rw [hid] at hkey
    exact ⟨others, rfl, text_of_equivalent (by simp) hkey⟩
  · rintro ⟨others, rfl, hid⟩
    cases left with
    | object fields =>
      have hkey := equivalent_object_iff.mp h "id"
      rw [hid] at hkey
      exact ⟨fields, rfl, text_of_equivalent_right (by simp) hkey⟩
    | array items => exact nomatch array_of_equivalent h
    | _ =>
      obtain ⟨other, hother, -⟩ := (equivalent_atom_iff rfl).mp h
      cases hother

/-! ### Lists -/

/-- How a list is compared. -/
inductive ListKind
  | columns
  | texts
  | positional
  deriving DecidableEq, Repr

/-- How a list at a path is compared with lists of its kind. -/
def listKind (path : List PathStep) (items : List Json) : ListKind :=
  if endsWithColumns path ∧ isIdList (.array items) then .columns
  else if unorderedDependencyPath path ∧ areTexts items then .texts
  else .positional

/-- What equivalent lists of a kind have in common. -/
def ListEquivalent (T : CheckRules N) (path : List PathStep) (left right : List Json) :
    ListKind → Prop
  | .columns => ∀ id, Equivalent T (path ++ [.item id]) (itemOf left id) (itemOf right id)
  | .texts => ∀ text, text ∈ textsOf left ↔ text ∈ textsOf right
  | .positional => ∀ position : ℕ,
      Equivalent T (path ++ [.item (toString position)]) left[position]? right[position]?

/-- Assumes: lists that are equivalent position by position, and a property of items that does not
tell equivalent ones apart. The lists have it in common. -/
theorem map_eq_of_positions {α : Type} {f : Json → α}
    (h : ListEquivalent T path left right .positional)
    (hf : ∀ (position : ℕ) (item other : Json),
      Equivalent T (path ++ [.item (toString position)]) (some item) (some other) →
        f item = f other) :
    left.map f = right.map f := by
  refine List.ext_getElem? fun position ↦ ?_
  rw [List.getElem?_map, List.getElem?_map]
  have hposition := h position
  cases hleft : left[position]? with
  | none =>
    rw [hleft, equivalent_none_left] at hposition
    rw [hposition]
  | some item =>
    cases hright : right[position]? with
    | none =>
      rw [hright, equivalent_none_right] at hposition
      rw [hposition] at hleft
      cases hleft
    | some other =>
      rw [hleft, hright] at hposition
      exact congrArg some (hf position item other hposition)

theorem isIdList_eq_of_map (h : left.map identifier = right.map identifier) :
    isIdList (.array left) = isIdList (.array right) := by
  have hall : ∀ items : List Json, isIdList (.array items) =
      (items.map identifier).all Option.isSome := by
    intro items
    simp [isIdList, List.all_map, Function.comp_def]
  rw [hall, hall, h]

theorem isText_eq_of_equivalent {id : String} {left right : Json}
    (h : Equivalent T (path ++ [.item id]) (some left) (some right)) :
    isText left = isText right := by
  have htext : ∀ value, isText value = true ↔ ∃ text, value = .string text := by
    intro value
    cases value <;> simp [isText]
  rw [Bool.eq_iff_iff, htext, htext]
  constructor
  · rintro ⟨text, rfl⟩
    exact ⟨text, Option.some.inj (text_of_equivalent (by simp) h)⟩
  · rintro ⟨text, rfl⟩
    exact ⟨text, Option.some.inj (text_of_equivalent_right (by simp) h)⟩

theorem areTexts_eq_of_map (h : left.map isText = right.map isText) :
    areTexts left = areTexts right := by
  have hall : ∀ items : List Json, areTexts items = (items.map isText).all id := by
    intro items
    simp [areTexts, List.all_map]
  rw [hall, hall, h]

theorem unordered_of_columns (h : endsWithColumns path = true) :
    unorderedDependencyPath path = false := by
  unfold endsWithColumns at h
  rw [decide_eq_true_eq] at h
  unfold unorderedDependencyPath
  rw [h.2]
  simp [unorderedDependencyFields]

/-- Assumes: lists of one kind. They are equivalent exactly when they have in common what lists of
that kind have. -/
theorem equivalent_list_iff (hkind : listKind path left = listKind path right) :
    Equivalent T path (some (.array left)) (some (.array right)) ↔
      ListEquivalent T path left right (listKind path left) := by
  unfold listKind at hkind ⊢
  by_cases hcolumns : endsWithColumns path = true
  · have hordered := unordered_of_columns hcolumns
    by_cases hleft : isIdList (.array left) = true
    · have hright : isIdList (.array right) = true := by
        by_contra hnot
        simp [hcolumns, hleft, hnot, hordered] at hkind
      rw [if_pos ⟨hcolumns, hleft⟩]
      exact equivalent_columns_iff hcolumns hleft hright
    · rw [if_neg (by simp [hleft]), if_neg (by simp [hordered])]
      exact equivalent_array_iff ⟨by simp [hleft], by simp [hordered]⟩
  · by_cases htexts : unorderedDependencyPath path = true ∧ areTexts left = true
    · have hright : areTexts right = true := by
        by_contra hnot
        simp [hcolumns, htexts, hnot] at hkind
      rw [if_neg (by simp [hcolumns]), if_pos htexts]
      exact equivalent_texts_iff (by simpa using hcolumns) htexts.1 htexts.2 hright
    · rw [if_neg (by simp [hcolumns]), if_neg htexts]
      refine equivalent_array_iff ⟨by simp [hcolumns], ?_⟩
      rintro ⟨hunordered, hleft, -⟩
      exact htexts ⟨hunordered, hleft⟩

theorem listKind_eq_of_equivalent
    (h : Equivalent T path (some (.array left)) (some (.array right))) :
    listKind path left = listKind path right := by
  by_cases hpositional : Positional path left right
  · have hpositions : ListEquivalent T path left right .positional :=
      (equivalent_array_iff hpositional).mp h
    have hids := isIdList_eq_of_map (map_eq_of_positions hpositions
      fun _ _ _ ↦ identifier_eq_of_equivalent)
    have htexts := areTexts_eq_of_map (map_eq_of_positions hpositions
      fun _ _ _ ↦ isText_eq_of_equivalent)
    unfold listKind
    rw [hids, htexts]
  · unfold Positional at hpositional
    rw [not_and_or, not_not, not_not] at hpositional
    unfold listKind
    rcases hpositional with ⟨hcolumns, hleft, hright⟩ | ⟨hunordered, hleft, hright⟩
    · simp [hcolumns, hleft, hright]
    · have hcolumns : endsWithColumns path = false := by
        by_contra hnot
        rw [unordered_of_columns (by simpa using hnot)] at hunordered
        cases hunordered
      simp [hcolumns, hunordered, hleft, hright]

end Cases

/-! ### An equivalence -/

/-- A bound on the depth of a value that may be missing. -/
def DepthBelow (bound : ℕ) (value : Option Json) : Prop :=
  ∀ present ∈ value, present.depth < bound

/-- Induction on values by depth. Assumes: a statement about a value that may be missing, which
holds of a missing value and of a value when it holds of every less deep one. -/
theorem depth_induction {motive : Option Json → Prop} (hnone : motive none)
    (hsome : ∀ present, (∀ value, DepthBelow present.depth value → motive value) →
      motive (some present)) (value : Option Json) : motive value := by
  suffices hbound : ∀ (bound : ℕ) (value : Option Json), DepthBelow bound value → motive value by
    cases value with
    | none => exact hnone
    | some present =>
      refine hbound (present.depth + 1) _ fun other hother ↦ ?_
      rw [Option.mem_some_iff.mp hother]
      exact Nat.lt_succ_self _
  intro bound
  induction bound with
  | zero =>
    intro value hdepth
    cases value with
    | none => exact hnone
    | some present => exact absurd (hdepth present rfl) (Nat.not_lt_zero _)
  | succ bound ih =>
    intro value hdepth
    cases value with
    | none => exact hnone
    | some present =>
      refine hsome present fun other hother ↦ ih other fun below hbelow ↦ ?_
      exact (hother below hbelow).trans_le (Nat.lt_succ_iff.mp (hdepth present rfl))

theorem depthBelow_lookup (fields : List (String × Json)) (key : String) :
    DepthBelow (Json.object fields).depth (fields.lookup key) :=
  fun _ hvalue ↦ Json.depth_lt_of_lookup hvalue

theorem depthBelow_itemOf (items : List Json) (id : String) :
    DepthBelow (Json.array items).depth (itemOf items id) :=
  fun _ hvalue ↦ Json.depth_lt_of_mem (itemOf_eq_some hvalue).1

theorem depthBelow_getElem (items : List Json) (position : ℕ) :
    DepthBelow (Json.array items).depth items[position]? :=
  fun _ hvalue ↦ Json.depth_lt_of_mem (List.mem_of_getElem? hvalue)

theorem equivalent_refl (T : CheckRules N) (path : List PathStep) (value : Option Json) :
    Equivalent T path value value := by
  induction value using depth_induction generalizing path with
  | hnone => rfl
  | hsome present ih =>
    cases hatom : atomOf present with
    | some atom => exact (equivalent_atom_iff hatom).mpr ⟨atom, hatom, .refl atom⟩
    | none =>
      cases present with
      | object fields =>
        exact equivalent_object_iff.mpr fun key ↦ ih _ (depthBelow_lookup fields key) _
      | array items =>
        refine (equivalent_list_iff rfl).mpr ?_
        cases listKind path items with
        | columns => exact fun id ↦ ih _ (depthBelow_itemOf items id) _
        | texts => exact fun text ↦ Iff.rfl
        | positional => exact fun position ↦ ih _ (depthBelow_getElem items position) _
      | _ => cases hatom

theorem Equivalent.symm {left right : Option Json}
    (h : Equivalent T path left right) : Equivalent T path right left := by
  induction left using depth_induction generalizing path right with
  | hnone => exact equivalent_none_right.mpr (equivalent_none_left.mp h)
  | hsome present ih =>
    cases right with
    | none => exact nomatch equivalent_none_right.mp h
    | some other =>
      cases hatom : atomOf present with
      | some atom =>
        obtain ⟨against, hagainst, hsame⟩ := (equivalent_atom_iff hatom).mp h
        exact (equivalent_atom_iff hagainst).mpr ⟨atom, hatom, hsame.symm⟩
      | none =>
        cases present with
        | object fields =>
          obtain ⟨others, rfl⟩ := object_of_equivalent h
          rw [equivalent_object_iff] at h ⊢
          exact fun key ↦ ih _ (depthBelow_lookup fields key) (h key)
        | array items =>
          obtain ⟨others, rfl⟩ := array_of_equivalent h
          have hkind := listKind_eq_of_equivalent h
          rw [equivalent_list_iff hkind] at h
          rw [equivalent_list_iff hkind.symm, ← hkind]
          cases hlist : listKind path items with
          | columns =>
            rw [hlist] at h
            exact fun id ↦ ih _ (depthBelow_itemOf items id) (h id)
          | texts =>
            rw [hlist] at h
            exact fun text ↦ (h text).symm
          | positional =>
            rw [hlist] at h
            exact fun position ↦ ih _ (depthBelow_getElem items position) (h position)
        | _ => cases hatom

theorem Equivalent.trans {first second third : Option Json} (h : Equivalent T path first second)
    (hnext : Equivalent T path second third) :
    Equivalent T path first third := by
  induction first using depth_induction generalizing path second third with
  | hnone =>
    obtain rfl := equivalent_none_left.mp h
    exact hnext
  | hsome present ih =>
    cases second with
    | none => exact nomatch equivalent_none_right.mp h
    | some middle =>
      cases third with
      | none => exact nomatch equivalent_none_right.mp hnext
      | some last =>
        cases hatom : atomOf present with
        | some atom =>
          obtain ⟨against, hagainst, hsame⟩ := (equivalent_atom_iff hatom).mp h
          obtain ⟨final, hfinal, hthen⟩ := (equivalent_atom_iff hagainst).mp hnext
          exact (equivalent_atom_iff hatom).mpr ⟨final, hfinal, hsame.trans hthen⟩
        | none =>
          cases present with
          | object fields =>
            obtain ⟨others, rfl⟩ := object_of_equivalent h
            obtain ⟨lasts, rfl⟩ := object_of_equivalent hnext
            rw [equivalent_object_iff] at h hnext ⊢
            exact fun key ↦ ih _ (depthBelow_lookup fields key) (h key) (hnext key)
          | array items =>
            obtain ⟨others, rfl⟩ := array_of_equivalent h
            obtain ⟨lasts, rfl⟩ := array_of_equivalent hnext
            have hkind := listKind_eq_of_equivalent h
            have hkinds := listKind_eq_of_equivalent hnext
            rw [equivalent_list_iff hkind] at h
            rw [equivalent_list_iff hkinds, ← hkind] at hnext
            rw [equivalent_list_iff (hkind.trans hkinds)]
            cases hlist : listKind path items with
            | columns =>
              rw [hlist] at h hnext
              exact fun id ↦ ih _ (depthBelow_itemOf items id) (h id) (hnext id)
            | texts =>
              rw [hlist] at h hnext
              exact fun text ↦ (h text).trans (hnext text)
            | positional =>
              rw [hlist] at h hnext
              exact fun position ↦
                ih _ (depthBelow_getElem items position) (h position) (hnext position)
          | _ => cases hatom

/-! ### Positions and identifiers -/

section Renamed

variable (front back : List PathStep) (first second : String)

theorem endsWithColumns_renamed : endsWithColumns (front ++ .item first :: back) =
    endsWithColumns (front ++ .item second :: back) := by
  unfold endsWithColumns
  cases hback : back.getLast? with
  | none =>
    obtain rfl := List.getLast?_eq_none_iff.mp hback
    simp
  | some step =>
    have hlast : ∀ id, (front ++ PathStep.item id :: back).getLast? = some step := by
      intro id
      rw [List.getLast?_append, List.getLast?_cons, hback]
      rfl
    rw [hlast, hlast]
    simp

theorem passesChecks_renamed : passesChecks (front ++ .item first :: back) =
    passesChecks (front ++ .item second :: back) := by
  induction front with
  | nil => rfl
  | cons step front ih =>
    rw [List.cons_append, List.cons_append, passesChecks, passesChecks, ih]
    congr 1
    rcases front with - | ⟨next, - | ⟨last, front⟩⟩
    · rfl
    · cases next <;> rfl
    · cases next <;> cases last <;> rfl

theorem unorderedDependencyPath_renamed : unorderedDependencyPath (front ++ .item first :: back) =
    unorderedDependencyPath (front ++ .item second :: back) := by
  unfold unorderedDependencyPath
  rw [passesChecks_renamed front back first second]
  cases hback : back.getLast? with
  | none =>
    obtain rfl := List.getLast?_eq_none_iff.mp hback
    simp
  | some step =>
    have hlast : ∀ id, (front ++ PathStep.item id :: back).getLast? = some step := by
      intro id
      rw [List.getLast?_append, List.getLast?_cons, hback]
      rfl
    rw [hlast, hlast]

theorem listKind_renamed (items : List Json) : listKind (front ++ .item first :: back) items =
    listKind (front ++ .item second :: back) items := by
  unfold listKind
  rw [endsWithColumns_renamed front back first second,
    unorderedDependencyPath_renamed front back first second]

omit [DecidableEq N] in
theorem rule_eq_some {normalize : String → Option N}
    (h : T.rule path = some normalize) : ∃ table check, path =
      [.field "tables", .item table, .field "checks", .item check, .field "expression"] ∧
        T.normalizer table = some normalize := by
  unfold CheckRules.rule at h
  split at h
  next first table second check third =>
    split at h
    next hnames =>
      obtain ⟨rfl, rfl, rfl⟩ := hnames
      exact ⟨table, check, rfl, h⟩
    · cases h
  · cases h

omit [DecidableEq N] in
/-- The normal form at a path with a position in it is none, or the one with an identifier. -/
theorem rule_renamed (T : CheckRules N) (position : ℕ) (id : String) :
    T.rule (front ++ .item (toString position) :: back) = none ∨
      T.rule (front ++ .item (toString position) :: back) = T.rule (front ++ .item id :: back) := by
  cases hrule : T.rule (front ++ .item (toString position) :: back) with
  | none => exact .inl rfl
  | some normalize =>
    obtain ⟨table, check, hpath, hnormalize⟩ := rule_eq_some hrule
    right
    -- The item is the table or the check: the place of the table holds no numeral.
    rcases front with - | ⟨a, - | ⟨b, - | ⟨c, - | ⟨d, front⟩⟩⟩⟩
    · simp at hpath
    · simp only [List.cons_append, List.nil_append, List.cons.injEq, PathStep.item.injEq] at hpath
      rw [← hpath.2.1, T.numeral] at hnormalize
      cases hnormalize
    · simp at hpath
    · simp only [List.cons_append, List.nil_append, List.cons.injEq] at hpath
      obtain ⟨rfl, rfl, rfl, -, rfl⟩ := hpath
      simp [CheckRules.rule, hnormalize]
    · rcases front with - | ⟨e, front⟩ <;> simp at hpath

end Renamed

/-- Assumes: values that are equivalent at a path with a position in it. They are equivalent with an
identifier in its place. -/
theorem Equivalent.renamed {front back : List PathStep} {position : ℕ} {left right : Option Json}
    (h : Equivalent T (front ++ .item (toString position) :: back) left right) (id : String) :
    Equivalent T (front ++ .item id :: back) left right := by
  induction left using depth_induction generalizing back right with
  | hnone => exact equivalent_none_left.mpr (equivalent_none_left.mp h)
  | hsome present ih =>
    have hbelow : ∀ {value : Option Json} {other : Option Json} {step : PathStep},
        DepthBelow present.depth value →
        Equivalent T (front ++ .item (toString position) :: back ++ [step]) value other →
        Equivalent T (front ++ .item id :: back ++ [step]) value other := by
      intro value other step hdepth hvalue
      have hrenamed := @ih value hdepth (back ++ [step]) other
      simp only [List.append_assoc, List.cons_append] at hvalue hrenamed ⊢
      exact hrenamed hvalue
    cases right with
    | none => exact nomatch equivalent_none_right.mp h
    | some other =>
      cases hatom : atomOf present with
      | some atom =>
        obtain ⟨against, hagainst, hsame⟩ := (equivalent_atom_iff hatom).mp h
        refine (equivalent_atom_iff hatom).mpr ⟨against, hagainst, ?_⟩
        rcases rule_renamed front back T position id with hnone | hrule
        · rw [atomEquivalent_iff_eq (.inl hnone)] at hsame
          exact hsame ▸ .refl atom
        · unfold AtomEquivalent at hsame ⊢
          rw [← hrule]
          exact hsame
      | none =>
        cases present with
        | object fields =>
          obtain ⟨others, rfl⟩ := object_of_equivalent h
          rw [equivalent_object_iff] at h ⊢
          exact fun key ↦ hbelow (depthBelow_lookup fields key) (h key)
        | array items =>
          obtain ⟨others, rfl⟩ := array_of_equivalent h
          have hkind := listKind_eq_of_equivalent h
          rw [equivalent_list_iff hkind] at h
          have hsame := listKind_renamed front back (toString position) id
          rw [equivalent_list_iff (by rw [← hsame, ← hsame]; exact hkind), ← hsame]
          cases hlist : listKind (front ++ .item (toString position) :: back) items with
          | columns =>
            rw [hlist] at h
            exact fun key ↦ hbelow (depthBelow_itemOf items key) (h key)
          | texts =>
            rw [hlist] at h
            exact h
          | positional =>
            rw [hlist] at h
            exact fun place ↦ hbelow (depthBelow_getElem items place) (h place)
        | _ => cases hatom

/-! ### Below equivalent values -/

theorem itemOf_concat (items : List Json) (last : Json) (id : String) :
    itemOf (items ++ [last]) id =
      if identifier last = some id then some last else itemOf items id := by
  unfold itemOf
  rw [List.reverse_append, List.reverse_singleton, List.singleton_append, List.find?_cons]
  by_cases hid : identifier last = some id <;> simp [hid]

/-- Assumes: lists that are equivalent position by position. What they hold under an identifier is
equivalent. -/
theorem equivalent_itemOf (h : ListEquivalent T path left right .positional) (id : String) :
    Equivalent T (path ++ [.item id]) (itemOf left id) (itemOf right id) := by
  induction left using List.reverseRecOn generalizing right with
  | nil =>
    have hnil : right = [] := by
      cases right with
      | nil => rfl
      | cons item right =>
        have hfirst := h 0
        simp only [List.getElem?_nil, List.getElem?_cons_zero] at hfirst
        exact nomatch equivalent_none_left.mp hfirst
    rw [hnil]
    exact equivalent_refl _ _ _
  | append_singleton items last ih =>
    have hlength : (items ++ [last]).length = right.length := by
      have hmap : (items ++ [last]).map (fun _ ↦ ()) = right.map fun _ ↦ () :=
        map_eq_of_positions h fun _ _ _ _ ↦ rfl
      simpa using congrArg List.length hmap
    rcases List.eq_nil_or_concat right with rfl | ⟨others, final, hright⟩
    · simp at hlength
    rw [List.concat_eq_append] at hright
    subst hright
    have hsame : items.length = others.length := by simpa using hlength
    have hlast : Equivalent T (path ++ [.item (toString items.length)]) (some last)
        (some final) := by
      have hend := h items.length
      simpa [hsame] using hend
    have hrest : ListEquivalent T path items others .positional := by
      intro position
      have hposition := h position
      by_cases hbound : position < items.length
      · rw [List.getElem?_append_left hbound,
          List.getElem?_append_left (hsame ▸ hbound)] at hposition
        exact hposition
      · rw [List.getElem?_eq_none (by omega), List.getElem?_eq_none (by omega)]
        exact equivalent_refl _ _ _
    rw [itemOf_concat, itemOf_concat, identifier_eq_of_equivalent hlast]
    split
    · exact Equivalent.renamed hlast id
    · exact ih hrest

theorem itemOf_eq_none_of_texts {items : List Json} (h : areTexts items = true) (id : String) :
    itemOf items id = none := by
  by_contra hsome
  obtain ⟨item, hitem⟩ := Option.ne_none_iff_exists'.mp hsome
  obtain ⟨hmem, hid⟩ := itemOf_eq_some hitem
  have htext := List.all_eq_true.mp h item hmem
  cases item <;> simp_all [isText, identifier]

theorem equivalent_items
    (h : Equivalent T path (some (.array left)) (some (.array right))) (id : String) :
    Equivalent T (path ++ [.item id]) (childAt (.array left) (.item id))
      (childAt (.array right) (.item id)) := by
  have hkind := listKind_eq_of_equivalent h
  rw [equivalent_list_iff hkind] at h
  rw [childAt, childAt]
  cases hlist : listKind path left with
  | columns =>
    rw [hlist] at h hkind
    have hids : ∀ items, listKind path items = .columns → isIdList (.array items) = true := by
      intro items hitems
      unfold listKind at hitems
      split at hitems
      next hcolumns => exact hcolumns.2
      · split at hitems <;> cases hitems
    rw [if_pos (hids left hlist), if_pos (hids right hkind.symm)]
    exact h id
  | texts =>
    have htexts : ∀ items, listKind path items = .texts → areTexts items = true := by
      intro items hitems
      unfold listKind at hitems
      split at hitems
      · cases hitems
      · split at hitems
        next htext => exact htext.2
        · cases hitems
    rw [itemOf_eq_none_of_texts (htexts left hlist),
      itemOf_eq_none_of_texts (htexts right (hkind.symm.trans hlist)), ite_self, ite_self]
    exact equivalent_refl _ _ _
  | positional =>
    rw [hlist] at h
    rw [isIdList_eq_of_map (map_eq_of_positions h fun _ _ _ ↦ identifier_eq_of_equivalent)]
    split
    · exact equivalent_itemOf h id
    · exact equivalent_refl _ _ _

theorem Equivalent.child {left right : Option Json}
    (h : Equivalent T path left right) (step : PathStep) :
    Equivalent T (path ++ [step]) (designDocuments.below left step)
      (designDocuments.below right step) := by
  have hatoms : ∀ {value : Json} {atom : Atom}, atomOf value = some atom →
      childAt value step = none := by
    intro value atom hatom
    cases value <;> cases step <;> simp_all [atomOf, childAt]
  cases left with
  | none =>
    obtain rfl := equivalent_none_left.mp h
    exact equivalent_refl _ _ _
  | some present =>
    cases right with
    | none => exact nomatch equivalent_none_right.mp h
    | some other =>
      show Equivalent T (path ++ [step]) (childAt present step) (childAt other step)
      cases hatom : atomOf present with
      | some atom =>
        obtain ⟨against, hagainst, -⟩ := (equivalent_atom_iff hatom).mp h
        rw [hatoms hatom, hatoms hagainst]
        exact equivalent_refl _ _ _
      | none =>
        cases present with
        | object fields =>
          obtain ⟨others, rfl⟩ := object_of_equivalent h
          cases step with
          | field key => exact equivalent_object_iff.mp h key
          | item id => exact equivalent_refl _ _ _
        | array items =>
          obtain ⟨others, rfl⟩ := array_of_equivalent h
          cases step with
          | field key => exact equivalent_refl _ _ _
          | item id => exact equivalent_items h id
        | _ => cases hatom

/-- `_equivalent_value` as a comparison of documents. -/
def comparison (T : CheckRules N) : Comparison designDocuments where
  same := Equivalent T
  refl := equivalent_refl T
  symm := fun _ _ _ h ↦ h.symm
  trans := fun _ _ _ _ h hnext ↦ h.trans hnext
  missing := fun _ _ h ↦ equivalent_none_left.mp h
  child := fun _ _ _ step h ↦ h.child step

end Schemii.Migrations
