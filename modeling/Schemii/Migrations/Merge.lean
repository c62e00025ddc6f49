import Schemii.Migrations.ValueEquivalence

/-!
# The merger

`_Merger` of `migrations/planner.py`: the recursive merge of a baseline, the desired design and the
live one, with the external changes and the conflicts it records.

`mergeWithin` is the recursion, for documents of a bounded depth; `merge` runs it with a bound that
is large enough. `merges_merge` connects it to the merges of `Foundations.ThreeWayMerge`: every run
of the merger is a derivation over the comparison of `ValueEquivalence`, with the same result, the
same paths of external changes and the same paths of conflicts.

The identifier of a record is a digest of its path and values, computed by a hash; it is a parameter.
-/

set_option autoImplicit false

namespace Schemii.Migrations

open Foundations Common

/-! ### Records -/

/-- The category of a conflict. -/
inductive ConflictCategory
  | direct
  | structural
  deriving DecidableEq, Repr

/-- What an external change did. -/
inductive ChangeOperation
  | added
  | removed
  | changed
  deriving DecidableEq, Repr

/-- The kind of object at a path. -/
inductive ObjectKind
  | schema
  | type
  | table
  | column
  | constraint
  | index
  | relationship
  | function
  | view
  | trigger
  deriving DecidableEq, Repr

/-- Whether a text contains another. -/
def textContains (text part : String) : Bool :=
  part.toList <:+: text.toList

/-- `_kind`. -/
def kindOf (path : String) : ObjectKind :=
  if textContains path ".columns[" then .column
  else if textContains path ".keys[" || textContains path ".checks[" then .constraint
  else if textContains path ".indexes[" then .index
  else if path.startsWith "types[" then .type
  else if path.startsWith "tables[" then .table
  else if path.startsWith "relationships[" then .relationship
  else if path.startsWith "functions[" then .function
  else if path.startsWith "views[" then .view
  else if path.startsWith "triggers[" then .trigger
  else .schema

/-- `_display_path`. -/
def displayPath (path : String) : String :=
  (((path.replace "[" ".").replace "]" "").dropWhile (· = '.')).toString.dropEndWhile (· = '.')
    |>.toString

/-- `_operation`. -/
def operationOf (before after : Option Json) : ChangeOperation :=
  match before, after with
  | none, _ => .added
  | some _, none => .removed
  | some _, some _ => .changed

/-- `_value`: a missing value is recorded as null. -/
def valueOf (value : Option Json) : Json :=
  value.getD .null

/-- The word of an operation in a summary. -/
def ChangeOperation.word : ChangeOperation → String
  | .added => "added"
  | .removed => "removed"
  | .changed => "changed"

/-- `MigrationExternalChange`, by its path and the values it records. -/
structure ExternalChange where
  id : String
  path : List PathStep
  baseline : Option Json
  live : Option Json
  deriving Repr

namespace ExternalChange

def objectKind (change : ExternalChange) : ObjectKind := kindOf (pathText change.path)

def objectPath (change : ExternalChange) : String := displayPath (pathText change.path)

def operation (change : ExternalChange) : ChangeOperation :=
  operationOf change.baseline change.live

def summary (change : ExternalChange) : String :=
  "PostgreSQL " ++ change.operation.word ++ " " ++ change.objectPath ++ " outside Schemii"

end ExternalChange

/-- `MigrationConflict`, by its path and the values it records. -/
structure Conflict where
  id : String
  category : ConflictCategory
  path : List PathStep
  baseline : Option Json
  design : Option Json
  live : Option Json
  deriving Repr

namespace Conflict

def objectKind (conflict : Conflict) : ObjectKind := kindOf (pathText conflict.path)

def objectPath (conflict : Conflict) : String := displayPath (pathText conflict.path)

def summary (conflict : Conflict) : String :=
  "Schemii and PostgreSQL changed " ++ conflict.objectPath ++ " differently"

end Conflict

/-! ### The recursion -/

variable {N : Type} [DecidableEq N]
variable {baseline design live : Option Json} {path : List PathStep} {value : Option Json}

/-- `_Merger`: what it is made with. A user resolves a conflict, by its identifier, by pulling the
live value or keeping the design. -/
structure Merger (N : Type) where
  checkColumnTypes : CheckRules N
  identifier : String → List PathStep → List Json → String
  resolutions : String → Option Side

/-- What a call of the merger returns and records. -/
structure Merged where
  value : Option Json
  external : List ExternalChange
  conflicts : List Conflict

/-- The resolution of a conflict. -/
def Merger.resolution (M : Merger N) (path : List PathStep)
    (baseline design live : Option Json) : Option Side :=
  M.resolutions (M.identifier "mcf" path [valueOf baseline, valueOf design, valueOf live])

/-- `_conflict`. -/
def Merger.conflict (M : Merger N) (category : ConflictCategory) (path : List PathStep)
    (baseline design live : Option Json) : Merged :=
  let id := M.identifier "mcf" path [valueOf baseline, valueOf design, valueOf live]
  match M.resolutions id with
  | some .live => ⟨live, [], []⟩
  | some .design => ⟨design, [], []⟩
  | none => ⟨design, [], [⟨id, category, path, baseline, design, live⟩]⟩

/-- `_external`. -/
def Merger.externalChange (M : Merger N) (path : List PathStep) (baseline live : Option Json) :
    ExternalChange :=
  ⟨M.identifier "mec" path [valueOf baseline, valueOf live], path, baseline, live⟩

/-- `extend` with the names that are not there yet. -/
def extendNew (names others : List String) : List String :=
  others.foldl (fun known name ↦ if name ∈ known then known else known ++ [name]) names

/-- The keys of a dictionary. -/
def keysOf : Option Json → List String
  | some (.object fields) => fields.map Prod.fst
  | _ => []

/-- The identifiers of a list of objects. -/
def idsOf : Option Json → List String
  | some (.array items) => itemIds items
  | _ => []

/-- A missing value or a dictionary. -/
def dictionaryOrMissing : Option Json → Bool
  | none => true
  | some (.object _) => true
  | _ => false

/-- A missing value or a list of objects with identifiers. -/
def idListOrMissing : Option Json → Bool
  | none => true
  | some value => isIdList value

/-- `_equivalent_value` of values that may be missing. -/
def Merger.same (M : Merger N) (path : List PathStep) (left right : Option Json) : Bool :=
  optionEquivalent (equivalentValue M.checkColumnTypes path) left right

/-- `merge`, for documents of a bounded depth. -/
def Merger.mergeWithin (M : Merger N) : ℕ → List PathStep → Option Json → Option Json →
    Option Json → Merged
  | 0, _, _, _, _ => ⟨none, [], []⟩
  | depth + 1, path, baseline, design, live =>
    let below := fun step ↦ M.mergeWithin depth (path ++ [step])
      (designDocuments.below baseline step) (designDocuments.below design step)
      (designDocuments.below live step)
    if design.isNone ∧ live.isNone then ⟨none, [], []⟩
    else if M.same path design live then ⟨design, [], []⟩
    else if baseline.isSome ∧ (design.isNone ∨ live.isNone) then
      M.conflict .structural path baseline design live
    else if dictionaryOrMissing baseline ∧ dictionaryOrMissing design ∧ dictionaryOrMissing live then
      let keys := extendNew (extendNew (extendNew [] (keysOf baseline)) (keysOf design)) (keysOf live)
      ⟨some (.object (keys.filterMap fun key ↦ (below (.field key)).value.map fun value ↦
          (key, value))),
        keys.flatMap fun key ↦ (below (.field key)).external,
        keys.flatMap fun key ↦ (below (.field key)).conflicts⟩
    else if idListOrMissing baseline ∧ idListOrMissing design ∧ idListOrMissing live then
      let order := extendNew (extendNew (extendNew [] (idsOf design)) (idsOf baseline)) (idsOf live)
      ⟨some (.array (order.filterMap fun id ↦ (below (.item id)).value)),
        order.flatMap fun id ↦ (below (.item id)).external,
        order.flatMap fun id ↦ (below (.item id)).conflicts⟩
    else if M.same path design baseline then
      ⟨live, if M.same path live baseline then [] else [M.externalChange path baseline live], []⟩
    else if M.same path live baseline then ⟨design, [], []⟩
    else M.conflict .direct path baseline design live

/-- The depth of a value that may be missing. -/
def depthOf (value : Option Json) : ℕ :=
  (value.map Json.depth).getD 0

/-- `merge`. -/
def Merger.merge (M : Merger N) (path : List PathStep) (baseline design live : Option Json) :
    Merged :=
  M.mergeWithin (depthOf baseline + depthOf design + depthOf live + 1) path baseline design live

/-! ### The merger makes merges -/

/-- The comparison of the merger, and the values it walks on: dictionaries on every side, or lists
of identified objects on every side. -/
def Merger.rules (M : Merger N) : MergeRules designDocuments where
  toComparison := comparison M.checkColumnTypes
  composite := fun baseline design live ↦
    (dictionaryOrMissing baseline ∧ dictionaryOrMissing design ∧ dictionaryOrMissing live) ∨
      (idListOrMissing baseline ∧ idListOrMissing design ∧ idListOrMissing live)

/-- The paths of the external changes. -/
def Merged.externalPaths (merged : Merged) : Set (List PathStep) :=
  { path | ∃ change ∈ merged.external, change.path = path }

/-- The paths of the conflicts. -/
def Merged.conflictPaths (merged : Merged) : Set (List PathStep) :=
  { path | ∃ conflict ∈ merged.conflicts, conflict.path = path }

theorem mem_extendNew {names others : List String} {name : String} :
    name ∈ extendNew names others ↔ name ∈ names ∨ name ∈ others := by
  unfold extendNew
  induction others generalizing names with
  | nil => simp
  | cons first others ih =>
    rw [List.foldl_cons, ih]
    split
    next hknown =>
      rw [List.mem_cons]
      constructor
      · rintro (hname | hname)
        · exact .inl hname
        · exact .inr (.inr hname)
      · rintro (hname | rfl | hname)
        · exact .inl hname
        · exact .inl hknown
        · exact .inr hname
    next => simp [or_assoc]

theorem lookup_filterMap (keys : List String) (f : String → Option Json) (key : String) :
    (keys.filterMap fun name ↦ (f name).map fun value ↦ (name, value)).lookup key =
      if key ∈ keys then f key else none := by
  induction keys with
  | nil => rfl
  | cons first keys ih =>
    rw [List.filterMap_cons]
    cases hfirst : f first with
    | none =>
      rw [Option.map_none, ih]
      by_cases hkey : key = first
      · simp [hkey, hfirst]
      · simp [hkey]
    | some value =>
      rw [Option.map_some, List.lookup_cons]
      by_cases hkey : key = first
      · simp [hkey, hfirst]
      · simp [hkey, ih, beq_eq_false_iff_ne.mpr hkey]

/-- Assumes: values that have the identifier they are made for. What is under an identifier of the
list that a merge builds, and that it is a list of identified objects. -/
theorem itemOf_filterMap (order : List String) {f : String → Option Json}
    (h : ∀ id value, f id = some value → identifier value = some id) :
    isIdList (.array (order.filterMap f)) = true ∧
      ∀ id, itemOf (order.filterMap f) id = if id ∈ order then f id else none := by
  have hmade : ∀ value ∈ order.filterMap f, ∃ id ∈ order, f id = some value :=
    fun value hvalue ↦ List.mem_filterMap.mp hvalue
  refine ⟨List.all_eq_true.mpr fun value hvalue ↦ ?_, fun id ↦ ?_⟩
  · obtain ⟨id, -, hid⟩ := hmade value hvalue
    simp [h id value hid]
  · cases hitem : itemOf (order.filterMap f) id with
    | some value =>
      obtain ⟨hmem, hid⟩ := itemOf_eq_some hitem
      obtain ⟨made, horder, hvalue⟩ := hmade value hmem
      obtain rfl : made = id := Option.some.inj ((h made value hvalue).symm.trans hid)
      rw [if_pos horder, hvalue]
    | none =>
      split
      next horder =>
        cases hvalue : f id with
        | none => rfl
        | some value =>
          have hmem : id ∈ itemIds (order.filterMap f) :=
            List.mem_filterMap.mpr ⟨value, List.mem_filterMap.mpr ⟨id, horder, hvalue⟩,
              h id value hvalue⟩
          exact absurd hitem ((mem_itemIds_iff _ _).mp hmem)
      · rfl

theorem side_present {design live : Option Json} (h : ¬ (design.isNone ∧ live.isNone)) :
    design ≠ none ∨ live ≠ none := by
  cases design <;> cases live <;> simp_all

theorem sides_present (h : ¬ (baseline.isSome ∧ (design.isNone ∨ live.isNone))) :
    baseline = none ∨ design ≠ none ∧ live ≠ none := by
  cases baseline <;> cases design <;> cases live <;> simp_all

section Building

variable (M : Merger N)

theorem mergeWithin_missing (depth : ℕ) (path : List PathStep) :
    M.mergeWithin depth path none none none = ⟨none, [], []⟩ := by
  cases depth <;> rfl

/-- Assumes: values that have a common identifier, where they are there, of which no side misses the
one of the baseline alone. The merged identifier is the same. -/
theorem mergeWithin_identifier {depth : ℕ} {id : String}
    (hbaseline : ∀ value ∈ baseline, value = .string id)
    (hdesign : ∀ value ∈ design, value = .string id) (hlive : ∀ value ∈ live, value = .string id)
    (hsides : baseline = none ∨ design ≠ none ∧ live ≠ none)
    (hpresent : design ≠ none ∨ live ≠ none) :
    (M.mergeWithin (depth + 1) (path ++ [.field "id"]) baseline design live).value =
      some (.string id) := by
  have hrefl := equivalent_refl M.checkColumnTypes (path ++ [.field "id"]) (some (.string id))
  unfold Equivalent at hrefl
  rcases design with - | design
  · rcases live with - | live
    · simp at hpresent
    · obtain rfl : baseline = none := by simpa using hsides
      obtain rfl := hlive live rfl
      simp [Merger.mergeWithin, Merger.same, optionEquivalent, dictionaryOrMissing, idListOrMissing,
        isIdList]
  · obtain rfl := hdesign design rfl
    rcases live with - | live
    · obtain rfl : baseline = none := by simpa using hsides
      simp [Merger.mergeWithin, Merger.same, optionEquivalent, dictionaryOrMissing, idListOrMissing,
        isIdList]
    · obtain rfl := hlive live rfl
      simp [Merger.mergeWithin, Merger.same, hrefl]

theorem DepthBelow.child {bound : ℕ} (h : DepthBelow (bound + 1) value)
    (step : PathStep) : DepthBelow bound (designDocuments.below value step) := by
  intro below hbelow
  obtain ⟨present, rfl, hchild⟩ := Option.bind_eq_some_iff.mp hbelow
  have hpresent := Nat.lt_succ_iff.mp (h present rfl)
  refine lt_of_lt_of_le ?_ hpresent
  change childAt present step = some below at hchild
  unfold childAt at hchild
  split at hchild
  · exact Json.depth_lt_of_lookup hchild
  · split at hchild
    · exact Json.depth_lt_of_mem (itemOf_eq_some hchild).1
    · cases hchild
  · cases hchild

theorem externalPaths_flatMap (steps : List PathStep) (below : PathStep → Merged)
    (hothers : ∀ step ∉ steps, (below step).external = []) (value : Option Json)
    (conflicts : List Conflict) :
    Merged.externalPaths ⟨value, steps.flatMap fun step ↦ (below step).external, conflicts⟩ =
      ⋃ step, (below step).externalPaths := by
  ext path
  simp only [Merged.externalPaths, List.mem_flatMap, Set.mem_ofPred_eq, Set.mem_iUnion]
  constructor
  · rintro ⟨change, ⟨step, -, hchange⟩, hpath⟩
    exact ⟨step, change, hchange, hpath⟩
  · rintro ⟨step, change, hchange, hpath⟩
    refine ⟨change, ⟨step, ?_, hchange⟩, hpath⟩
    by_contra hstep
    rw [hothers step hstep] at hchange
    exact nomatch hchange

theorem conflictPaths_flatMap (steps : List PathStep) (below : PathStep → Merged)
    (hothers : ∀ step ∉ steps, (below step).conflicts = []) (value : Option Json)
    (external : List ExternalChange) :
    Merged.conflictPaths ⟨value, external, steps.flatMap fun step ↦ (below step).conflicts⟩ =
      ⋃ step, (below step).conflictPaths := by
  ext path
  simp only [Merged.conflictPaths, List.mem_flatMap, Set.mem_ofPred_eq, Set.mem_iUnion]
  constructor
  · rintro ⟨conflict, ⟨step, -, hconflict⟩, hpath⟩
    exact ⟨step, conflict, hconflict, hpath⟩
  · rintro ⟨step, conflict, hconflict, hpath⟩
    refine ⟨conflict, ⟨step, ?_, hconflict⟩, hpath⟩
    by_contra hstep
    rw [hothers step hstep] at hconflict
    exact nomatch hconflict

theorem merges_conflict {category : ConflictCategory}
    (hclash : M.rules.Clashes path baseline design live) :
    Merges M.rules M.resolution path baseline design live
      (M.conflict category path baseline design live).value
      (M.conflict category path baseline design live).externalPaths
      (M.conflict category path baseline design live).conflictPaths := by
  have hnothing : ∀ value : Option Json, Merged.externalPaths ⟨value, [], []⟩ = ∅ ∧
      Merged.conflictPaths ⟨value, [], []⟩ = ∅ := by
    intro value
    simp [Merged.externalPaths, Merged.conflictPaths]
  cases hresolution : M.resolution path baseline design live with
  | some side =>
    have hresolve := Merges.resolve side hclash hresolution
    unfold Merger.resolution at hresolution
    unfold Merger.conflict
    dsimp only
    rw [hresolution]
    cases side with
    | design =>
      rw [(hnothing design).1, (hnothing design).2]
      exact hresolve
    | live =>
      rw [(hnothing live).1, (hnothing live).2]
      exact hresolve
  | none =>
    have hreport := Merges.report hclash hresolution
    unfold Merger.resolution at hresolution
    unfold Merger.conflict
    dsimp only
    rw [hresolution]
    have hpaths : ∀ conflict : Conflict, conflict.path = path →
        Merged.externalPaths ⟨design, [], [conflict]⟩ = ∅ ∧
          Merged.conflictPaths ⟨design, [], [conflict]⟩ = {path} := by
      rintro conflict rfl
      refine ⟨by simp [Merged.externalPaths], ?_⟩
      ext place
      simp [Merged.conflictPaths, eq_comm]
    dsimp only
    rw [(hpaths _ rfl).1, (hpaths _ rfl).2]
    exact hreport

theorem mergeWithin_of_missing {depth : ℕ} {step : PathStep}
    (hbaseline : designDocuments.below baseline step = none)
    (hdesign : designDocuments.below design step = none)
    (hlive : designDocuments.below live step = none) :
    M.mergeWithin depth (path ++ [step]) (designDocuments.below baseline step)
      (designDocuments.below design step) (designDocuments.below live step) = ⟨none, [], []⟩ := by
  rw [hbaseline, hdesign, hlive]
  exact mergeWithin_missing M depth _

/-- A dictionary that is there, or missing, has nothing under a key that is not listed. -/
theorem below_of_not_mem_keysOf (hvalue : dictionaryOrMissing value = true)
    {step : PathStep} (hstep : ∀ key ∈ keysOf value, step ≠ .field key) :
    designDocuments.below value step = none := by
  cases value with
  | none => rfl
  | some present =>
    cases present with
    | object fields =>
      cases step with
      | field key =>
        have hkey : key ∉ keysOf (some (.object fields)) := fun hmem ↦ hstep key hmem rfl
        by_contra hsome
        exact hkey ((mem_keys_iff fields key).mpr hsome)
      | item id => rfl
    | _ => cases hvalue

/-- A list of identified objects that is there, or missing, has nothing under an identifier that is
not listed. -/
theorem below_of_not_mem_idsOf (hvalue : idListOrMissing value = true)
    {step : PathStep} (hstep : ∀ id ∈ idsOf value, step ≠ .item id) :
    designDocuments.below value step = none := by
  cases value with
  | none => rfl
  | some present =>
    cases present with
    | array items =>
      cases step with
      | field key => rfl
      | item id =>
        have hid : id ∉ itemIds items := fun hmem ↦ hstep id hmem rfl
        rw [mem_itemIds_iff, not_not] at hid
        show (if isIdList (.array items) then itemOf items id else none) = none
        rw [hid, ite_self]
    | _ => cases hvalue

theorem identifier_below (hvalue : idListOrMissing value = true) {id : String}
    {item : Json} (h : designDocuments.below value (.item id) = some item) :
    identifier item = some id := by
  cases value with
  | none => cases h
  | some present =>
    cases present with
    | array items =>
      change (if isIdList (.array items) then itemOf items id else none) = some item at h
      split at h
      · exact (itemOf_eq_some h).2
      · cases h
    | _ => cases hvalue

/-- Assumes: values that have a common identifier, where they are there. What is merged of them has
it. -/
theorem identifier_mergeWithin {depth : ℕ} {id : String} {value : Json}
    (hbaseline : ∀ item ∈ baseline, identifier item = some id)
    (hdesign : ∀ item ∈ design, identifier item = some id)
    (hlive : ∀ item ∈ live, identifier item = some id)
    (hdepth : DepthBelow depth design ∧ DepthBelow depth live)
    (h : (M.mergeWithin depth path baseline design live).value = some value) :
    identifier value = some id := by
  have hobject : ∀ {item : Option Json}, (∀ present ∈ item, identifier present = some id) →
      dictionaryOrMissing item = true ∧
        ∀ present ∈ designDocuments.below item (.field "id"), present = .string id := by
    intro item hitem
    cases item with
    | none => exact ⟨rfl, fun _ hnone ↦ nomatch hnone⟩
    | some present =>
      obtain ⟨fields, rfl, hid⟩ := identifier_eq_some_iff.mp (hitem present rfl)
      refine ⟨rfl, fun below hbelow ↦ ?_⟩
      change fields.lookup "id" = some below at hbelow
      exact Option.some.inj (hbelow.symm.trans hid)
  have hfield : ∀ {item : Option Json}, (∀ present ∈ item, identifier present = some id) →
      item ≠ none → "id" ∈ keysOf item ∧ designDocuments.below item (.field "id") ≠ none := by
    intro item hitem hsome
    obtain ⟨present, rfl⟩ := Option.ne_none_iff_exists'.mp hsome
    obtain ⟨fields, rfl, hid⟩ := identifier_eq_some_iff.mp (hitem present rfl)
    have hlookup : fields.lookup "id" ≠ none := by simp [hid]
    exact ⟨(mem_keys_iff fields "id").mpr hlookup, hlookup⟩
  have hdeep : ∀ {item : Option Json} {bound : ℕ}, (∀ present ∈ item, identifier present = some id) →
      DepthBelow bound item → item ≠ none → 1 < bound := by
    intro item bound hitem hbound hsome
    obtain ⟨present, rfl⟩ := Option.ne_none_iff_exists'.mp hsome
    obtain ⟨fields, rfl, hid⟩ := identifier_eq_some_iff.mp (hitem present rfl)
    have hdepth := hbound _ rfl
    have hbelow := Json.depth_lt_of_lookup hid
    omega
  have hpicked : ∀ {category : ConflictCategory},
      (M.conflict category path baseline design live).value = some value →
        identifier value = some id := by
    intro category hvalue
    unfold Merger.conflict at hvalue
    dsimp only at hvalue
    split at hvalue
    · exact hlive value hvalue
    · exact hdesign value hvalue
    · exact hdesign value hvalue
  cases depth with
  | zero => cases h
  | succ depth =>
    unfold Merger.mergeWithin at h
    dsimp only at h
    split at h
    · cases h
    next hsome =>
    split at h
    · exact hdesign value h
    split at h
    · exact hpicked h
    next hsides =>
    rw [if_pos ⟨(hobject hbaseline).1, (hobject hdesign).1, (hobject hlive).1⟩] at h
    obtain rfl := Option.some.inj h
    have hpresent := side_present hsome
    have hboth := sides_present hsides
    obtain ⟨inner, rfl⟩ : ∃ inner, depth = inner + 1 := by
      refine Nat.exists_eq_succ_of_ne_zero ?_
      rintro rfl
      rcases hpresent with hsome | hsome
      · exact absurd (hdeep hdesign hdepth.1 hsome) (by omega)
      · exact absurd (hdeep hlive hdepth.2 hsome) (by omega)
    refine identifier_eq_some_iff.mpr ⟨_, rfl, ?_⟩
    rw [lookup_filterMap _ (fun key ↦ (M.mergeWithin (inner + 1) (path ++ [PathStep.field key])
      (designDocuments.below baseline (.field key)) (designDocuments.below design (.field key))
      (designDocuments.below live (.field key))).value) "id", if_pos ?_]
    · refine mergeWithin_identifier M (hobject hbaseline).2 (hobject hdesign).2 (hobject hlive).2
        ?_ ?_
      · rcases hboth with rfl | ⟨hd, hl⟩
        · exact .inl rfl
        · exact .inr ⟨(hfield hdesign hd).2, (hfield hlive hl).2⟩
      · exact hpresent.imp (fun hd ↦ (hfield hdesign hd).2) fun hl ↦ (hfield hlive hl).2
    · rw [mem_extendNew, mem_extendNew]
      rcases hpresent with hd | hl
      · exact .inl (.inr (hfield hdesign hd).1)
      · exact .inr (hfield hlive hl).1

/-- Assumes: values on which the merger walks, and results below them that are merges. The
dictionary that is built of them is a merge. -/
theorem merges_dictionary {below : PathStep → Merged} (hdiffer : ¬ M.rules.same path design live)
    (hsides : baseline = none ∨ design ≠ none ∧ live ≠ none)
    (hdictionaries : dictionaryOrMissing baseline ∧ dictionaryOrMissing design ∧
      dictionaryOrMissing live)
    (hmissing : ∀ step, designDocuments.below baseline step = none →
      designDocuments.below design step = none → designDocuments.below live step = none →
        below step = ⟨none, [], []⟩)
    (hbelow : ∀ step, Merges M.rules M.resolution (path ++ [step])
      (designDocuments.below baseline step) (designDocuments.below design step)
      (designDocuments.below live step) (below step).value (below step).externalPaths
      (below step).conflictPaths) {keys : List String}
    (hkeys : ∀ key, key ∈ keys ↔ key ∈ keysOf baseline ∨ key ∈ keysOf design ∨ key ∈ keysOf live) :
    let merged : Merged := ⟨some (.object (keys.filterMap fun key ↦
        (below (.field key)).value.map fun value ↦ (key, value))),
      keys.flatMap fun key ↦ (below (.field key)).external,
      keys.flatMap fun key ↦ (below (.field key)).conflicts⟩
    Merges M.rules M.resolution path baseline design live merged.value merged.externalPaths
      merged.conflictPaths := by
  intro merged
  obtain ⟨hb, hd, hl⟩ := hdictionaries
  have hothers : ∀ step ∉ keys.map PathStep.field, below step = ⟨none, [], []⟩ := by
    intro step hstep
    have hnot : ∀ value : Option Json, (∀ key ∈ keysOf value, key ∈ keys) →
        ∀ key ∈ keysOf value, step ≠ .field key := by
      rintro value hvalue key hkey rfl
      exact hstep (List.mem_map.mpr ⟨key, hvalue key hkey, rfl⟩)
    refine hmissing step (below_of_not_mem_keysOf hb (hnot _ ?_))
      (below_of_not_mem_keysOf hd (hnot _ ?_)) (below_of_not_mem_keysOf hl (hnot _ ?_))
    · exact fun key hkey ↦ (hkeys key).mpr (.inl hkey)
    · exact fun key hkey ↦ (hkeys key).mpr (.inr (.inl hkey))
    · exact fun key hkey ↦ (hkeys key).mpr (.inr (.inr hkey))
  have hexternal : merged.externalPaths = ⋃ step, (below step).externalPaths := by
    rw [← externalPaths_flatMap (keys.map .field) below (fun step hstep ↦ by rw [hothers step hstep])
      merged.value merged.conflicts, List.flatMap_map]
  have hconflicts : merged.conflictPaths = ⋃ step, (below step).conflictPaths := by
    rw [← conflictPaths_flatMap (keys.map .field) below (fun step hstep ↦ by rw [hothers step hstep])
      merged.value merged.external, List.flatMap_map]
  rw [hexternal, hconflicts]
  refine .walk hdiffer hsides (.inl ⟨hb, hd, hl⟩) (by simp [merged]) (.inl ⟨hl, rfl, hl⟩) ?_
  intro step
  have hvalue : designDocuments.below merged.value step = (below step).value := by
    cases step with
    | item id =>
      have hnone := hothers (.item id) (by simp)
      rw [hnone]
      rfl
    | field key =>
      show List.lookup key _ = _
      rw [lookup_filterMap keys (fun key ↦ (below (.field key)).value) key]
      split
      · rfl
      next hkey =>
        rw [hothers (.field key) (by simpa using hkey)]
  rw [hvalue]
  exact hbelow step

/-- Assumes: values on which the merger walks, and results below them that are merges and have the
identifier they are made for. The list that is built of them is a merge. -/
theorem merges_list {below : PathStep → Merged} (hdiffer : ¬ M.rules.same path design live)
    (hsides : baseline = none ∨ design ≠ none ∧ live ≠ none)
    (hlists : idListOrMissing baseline ∧ idListOrMissing design ∧ idListOrMissing live)
    (hmissing : ∀ step, designDocuments.below baseline step = none →
      designDocuments.below design step = none → designDocuments.below live step = none →
        below step = ⟨none, [], []⟩)
    (hbelow : ∀ step, Merges M.rules M.resolution (path ++ [step])
      (designDocuments.below baseline step) (designDocuments.below design step)
      (designDocuments.below live step) (below step).value (below step).externalPaths
      (below step).conflictPaths)
    (hidentifier : ∀ id value, (below (.item id)).value = some value → identifier value = some id)
    {order : List String}
    (horder : ∀ id, id ∈ order ↔ id ∈ idsOf baseline ∨ id ∈ idsOf design ∨ id ∈ idsOf live) :
    let merged : Merged := ⟨some (.array (order.filterMap fun id ↦ (below (.item id)).value)),
      order.flatMap fun id ↦ (below (.item id)).external,
      order.flatMap fun id ↦ (below (.item id)).conflicts⟩
    Merges M.rules M.resolution path baseline design live merged.value merged.externalPaths
      merged.conflictPaths := by
  intro merged
  obtain ⟨hb, hd, hl⟩ := hlists
  have hothers : ∀ step ∉ order.map PathStep.item, below step = ⟨none, [], []⟩ := by
    intro step hstep
    have hnot : ∀ value : Option Json, (∀ id ∈ idsOf value, id ∈ order) →
        ∀ id ∈ idsOf value, step ≠ .item id := by
      rintro value hvalue id hid rfl
      exact hstep (List.mem_map.mpr ⟨id, hvalue id hid, rfl⟩)
    refine hmissing step (below_of_not_mem_idsOf hb (hnot _ ?_))
      (below_of_not_mem_idsOf hd (hnot _ ?_)) (below_of_not_mem_idsOf hl (hnot _ ?_))
    · exact fun id hid ↦ (horder id).mpr (.inl hid)
    · exact fun id hid ↦ (horder id).mpr (.inr (.inl hid))
    · exact fun id hid ↦ (horder id).mpr (.inr (.inr hid))
  have hexternal : merged.externalPaths = ⋃ step, (below step).externalPaths := by
    rw [← externalPaths_flatMap (order.map .item) below (fun step hstep ↦ by rw [hothers step hstep])
      merged.value merged.conflicts, List.flatMap_map]
  have hconflicts : merged.conflictPaths = ⋃ step, (below step).conflictPaths := by
    rw [← conflictPaths_flatMap (order.map .item) below (fun step hstep ↦ by rw [hothers step hstep])
      merged.value merged.external, List.flatMap_map]
  obtain ⟨hlist, hitems⟩ := itemOf_filterMap order hidentifier
  rw [hexternal, hconflicts]
  refine .walk hdiffer hsides (.inr ⟨hb, hd, hl⟩) (by simp [merged]) (.inr ⟨hl, hlist, hl⟩) ?_
  intro step
  have hvalue : designDocuments.below merged.value step = (below step).value := by
    cases step with
    | field key =>
      have hnone := hothers (.field key) (by simp)
      rw [hnone]
      rfl
    | item id =>
      show (if isIdList (.array _) then itemOf _ id else none) = _
      rw [if_pos hlist, hitems id]
      split
      · rfl
      next hid =>
        rw [hothers (.item id) (by simpa using hid)]
  rw [hvalue]
  exact hbelow step

/-- Assumes: a bound above the depths of the values. The merger makes a merge of them. -/
theorem merges_mergeWithin {depth : ℕ}
    (hbaseline : DepthBelow depth baseline) (hdesign : DepthBelow depth design)
    (hlive : DepthBelow depth live) :
    Merges M.rules M.resolution path baseline design live
      (M.mergeWithin depth path baseline design live).value
      (M.mergeWithin depth path baseline design live).externalPaths
      (M.mergeWithin depth path baseline design live).conflictPaths := by
  have hnothing : ∀ value : Option Json, Merged.externalPaths ⟨value, [], []⟩ = ∅ ∧
      Merged.conflictPaths ⟨value, [], []⟩ = ∅ := by
    intro value
    simp [Merged.externalPaths, Merged.conflictPaths]
  have hdone : ∀ {path : List PathStep} {baseline design live value : Option Json},
      Merges M.rules M.resolution path baseline design live value ∅ ∅ →
      Merges M.rules M.resolution path baseline design live (Merged.value ⟨value, [], []⟩)
        (Merged.externalPaths ⟨value, [], []⟩) (Merged.conflictPaths ⟨value, [], []⟩) := by
    intro path baseline design live value h
    rw [(hnothing value).1, (hnothing value).2]
    exact h
  have hzero : ∀ {value : Option Json}, DepthBelow 0 value → value = none := by
    intro value hvalue
    cases value with
    | none => rfl
    | some present => exact absurd (hvalue present rfl) (Nat.not_lt_zero _)
  induction depth generalizing path baseline design live with
  | zero =>
    rw [hzero hdesign, hzero hlive]
    exact hdone (.agree (M.rules.refl path none))
  | succ depth ih =>
    have hbelow : ∀ step, Merges M.rules M.resolution (path ++ [step])
        (designDocuments.below baseline step) (designDocuments.below design step)
        (designDocuments.below live step) _ _ _ := fun step ↦
      ih (hbaseline.child step) (hdesign.child step) (hlive.child step)
    have hmissing : ∀ step, designDocuments.below baseline step = none →
        designDocuments.below design step = none → designDocuments.below live step = none →
        M.mergeWithin depth (path ++ [step]) (designDocuments.below baseline step)
          (designDocuments.below design step) (designDocuments.below live step) =
            ⟨none, [], []⟩ := fun step ↦ mergeWithin_of_missing M
    unfold Merger.mergeWithin
    dsimp only
    split
    next hneither =>
      have hd : design = none := by simpa using hneither.1
      have hl : live = none := by simpa using hneither.2
      subst hd hl
      exact hdone (.agree (M.rules.refl path none))
    next hsome =>
    split
    next hsame => exact hdone (.agree hsame)
    next hdiffer =>
    split
    next hone =>
      refine merges_conflict M ⟨hdiffer, .inl ⟨?_, ?_⟩⟩
      · exact Option.isSome_iff_ne_none.mp hone.1
      · simpa using hone.2
    next hnone =>
    have hsides := sides_present hnone
    split
    next hdictionaries =>
      refine merges_dictionary M hdiffer hsides hdictionaries hmissing hbelow fun key ↦ ?_
      rw [mem_extendNew, mem_extendNew, mem_extendNew]
      simp [or_assoc]
    next hplain =>
    split
    next hlists =>
      refine merges_list M hdiffer hsides hlists hmissing hbelow (fun id value hvalue ↦ ?_)
        fun id ↦ ?_
      · exact identifier_mergeWithin M (fun item ↦ identifier_below hlists.1)
          (fun item ↦ identifier_below hlists.2.1) (fun item ↦ identifier_below hlists.2.2)
          ⟨hdesign.child _, hlive.child _⟩ hvalue
      · rw [mem_extendNew, mem_extendNew, mem_extendNew]
        simp [or_left_comm, or_assoc]
    next hflat =>
    have hcomposite : ¬ M.rules.composite baseline design live := not_or.mpr ⟨hplain, hflat⟩
    split
    next hunchanged =>
      have hlivechanged : ¬ M.same path live baseline = true := fun hboth ↦
        hdiffer (M.rules.trans path _ _ _ hunchanged (M.rules.symm path _ _ hboth))
      rw [if_neg hlivechanged]
      have hpaths : Merged.externalPaths ⟨live, [M.externalChange path baseline live], []⟩ = {path} ∧
          Merged.conflictPaths ⟨live, [M.externalChange path baseline live], []⟩ = ∅ := by
        refine ⟨?_, by simp [Merged.conflictPaths]⟩
        ext place
        simp [Merged.externalPaths, Merger.externalChange, eq_comm]
      rw [hpaths.1, hpaths.2]
      exact .takeLive hdiffer hsides hcomposite hunchanged hlivechanged
    next hchanged =>
    split
    next hlivesame => exact hdone (.takeDesign hdiffer hsides hcomposite hchanged hlivesame)
    next hlivechanged =>
      exact merges_conflict M ⟨hdiffer, .inr ⟨hcomposite, hchanged, hlivechanged⟩⟩

theorem merges_merge (path : List PathStep) (baseline design live : Option Json) :
    Merges M.rules M.resolution path baseline design live
      (M.merge path baseline design live).value (M.merge path baseline design live).externalPaths
      (M.merge path baseline design live).conflictPaths := by
  have hdepth : ∀ {value : Option Json} {bound : ℕ}, depthOf value < bound →
      DepthBelow bound value := by
    intro value bound hbound present hpresent
    rw [Option.mem_def.mp hpresent] at hbound
    exact hbound
  exact merges_mergeWithin M (hdepth (by omega)) (hdepth (by omega)) (hdepth (by omega))

/-- A conflict below a path is named by the values at its place, and no resolution was given for
it. -/
def Merger.Names (path : List PathStep) (baseline design live : Option Json) (conflict : Conflict) :
    Prop :=
  ∃ rest, conflict.path = path ++ rest ∧
    conflict.id = M.identifier "mcf" conflict.path [valueOf (designDocuments.get baseline rest),
      valueOf (designDocuments.get design rest), valueOf (designDocuments.get live rest)] ∧
    M.resolutions conflict.id = none

/-- A reported conflict is named by the values at its place, and no resolution was given for it. -/
theorem names_of_mem_conflicts {depth : ℕ} {conflict : Conflict}
    (h : conflict ∈ (M.mergeWithin depth path baseline design live).conflicts) :
    M.Names path baseline design live conflict := by
  induction depth generalizing path baseline design live with
  | zero => exact nomatch h
  | succ depth ih =>
    have hhere : ∀ {category : ConflictCategory},
        conflict ∈ (M.conflict category path baseline design live).conflicts →
        M.Names path baseline design live conflict := by
      intro category hconflict
      unfold Merger.conflict at hconflict
      dsimp only at hconflict
      split at hconflict
      next => exact nomatch hconflict
      next => exact nomatch hconflict
      next hnone =>
        obtain rfl := List.mem_singleton.mp hconflict
        exact ⟨[], (List.append_nil _).symm, rfl, hnone⟩
    have hbelow : ∀ step, conflict ∈ (M.mergeWithin depth (path ++ [step])
        (designDocuments.below baseline step) (designDocuments.below design step)
        (designDocuments.below live step)).conflicts →
        M.Names path baseline design live conflict := by
      intro step hconflict
      obtain ⟨rest, hpath, hid, hnone⟩ := ih hconflict
      exact ⟨step :: rest, by simpa using hpath, hid, hnone⟩
    unfold Merger.mergeWithin at h
    dsimp only at h
    split at h
    next => exact nomatch h
    split at h
    next => exact nomatch h
    split at h
    next => exact hhere h
    split at h
    next =>
      obtain ⟨key, -, hconflict⟩ := List.mem_flatMap.mp h
      exact hbelow _ hconflict
    split at h
    next =>
      obtain ⟨id, -, hconflict⟩ := List.mem_flatMap.mp h
      exact hbelow _ hconflict
    split at h
    next => exact nomatch h
    split at h
    next => exact nomatch h
    next => exact hhere h

end Building

end Schemii.Migrations
