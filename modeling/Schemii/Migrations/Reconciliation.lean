import Schemii.Migrations.Alignment
import Schemii.Migrations.Merge
import Schemii.Migrations.TypeChanges

/-!
# Reconciling a design with PostgreSQL

`reconcile_designs` of `migrations/planner.py`: the live content is the import of the catalog aligned
to the baseline and the design, the three contents are merged, and the merged content is validated.
A combination that is invalid and an import that is incomplete are reported as conflicts of their own.

A catalog is known by its fingerprint and by the design that is imported from it. The texts of
validation errors, the digests of records and the normal forms of check expressions come from
libraries and are fields of `Planner`.
-/

set_option autoImplicit false

namespace Schemii.Migrations

open Foundations Designs

/-- A PostgreSQL catalog, as far as a reconciliation reads it. -/
structure CatalogImport (analysis : SqlAnalysis) where
  fingerprint : String
  imported : ImportedDesign analysis

/-- What the planner uses of libraries. -/
structure Planner (N : Type) where
  analysis : SqlAnalysis
  unicode : Unicode
  /-- The normal form of a check expression over columns with the given types. -/
  normalize : List (String × String) → String → Option N
  /-- `_identifier`. -/
  identifier : String → List Json → String
  /-- The text of the exception that `model_validate` raises. -/
  invalidText : Option Json → String

/-- A resolution that a conflict allows. -/
def allResolutions : List Side := [.live, .design]

/-- `MigrationConflict`. A conflict of the merge is known by its path, the other two stand for the
schema. -/
inductive PlanConflict
  | value (conflict : Conflict)
  | structure (id error : String)
  | coverage (id : String) (warnings : List String)
  deriving Repr

namespace PlanConflict

/-- The identifier of a conflict. -/
def id : PlanConflict → String
  | .value conflict => conflict.id
  | .structure id _ => id
  | .coverage id _ => id

/-- The object path of a conflict. -/
def objectPath : PlanConflict → String
  | .value conflict => conflict.objectPath
  | .structure _ _ => "schema.structure"
  | .coverage _ _ => "schema.coverage"

/-- The text of a conflict. -/
def summary : PlanConflict → String
  | .value conflict => conflict.summary
  | .structure _ error => "The combined schema is invalid: " ++ error
  | .coverage _ _ =>
    "PostgreSQL contains objects the desired-design model cannot preserve losslessly"

/-- `allowed_resolutions`. -/
def allowedResolutions : PlanConflict → List Side
  | .value _ => allResolutions
  | .structure _ _ => [.live]
  | .coverage _ _ => [.live]

end PlanConflict

/-! ### Types of checked columns -/

/-- The last table with an identifier. -/
def tableOfId (tables : List DesignTable) (id : String) : Option DesignTable :=
  tables.reverse.find? fun table ↦ table.id = id

/-- The last column of a name. -/
def columnNamed (table : DesignTable) (name : String) : Option DesignColumn :=
  table.columns.reverse.find? fun column ↦ column.name = name

/-- The columns of a designed table whose type is the live one, with their types. -/
def sharedColumnTypes (U : Unicode) (table live : DesignTable) : List (String × String) :=
  table.columns.filterMap fun column ↦
    match columnNamed live column.name with
    | some other =>
      if (classifyTypeChange U column.dataType other.dataType).disposition = .equivalent then
        some (column.name, column.dataType)
      else none
    | none => none

theorem isDesignObjectId_toString (position : ℕ) : isDesignObjectId (toString position) = false := by
  have hdigit : ∀ c ∈ (toString position).toList, c.isDigit := by
    intro c hc
    rw [Nat.toString_eq_repr, Nat.repr_eq_ofList_toDigits, String.toList_ofList] at hc
    exact Nat.isDigit_of_mem_toDigits (by decide) (by decide) hc
  have hletters : ((toString position).toList.takeWhile fun c ↦ 'a' ≤ c ∧ c ≤ 'z') = [] := by
    cases hlist : (toString position).toList with
    | nil => rfl
    | cons c rest =>
      have hc := hdigit c (hlist ▸ List.mem_cons_self)
      rw [List.takeWhile_cons_of_neg]
      simp only [Char.isDigit, Bool.and_eq_true, decide_eq_true_eq, not_and] at hc ⊢
      intro hlower
      have hbounds : 97 ≤ c.toNat ∧ c.toNat ≤ 57 := ⟨hlower, hc.2⟩
      omega
  unfold isDesignObjectId
  rw [hletters]
  rfl

/-- `check_column_types`: the check expressions of a table that both designs have are compared with
the types of the columns they share. -/
def Planner.checkColumnTypes {N : Type} (P : Planner N) (desired live : SchemiiDesignContent) :
    CheckRules N where
  normalizer := fun id ↦
    if isDesignObjectId id then
      (tableOfId (desired.tables.filter fun table ↦
        (tableOfId live.tables table.id).isSome) id).bind fun table ↦
          (tableOfId live.tables id).map fun other ↦
            P.normalize (sharedColumnTypes P.unicode table other)
    else none
  numeral := fun position ↦ by rw [isDesignObjectId_toString position]; rfl

/-! ### Reconciliation -/

/-- `ReconciliationResult`. -/
structure ReconciliationResult where
  merged : Option SchemiiDesignContent
  live : SchemiiDesignContent
  externalChanges : List ExternalChange
  conflicts : List PlanConflict
  warnings : List String
  importComplete : Bool

variable {N : Type} [DecidableEq N]

/-- The merger of a reconciliation. -/
def Planner.merger (P : Planner N) (desired live : SchemiiDesignContent)
    (resolutions : String → Option Side) : Merger N where
  checkColumnTypes := P.checkColumnTypes desired live
  identifier := fun label path values ↦ P.identifier label (.string (pathText path) :: values)
  resolutions := resolutions

/-- The merge of three contents. -/
def Planner.mergeContents (P : Planner N) (baseline desired live : SchemiiDesignContent)
    (resolutions : String → Option Side) : Merged :=
  (P.merger desired live resolutions).merge [] (some baseline.modelDump) (some desired.modelDump)
    (some live.modelDump)

/-- The merged document as a content, and the error that makes it invalid. A content that is read but
not valid is there as well. -/
def Planner.validateMerged (P : Planner N) (document : Option Json) :
    Option SchemiiDesignContent × Option String :=
  match document.bind (SchemiiDesignContent.modelValidate P.analysis) with
  | none => (none, some (P.invalidText document))
  | some content =>
    match validateDesignContent P.analysis content with
    | .error error => (some content, some error.message)
    | .ok _ => (some content, none)

/-- `reconcile_designs`. There is no result when the aligned live content is refused. -/
def Planner.reconcileDesigns (P : Planner N) (baseline desired : SchemiiDesignContent)
    (catalog : CatalogImport P.analysis) (resolutions : String → Option Side) :
    Option ReconciliationResult :=
  (alignedContent P.analysis catalog.imported.content [baseline, desired]).map fun live ↦
    let merging := P.mergeContents baseline desired live resolutions
    let merged := P.validateMerged merging.value
    let invalid := merged.2.toList.map fun error ↦ PlanConflict.structure
      (P.identifier "mcf" [.string "schema.structure", .string error]) error
    let incomplete := if catalog.imported.complete then [] else [PlanConflict.coverage
      (P.identifier "mcf" [.string "schema.coverage", .string catalog.fingerprint])
      catalog.imported.warnings]
    { merged := merged.1
      live := live
      externalChanges := merging.external
      conflicts := merging.conflicts.map .value ++ invalid ++ incomplete
      warnings := catalog.imported.warnings
      importComplete := catalog.imported.complete }

end Schemii.Migrations
