import Schemii.Designs.SavedRevisions
import Schemii.Migrations.Execution
import Schemii.Migrations.Layouts
import Schemii.Migrations.MergeSafety
import Schemii.Migrations.Reconciliation

/-!
# Resolving drift, and reviewing again

`resolve_drift` of `migrations/service.py`: a blocked review is resolved conflict by conflict, the
designs are reconciled again with the resolutions, the result is saved as the design, and the live
content becomes the baseline. A review after that reconciles the saved design with the same catalog.

* `reported_again_iff`: a conflict of the merge is reported again exactly when the design was kept,
  the design misses the value, and PostgreSQL has it.
* `resolved_conflicts_stay_resolved_iff`: none of the resolved conflicts is reported again exactly
  when the import of the catalog is complete and no such removal was kept.
-/

set_option autoImplicit false

namespace Schemii.Migrations

open Foundations Common Designs DesignRepository

/-! ### The service -/

/-- The rules of the design store for typed contents. -/
structure DesignRules (analysis : SqlAnalysis) extends ContentRules SchemiiDesignContent where
  validates : ∀ content, validateDesignContent content = none ↔
    Designs.validateDesignContent analysis content = .ok ()

/-- `MigrationDriftResolutionRequest`. Each conflict is resolved once. -/
structure MigrationDriftResolutionRequest where
  expectedDesignRevision : ℕ
  reviewDigest : String
  resolutions : List (String × Side)
  unique : (resolutions.map Prod.fst).Nodup

/-- The resolution submitted for a conflict. -/
def MigrationDriftResolutionRequest.submitted (request : MigrationDriftResolutionRequest)
    (id : String) : Option Side :=
  request.resolutions.lookup id

variable {N : Type} [DecidableEq N]

/-- A stored review: its record, the contents it was made of, and the reconciliation that `create_plan`
made of them without resolutions. -/
structure DriftReview (P : Planner N) where
  record : PlanRecord SchemiiDesignContent (CatalogImport P.analysis)
  baselineContent : SchemiiDesignContent
  desiredContent : SchemiiDesignContent
  reconciliation : ReconciliationResult
  reviewed : P.reconcileDesigns baselineContent desiredContent record.authority.liveCatalog
    (fun _ ↦ none) = some reconciliation

namespace DriftReview

variable {P : Planner N} (review : DriftReview P)

/-- The conflicts of the review. -/
def conflicts : List PlanConflict := review.reconciliation.conflicts

/-- The catalog of the review. -/
def catalog : CatalogImport P.analysis := review.record.authority.liveCatalog

/-- The owner and the workspace of the review. -/
def key : Key := (review.record.ownerId, review.record.plan.workspaceId)

/-- The conflict of an identifier. -/
def conflictById (id : String) : Option PlanConflict :=
  review.conflicts.reverse.find? fun conflict ↦ conflict.id = id

end DriftReview

/-- What the service reads while it resolves drift: the clock, the workspace, the connection and the
catalog. -/
structure DriftServices (P : Planner N) where
  now : ℕ
  workspace : Except Failure WorkspaceTarget
  connection : Except Failure Connection
  introspect : Except Failure (CatalogImport P.analysis)

/-- A refusal of the service unless something holds. -/
def ensure (holds : Bool) (status : ℕ) (code message : String) (details : List (String × Json)) :
    Except Failure Unit :=
  if holds then .ok () else .error (.service status code message details false)

/-- What the service makes of the failures of a connection. -/
def inspectionFailure : Failure → Failure
  | .connectionNotFound message => .service 404 "connection_not_found" message [] false
  | failure =>
    if failure.isGatewayError then
      .service 502 "postgres_inspection_failed" failure.message [] true
    else failure

/-- A text of a side. -/
def resolutionText : Side → String
  | .live => "pull_live"
  | .design => "keep_design"

/-- The identifiers of conflicts in error details. -/
def conflictIds (ids : List String) : Json :=
  .array ((ids.dedup.mergeSort fun first second ↦ first ≤ second).map .string)

/-- A text of a kind. -/
def ObjectKind.text : ObjectKind → String
  | .schema => "schema"
  | .type => "type"
  | .table => "table"
  | .column => "column"
  | .constraint => "constraint"
  | .index => "index"
  | .relationship => "relationship"
  | .function => "function"
  | .view => "view"
  | .trigger => "trigger"

/-- A conflict in error details. -/
def PlanConflict.toJson (conflict : PlanConflict) : Json :=
  let described : String × ObjectKind × Json × Json × Json := match conflict with
    | .value record =>
      (match record.category with
        | .direct => "direct"
        | .structural => "structural",
        record.objectKind, valueOf record.baseline, valueOf record.design, valueOf record.live)
    | .structure _ _ => ("structural", .schema, .null, .null, .null)
    | .coverage _ warnings => ("opaque", .schema, .null, .null, .array (warnings.map .string))
  .object [("id", .string conflict.id), ("category", .string described.1),
    ("objectKind", .string described.2.1.text), ("objectPath", .string conflict.objectPath),
    ("summary", .string conflict.summary), ("baselineValue", described.2.2.1),
    ("designValue", described.2.2.2.1), ("liveValue", described.2.2.2.2),
    ("affectedObjects", .array []),
    ("allowedResolutions", .array (conflict.allowedResolutions.map fun resolution ↦
      .string (resolutionText resolution)))]

/-- The checks of a review and a request before anything is read. -/
def checkDriftRequest {P : Planner N} (now : ℕ) (review : DriftReview P)
    (request : MigrationDriftResolutionRequest) : Except Failure Unit := do
  let plan := review.record.plan
  let required := review.conflicts.map PlanConflict.id
  let submitted := request.resolutions.map Prod.fst
  ensure (plan.status = .blocked && !review.conflicts.isEmpty) 409 "drift_plan_not_resolvable"
    "This migration plan is not awaiting drift resolution" []
  ensure (now < plan.expiresAt) 409 "migration_plan_expired" "Refresh the migration review" []
  ensure (request.reviewDigest = plan.reviewDigest) 409 "migration_review_changed"
    "Migration review digest does not match" []
  ensure (request.expectedDesignRevision = plan.designRevision) 409 "design_changed"
    "The requested design revision does not match the drift review"
    [("reviewedDesignRevision", .number plan.designRevision)]
  ensure (submitted.all (· ∈ required) && required.all (· ∈ submitted)) 422
    "incomplete_drift_resolutions"
    "Every server-generated conflict must be resolved exactly once"
    [("requiredConflictIds", conflictIds required),
      ("submittedConflictIds", conflictIds submitted)]
  request.resolutions.forM fun (id, resolution) ↦
    ensure ((review.conflictById id).any fun conflict ↦ resolution ∈ conflict.allowedResolutions)
      422 "drift_resolution_not_allowed"
      "The selected resolution is not valid for this conflict"
      [("conflictId", .string id), ("resolution", .string (resolutionText resolution))]

/-- The catalog that a resolution reads again, with the checks of its target. -/
def readCatalogAgain {P : Planner N} (services : DriftServices P) (review : DriftReview P) :
    Except Failure (CatalogImport P.analysis) := do
  let authority := review.record.authority
  let ownerId := review.record.ownerId
  let reviewedOwner := authority.connectionOwnerId.getD ownerId
  let workspace ← services.workspace
  ensure (workspace.connectionId = some authority.connectionId &&
      workspace.connectionOwnerId.getD ownerId = reviewedOwner &&
      workspace.database = some authority.database &&
      workspace.targetNamespace = some authority.targetNamespace)
    409 "workspace_target_changed" "Workspace target changed after review" []
  let connection ← services.connection.mapError inspectionFailure
  ensure (connection.revision = authority.connectionRevision &&
      connection.ownerId.getD ownerId = reviewedOwner)
    409 "connection_changed" "Connection changed after review" []
  let current ← services.introspect.mapError inspectionFailure
  ensure (current.fingerprint = review.catalog.fingerprint) 409 "catalog_changed"
    "PostgreSQL changed again after the drift review; refresh before resolving"
    [("currentCatalogFingerprint", .string current.fingerprint)]
  return current

/-- The resolved content and the live one: the designs are reconciled with the resolutions, and every
conflict that is left was resolved too. -/
def Planner.resolvedContents (P : Planner N) (review : DriftReview P)
    (request : MigrationDriftResolutionRequest) (catalog : CatalogImport P.analysis) :
    Except Failure (SchemiiDesignContent × SchemiiDesignContent) :=
  match P.reconcileDesigns review.baselineContent review.desiredContent catalog
      request.submitted with
  | none => .error .other
  | some reconciliation =>
    let unresolved := reconciliation.conflicts.filter fun conflict ↦
      (request.submitted conflict.id).isNone
    match unresolved, reconciliation.merged with
    | [], some merged => .ok (merged, reconciliation.live)
    | _, _ => .error (.service 409 "drift_resolution_incomplete"
        "The selected changes do not produce a valid lossless design"
        [("conflicts", .array (unresolved.map PlanConflict.toJson))] false)

/-- What the service makes of the failures of `reconcile_drift`. -/
def driftFailure : Failure → Failure
  | .designConflict revision => .service 409 "design_changed"
      "The workspace design changed during reconciliation"
      [("currentDesignRevision", .number revision)] false
  | failure => serviceFailure failure

/-- `resolve_drift`. -/
def Planner.resolveDrift (P : Planner N) (rules : DesignRules P.analysis) (limit : ℕ)
    (services : DriftServices P)
    (repository : MigrationRepository SchemiiDesignContent (CatalogImport P.analysis))
    (designs : DesignRepository SchemiiDesignContent) (baselineId : String)
    (review : DriftReview P) (request : MigrationDriftResolutionRequest) :
    Except Failure (Design SchemiiDesignContent ×
        BaselineRecord SchemiiDesignContent (CatalogImport P.analysis)) ×
      MigrationRepository SchemiiDesignContent (CatalogImport P.analysis) ×
      DesignRepository SchemiiDesignContent :=
  let contents := do
    checkDriftRequest services.now review request
    let catalog ← readCatalogAgain services review
    P.resolvedContents review request catalog
  match contents with
  | .error failure => (.error failure, repository, designs)
  | .ok (merged, live) =>
    let outcome := repository.reconcileDrift rules.toContentRules limit designs baselineId
      review.record request.expectedDesignRevision merged live
    (outcome.1.mapError driftFailure, outcome.2)

/-- The conflicts of the plan that `create_plan` makes for a workspace: the current design is
reconciled with the current baseline and a catalog. -/
def Planner.planConflicts (P : Planner N) (rules : DesignRules P.analysis)
    (repository : MigrationRepository SchemiiDesignContent (CatalogImport P.analysis))
    (designs : DesignRepository SchemiiDesignContent) (key : Key)
    (catalog : CatalogImport P.analysis) : Option (List PlanConflict) :=
  (repository.currentBaseline key).bind fun baseline ↦
    (P.reconcileDesigns baseline.content
      (currentDesign rules.toContentRules (designs.workspaces key)).content catalog
      (fun _ ↦ none)).map ReconciliationResult.conflicts

/-- What a conflict is about: a place in the design, the combined design, or the coverage of the
import. -/
inductive ConflictPlace
  | value (path : List PathStep)
  | combination
  | coverage
  deriving DecidableEq, Repr

/-- The place of a conflict. -/
def PlanConflict.place : PlanConflict → ConflictPlace
  | .value conflict => .value conflict.path
  | .structure _ _ => .combination
  | .coverage _ _ => .coverage

/-! ### What a resolution does -/

theorem ensure_eq_ok {holds : Bool} {status : ℕ} {code message : String}
    {details : List (String × Json)} {done : Unit}
    (h : ensure holds status code message details = .ok done) : holds = true := by
  unfold ensure at h
  split_ifs at h with hholds
  exact hholds

theorem bind_eq_ok_iff {E α β : Type} {first : Except E α} {next : α → Except E β} {result : β} :
    first.bind next = .ok result ↔ ∃ value, first = .ok value ∧ next value = .ok result := by
  cases first with
  | error error => simp [Except.bind]
  | ok value => simp [Except.bind]

theorem mapError_eq_ok {E F α : Type} {translate : E → F} {outcome : Except E α} {value : α}
    (h : outcome.mapError translate = .ok value) : outcome = .ok value := by
  cases outcome with
  | error error => exact nomatch h
  | ok found => exact congrArg _ (Except.ok.inj h)

/-- Assumes: the catalog is read again. It is the one at hand, with the reviewed fingerprint. -/
theorem readCatalogAgain_eq_ok {P : Planner N} {services : DriftServices P} {review : DriftReview P}
    {current : CatalogImport P.analysis} (h : readCatalogAgain services review = .ok current) :
    services.introspect = .ok current ∧ current.fingerprint = review.catalog.fingerprint := by
  obtain ⟨workspace, -, h⟩ := bind_eq_ok_iff.mp h
  obtain ⟨_, -, h⟩ := bind_eq_ok_iff.mp h
  obtain ⟨connection, -, h⟩ := bind_eq_ok_iff.mp h
  obtain ⟨_, -, h⟩ := bind_eq_ok_iff.mp h
  obtain ⟨found, hfound, h⟩ := bind_eq_ok_iff.mp h
  obtain ⟨_, hsame, h⟩ := bind_eq_ok_iff.mp h
  obtain rfl := Except.ok.inj h
  exact ⟨mapError_eq_ok hfound, by simpa using ensure_eq_ok hsame⟩

/-- Assumes: the designs are reconciled with the resolutions. Every conflict that is left was
resolved. -/
theorem resolvedContents_eq_ok {P : Planner N} {review : DriftReview P}
    {request : MigrationDriftResolutionRequest} {catalog : CatalogImport P.analysis}
    {merged live : SchemiiDesignContent}
    (h : P.resolvedContents review request catalog = .ok (merged, live)) :
    ∃ result, P.reconcileDesigns review.baselineContent review.desiredContent catalog
        request.submitted = some result ∧
      (∀ conflict ∈ result.conflicts, request.submitted conflict.id ≠ none) ∧
      result.merged = some merged ∧ result.live = live := by
  unfold Planner.resolvedContents at h
  split at h
  next => exact nomatch h
  next result hresult =>
    dsimp only at h
    split at h
    next found hunresolved hmerged =>
      obtain ⟨rfl, rfl⟩ := Prod.mk.inj (Except.ok.inj h)
      refine ⟨result, hresult, fun conflict hconflict hnone ↦ ?_, hmerged, rfl⟩
      have hfiltered := List.filter_eq_nil_iff.mp hunresolved conflict hconflict
      simp [hnone] at hfiltered
    next => exact nomatch h

/-- Assumes: drift is resolved. The resolved content is saved as the design and is valid, and the live
content is the current baseline. -/
theorem reconcileDrift_ok {K : Type} {rules : ContentRules SchemiiDesignContent} {limit : ℕ}
    {repository repositoryAfter : MigrationRepository SchemiiDesignContent K}
    {designs designsAfter : DesignRepository SchemiiDesignContent} {baselineId : String}
    {record : PlanRecord SchemiiDesignContent K} {revision : ℕ}
    {merged live : SchemiiDesignContent} {design : Design SchemiiDesignContent}
    {baseline : BaselineRecord SchemiiDesignContent K}
    (h : repository.reconcileDrift rules limit designs baselineId record revision merged live =
      (.ok (design, baseline), repositoryAfter, designsAfter)) :
    rules.validateDesignContent merged = none ∧
      (currentDesign rules (designsAfter.workspaces
        (record.ownerId, record.plan.workspaceId))).content = merged ∧
      ∃ current, repositoryAfter.currentBaseline (record.ownerId, record.plan.workspaceId) =
        some current ∧ current.content = live := by
  unfold MigrationRepository.reconcileDrift at h
  dsimp only at h
  split_ifs at h
  · exact nomatch (Prod.mk.inj h).1
  split at h
  next => exact nomatch (Prod.mk.inj h).1
  next saved replaced hsaved =>
    obtain ⟨hvalid, hcontent, hcurrent⟩ := replace_checkpoint_content hsaved
    split at h
    next => exact nomatch (Prod.mk.inj h).1
    next created appended hcreated =>
      obtain ⟨-, hafter⟩ := Prod.mk.inj h
      obtain ⟨rfl, rfl⟩ := Prod.mk.inj hafter
      refine ⟨hvalid, by rw [hcurrent, hcontent], ?_⟩
      unfold MigrationRepository.createBaseline at hcreated
      dsimp only at hcreated
      split_ifs at hcreated
      · exact nomatch (Prod.mk.inj hcreated).1
      obtain ⟨-, rfl⟩ := Prod.mk.inj hcreated
      have hlast : ∀ (rows : List (BaselineRecord SchemiiDesignContent K)) record,
          (rows ++ [record]).getLast? = some record := fun rows record ↦ List.getLast?_concat
      unfold MigrationRepository.currentBaseline MigrationRepository.baselines
      rw [AList.lookup_insert]
      exact ⟨_, hlast _ _, rfl⟩

/-! ### Which conflicts are reported again -/

section Again

variable {P : Planner N}

theorem merges_mergeContents (baseline desired live : SchemiiDesignContent) :
    Merges (P.merger desired live fun _ ↦ none).rules (fun _ _ _ _ ↦ none) []
      (some baseline.modelDump) (some desired.modelDump) (some live.modelDump)
      (P.mergeContents baseline desired live fun _ ↦ none).value
      (P.mergeContents baseline desired live fun _ ↦ none).externalPaths
      (P.mergeContents baseline desired live fun _ ↦ none).conflictPaths :=
  merges_merge (P.merger desired live fun _ ↦ none) [] (some baseline.modelDump)
    (some desired.modelDump) (some live.modelDump)

omit [DecidableEq N] in
/-- What a content has at a path is there in the content that a document with it is read as. -/
theorem get_of_reads {document : Json} {content : SchemiiDesignContent} {path : List PathStep}
    {layout : Layout}
    (hreads : SchemiiDesignContent.modelValidate P.analysis document = some content)
    (hlayout : contentLayout.at? path = some layout)
    (hpresent : valueAt document path ≠ none) : valueAt content.modelDump path ≠ none := by
  obtain ⟨found, hfound⟩ := Option.ne_none_iff_exists'.mp hpresent
  obtain ⟨other, hother, -⟩ := (reads_modelValidate hreads).get hlayout hfound
  exact fun hnone ↦ nomatch hnone.symm.trans hother

theorem layout_of_valueAt {content : SchemiiDesignContent} {path : List PathStep}
    (h : valueAt content.modelDump path ≠ none) : ∃ layout found,
      contentLayout.at? path = some layout ∧ valueAt content.modelDump path = some found ∧
        Fits layout found := by
  obtain ⟨found, hfound⟩ := Option.ne_none_iff_exists'.mp h
  obtain ⟨layout, hlayout, hfits⟩ := (fits_modelDump content).get hfound
  exact ⟨layout, found, hlayout, hfound, hfits⟩

/-- Assumes: a content that two contents have a value of at a path, with something below it in one of
them. The two values are both dictionaries or both lists of identified objects. -/
theorem sharedContainer_of_valueAt {first second : SchemiiDesignContent} {above : List PathStep}
    {step : PathStep} (hfirst : valueAt first.modelDump above ≠ none)
    (hbelow : valueAt second.modelDump (above ++ [step]) ≠ none) :
    SharedContainer (valueAt second.modelDump above) (valueAt first.modelDump above)
      (valueAt second.modelDump above) := by
  have hstep : valueAt second.modelDump (above ++ [step]) =
      designDocuments.below (valueAt second.modelDump above) step := by
    unfold valueAt
    rw [Documents.get_append]
    rfl
  have hsecond : valueAt second.modelDump above ≠ none := by
    intro hnone
    rw [hstep, hnone] at hbelow
    exact hbelow rfl
  obtain ⟨layout, one, hlayout, hone, hfits⟩ := layout_of_valueAt hfirst
  obtain ⟨other, two, hother, htwo, hfitsTwo⟩ := layout_of_valueAt hsecond
  obtain rfl := Option.some.inj (hlayout.symm.trans hother)
  have hinner : layout ≠ .leaf := by
    rintro rfl
    cases hfitsTwo with
    | leaf hnone =>
      rw [hstep, htwo] at hbelow
      exact hbelow (hnone step)
  refine ⟨hsecond, hfirst, hsecond, ?_⟩
  rw [hone, htwo]
  rcases hfits.composite hinner with ⟨hdictionary, fields, hrecord⟩ | ⟨hlist, item, hitems⟩
  · rcases hfitsTwo.composite hinner with ⟨hother, -⟩ | ⟨-, item, hitems⟩
    · exact .inl ⟨hother, hdictionary, hother⟩
    · exact nomatch hrecord.symm.trans hitems
  · rcases hfitsTwo.composite hinner with ⟨-, fields, hrecord⟩ | ⟨hother, -⟩
    · exact nomatch hrecord.symm.trans hitems
    · exact .inr ⟨hother, hlist, hother⟩

theorem valueAt_of_prefix {document : Json} {path above : List PathStep}
    (h : valueAt document path ≠ none) (habove : above <+: path) : valueAt document above ≠ none := by
  obtain ⟨rest, rfl⟩ := habove
  intro hnone
  unfold valueAt at h hnone
  rw [Documents.get_append, hnone, Documents.get_none] at h
  exact h rfl

omit [DecidableEq N] in
/-- Assumes: a path that the design misses and the live content has, and a document that has every
value above it and not the value. It is missing in the content that the document is read as. -/
theorem missing_of_reads {document : Json} {desired live content : SchemiiDesignContent}
    {path : List PathStep}
    (hreads : SchemiiDesignContent.modelValidate P.analysis document = some content)
    (hdesired : valueAt desired.modelDump path = none) (hlive : valueAt live.modelDump path ≠ none)
    (habsent : valueAt document path = none)
    (hpresent : ∀ above, above <+: path → above ≠ path → valueAt document above ≠ none)
    (hshared : ∀ above, above <+: path → above ≠ path → valueAt desired.modelDump above ≠ none) :
    valueAt content.modelDump path = none := by
  obtain rfl | ⟨above, step, rfl⟩ := List.eq_nil_or_concat path
  · exact nomatch hdesired
  rw [List.concat_eq_append] at *
  have hinitial : above <+: above ++ [step] := List.prefix_append _ _
  have hproper : above ≠ above ++ [step] := by simp
  have hstep : ∀ value : Json, valueAt value (above ++ [step]) =
      designDocuments.below (valueAt value above) step := by
    intro value
    unfold valueAt
    rw [Documents.get_append]
    rfl
  rw [hstep] at hdesired hlive habsent ⊢
  obtain ⟨layout, one, hlayout, hone, hfits⟩ := layout_of_valueAt (hshared above hinitial hproper)
  have hliveAbove : valueAt live.modelDump above ≠ none := by
    intro hnone
    rw [hnone] at hlive
    exact hlive rfl
  obtain ⟨other, two, hother, htwo, hfitsTwo⟩ := layout_of_valueAt hliveAbove
  obtain rfl := Option.some.inj (hlayout.symm.trans hother)
  rw [hone] at hdesired
  rw [htwo] at hlive
  -- The designs have the same records, so the place is in a list.
  obtain ⟨item, rfl⟩ := hfits.items_of_missing hfitsTwo hdesired hlive
  obtain ⟨found, hfound⟩ := Option.ne_none_iff_exists'.mp (hpresent above hinitial hproper)
  obtain ⟨read, hread, hreadsAbove⟩ := (reads_modelValidate hreads).get hlayout hfound
  have hreadAt : valueAt content.modelDump above = some read := hread
  rw [hfound] at habsent
  rw [hreadAt]
  cases step with
  | field name =>
    cases hreadsAbove with
    | items => rfl
  | item id =>
    by_contra hthere
    exact (hreadsAbove.items_iff id).mpr hthere habsent

variable {baseline desired live resolved : SchemiiDesignContent}
  {resolutions : String → Option Side} {conflict : Conflict}

/-- Assumes: a conflict of a review. The merger arrives at its path, the values there clash, and they
give it its name. -/
theorem conflict_of_review
    (h : conflict ∈ (P.mergeContents baseline desired live fun _ ↦ none).conflicts) :
    (P.merger desired live resolutions).rules.Arrives [] (some baseline.modelDump)
        (some desired.modelDump) (some live.modelDump) conflict.path ∧
      (P.merger desired live resolutions).rules.Clashes conflict.path
        (valueAt baseline.modelDump conflict.path) (valueAt desired.modelDump conflict.path)
        (valueAt live.modelDump conflict.path) ∧
      (P.merger desired live resolutions).resolution conflict.path
        (valueAt baseline.modelDump conflict.path) (valueAt desired.modelDump conflict.path)
        (valueAt live.modelDump conflict.path) = resolutions conflict.id := by
  obtain ⟨rest, hpath, hid, -⟩ := names_of_mem_conflicts _ h
  obtain rfl : conflict.path = rest := hpath
  obtain ⟨harrives, hclash⟩ := ((merges_mergeContents baseline desired live).conflict_iff
    conflict.path).mp ⟨conflict, h, rfl⟩
  refine ⟨harrives, hclash, ?_⟩
  rw [hid]
  rfl

/-- Assumes: a conflict of a review whose design value is missing. The baseline has the value. -/
theorem baseline_of_missing
    (h : conflict ∈ (P.mergeContents baseline desired live fun _ ↦ none).conflicts)
    (hmissing : valueAt desired.modelDump conflict.path = none) :
    valueAt baseline.modelDump conflict.path ≠ none := by
  obtain ⟨-, ⟨-, ⟨hpresent, -⟩ | ⟨-, hchanged, -⟩⟩, -⟩ :=
    @conflict_of_review N _ P baseline desired live (fun _ ↦ none) conflict h
  · exact hpresent
  · intro hnone
    rw [hmissing, hnone] at hchanged
    exact hchanged ((P.merger desired live fun _ ↦ none).rules.refl _ _)

/-- Assumes: every conflict was resolved, and the merged document is read as a content. A conflict of
the review is one of the next review exactly when the design was kept, the design misses the value,
and the live content has it. -/
theorem reported_again_iff (hmerged : (P.mergeContents baseline desired live resolutions).value.bind
      (SchemiiDesignContent.modelValidate P.analysis) = some resolved)
    (hall : (P.mergeContents baseline desired live resolutions).conflicts = [])
    (h : conflict ∈ (P.mergeContents baseline desired live fun _ ↦ none).conflicts) :
    conflict.path ∈ (P.mergeContents live resolved live fun _ ↦ none).conflictPaths ↔
      resolutions conflict.id = some .design ∧
        valueAt desired.modelDump conflict.path = none ∧
        valueAt live.modelDump conflict.path ≠ none := by
  obtain ⟨harrives, hclash, hid⟩ := conflict_of_review h
  obtain ⟨document, hdocument, hreads⟩ := Option.bind_eq_some_iff.mp hmerged
  have hmerges := merges_merge (P.merger desired live resolutions) [] (some baseline.modelDump)
    (some desired.modelDump) (some live.modelDump)
  have hnone : ((P.merger desired live resolutions).merge [] (some baseline.modelDump)
      (some desired.modelDump) (some live.modelDump)).conflictPaths = ∅ := by
    have hempty := hall
    unfold Planner.mergeContents at hempty
    simp [Merged.conflictPaths, hempty]
  obtain ⟨side, hside, hpick⟩ := hmerges.resolved hnone harrives hclash
  replace hside : resolutions conflict.id = some side := hid.symm.trans hside
  have hat : valueAt document conflict.path =
      side.pick (valueAt desired.modelDump conflict.path)
        (valueAt live.modelDump conflict.path) := by
    unfold valueAt
    rw [← hdocument]
    exact hpick
  have hagain := (merges_mergeContents (P := P) live resolved live).conflict_iff_missing
    conflict.path
  rw [List.nil_append] at hagain
  rw [hagain, hside]
  constructor
  · rintro ⟨-, hmissing, hlive⟩
    obtain ⟨layout, -, hlayout, -⟩ := layout_of_valueAt hlive
    -- What was picked is missing too, so it is the design's value.
    have hpicked : side.pick (valueAt desired.modelDump conflict.path)
        (valueAt live.modelDump conflict.path) = none := by
      by_contra hpresent
      exact get_of_reads hreads hlayout (hat ▸ hpresent) hmissing
    cases side with
    | design => exact ⟨rfl, hpicked, hlive⟩
    | live => exact absurd hpicked hlive
  · rintro ⟨hdesign, hmissing, hlive⟩
    obtain rfl := Option.some.inj hdesign
    have hshared := (shared_iff _ _ _ _ _).mp (harrives.shared (baseline_of_missing h hmissing))
    have hpresent : ∀ above, above <+: conflict.path → above ≠ conflict.path →
        valueAt document above ≠ none := by
      intro above habove hproper
      have hpart := hmerges.present_above harrives habove hproper
      unfold valueAt
      rw [← hdocument]
      exact hpart
    have hresolved : ∀ above, above <+: conflict.path → above ≠ conflict.path →
        valueAt resolved.modelDump above ≠ none := by
      intro above habove hproper
      obtain ⟨layout, -, hlayout, -⟩ := layout_of_valueAt (hshared above habove hproper).2.2.1
      exact get_of_reads hreads hlayout (hpresent above habove hproper)
    have hgone : valueAt resolved.modelDump conflict.path = none :=
      missing_of_reads hreads hmissing hlive (hat.trans hmissing) hpresent
        fun above habove hproper ↦ (hshared above habove hproper).2.1
    have hdiffer : (valueAt resolved.modelDump conflict.path).isSome ≠
        (valueAt live.modelDump conflict.path).isSome := by
      rw [hgone, Option.isSome_iff_ne_none.mpr hlive]
      exact Bool.false_ne_true
    refine ⟨MergeRules.Shared.arrives ((shared_iff _ _ _ _ _).mpr ?_) hdiffer, hgone, hlive⟩
    rintro above ⟨tail, htail⟩ hproper
    obtain ⟨step, rest, rfl⟩ : ∃ step rest, tail = step :: rest := by
      refine List.exists_cons_of_ne_nil ?_
      rintro rfl
      exact hproper (by simpa using htail)
    have hbelow : valueAt live.modelDump (above ++ [step]) ≠ none :=
      valueAt_of_prefix hlive ⟨rest, by simpa using htail⟩
    exact sharedContainer_of_valueAt (hresolved above ⟨_, htail⟩ hproper) hbelow

/-- The conflict of an incomplete import. -/
def Planner.coverageConflicts (P : Planner N) (catalog : CatalogImport P.analysis) :
    List PlanConflict :=
  if catalog.imported.complete then [] else [PlanConflict.coverage
    (P.identifier "mcf" [.string "schema.coverage", .string catalog.fingerprint])
    catalog.imported.warnings]

theorem reconcileDesigns_eq_some {catalog : CatalogImport P.analysis} {result : ReconciliationResult}
    (h : P.reconcileDesigns baseline desired catalog resolutions = some result) :
    alignedContent P.analysis catalog.imported.content [baseline, desired] = some result.live ∧
      result.merged = (P.validateMerged
        (P.mergeContents baseline desired result.live resolutions).value).1 ∧
      ∃ invalid : List PlanConflict,
        (∀ conflict ∈ invalid, conflict.place = .combination) ∧
        ((P.validateMerged (P.mergeContents baseline desired result.live resolutions).value).2 =
          none → invalid = []) ∧
        result.conflicts = (P.mergeContents baseline desired result.live
          resolutions).conflicts.map .value ++ invalid ++ P.coverageConflicts catalog := by
  obtain ⟨live, hlive, rfl⟩ := Option.map_eq_some_iff.mp h
  refine ⟨hlive, rfl, _, ?_, ?_, rfl⟩
  · intro conflict hconflict
    obtain ⟨error, -, rfl⟩ := List.mem_map.mp hconflict
    rfl
  · intro hvalid
    rw [hvalid]
    rfl

/-- Assumes: a valid content that a document was read as. Merged with the live content as the
baseline, it is itself, and valid. -/
theorem validateMerged_again {document : Json}
    (hreads : SchemiiDesignContent.modelValidate P.analysis document = some resolved)
    (hvalid : Designs.validateDesignContent P.analysis resolved = .ok ()) :
    P.validateMerged (P.mergeContents live resolved live fun _ ↦ none).value =
      (some resolved, none) := by
  have hdepth : DepthBelow (depthOf (some live.modelDump) + depthOf (some resolved.modelDump) +
      depthOf (some live.modelDump) + 1) (some resolved.modelDump) := by
    intro value hvalue
    obtain rfl := Option.some.inj hvalue
    change depthOf (some resolved.modelDump) < _
    omega
  have hvalue : (P.mergeContents live resolved live fun _ ↦ none).value =
      some resolved.modelDump :=
    mergeWithin_of_same_live (fun _ ↦ rfl)
      (fun value hvalue ↦ Option.some.inj hvalue ▸ fits_modelDump resolved)
      (fun value hvalue ↦ Option.some.inj hvalue ▸ fits_modelDump live)
      (distinctItems_modelDump (validateDesignContent_spec hvalid)) hdepth
  unfold Planner.validateMerged
  rw [hvalue, Option.bind_some, SchemiiDesignContent.modelValidate_again hreads]
  dsimp only
  rw [hvalid]

omit [DecidableEq N] in
theorem reads_of_validateMerged {document : Option Json}
    (h : (P.validateMerged document).1 = some resolved) :
    document.bind (SchemiiDesignContent.modelValidate P.analysis) = some resolved := by
  unfold Planner.validateMerged at h
  split at h
  next => exact nomatch h
  next content hcontent =>
    rw [hcontent]
    split at h
    next => exact h
    next => exact h

/-- Assumes: designs reconciled with resolutions, with every conflict resolved. The merge reported
nothing. -/
theorem no_conflicts_of_resolved {catalog : CatalogImport P.analysis} {result : ReconciliationResult}
    (h : P.reconcileDesigns baseline desired catalog resolutions = some result)
    (hresolved : ∀ conflict ∈ result.conflicts, resolutions conflict.id ≠ none) :
    (P.mergeContents baseline desired result.live resolutions).conflicts = [] := by
  obtain ⟨-, -, invalid, -, -, hconflicts⟩ := reconcileDesigns_eq_some h
  refine List.eq_nil_iff_forall_not_mem.mpr fun conflict hconflict ↦ ?_
  obtain ⟨-, -, -, hopen⟩ := names_of_mem_conflicts _ hconflict
  refine hresolved (.value conflict) ?_ hopen
  rw [hconflicts]
  exact List.mem_append_left _ (List.mem_append_left _ (List.mem_map.mpr ⟨conflict, hconflict, rfl⟩))

omit [DecidableEq N] in
/-- Assumes: a conflict of the merge among the conflicts of a review. The merge reported it. -/
theorem value_of_place {catalog : CatalogImport P.analysis} {reported : List Conflict}
    {invalid : List PlanConflict} (hinvalid : ∀ conflict ∈ invalid, conflict.place = .combination)
    (h : .value conflict ∈ reported.map .value ++ invalid ++ P.coverageConflicts catalog) :
    conflict ∈ reported := by
  rw [List.mem_append, List.mem_append] at h
  rcases h with (hvalue | hstructure) | hcoverage
  · obtain ⟨other, hother, hsame⟩ := List.mem_map.mp hvalue
    exact PlanConflict.value.inj hsame ▸ hother
  · exact nomatch hinvalid _ hstructure
  · unfold Planner.coverageConflicts at hcoverage
    split_ifs at hcoverage
    · exact nomatch hcoverage
    · exact nomatch List.mem_singleton.mp hcoverage

end Again

/-! ### Convergence -/

/-- A conflict was resolved by keeping a design that misses a value which PostgreSQL has. -/
def DriftReview.KeepsRemoval {P : Planner N} (review : DriftReview P)
    (request : MigrationDriftResolutionRequest) (conflict : Conflict) : Prop :=
  request.submitted conflict.id = some .design ∧
    valueAt review.desiredContent.modelDump conflict.path = none ∧
    valueAt review.reconciliation.live.modelDump conflict.path ≠ none

/-- Assumes: drift was resolved, catalogs with one fingerprint are the same, and the alignment gave the
live tables different identifiers. The next review with the same catalog and the resolved design
reports none of the resolved conflicts exactly when the import is complete and no conflict was resolved
by keeping a design that misses a value which PostgreSQL has. -/
theorem resolved_conflicts_stay_resolved_iff {P : Planner N} {rules : DesignRules P.analysis}
    {limit : ℕ} {services : DriftServices P}
    {repository repositoryAfter :
      MigrationRepository SchemiiDesignContent (CatalogImport P.analysis)}
    {designs designsAfter : DesignRepository SchemiiDesignContent} {baselineId : String}
    {review : DriftReview P} {request : MigrationDriftResolutionRequest}
    {design : Design SchemiiDesignContent}
    {baseline : BaselineRecord SchemiiDesignContent (CatalogImport P.analysis)}
    (hresolve : P.resolveDrift rules limit services repository designs baselineId review request =
      (.ok (design, baseline), repositoryAfter, designsAfter))
    (hdigest : ∀ current, services.introspect = .ok current →
      current.fingerprint = review.catalog.fingerprint → current = review.catalog)
    (hids : (review.reconciliation.live.tables.map fun table ↦ table.id).Nodup) :
    ∃ later, P.planConflicts rules repositoryAfter designsAfter review.key review.catalog =
        some later ∧
      ((∀ conflict ∈ review.conflicts, ∀ again ∈ later, again.place ≠ conflict.place) ↔
        review.catalog.imported.complete = true ∧
          ∀ conflict, .value conflict ∈ review.conflicts →
            ¬ review.KeepsRemoval request conflict) := by
  unfold Planner.resolveDrift at hresolve
  dsimp only at hresolve
  split at hresolve
  next => exact nomatch (Prod.mk.inj hresolve).1
  next merged live hcontents =>
  obtain ⟨_, -, hcontents⟩ := bind_eq_ok_iff.mp hcontents
  obtain ⟨current, hcurrent, hcontents⟩ := bind_eq_ok_iff.mp hcontents
  obtain ⟨hread, hsame⟩ := readCatalogAgain_eq_ok hcurrent
  obtain rfl := hdigest current hread hsame
  obtain ⟨result, hresult, hleft, hmerged, rfl⟩ := resolvedContents_eq_ok hcontents
  obtain ⟨hvalid, hdesign, head, hhead, hbaseline⟩ : rules.validateDesignContent merged = none ∧ _ :=
    reconcileDrift_ok (Prod.ext (mapError_eq_ok (Prod.mk.inj hresolve).1) (Prod.mk.inj hresolve).2)
  replace hvalid := (rules.validates merged).mp hvalid
  obtain ⟨haligned, hread, -⟩ := reconcileDesigns_eq_some hresult
  obtain ⟨hreviewed, -, reviewInvalid, hreviewInvalid, -, hreviewConflicts⟩ :=
    reconcileDesigns_eq_some review.reviewed
  have hlive : review.reconciliation.live = result.live :=
    Option.some.inj (hreviewed.symm.trans haligned)
  have hreads := reads_of_validateMerged (hread.symm.trans hmerged)
  have hnone := no_conflicts_of_resolved hresult hleft
  obtain ⟨document, hdocument, haccepted⟩ := Option.bind_eq_some_iff.mp hreads
  -- The next review: the import is aligned to itself, and the design merges to itself.
  have hagain := alignedContent_again haligned (hlive ▸ hids) [merged]
  obtain ⟨later, hlater⟩ : ∃ later, P.reconcileDesigns result.live merged review.catalog
      (fun _ ↦ none) = some later := by
    unfold Planner.reconcileDesigns
    rw [hagain]
    exact ⟨_, rfl⟩
  obtain ⟨hlaterLive, -, laterInvalid, -, hlaterInvalid, hlaterConflicts⟩ :=
    reconcileDesigns_eq_some hlater
  obtain hlaterLive : later.live = result.live :=
    Option.some.inj (hlaterLive.symm.trans hagain)
  rw [hlaterLive] at hlaterInvalid hlaterConflicts
  obtain rfl := hlaterInvalid (by rw [validateMerged_again haccepted hvalid])
  refine ⟨later.conflicts, ?_, ?_⟩
  · unfold Planner.planConflicts DriftReview.key
    rw [hhead, Option.bind_some, hbaseline, hdesign, hlater]
    rfl
  rw [hlive] at hreviewConflicts
  have hvalue : ∀ conflict, .value conflict ∈ review.conflicts → conflict ∈ (P.mergeContents
      review.baselineContent review.desiredContent result.live fun _ ↦ none).conflicts := by
    intro conflict hconflict
    unfold DriftReview.conflicts at hconflict
    rw [hreviewConflicts] at hconflict
    exact value_of_place hreviewInvalid hconflict
  have hrecurs : ∀ conflict, .value conflict ∈ review.conflicts →
      (conflict.path ∈ (P.mergeContents result.live merged result.live fun _ ↦ none).conflictPaths ↔
        review.KeepsRemoval request conflict) := by
    intro conflict hconflict
    rw [DriftReview.KeepsRemoval, hlive]
    exact reported_again_iff hreads hnone (hvalue conflict hconflict)
  constructor
  · intro happart
    have hcomplete : review.catalog.imported.complete = true := by
      by_contra hincomplete
      have hcoverage : P.coverageConflicts review.catalog ≠ [] := by
        simp [Planner.coverageConflicts, hincomplete]
      obtain ⟨conflict, hconflict⟩ := List.exists_mem_of_ne_nil _ hcoverage
      refine happart conflict ?_ conflict ?_ rfl
      · unfold DriftReview.conflicts
        rw [hreviewConflicts]
        exact List.mem_append_right _ hconflict
      · rw [hlaterConflicts]
        exact List.mem_append_right _ hconflict
    refine ⟨hcomplete, fun conflict hconflict hkeeps ↦ ?_⟩
    obtain ⟨other, hother, hpath⟩ := (hrecurs conflict hconflict).mpr hkeeps
    refine happart _ hconflict (.value other) ?_ (congrArg ConflictPlace.value hpath)
    rw [hlaterConflicts, List.append_nil]
    exact List.mem_append_left _ (List.mem_map_of_mem hother)
  · rintro ⟨hcomplete, hnever⟩ conflict hconflict again hmember hplace
    have hcoverage : P.coverageConflicts review.catalog = [] := if_pos hcomplete
    rw [hlaterConflicts, hcoverage, List.append_nil, List.append_nil] at hmember
    obtain ⟨other, hother, rfl⟩ := List.mem_map.mp hmember
    cases conflict with
    | value record =>
      have hpath : other.path = record.path := ConflictPlace.value.inj hplace
      exact hnever record hconflict ((hrecurs record hconflict).mp ⟨other, hother, hpath⟩)
    | «structure» id error => exact nomatch hplace
    | coverage id warnings => exact nomatch hplace

/-! ### A view that was deleted in the design -/

/-- A design with one view, and no other objects. -/
def viewContent (id : String) : SchemiiDesignContent :=
  { types := [], tables := [], relationships := [], functions := [], triggers := []
    views := [⟨id, "active", .view, "SELECT 1", none⟩] }

/-- A design without objects. -/
def noContent : SchemiiDesignContent := ⟨[], [], [], [], [], []⟩

/-- Queries parse, and there are no types, routines and triggers. -/
def queriesOnly : SqlAnalysis where
  analyzeTypeDefinition := fun _ ↦ none
  baseTypeName := fun _ ↦ none
  parseQueryDefinition := fun _ ↦ none
  analyzeRoutineDefinition := fun _ ↦ none
  analyzeTriggerDefinition := fun _ ↦ none

/-- A planner for the sample; records are named by their place. -/
def queryPlanner : Planner Unit where
  analysis := queriesOnly
  unicode := ⟨id, fun _ ↦ none⟩
  normalize := fun _ _ ↦ none
  identifier := fun label values ↦ label ++ "_" ++ match values.head? with
    | some (.string place) => place
    | _ => ""
  invalidText := fun _ ↦ "invalid"

/-- The catalog of a database with the view. -/
def viewCatalog : CatalogImport queriesOnly where
  fingerprint := "fingerprint"
  imported :=
    { content := viewContent "view_00000000000000000000000000000002"
      complete := true
      warnings := []
      derived := ⟨by decide, by decide, by decide, by decide⟩
      valid := eq_ok_of_isOk (by decide)
      named := by decide }

/-- The rules of the store for the sample. -/
def queryRules : DesignRules queriesOnly where
  empty := noContent
  validateDesignContent := fun content ↦
    match Designs.validateDesignContent queriesOnly content with
    | .ok _ => none
    | .error error => some (.validation error.message [])
  validateDesignTransition := fun _ _ ↦ none
  designFingerprint := fun content ↦ toString content.views.length
  designObjectLayer := fun _ _ ↦ none
  empty_valid := by decide
  validates := fun content ↦ by
    cases Designs.validateDesignContent queriesOnly content with
    | ok done => simp
    | error error => simp

/-- The first baseline of the workspace. -/
def viewBaseline : BaselineCreate SchemiiDesignContent (CatalogImport queriesOnly) :=
  { ownerId := "usr", workspaceId := "ws", connectionId := "con", connectionOwnerId := "usr"
    connectionRevision := 1, database := "db", targetNamespace := "public", designRevision := 1
    content := viewContent "view_00000000000000000000000000000001", catalog := viewCatalog
    complete := true, issues := [], source := .imported, expectedPredecessorId := none
    sourceExecutionId := none }

/-- The record of the review. -/
def viewRecord : PlanRecord SchemiiDesignContent (CatalogImport queriesOnly) where
  ownerId := "usr"
  baselineId := "mbl"
  plan :=
    { id := "mpl", workspaceId := "ws", status := .blocked, designRevision := 2
      designFingerprint := "0", baselineRevision := 1, reviewDigest := "digest"
      applyCapable := false, destructive := false, columnTypeConversions := []
      requiresExternalChangeAcknowledgement := false, steps := [], createdAt := 0
      expiresAt := 100 }
  authority :=
    { mergedContent := noContent
      liveContent := viewContent "view_00000000000000000000000000000001"
      liveCatalog := viewCatalog, connectionId := "con", connectionOwnerId := some "usr"
      connectionRevision := 1, database := "db", targetNamespace := "public"
      requiredEmptyTables := [], rebuildTableIds := [] }

/-- The review after the view was deleted in the design. -/
def viewReview : DriftReview queryPlanner where
  record := viewRecord
  baselineContent := viewContent "view_00000000000000000000000000000001"
  desiredContent := noContent
  reconciliation := (queryPlanner.reconcileDesigns
    (viewContent "view_00000000000000000000000000000001") noContent viewCatalog
    (fun _ ↦ none)).get (by decide)
  reviewed := (Option.some_get _).symm

/-- The services of the sample. -/
def viewServices : DriftServices queryPlanner where
  now := 50
  workspace := .ok ⟨some "con", some "usr", some "db", some "public"⟩
  connection := .ok ⟨some "usr", 1⟩
  introspect := .ok viewCatalog

/-- The request that resolves every conflict of the review one way. -/
def viewRequest (side : Side) : MigrationDriftResolutionRequest where
  expectedDesignRevision := 2
  reviewDigest := "digest"
  resolutions := [("mcf_views[view_00000000000000000000000000000001]", side)]
  unique := by simp

/-- The migration repository before the review is resolved. -/
def viewRepository : MigrationRepository SchemiiDesignContent (CatalogImport queriesOnly) :=
  ((MigrationRepository.init _ _).createBaseline "mbl" viewBaseline).2

/-- The design repository before the review is resolved. -/
def viewDesigns : DesignRepository SchemiiDesignContent :=
  (DesignRepository.init _).setWorkspace ("usr", "ws")
    ⟨some ⟨2, noContent, "0"⟩, none, [], none, []⟩

/-- Resolving the review of the sample. -/
def viewResolution (side : Side) :=
  queryPlanner.resolveDrift queryRules 100 viewServices viewRepository viewDesigns "mbl2" viewReview
    (viewRequest side)

/-- The conflicts of the review after the resolution. -/
def viewConflictsAfter (side : Side) : Option (List PlanConflict) :=
  queryPlanner.planConflicts queryRules (viewResolution side).2.1 (viewResolution side).2.2
    viewReview.key viewReview.catalog

/-- The design is kept, and the conflict that was resolved is reported again. -/
theorem kept_removal_is_reported_again :
    (viewResolution .design).1.isOk = true ∧
      ∃ later, viewConflictsAfter .design = some later ∧
        ∃ conflict ∈ viewReview.conflicts, ∃ again ∈ later,
          again.place = conflict.place ∧ again.id = conflict.id := by
  refine ⟨by decide, ?_⟩
  obtain ⟨later, hlater⟩ : ∃ later, viewConflictsAfter .design = some later :=
    Option.isSome_iff_exists.mp (by decide)
  refine ⟨later, hlater, ?_⟩
  have hagain : ∃ conflict ∈ viewReview.conflicts,
      ∃ again ∈ (viewConflictsAfter .design).getD [],
        again.place = conflict.place ∧ again.id = conflict.id := by
    decide
  rw [hlater] at hagain
  exact hagain

/-- The live view is pulled, and no resolved conflict is reported again. -/
theorem pulled_view_stays_resolved :
    ∃ later, viewConflictsAfter .live = some later ∧
      ∀ conflict ∈ viewReview.conflicts, ∀ again ∈ later, again.place ≠ conflict.place := by
  obtain ⟨⟨design, baseline⟩, hok⟩ : ∃ outcome, (viewResolution .live).1 = .ok outcome := by
    have hisOk : (viewResolution .live).1.isOk = true := by decide
    cases houtcome : (viewResolution .live).1 with
    | error failure =>
      rw [houtcome] at hisOk
      exact nomatch hisOk
    | ok outcome => exact ⟨outcome, rfl⟩
  have hresolve : queryPlanner.resolveDrift queryRules 100 viewServices viewRepository viewDesigns
      "mbl2" viewReview (viewRequest .live) =
      (.ok (design, baseline), (viewResolution .live).2.1, (viewResolution .live).2.2) :=
    Prod.ext hok rfl
  obtain ⟨later, hlater, hiff⟩ := resolved_conflicts_stay_resolved_iff hresolve
    (fun current hcurrent _ ↦ (Except.ok.inj hcurrent).symm) (by decide)
  refine ⟨later, hlater, hiff.mpr ⟨rfl, fun conflict hconflict hkeeps ↦ ?_⟩⟩
  have hlive : ∀ conflict ∈ viewReview.conflicts,
      (viewRequest .live).submitted conflict.id ≠ some .design := by
    decide
  exact hlive _ hconflict hkeeps.1

end Schemii.Migrations
