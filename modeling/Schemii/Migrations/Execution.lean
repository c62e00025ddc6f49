import Schemii.Migrations.World

/-!
# The migration worker

The programs of `migrations/execution.py` and of the gateway's `execute_migration`, as programs over
the calls of `World`. `process` runs one claimed unit of work: it executes a reserved plan
(`executeClaimed`), recovers an execution whose worker is gone (`recoverClaimed`), or synchronises a
committed one (`syncCommitted`), and records a failure it cannot handle
(`recordProcessingFailure`). `reconcile` is the manual way to recover or synchronise.

The gateway's callbacks rebind the worker's `execution_record`, and the handlers of the worker see
the record as it stands when an exception leaves the gateway. So `executeMigration` is a computation
that keeps its variables (`MigrationSession`) when it raises. Its table and namespace checks happen
before it connects and are part of the failures of `beginTransaction`; the recording of limit events
changes nothing here and is left out.
-/

set_option autoImplicit false

namespace Schemii.Migrations

open Foundations Designs

/-- A program over the migration calls. -/
abbrev Prog (C K α : Type) : Type := Program (migrationInterface C K) Failure α

variable {C K : Type}

/-- Make a call. -/
def ask (request : MigrationCall C K) : Prog C K request.Reply :=
  Program.ask (I := migrationInterface C K) request

/-- Make a call and raise the exception it answers, translated. -/
def askOr {α : Type} (translate : Failure → Failure) (program : Prog C K (Except Failure α)) :
    Prog C K α := do
  match ← program with
  | .ok value => pure value
  | .error failure => .raise (translate failure)

/-- What the coordinator is configured with. -/
structure Coordinator (C K : Type) where
  planner : PlannerRules C K
  leaseTtl : ℕ

/-- `migration_repository_conflict` and `migration_storage_error`; other exceptions pass. -/
def serviceFailure : Failure → Failure
  | .repositoryConflict code message details => .service 409 code message details false
  | .storageUnavailable sqlstate constraint errorType =>
    .service 503 "migration_metadata_unavailable" "Migration metadata is temporarily unavailable"
      ((sqlstate.map fun value ↦ ("sqlstate", Json.string value)).toList ++
        (constraint.map fun value ↦ ("constraint", Json.string value)).toList ++
        (errorType.map fun value ↦ ("errorType", Json.string value)).toList) true
  | failure => failure

/-- `migration_storage_error` alone. -/
def storageFailure : Failure → Failure
  | .storageUnavailable sqlstate constraint errorType =>
    serviceFailure (.storageUnavailable sqlstate constraint errorType)
  | failure => failure

/-- A plan that is not stored. -/
def planFailure : Failure → Failure
  | .repositoryNotFound message => .service 404 "migration_plan_not_found" message [] false
  | failure => failure

/-- An execution that is not stored. -/
def executionFailure : Failure → Failure
  | .repositoryNotFound message => .service 404 "migration_execution_not_found" message [] false
  | failure => failure

/-- A workspace that is not there. -/
def workspaceFailure : Failure → Failure
  | .workspaceNotFound message => .service 404 "workspace_not_found" message [] false
  | failure => failure

/-- `_plan`. -/
def planOf (key : Key) : Prog C K (PlanRecord C K) :=
  askOr planFailure (ask (.getPlan key))

/-- `_workspace`. -/
def workspaceOf (key : Key) : Prog C K WorkspaceTarget :=
  askOr workspaceFailure (ask (.getWorkspace key))

/-- `_design`. -/
def designOf (key : Key) : Prog C K (Design C) :=
  askOr workspaceFailure (ask (.getDesign key))

/-- `_execution`. -/
def executionOf (key : Key) : Prog C K (ExecutionRecord C K) :=
  askOr executionFailure (ask (.getExecution key))

namespace Coordinator

variable (coordinator : Coordinator C K)

/-- The lease owner of a transition: a record without one takes a new one where the new status needs
a lease, so that manual reconciliation is fenced as well. -/
def leaseOwnerFor (record : ExecutionRecord C K) (retainsLease : Bool) :
    Prog C K (Option String) :=
  if retainsLease ∧ record.leaseOwner = none then do
    let token ← ask .leaseToken
    pure (some s!"mls_{token}")
  else pure record.leaseOwner

/-- `_lease_deadline`, where the new status needs a lease. -/
def leaseDeadlineFor (retainsLease : Bool) : Prog C K (Option ℕ) :=
  if retainsLease then do
    let time ← ask .now
    pure (some (time + coordinator.leaseTtl))
  else pure none

/-- The time against which an expired lease is taken over, in manual reconciliation. -/
def recoveryTime (recoverExpired : Bool) : Prog C K (Option ℕ) :=
  if recoverExpired then do
    let time ← ask .now
    pure (some time)
  else pure none

/-- `_transition_execution`: change an execution as the caller read it, keeping or taking a lease
where the new status needs one. -/
def transitionExecution (record : ExecutionRecord C K) (status : ExecutionStatus)
    (changes : ExecutionChanges C K) (recoverExpired : Bool) :
    Prog C K (ExecutionRecord C K) := do
  let retainsLease := holdsExecutionLease status
    (changes.syncStatus.getD record.execution.syncStatus)
  let leaseOwner ← leaseOwnerFor record retainsLease
  let leaseExpiresAt ← coordinator.leaseDeadlineFor retainsLease
  let recoverExpiredBefore ← recoveryTime recoverExpired
  askOr serviceFailure (ask (.transitionExecution record.key
    { expectedRevision := record.execution.revision
      allowedFrom := [record.execution.status]
      status := status
      leaseOwner := leaseOwner
      leaseExpiresAt := leaseExpiresAt
      recoverExpiredBefore := recoverExpiredBefore
      changes := changes }))

/-- The transition to `failed` with a rolled back outcome. -/
def failExecution (record : ExecutionRecord C K) (errorCode : String)
    (errorDetail : Option (Option (List (String × Json)))) (completedStepCount : Option ℕ)
    (recoverExpired : Bool) : Prog C K (ExecutionRecord C K) :=
  coordinator.transitionExecution record .failed
    { commitOutcome := some (some .rolledBack)
      errorCode := some (some errorCode)
      errorDetail := errorDetail
      completedStepCount := completedStepCount } recoverExpired

/-- `_fail_before_apply`. -/
def failBeforeApply {α : Type} (record : ExecutionRecord C K) (code message : String)
    (status : ℕ) (details : List (String × Json)) : Prog C K α := do
  let failed ← coordinator.failExecution record code
    (some (some (("beforeTargetMutation", .bool true) :: details))) none false
  .raise (.service status code message
    (("executionId", .string failed.execution.id) :: details) false)

/-! ### Applying a plan to the target -/

/-- The variables of `_execute_claimed` and of the gateway while a plan is applied. -/
structure MigrationSession (C K : Type) where
  record : ExecutionRecord C K
  intended : Option (IntendedResult C K)
  completed : ℕ
  commitAttempted : Bool

/-- `PostgresMigrationResult`. -/
structure MigrationResult (K : Type) where
  catalog : K
  transactionId : String
  targetIdentity : TargetIdentity
  completedStepCount : ℕ

/-- A step of the gateway. -/
abbrev GatewayStep (C K α : Type) : Type :=
  Program.Keeping (migrationInterface C K) Failure (MigrationSession C K) α

/-- A call of the gateway. -/
def gatewayCall {α : Type} (program : Prog C K (Except Failure α)) : GatewayStep C K α :=
  Program.Keeping.attempting program

/-- `PostgresCatalogValidationError`. -/
def catalogValidationFailure : Failure :=
  .gateway "postgres_catalog_invalid" "PostgreSQL returned invalid catalog metadata" none

/-- `on_started`: record the transaction before its first statement. -/
def onStarted (transactionId : String) (identity : TargetIdentity) : GatewayStep C K Unit :=
  fun session ↦ do
    match ← (coordinator.transitionExecution session.record .applying
        { transactionId := some (some transactionId)
          targetIdentity := some (some identity) } false).attempt with
    | .ok record => pure ({ session with record := record }, .ok ())
    | .error failure => pure (session, .error failure)

/-- The result that `on_intended` records, or the exception it raises: the catalog must be the
complete reviewed schema. -/
def intendedResult (plan : PlanRecord C K) (catalog : K) : Except Failure (IntendedResult C K) :=
  let planner := coordinator.planner
  let (inspected, issues, complete) :=
    planner.newBaselineContent catalog plan.authority.mergedContent
  let mismatches := planner.physicalColumnOrderMismatches inspected
    plan.authority.mergedContent plan.authority.rebuildTableIds
  let candidate := planner.preserveColumnDisplayOrder inspected plan.authority.mergedContent
  let (remaining, blockers) := planner.compileMigrationSteps plan.authority.targetNamespace
    candidate plan.authority.mergedContent
  if ¬ complete ∨ issues ≠ [] ∨ remaining ≠ [] ∨ blockers ≠ [] ∨ mismatches ≠ [] then
    .error (.service 409 "migration_result_mismatch"
      ("PostgreSQL did not produce the complete reviewed schema; the transaction was " ++
        "rolled back")
      [("remainingStepCount", .number remaining.length), ("issues", .array issues),
        ("blockers", .array blockers), ("physicalOrderMismatches", .array mismatches)] false)
  else
    .ok ⟨catalog, candidate, planner.catalogFingerprint catalog,
      planner.contentFingerprint candidate⟩

/-- `on_intended`: check the catalog the statements produced and record it before the commit. -/
def onIntended (plan : PlanRecord C K) (catalog : K) : GatewayStep C K Unit :=
  fun session ↦
    match coordinator.intendedResult plan catalog with
    | .error failure => pure (session, .error failure)
    | .ok intended => do
      match ← (coordinator.transitionExecution session.record .applying
          { completedStepCount := some plan.plan.steps.length
            intendedResult := some (some intended) } false).attempt with
      | .ok record =>
        pure ({ session with record := record, intended := some intended }, .ok ())
      | .error failure => pure ({ session with intended := some intended }, .error failure)

/-- Whether `str.strip` removes a character: the white space of Unicode and four separators. -/
def isSpace (character : Char) : Bool :=
  let code := character.toNat
  (9 ≤ code ∧ code ≤ 13) ∨ (28 ≤ code ∧ code ≤ 32) ∨ (8192 ≤ code ∧ code ≤ 8202) ∨
    code ∈ [133, 160, 5760, 8232, 8233, 8239, 8287, 12288]

/-- Whether `str.strip` leaves nothing of a text. -/
def isBlank (text : String) : Bool :=
  text.toList.all isSpace

/-- The statements of a plan, counted as they complete. -/
def executeStatements (transaction : ℕ) : List String → GatewayStep C K Unit
  | [] => pure ()
  | statement :: rest => do
    if isBlank statement then Program.Keeping.raising catalogValidationFailure
    else do
      gatewayCall (ask (.executeStatement transaction statement))
      Program.Keeping.modify fun session ↦ { session with completed := session.completed + 1 }
      executeStatements transaction rest

/-- The commit of the gateway: an exception of the commit leaves its outcome unknown. -/
def commitTransaction (transaction : ℕ) : GatewayStep C K Unit := fun session ↦ do
  match ← ask (.commit transaction) with
  | .ok () => pure ({ session with commitAttempted := true }, .ok ())
  | .error _ => pure ({ session with commitAttempted := true }, .error .commitUncertain)

/-- The body of `execute_migration` inside its transaction. -/
def applyMigration (plan : PlanRecord C K) (conversionTables : List String) (transaction : ℕ) :
    GatewayStep C K (MigrationResult K) := do
  let target := plan.authority.targetNamespace
  let requiredEmpty := plan.authority.requiredEmptyTables
  gatewayCall (ask (.lockTarget transaction target (requiredEmpty ++ conversionTables)
    (¬ conversionTables.isEmpty)))
  let live ← gatewayCall (ask (.introspect transaction target))
  let fingerprint := coordinator.planner.catalogFingerprint live
  if fingerprint ≠ coordinator.planner.catalogFingerprint plan.authority.liveCatalog then
    Program.Keeping.raising (.migrationStale fingerprint)
  else do
    let emptiness ← gatewayCall (ask (.tableEmptiness transaction target requiredEmpty))
    let nonempty := (emptiness.filter fun table ↦ ¬ table.2).map Prod.fst
    if nonempty ≠ [] then Program.Keeping.raising (.migrationPrecondition nonempty)
    else do
      let identity ← gatewayCall (ask (.targetIdentity transaction))
      let transactionId ← gatewayCall (ask (.currentTransactionId transaction))
      if transactionId = "" then Program.Keeping.raising catalogValidationFailure
      else do
        coordinator.onStarted transactionId identity
        executeStatements transaction (plan.plan.steps.map MigrationStep.sql)
        let result ← gatewayCall (ask (.introspect transaction target))
        coordinator.onIntended plan result
        commitTransaction transaction
        let session ← Program.Keeping.read
        pure ⟨result, transactionId, identity, session.completed⟩

/-- The `sqlstate` attribute of an exception. -/
def failureSqlstate : Failure → Option String
  | .gateway _ _ sqlstate => sqlstate
  | .migrationExecution _ sqlstate _ => sqlstate
  | _ => none

/-- The handlers of `execute_migration`: what leaves the gateway for an exception in its body. -/
def gatewayFailure (completed : ℕ) (commitAttempted conversions : Bool) (failure : Failure) :
    Failure :=
  let sqlstate := if conversions then failureSqlstate failure else none
  match failure with
  | .migrationStale _ | .migrationPrecondition _ | .commitUncertain => failure
  | _ =>
    if failure.isGatewayError then
      if completed ≠ 0 ∨ commitAttempted then .migrationExecution completed sqlstate failure
      else failure
    else if commitAttempted then .commitUncertain
    else .migrationExecution completed sqlstate failure

/-- `execute_migration`: apply a plan in one target transaction. -/
def executeMigration (plan : PlanRecord C K) (connection : Connection)
    (conversionTables : List String) : GatewayStep C K (MigrationResult K) := fun session ↦ do
  let conversions : Bool := ¬ conversionTables.isEmpty
  match ← ask (.beginTransaction session.record.key connection conversions) with
  | .error failure => pure (session, .error (gatewayFailure 0 false conversions failure))
  | .ok transaction => do
    let (kept, outcome) ← coordinator.applyMigration plan conversionTables transaction session
    ask (.cleanup transaction)
    match outcome with
    | .ok result => pure (kept, .ok result)
    | .error failure =>
      pure (kept, .error (gatewayFailure kept.completed kept.commitAttempted conversions failure))

/-! ### After the commit -/

/-- The end of `_sync_committed`: settle the execution, as a conflict when the design differs from
what was migrated. -/
def settleSync (execution : ExecutionRecord C K) (intended : IntendedResult C K)
    (workspace : Key) (designConflict : Bool) : Prog C K MigrationExecution := do
  let latest ← designOf workspace
  if designConflict ∨
      latest.fingerprint ≠ coordinator.planner.contentFingerprint intended.content then do
    let record ← coordinator.transitionExecution execution .succeeded
      { commitOutcome := some (some .committed)
        syncStatus := some (some .conflict)
        errorCode := some (some "post_commit_design_changed")
        errorDetail := some (some [("preservedDesignRevision", .number latest.revision),
          ("baselineAdvanced", .bool true)]) } false
    pure record.execution
  else do
    let record ← coordinator.transitionExecution execution .succeeded
      { commitOutcome := some (some .committed)
        syncStatus := some (some .succeeded)
        errorCode := some none
        errorDetail := some none } false
    pure record.execution

/-- The baseline part of `_sync_committed`: record the committed catalog unless it is current. -/
def syncBaseline (ownerId : String) (plan : PlanRecord C K) (execution : ExecutionRecord C K)
    (intended : IntendedResult C K) (designRevision : ℕ) (designConflict : Bool) :
    Prog C K MigrationExecution := do
  let workspace : Key := (ownerId, plan.plan.workspaceId)
  let fingerprint := coordinator.planner.catalogFingerprint
  let isCurrent := fun baseline : Option (BaselineRecord C K) ↦
    baseline.map (fun head ↦ fingerprint head.catalog) = some (fingerprint intended.catalog)
  let baseline ← askOr id (ask (.currentBaseline workspace (.synchronise execution.key)))
  if isCurrent baseline then
    coordinator.settleSync execution intended workspace designConflict
  else do
    match ← ask (.createBaseline
        { ownerId := ownerId
          workspaceId := plan.plan.workspaceId
          connectionId := plan.authority.connectionId
          connectionOwnerId := plan.authority.connectionOwnerId.getD ownerId
          connectionRevision := plan.authority.connectionRevision
          database := plan.authority.database
          targetNamespace := plan.authority.targetNamespace
          designRevision := if designConflict then plan.plan.designRevision else designRevision
          content := intended.content
          catalog := intended.catalog
          complete := true
          issues := []
          source := .migration
          expectedPredecessorId := baseline.map BaselineRecord.id
          sourceExecutionId := some execution.execution.id }) with
    | .ok _ => coordinator.settleSync execution intended workspace designConflict
    | .error (.repositoryConflict _ _ _) => do
      let head ← askOr id (ask (.currentBaseline workspace .recheck))
      if isCurrent head then
        coordinator.settleSync execution intended workspace designConflict
      else do
        let record ← coordinator.transitionExecution execution .succeeded
          { commitOutcome := some (some .committed)
            syncStatus := some (some .conflict)
            errorCode := some (some "post_commit_baseline_changed") } false
        pure record.execution
    | .error failure => .raise failure

/-- `_sync_committed`: carry a committed execution over to the design and the baseline. -/
def syncCommitted (ownerId : String) (plan : PlanRecord C K) (execution : ExecutionRecord C K) :
    Prog C K MigrationExecution :=
  match execution.intendedResult with
  | none => do
    let record ← coordinator.transitionExecution execution .reconciliationRequired
      { commitOutcome := some (some .committed)
        syncStatus := some (some .failed)
        errorCode := some (some "migration_result_evidence_missing") } false
    pure record.execution
  | some intended => do
    let workspace : Key := (ownerId, plan.plan.workspaceId)
    let design ← designOf workspace
    if design.fingerprint = coordinator.planner.contentFingerprint intended.content then
      coordinator.syncBaseline ownerId plan execution intended design.revision false
    else if design.revision ≠ plan.plan.designRevision ∨
        design.fingerprint ≠ plan.plan.designFingerprint then
      coordinator.syncBaseline ownerId plan execution intended design.revision true
    else do
      match ← ask (.replaceDesign workspace execution.key
          ⟨design.revision, intended.content, none⟩) with
      | .ok replaced =>
        coordinator.syncBaseline ownerId plan execution intended replaced.revision false
      | .error (.designConflict _) =>
        coordinator.syncBaseline ownerId plan execution intended design.revision true
      | .error failure => .raise failure

/-! ### Executing a claimed plan -/

/-- The exception handlers of `_execute_claimed`, on the record as it stands. -/
def handleApplyFailure (plan : PlanRecord C K) (record : ExecutionRecord C K)
    (failure : Failure) : Prog C K MigrationExecution :=
  match failure with
  | .migrationStale fingerprint => do
    let details := [("currentCatalogFingerprint", Json.string fingerprint)]
    let _ ← coordinator.failExecution record (failure.code "") (some (some details)) none false
    .raise (.service 409 (failure.code "") failure.message details false)
  | .migrationPrecondition tables => do
    let details := [("tables", Json.array (tables.map Json.string))]
    let _ ← coordinator.failExecution record (failure.code "") (some (some details)) none false
    .raise (.service 409 (failure.code "") failure.message details false)
  | .commitUncertain => do
    let uncertain ← coordinator.transitionExecution record .uncertain
      { commitOutcome := some (some .uncertain)
        errorCode := some (some (failure.code ""))
        errorDetail := some (some [("reconciliationRequired", .bool true)]) } false
    pure uncertain.execution
  | .service _ _ _ _ _ => .raise failure
  | .migrationExecution completed _ cause =>
    match cause with
    | .service _ code _ details _ => do
      if code = "migration_result_mismatch" then do
        let _ ← coordinator.failExecution record code (some (some details)) none false
        .raise cause
      else .raise cause
    | _ => do
      let objectPath := (plan.plan.steps[completed]?).map MigrationStep.objectPath
      let details := [("message", Json.string failure.message), ("objectPath", textJson objectPath)]
      let _ ← coordinator.failExecution record (failure.code "") (some (some details))
        (some completed) false
      .raise (.service 409 (failure.code "") failure.message details false)
  | .connectionCapacity limitName limit observed => do
    let details := [("resource", Json.string "postgres_connections"),
      ("limitName", .string limitName), ("limit", .number limit), ("observed", .number observed)]
    let _ ← coordinator.failExecution record (failure.code "") (some (some details)) none false
    .raise (.service 503 (failure.code "") failure.message details true)
  | .connectionNotFound _ | .gateway _ _ _ => do
    let code := failure.code "connection_not_found"
    let _ ← coordinator.failExecution record code none none false
    .raise (.service 502 code failure.message [] true)
  | _ => .raise failure

/-- Record the commit the gateway confirmed, and synchronise. -/
def finishCommitted (plan : PlanRecord C K) (session : MigrationSession C K)
    (result : MigrationResult K) : Prog C K MigrationExecution := do
  let committed ← coordinator.transitionExecution session.record .succeeded
    { completedStepCount := some result.completedStepCount
      transactionId := some (some result.transactionId)
      targetIdentity := some (some result.targetIdentity)
      intendedResult := some session.intended
      commitOutcome := some (some .committed)
      syncStatus := some (some .pending)
      errorCode := some none
      errorDetail := some none } false
  coordinator.syncCommitted session.record.ownerId plan committed

/-- The part of `_execute_claimed` that uses the connection. -/
def applyPlan (plan : PlanRecord C K) (record : ExecutionRecord C K) :
    Prog C K MigrationExecution := do
  let ownerId := record.ownerId
  match ← ask (.useConnection ownerId plan.authority.connectionId) with
  | .error failure => coordinator.handleApplyFailure plan record failure
  | .ok connection =>
    if connection.revision ≠ plan.authority.connectionRevision ∨
        connection.ownerId.getD ownerId ≠ plan.authority.connectionOwnerId.getD ownerId then
      coordinator.failBeforeApply record "connection_changed"
        "The PostgreSQL connection changed after the migration review" 409 []
    else do
      let conversionIds := (plan.plan.columnTypeConversions.filter fun item ↦
        item.strategy.getD "" ≠ "" ∧ item.validationError.getD "" = "").map
          ColumnTypeConversion.tableId
      let conversionTables :=
        coordinator.planner.tableNames plan.authority.liveContent conversionIds
      let (session, outcome) ← coordinator.executeMigration plan connection conversionTables
        ⟨record, none, 0, false⟩
      match outcome with
      | .error failure => coordinator.handleApplyFailure plan session.record failure
      | .ok result => coordinator.finishCommitted plan session result

/-- `_execute_claimed`: check that nothing changed since the review, then apply the plan. -/
def executeClaimed (record : ExecutionRecord C K) : Prog C K MigrationExecution := do
  let ownerId := record.ownerId
  let plan ← planOf (ownerId, record.execution.planId)
  let authority := plan.authority
  let workspaceKey : Key := (ownerId, plan.plan.workspaceId)
  let workspace ← workspaceOf workspaceKey
  let design ← designOf workspaceKey
  if workspace.connectionId ≠ some authority.connectionId ∨
      workspace.connectionOwnerId.getD ownerId ≠ authority.connectionOwnerId.getD ownerId ∨
      workspace.database ≠ some authority.database ∨
      workspace.targetNamespace ≠ some authority.targetNamespace then
    coordinator.failBeforeApply record "workspace_changed"
      "The workspace target changed after the migration review" 409 []
  else if design.revision ≠ plan.plan.designRevision ∨
      design.fingerprint ≠ plan.plan.designFingerprint then
    coordinator.failBeforeApply record "design_changed"
      "The desired design changed after the migration review" 409 []
  else do
    let baseline ← askOr storageFailure (ask (.currentBaseline workspaceKey .review))
    if baseline.map (fun head ↦ (head.id, head.revision)) ≠
        some (plan.baselineId, plan.plan.baselineRevision) then
      coordinator.failBeforeApply record "baseline_changed"
        "The PostgreSQL synchronization baseline changed after the migration review" 409
        [("reviewedBaselineId", .string plan.baselineId),
          ("reviewedBaselineRevision", .number plan.plan.baselineRevision),
          ("currentBaselineId", textJson (baseline.map BaselineRecord.id)),
          ("currentBaselineRevision", timeJson (baseline.map BaselineRecord.revision))]
    else do
      if ← ask (.gatewaySupports "execute_migration") then
        coordinator.applyPlan plan record
      else
        coordinator.failBeforeApply record "postgres_migration_execution_unavailable"
          "The configured PostgreSQL gateway does not support migrations" 503 []

/-! ### Recovering an execution -/

/-- The transition that leaves the outcome of a commit uncertain. -/
def leaveUncertain (record : ExecutionRecord C K) (status : ExecutionStatus) (code : String)
    (errorDetail : Option (Option (List (String × Json)))) (recoverExpired : Bool) :
    Prog C K MigrationExecution := do
  let revised ← coordinator.transitionExecution record status
    { commitOutcome := some (some .uncertain)
      errorCode := some (some code)
      errorDetail := errorDetail } recoverExpired
  pure revised.execution

/-- What `_reconcile_transaction` does with the answer of the target. -/
def classifyTransaction (ownerId : String) (plan : PlanRecord C K)
    (record : ExecutionRecord C K) (automatic : Bool) (identity : TargetIdentity)
    (status : TransactionStatus) : Prog C K MigrationExecution :=
  if record.targetIdentity ≠ some identity then
    coordinator.leaveUncertain record .reconciliationRequired "migration_target_identity_changed"
      (some (some [("reconciliationRequired", .bool true),
        ("expectedTargetIdentity",
          (record.targetIdentity.map TargetIdentity.toJson).getD .null),
        ("currentTargetIdentity", identity.toJson)])) (¬ automatic)
  else
    match status with
    | .aborted => do
      let failed ← coordinator.failExecution record "migration_transaction_aborted" none none
        (¬ automatic)
      pure failed.execution
    | .inProgress =>
      coordinator.leaveUncertain record (if automatic then .applying else .reconciliationRequired)
        "migration_transaction_in_progress" none (¬ automatic)
    | .committed => do
      let committed ← coordinator.transitionExecution record .succeeded
        { commitOutcome := some (some .committed)
          syncStatus := some (some .pending)
          errorCode := some none
          errorDetail := some none } (¬ automatic)
      coordinator.syncCommitted ownerId plan committed

/-- The exception handler of `_reconcile_transaction`. -/
def recoveryFailure (record : ExecutionRecord C K) (automatic : Bool) (failure : Failure) :
    Prog C K MigrationExecution :=
  match failure with
  | .connectionNotFound _ | .connectionCapacity _ _ _ | .gateway _ _ _ =>
    let code := failure.code "postgres_reconciliation_failed"
    if automatic then
      coordinator.leaveUncertain record .reconciliationRequired code none false
    else .raise (.service 502 code failure.message [] true)
  | _ => .raise failure

/-- `_reconcile_transaction`: ask the target how the recorded transaction ended. -/
def reconcileTransaction (ownerId : String) (plan : PlanRecord C K)
    (record : ExecutionRecord C K) (transactionId : String) (automatic : Bool) :
    Prog C K MigrationExecution := do
  if ← ask (.gatewaySupports "transaction_status") then do
    match ← ask (.useConnection ownerId plan.authority.connectionId) with
    | .error failure => coordinator.recoveryFailure record automatic failure
    | .ok connection =>
      if connection.ownerId.getD ownerId ≠ plan.authority.connectionOwnerId.getD ownerId then
        coordinator.recoveryFailure record automatic
          (.connectionNotFound "Migration PostgreSQL identity changed")
      else do
        match ← ask (.transactionStatus connection transactionId) with
        | .error failure => coordinator.recoveryFailure record automatic failure
        | .ok (identity, status) =>
          coordinator.classifyTransaction ownerId plan record automatic identity status
  else if automatic then
    coordinator.leaveUncertain record .reconciliationRequired
      "postgres_transaction_status_unavailable" none false
  else
    .raise (.service 503 "postgres_transaction_status_unavailable"
      "The configured PostgreSQL gateway cannot reconcile transactions" [] false)

/-- `_recover_claimed`. -/
def recoverClaimed (record : ExecutionRecord C K) : Prog C K MigrationExecution := do
  let transactionId := record.execution.transactionId.getD ""
  if transactionId = "" then do
    let failed ← coordinator.failExecution record "migration_never_started" none none false
    pure failed.execution
  else do
    let plan ← planOf (record.ownerId, record.execution.planId)
    coordinator.reconcileTransaction record.ownerId plan record transactionId true

/-- `reconcile`: manually recover or synchronise an execution, without replaying its statements. -/
def reconcile (ownerId executionId : String) (expectedExecutionRevision : ℕ) :
    Prog C K MigrationExecution := do
  let record ← executionOf (ownerId, executionId)
  let execution := record.execution
  if execution.revision ≠ expectedExecutionRevision then
    .raise (.service 409 "migration_execution_changed"
      "The migration execution changed after it was opened"
      [("currentExecutionRevision", .number execution.revision)] false)
  else do
    let time ← ask .now
    if record.leaseOwner ≠ none ∧ ∃ expiry ∈ record.leaseExpiresAt, time < expiry then
      .raise (.service 409 "migration_execution_lease_active"
        "The migration execution is still owned by an active worker"
        [("recoveryAvailableAt", timeJson record.leaseExpiresAt)] true)
    else if execution.commitOutcome = some .committed then do
      let plan ← planOf (ownerId, execution.planId)
      coordinator.syncCommitted ownerId plan record
    else if execution.status ∉ activeExecutionStatuses then pure execution
    else do
      let transactionId := execution.transactionId.getD ""
      if transactionId = "" then do
        let failed ← coordinator.failExecution record "migration_never_started" none none true
        pure failed.execution
      else do
        let plan ← planOf (ownerId, execution.planId)
        coordinator.reconcileTransaction ownerId plan record transactionId false

/-! ### The worker -/

/-- The body of `_record_processing_failure`. -/
def recordFailure (work : ExecutionWork C K) (errorCode : String)
    (errorDetail : Option (List (String × Json))) : Prog C K MigrationExecution := do
  let current ← askOr id (ask (.getExecution work.record.key))
  if current.leaseOwner ≠ work.record.leaseOwner then pure current.execution
  else if current.execution.status = .reserved then do
    let failed ← coordinator.failExecution current errorCode
      (some (some (("beforeTargetMutation", .bool true) :: errorDetail.getD []))) none false
    pure failed.execution
  else if current.execution.status = .applying then
    coordinator.leaveUncertain current .reconciliationRequired errorCode
      (some (some (("reconciliationRequired", .bool true) :: errorDetail.getD []))) false
  else if current.execution.status = .succeeded ∧
      current.execution.commitOutcome = some .committed then do
    let failed ← coordinator.transitionExecution current .succeeded
      { syncStatus := some (some .failed)
        errorCode := some (some errorCode)
        errorDetail := some errorDetail } false
    pure failed.execution
  else pure current.execution

/-- `_record_processing_failure`: an exception leaves the work as it was claimed. -/
def recordProcessingFailure (work : ExecutionWork C K) (errorCode : String)
    (errorDetail : Option (List (String × Json))) : Prog C K MigrationExecution := do
  match ← (coordinator.recordFailure work errorCode errorDetail).attempt with
  | .ok execution => pure execution
  | .error _ => pure work.record.execution

/-- The work of a claimed unit. -/
def performWork (work : ExecutionWork C K) : Prog C K MigrationExecution :=
  match work.kind with
  | .execute => coordinator.executeClaimed work.record
  | .reconcile => coordinator.recoverClaimed work.record
  | .sync => do
    let plan ← planOf (work.record.ownerId, work.record.execution.planId)
    coordinator.syncCommitted work.record.ownerId plan work.record

/-- `process`: run one claimed unit and record a failure. -/
def process (work : ExecutionWork C K) : Prog C K MigrationExecution := do
  match ← (coordinator.performWork work).attempt with
  | .ok execution => pure execution
  | .error (.service _ code _ details _) =>
    coordinator.recordProcessingFailure work code (if details = [] then none else some details)
  | .error _ => coordinator.recordProcessingFailure work "migration_worker_failed" none

/-- One turn of the worker: claim a unit of work and process it. -/
def runOnce (workerId : String) : Prog C K Unit := do
  let time ← ask .now
  match ← askOr storageFailure (ask (.claimNextExecution time workerId
      (time + coordinator.leaseTtl))) with
  | none => pure ()
  | some work => do
    let _ ← coordinator.process work
    pure ()

/-- `renew`: the heartbeat of a worker for an execution. -/
def renew (key : Key) (leaseOwner : String) : Prog C K Unit := do
  let time ← ask .now
  let _ ← askOr storageFailure
    (ask (.renewExecutionLease key leaseOwner (time + coordinator.leaseTtl)))
  pure ()

/-- A manual reconciliation. -/
def reconcileRequest (ownerId executionId : String) (expectedExecutionRevision : ℕ) :
    Prog C K Unit := do
  let _ ← coordinator.reconcile ownerId executionId expectedExecutionRevision
  pure ()

/-- The programs that may start at any time: turns of any worker, heartbeats and manual
reconciliations. -/
inductive Starts : Prog C K Unit → Prop
  | worker (workerId : String) : Starts (coordinator.runOnce workerId)
  | heartbeat (key : Key) (leaseOwner : String) : Starts (coordinator.renew key leaseOwner)
  | reconciliation (ownerId executionId : String) (expectedExecutionRevision : ℕ) :
      Starts (coordinator.reconcileRequest ownerId executionId expectedExecutionRevision)

end Coordinator

end Schemii.Migrations
