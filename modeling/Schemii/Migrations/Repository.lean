import Schemii.Designs.Store
import Schemii.Migrations.Models

/-!
# The migration repository

The durable metadata of migrations of `migrations/repository.py`: baselines by workspace, plans,
executions, and the execution of each plan. Every method runs under the repository's lock, so it is
one function from the repository to its outcome and the repository it leaves. Random identifiers are
arguments.

`transitionExecution` is the only way a status changes: it compares the revision the caller read,
checks the table of legal transitions and the lease, and writes the changes it is given.
`claimNextExecution` hands out leased work, and `createBaseline` appends to the baselines of a
workspace against the predecessor the caller read.
-/

set_option autoImplicit false

namespace Schemii.Migrations

open Foundations Designs

/-- `_LEGAL_EXECUTION_TRANSITIONS`. -/
def legalExecutionTransitions : ExecutionStatus → List ExecutionStatus
  | .reserved => [.applying, .failed]
  | .applying => [.applying, .succeeded, .failed, .uncertain, .reconciliationRequired]
  | .uncertain => [.succeeded, .failed, .reconciliationRequired]
  | .reconciliationRequired => [.succeeded, .failed, .reconciliationRequired]
  | .succeeded => [.succeeded, .reconciliationRequired]
  | .failed => []

/-- `_ACTIVE_EXECUTION_STATUSES`. -/
def activeExecutionStatuses : List ExecutionStatus :=
  [.reserved, .applying, .uncertain, .reconciliationRequired]

/-- `_ABANDONED_PLAN_STATUSES`. -/
def abandonedPlanStatuses : List PlanStatus :=
  [.reviewable, .blocked, .expired]

/-- The `value` of a status in the messages of the repository. -/
def ExecutionStatus.text : ExecutionStatus → String
  | .reserved => "reserved"
  | .applying => "applying"
  | .succeeded => "succeeded"
  | .failed => "failed"
  | .uncertain => "uncertain"
  | .reconciliationRequired => "reconciliation_required"

/-- A time in error details. -/
def timeJson : Option ℕ → Json
  | none => .null
  | some time => .number time

/-- An optional text in error details. -/
def textJson : Option String → Json
  | none => .null
  | some text => .string text

/-- The changes of a transition. `none` is the source's `UNSET`. -/
structure ExecutionChanges (C K : Type) where
  completedStepCount : Option ℕ := none
  transactionId : Option (Option String) := none
  targetIdentity : Option (Option TargetIdentity) := none
  intendedResult : Option (Option (IntendedResult C K)) := none
  commitOutcome : Option (Option CommitOutcome) := none
  syncStatus : Option (Option SyncStatus) := none
  errorCode : Option (Option String) := none
  errorDetail : Option (Option (List (String × Json))) := none

/-- The arguments of `transition_execution`. -/
structure ExecutionTransition (C K : Type) where
  expectedRevision : ℕ
  allowedFrom : List ExecutionStatus
  status : ExecutionStatus
  leaseOwner : Option String
  leaseExpiresAt : Option ℕ
  recoverExpiredBefore : Option ℕ
  changes : ExecutionChanges C K

/-- The arguments of `create_baseline`. -/
structure BaselineCreate (C K : Type) where
  ownerId : String
  workspaceId : String
  connectionId : String
  connectionOwnerId : String
  connectionRevision : ℕ
  database : String
  targetNamespace : String
  designRevision : ℕ
  content : C
  catalog : K
  complete : Bool
  issues : List Json
  source : BaselineSource
  expectedPredecessorId : Option String
  sourceExecutionId : Option String

/-- The dictionaries of `InMemoryMigrationRepository`. -/
structure MigrationRepository (C K : Type) where
  baselineRows : AList fun _ : Key ↦ List (BaselineRecord C K)
  plans : AList fun _ : Key ↦ PlanRecord C K
  executions : AList fun _ : Key ↦ ExecutionRecord C K
  executionByPlan : AList fun _ : Key ↦ String

variable {C K : Type}

/-- `_blocks_workspace_lifecycle`: the execution is not settled. -/
def ExecutionRecord.blocksWorkspaceLifecycle (record : ExecutionRecord C K) : Bool :=
  record.execution.status ∈ activeExecutionStatuses ∨
    (record.execution.status = .succeeded ∧ record.execution.commitOutcome = some .committed ∧
      record.execution.syncStatus ∈ [some SyncStatus.pending, some SyncStatus.failed])

/-- `_holds_execution_lease`. -/
def holdsExecutionLease (status : ExecutionStatus) (syncStatus : Option SyncStatus) : Bool :=
  status ∈ [ExecutionStatus.reserved, ExecutionStatus.applying] ∨
    (status = .succeeded ∧ syncStatus ∈ [some SyncStatus.pending, some SyncStatus.failed])

/-- `_validate_execution_transition`: the exception it raises, if any. -/
def validateExecutionTransition (current : MigrationExecution) (expectedRevision : ℕ)
    (allowedFrom : List ExecutionStatus) (status : ExecutionStatus) : Option Failure :=
  if current.revision ≠ expectedRevision then
    some (.repositoryConflict "migration_execution_changed"
      "The migration execution changed in another request"
      [("currentExecutionRevision", .number current.revision)])
  else if current.status ∉ allowedFrom ∨ status ∉ legalExecutionTransitions current.status then
    some (.repositoryConflict "migration_execution_transition_invalid"
      s!"Migration execution cannot transition from {current.status.text} to {status.text}"
      [("currentStatus", .string current.status.text),
        ("requestedStatus", .string status.text)])
  else none

/-- `_validate_execution_authorization`: the exception it raises, if any. -/
def validateExecutionAuthorization (plan : MigrationPlan) (reviewDigest : String)
    (confirmDestructive confirmExternalChanges : Bool) : Option Failure :=
  if reviewDigest ≠ plan.reviewDigest then
    some (.repositoryConflict "migration_review_changed"
      "Migration review digest does not match" [])
  else if plan.destructive ∧ ¬ confirmDestructive then
    some (.repositoryConflict "destructive_confirmation_required"
      "Destructive changes require confirmation" [])
  else if plan.requiresExternalChangeAcknowledgement ∧ ¬ confirmExternalChanges then
    some (.repositoryConflict "external_changes_confirmation_required"
      "Compatible external changes require acknowledgement" [])
  else none

/-- An outcome of the repository and the repository it leaves. -/
abbrev RepositoryOutcome (C K α : Type) : Type := Except Failure α × MigrationRepository C K

namespace MigrationRepository

/-- A repository that stores nothing. -/
def init (C K : Type) : MigrationRepository C K where
  baselineRows := ∅
  plans := ∅
  executions := ∅
  executionByPlan := ∅

/-- The baselines of a workspace, the oldest first. -/
def baselines (repository : MigrationRepository C K) (key : Key) : List (BaselineRecord C K) :=
  (repository.baselineRows.lookup key).getD []

/-- `current_baseline`: the last baseline of a workspace. -/
def currentBaseline (repository : MigrationRepository C K) (key : Key) :
    Option (BaselineRecord C K) :=
  (repository.baselines key).getLast?

/-- `has_active_execution`. -/
def hasActiveExecution (repository : MigrationRepository C K) (key : Key) : Bool :=
  repository.executions.entries.any fun entry ↦
    entry.1.1 = key.1 ∧ entry.2.execution.workspaceId = key.2 ∧
      entry.2.execution.status ∈ activeExecutionStatuses

/-- `blocks_workspace_lifecycle`: some execution of the workspace is not settled. -/
def blocksWorkspaceLifecycle (repository : MigrationRepository C K) (key : Key) : Bool :=
  repository.executions.entries.any fun entry ↦
    entry.1.1 = key.1 ∧ entry.2.execution.workspaceId = key.2 ∧
      entry.2.blocksWorkspaceLifecycle

/-- `create_baseline`: append a baseline after the predecessor the caller read. -/
def createBaseline (repository : MigrationRepository C K) (id : String)
    (values : BaselineCreate C K) : RepositoryOutcome C K (BaselineRecord C K) :=
  let key : Key := (values.ownerId, values.workspaceId)
  let rows := repository.baselines key
  let predecessorId := rows.getLast?.map BaselineRecord.id
  if values.expectedPredecessorId ≠ predecessorId then
    (.error (.repositoryConflict "baseline_changed"
      "The workspace synchronization baseline changed"
      [("currentBaselineId", textJson predecessorId)]), repository)
  else
    let record : BaselineRecord C K :=
      { id := id
        ownerId := values.ownerId
        workspaceId := values.workspaceId
        revision := rows.length + 1
        predecessorId := predecessorId
        connectionId := values.connectionId
        connectionOwnerId := values.connectionOwnerId
        connectionRevision := values.connectionRevision
        database := values.database
        targetNamespace := values.targetNamespace
        designRevision := values.designRevision
        content := values.content
        catalog := values.catalog
        complete := values.complete
        issues := values.issues
        source := values.source
        sourceExecutionId := values.sourceExecutionId }
    (.ok record, { repository with
      baselineRows := repository.baselineRows.insert key (rows ++ [record]) })

/-- `get_plan`. -/
def getPlan (repository : MigrationRepository C K) (key : Key) : Except Failure (PlanRecord C K) :=
  match repository.plans.lookup key with
  | some record => .ok record
  | none => .error (.repositoryNotFound "Migration plan was not found")

/-- The keys of the abandoned plans that a new plan removes. -/
def expiredPlans (repository : MigrationRepository C K) (record : PlanRecord C K) : List Key :=
  (repository.plans.entries.filter fun entry ↦
    entry.2.ownerId = record.ownerId ∧ entry.2.plan.status ∈ abandonedPlanStatuses ∧
      entry.2.plan.expiresAt ≤ record.plan.createdAt ∧
      entry.1 ∉ repository.executionByPlan).map Sigma.fst

/-- `create_plan`: store a review, unless an execution of the workspace is not settled. -/
def createPlan (repository : MigrationRepository C K) (record : PlanRecord C K) :
    RepositoryOutcome C K MigrationPlan :=
  if repository.blocksWorkspaceLifecycle (record.ownerId, record.plan.workspaceId) then
    (.error (.repositoryConflict "migration_execution_active"
      ("Finish or reconcile the current migration execution before creating another review")
      []), repository)
  else
    let kept := (repository.expiredPlans record).foldl (fun plans key ↦ plans.erase key)
      repository.plans
    (.ok record.plan, { repository with
      plans := kept.insert (record.ownerId, record.plan.id) record })

/-- `reserve_execution`: the execution of a plan, created in status `reserved` when there is none
and no other execution of the workspace is unsettled. -/
def reserveExecution (repository : MigrationRepository C K) (id : String) (ownerId planId : String)
    (reviewDigest : String) (confirmDestructive confirmExternalChanges : Bool)
    (reservedAt : ℕ) : RepositoryOutcome C K (ExecutionRecord C K × Bool) :=
  match repository.getPlan (ownerId, planId) with
  | .error failure => (.error failure, repository)
  | .ok record =>
    match validateExecutionAuthorization record.plan reviewDigest confirmDestructive
        confirmExternalChanges with
    | some failure => (.error failure, repository)
    | none =>
      match (repository.executionByPlan.lookup (ownerId, planId)).bind fun existing ↦
          repository.executions.lookup (ownerId, existing) with
      | some existing => (.ok (existing, false), repository)
      | none =>
        if repository.blocksWorkspaceLifecycle (ownerId, record.plan.workspaceId) then
          (.error (.repositoryConflict "migration_execution_active"
            "Finish or reconcile the current migration execution before starting another" []),
            repository)
        else if record.plan.expiresAt ≤ reservedAt then
          (.error (.repositoryConflict "migration_plan_expired" "Refresh the migration review" []),
            repository)
        else if record.plan.status ≠ .reviewable ∨ ¬ record.plan.applyCapable then
          (.error (.repositoryConflict "migration_plan_not_executable"
            "Migration plan cannot be executed" []), repository)
        else
          let execution : MigrationExecution :=
            { id := id
              planId := planId
              workspaceId := record.plan.workspaceId
              revision := 1
              status := .reserved
              completedStepCount := 0
              transactionId := none
              commitOutcome := none
              syncStatus := none
              errorCode := none
              errorMessage := none
              reconcileRequired := false
              recoveryAvailableAt := none
              createdAt := reservedAt }
          let executionRecord : ExecutionRecord C K :=
            { ownerId := ownerId
              execution := execution
              confirmedReviewDigest := reviewDigest
              destructiveConfirmed := confirmDestructive
              externalChangesConfirmed := confirmExternalChanges
              targetIdentity := none
              intendedResult := none
              errorDetail := none
              leaseOwner := none
              leaseExpiresAt := none }
          (.ok (executionRecord, true), { repository with
            executionByPlan := repository.executionByPlan.insert (ownerId, planId) id
            executions := repository.executions.insert (ownerId, id) executionRecord
            plans := repository.plans.insert (ownerId, planId)
              { record with plan := { record.plan with status := .claimed } } })

/-- The work an execution offers to a worker at a time, with its priority. -/
def eligibleWork (claimedAt : ℕ) (record : ExecutionRecord C K) :
    Option (ℕ × ExecutionWorkKind) :=
  let leaseAvailable := record.leaseOwner = none ∨
    ∃ expiry ∈ record.leaseExpiresAt, expiry ≤ claimedAt
  if ¬ leaseAvailable then none
  else if record.execution.status = .applying then some (0, .reconcile)
  else if record.execution.status = .reserved then some (1, .execute)
  else if record.execution.status = .succeeded ∧
      record.execution.commitOutcome = some .committed ∧
      record.execution.syncStatus ∈ [some SyncStatus.pending, some SyncStatus.failed] then
    some (2, .sync)
  else none

/-- The order of `min(eligible)`: priority, then creation, then identifier. -/
def claimsBefore (first second : ℕ × ExecutionWorkKind × ExecutionRecord C K) : Bool :=
  let firstExecution := first.2.2.execution
  let secondExecution := second.2.2.execution
  first.1 < second.1 ∨ (first.1 = second.1 ∧
    (firstExecution.createdAt < secondExecution.createdAt ∨
      (firstExecution.createdAt = secondExecution.createdAt ∧
        firstExecution.id < secondExecution.id)))

/-- The least member of a list under `claimsBefore`. -/
def firstClaim : List (ℕ × ExecutionWorkKind × ExecutionRecord C K) →
    Option (ℕ × ExecutionWorkKind × ExecutionRecord C K)
  | [] => none
  | first :: rest =>
    some (rest.foldl (fun best next ↦ if claimsBefore next best then next else best) first)

/-- `claim_next_execution`: lease the most urgent eligible execution to a worker. -/
def claimNextExecution (repository : MigrationRepository C K) (claimedAt : ℕ)
    (leaseOwner : String) (leaseExpiresAt : ℕ) :
    Option (ExecutionWork C K) × MigrationRepository C K :=
  let eligible := repository.executions.entries.filterMap fun entry ↦
    (eligibleWork claimedAt entry.2).map fun work ↦ (work.1, work.2, entry.2)
  match firstClaim eligible with
  | none => (none, repository)
  | some (_, kind, current) =>
    let claimed : ExecutionRecord C K := { current with
      execution := { current.execution with
        revision := current.execution.revision + 1
        recoveryAvailableAt := some leaseExpiresAt }
      leaseOwner := some leaseOwner
      leaseExpiresAt := some leaseExpiresAt }
    (some ⟨kind, claimed⟩, { repository with
      executions := repository.executions.insert current.key claimed })

/-- `renew_execution_lease`. -/
def renewExecutionLease (repository : MigrationRepository C K) (key : Key) (leaseOwner : String)
    (leaseExpiresAt : ℕ) : Bool × MigrationRepository C K :=
  match repository.executions.lookup key with
  | none => (false, repository)
  | some current =>
    if current.leaseOwner ≠ some leaseOwner then (false, repository)
    else if current.execution.status ∉
        [ExecutionStatus.reserved, ExecutionStatus.applying, ExecutionStatus.succeeded] then
      (false, repository)
    else
      (true, { repository with
        executions := repository.executions.insert key { current with
          execution := { current.execution with recoveryAvailableAt := some leaseExpiresAt }
          leaseOwner := some leaseOwner
          leaseExpiresAt := some leaseExpiresAt } })

/-- `get_execution`. -/
def getExecution (repository : MigrationRepository C K) (key : Key) :
    Except Failure (ExecutionRecord C K) :=
  match repository.executions.lookup key with
  | some record => .ok record
  | none => .error (.repositoryNotFound "Migration execution was not found")

/-- Whether another owner's live lease fences a transition off. -/
def leaseFences (current : ExecutionRecord C K) (transition : ExecutionTransition C K) : Bool :=
  current.leaseOwner ≠ none ∧ transition.leaseOwner ≠ current.leaseOwner ∧
    ¬ ∃ before ∈ transition.recoverExpiredBefore, ∃ expiry ∈ current.leaseExpiresAt,
      expiry ≤ before

/-- The `message` of an error detail. -/
def detailMessage : Option (List (String × Json)) → Option String
  | none => none
  | some detail =>
    match detail.lookup "message" with
    | some (.string message) => some message
    | _ => none

/-- The record a transition writes. -/
def revisedExecution (current : ExecutionRecord C K) (transition : ExecutionTransition C K) :
    ExecutionRecord C K :=
  let changes := transition.changes
  let effectiveSyncStatus := changes.syncStatus.getD current.execution.syncStatus
  let holdsLease := holdsExecutionLease transition.status effectiveSyncStatus
  { current with
    execution := { current.execution with
      revision := current.execution.revision + 1
      status := transition.status
      recoveryAvailableAt := if holdsLease then transition.leaseExpiresAt else none
      completedStepCount := changes.completedStepCount.getD current.execution.completedStepCount
      transactionId := changes.transactionId.getD current.execution.transactionId
      commitOutcome := changes.commitOutcome.getD current.execution.commitOutcome
      syncStatus := effectiveSyncStatus
      errorCode := changes.errorCode.getD current.execution.errorCode
      reconcileRequired := transition.status ∈
        [ExecutionStatus.uncertain, ExecutionStatus.reconciliationRequired]
      errorMessage := match changes.errorDetail with
        | some detail => detailMessage detail
        | none => current.execution.errorMessage }
    targetIdentity := changes.targetIdentity.getD current.targetIdentity
    intendedResult := changes.intendedResult.getD current.intendedResult
    errorDetail := changes.errorDetail.getD current.errorDetail
    leaseOwner := if holdsLease then transition.leaseOwner else none
    leaseExpiresAt := if holdsLease then transition.leaseExpiresAt else none }

/-- `transition_execution`: change an execution against the revision the caller read. -/
def transitionExecution (repository : MigrationRepository C K) (key : Key)
    (transition : ExecutionTransition C K) : RepositoryOutcome C K (ExecutionRecord C K) :=
  match repository.executions.lookup key with
  | none => (.error (.repositoryNotFound "Migration execution was not found"), repository)
  | some current =>
    match validateExecutionTransition current.execution transition.expectedRevision
        transition.allowedFrom transition.status with
    | some failure => (.error failure, repository)
    | none =>
      if leaseFences current transition then
        (.error (.repositoryConflict "migration_execution_lease_active"
          "The migration execution is owned by an active worker lease"
          [("recoveryAvailableAt", timeJson current.leaseExpiresAt)]), repository)
      else
        let effectiveSyncStatus :=
          transition.changes.syncStatus.getD current.execution.syncStatus
        if holdsExecutionLease transition.status effectiveSyncStatus ∧
            (transition.leaseOwner = none ∨ transition.leaseExpiresAt = none) then
          (.error .other, repository)
        else
          let record := revisedExecution current transition
          (.ok record, { repository with executions := repository.executions.insert key record })

/-- The exception that the design store's refusal is here. -/
def designFailure : DesignError → Failure
  | .conflict revision => .designConflict revision
  | _ => .designRefused

/-- `reconcile_drift`: save the resolved design as a checkpoint and append the live catalog as the
new baseline, unless an execution of the workspace is not settled. The design is replaced before
the baseline is compared. -/
def reconcileDrift (rules : ContentRules C) (limit : ℕ) (repository : MigrationRepository C K)
    (designs : DesignRepository C) (baselineId : String) (record : PlanRecord C K)
    (expectedDesignRevision : ℕ) (resolvedContent liveContent : C) :
    Except Failure (Design C × BaselineRecord C K) × MigrationRepository C K ×
      DesignRepository C :=
  let key : Key := (record.ownerId, record.plan.workspaceId)
  if repository.blocksWorkspaceLifecycle key then
    (.error (.repositoryConflict "migration_execution_active"
      "Finish or reconcile the current migration execution before resolving drift" []),
      repository, designs)
  else
    match designs.replace rules limit key false
        ⟨expectedDesignRevision, resolvedContent, none⟩ .checkpoint with
    | (.error error, replaced) => (.error (designFailure error), repository, replaced)
    | (.ok design, replaced) =>
      match repository.createBaseline baselineId
          { ownerId := record.ownerId
            workspaceId := record.plan.workspaceId
            connectionId := record.authority.connectionId
            connectionOwnerId := record.authority.connectionOwnerId.getD record.ownerId
            connectionRevision := record.authority.connectionRevision
            database := record.authority.database
            targetNamespace := record.authority.targetNamespace
            designRevision := design.revision
            content := liveContent
            catalog := record.authority.liveCatalog
            complete := true
            issues := []
            source := .driftReconciliation
            expectedPredecessorId := some record.baselineId
            sourceExecutionId := none } with
      | (.error failure, unchanged) => (.error failure, unchanged, replaced)
      | (.ok baseline, appended) =>
        (.ok (design, baseline), { appended with
          plans := appended.plans.insert (record.ownerId, record.plan.id)
            { record with plan := { record.plan with status := .resolved } } }, replaced)

/-! ### What the operations can do -/

variable (repository : MigrationRepository C K)

/-- What a transition can do: it is refused, or it revises the execution it finds at the revision
the caller read. -/
theorem transitionExecution_cases (key : Key)
    (transition : ExecutionTransition C K) :
    (∃ failure, repository.transitionExecution key transition = (.error failure, repository)) ∨
      ∃ current, repository.executions.lookup key = some current ∧
        current.execution.revision = transition.expectedRevision ∧
        transition.status ∈ legalExecutionTransitions current.execution.status ∧
        leaseFences current transition = false ∧
        (holdsExecutionLease transition.status
            (transition.changes.syncStatus.getD current.execution.syncStatus) = true →
          transition.leaseOwner ≠ none) ∧
        repository.transitionExecution key transition =
          (.ok (revisedExecution current transition), { repository with
            executions := repository.executions.insert key
              (revisedExecution current transition) }) := by
  generalize houtcome : repository.transitionExecution key transition = outcome
  replace houtcome := houtcome.symm
  unfold transitionExecution at houtcome
  cases hlookup : repository.executions.lookup key with
  | none =>
    rw [hlookup] at houtcome
    exact Or.inl ⟨_, houtcome⟩
  | some current =>
    rw [hlookup] at houtcome
    simp only at houtcome
    cases hvalid : validateExecutionTransition current.execution transition.expectedRevision
        transition.allowedFrom transition.status with
    | some failure =>
      rw [hvalid] at houtcome
      exact Or.inl ⟨_, houtcome⟩
    | none =>
      rw [hvalid] at houtcome
      simp only at houtcome
      unfold validateExecutionTransition at hvalid
      split_ifs at hvalid with hrevision hstatus
      push Not at hrevision hstatus
      split_ifs at houtcome with hfenced hleased
      · exact Or.inl ⟨_, houtcome⟩
      · exact Or.inl ⟨_, houtcome⟩
      · refine Or.inr ⟨current, rfl, hrevision, hstatus.2, by simpa using hfenced, ?_, houtcome⟩
        intro hholds hnone
        exact hleased ⟨hholds, Or.inl hnone⟩

/-- What a baseline creation can do: it is refused, or it appends a baseline after the predecessor
the caller read. -/
theorem createBaseline_cases (id : String)
    (values : BaselineCreate C K) :
    (∃ failure, repository.createBaseline id values = (.error failure, repository)) ∨
      ∃ baseline : BaselineRecord C K,
        values.expectedPredecessorId = (repository.currentBaseline
          (values.ownerId, values.workspaceId)).map BaselineRecord.id ∧
        baseline.id = id ∧ baseline.catalog = values.catalog ∧
        baseline.sourceExecutionId = values.sourceExecutionId ∧
        repository.createBaseline id values = (.ok baseline, { repository with
          baselineRows := repository.baselineRows.insert (values.ownerId, values.workspaceId)
            (repository.baselines (values.ownerId, values.workspaceId) ++ [baseline]) }) := by
  generalize houtcome : repository.createBaseline id values = outcome
  replace houtcome := houtcome.symm
  unfold createBaseline at houtcome
  simp only at houtcome
  split_ifs at houtcome with hexpected
  · exact Or.inl ⟨_, houtcome⟩
  · push Not at hexpected
    exact Or.inr ⟨_, hexpected, rfl, rfl, rfl, houtcome⟩

theorem createBaseline_granted (id : String)
    {values : BaselineCreate C K}
    (h : values.expectedPredecessorId = (repository.currentBaseline
      (values.ownerId, values.workspaceId)).map BaselineRecord.id) :
    ∃ baseline : BaselineRecord C K,
      repository.createBaseline id values = (.ok baseline, { repository with
        baselineRows := repository.baselineRows.insert (values.ownerId, values.workspaceId)
          (repository.baselines (values.ownerId, values.workspaceId) ++ [baseline]) }) := by
  unfold createBaseline
  dsimp only
  rw [if_neg (fun hne ↦ hne h)]
  exact ⟨_, rfl⟩

theorem firstClaim_mem {eligible : List (ℕ × ExecutionWorkKind × ExecutionRecord C K)}
    {claim : ℕ × ExecutionWorkKind × ExecutionRecord C K} (h : firstClaim eligible = some claim) :
    claim ∈ eligible := by
  cases eligible with
  | nil => exact nomatch h
  | cons first rest =>
    obtain rfl := Option.some.inj h
    have hgeneral : ∀ (rest : List (ℕ × ExecutionWorkKind × ExecutionRecord C K))
        (best : ℕ × ExecutionWorkKind × ExecutionRecord C K),
        rest.foldl (fun best next ↦ if claimsBefore next best then next else best) best ∈
          best :: rest := by
      intro rest
      induction rest with
      | nil => intro best; exact List.mem_singleton_self best
      | cons next rest ih =>
        intro best
        rw [List.foldl_cons]
        rcases List.mem_cons.mp (ih (if claimsBefore next best then next else best)) with
          hbest | hrest
        · rw [hbest]
          split_ifs
          · exact List.mem_cons_of_mem _ List.mem_cons_self
          · exact List.mem_cons_self
        · exact List.mem_cons_of_mem _ (List.mem_cons_of_mem _ hrest)
    exact hgeneral rest first

/-- What a claim can do: there is nothing to claim, or it leases a stored execution that offers the
claimed work. -/
theorem claimNextExecution_cases (claimedAt : ℕ)
    (leaseOwner : String) (leaseExpiresAt : ℕ) :
    repository.claimNextExecution claimedAt leaseOwner leaseExpiresAt = (none, repository) ∨
      ∃ key priority kind current, repository.executions.lookup key = some current ∧
        eligibleWork claimedAt current = some (priority, kind) ∧
        let claimed : ExecutionRecord C K := { current with
          execution := { current.execution with
            revision := current.execution.revision + 1
            recoveryAvailableAt := some leaseExpiresAt }
          leaseOwner := some leaseOwner
          leaseExpiresAt := some leaseExpiresAt }
        repository.claimNextExecution claimedAt leaseOwner leaseExpiresAt =
          (some ⟨kind, claimed⟩, { repository with
            executions := repository.executions.insert current.key claimed }) := by
  unfold claimNextExecution
  simp only
  split
  · exact Or.inl rfl
  · next priority kind current hfirst =>
    obtain ⟨entry, hentry, hwork⟩ := List.mem_filterMap.mp (firstClaim_mem hfirst)
    obtain ⟨work, heligible, hclaim⟩ := Option.map_eq_some_iff.mp hwork
    obtain ⟨rfl, hrest⟩ := Prod.mk.inj hclaim
    obtain ⟨rfl, rfl⟩ := Prod.mk.inj hrest
    exact Or.inr ⟨entry.1, work.1, work.2, entry.2,
      AList.mem_lookup_iff.mpr hentry, heligible, rfl⟩

/-- What a renewal can do: nothing, or it moves the expiry of a lease its owner holds. -/
theorem renewExecutionLease_cases (key : Key)
    (leaseOwner : String) (leaseExpiresAt : ℕ) :
    repository.renewExecutionLease key leaseOwner leaseExpiresAt = (false, repository) ∨
      ∃ current, repository.executions.lookup key = some current ∧
        current.leaseOwner = some leaseOwner ∧
        repository.renewExecutionLease key leaseOwner leaseExpiresAt =
          (true, { repository with
            executions := repository.executions.insert key { current with
              execution := { current.execution with recoveryAvailableAt := some leaseExpiresAt }
              leaseOwner := some leaseOwner
              leaseExpiresAt := some leaseExpiresAt } }) := by
  unfold renewExecutionLease
  cases hlookup : repository.executions.lookup key with
  | none => exact Or.inl rfl
  | some current =>
    simp only
    split_ifs with howner hstatus
    · exact Or.inl rfl
    · exact Or.inr ⟨current, rfl, by simpa using howner, rfl⟩
    · exact Or.inl rfl

theorem createPlan_frame (record : PlanRecord C K) :
    (repository.createPlan record).2.baselines = repository.baselines ∧
      (repository.createPlan record).2.executions = repository.executions ∧
      (repository.createPlan record).2.executionByPlan = repository.executionByPlan := by
  unfold createPlan
  split_ifs
  · exact ⟨rfl, rfl, rfl⟩
  · exact ⟨rfl, rfl, rfl⟩

/-- What a reservation is that was made now. -/
structure Reserves (repository : MigrationRepository C K) (id ownerId planId : String)
    (plan : PlanRecord C K) (record : ExecutionRecord C K) (after : MigrationRepository C K) :
    Prop where
  stored : repository.plans.lookup (ownerId, planId) = some plan
  free : repository.blocksWorkspaceLifecycle (ownerId, plan.plan.workspaceId) = false
  owner_eq : record.ownerId = ownerId
  id_eq : record.execution.id = id
  plan_eq : record.execution.planId = planId
  workspace_eq : record.execution.workspaceId = plan.plan.workspaceId
  status : record.execution.status = .reserved
  transactionId : record.execution.transactionId = none
  commitOutcome : record.execution.commitOutcome = none
  intendedResult : record.intendedResult = none
  leaseOwner : record.leaseOwner = none
  after_eq : after = { repository with
    executionByPlan := repository.executionByPlan.insert (ownerId, planId) id
    executions := repository.executions.insert (ownerId, id) record
    plans := repository.plans.insert (ownerId, planId)
      { plan with plan := { plan.plan with status := .claimed } } }

theorem reserves_of_reserveExecution {repository after : MigrationRepository C K}
    {id ownerId planId reviewDigest : String} {confirmDestructive confirmExternalChanges : Bool}
    {reservedAt : ℕ} {record : ExecutionRecord C K}
    (h : repository.reserveExecution id ownerId planId reviewDigest confirmDestructive
      confirmExternalChanges reservedAt = (.ok (record, true), after)) :
    ∃ plan, Reserves repository id ownerId planId plan record after := by
  unfold reserveExecution at h
  cases hplan : repository.plans.lookup (ownerId, planId) with
  | none =>
    simp only [getPlan, hplan] at h
    exact nomatch (Prod.mk.inj h).1
  | some plan =>
    simp only [getPlan, hplan] at h
    split at h
    · exact nomatch (Prod.mk.inj h).1
    split at h
    · exact nomatch (Except.ok.inj (Prod.mk.inj h).1)
    split_ifs at h with hblocks hexpired hstatus
    · exact nomatch (Prod.mk.inj h).1
    · exact nomatch (Prod.mk.inj h).1
    · exact nomatch (Prod.mk.inj h).1
    · obtain ⟨hrecord, rfl⟩ := Prod.mk.inj h
      obtain ⟨rfl, -⟩ := Prod.mk.inj (Except.ok.inj hrecord)
      exact ⟨plan, hplan, by simpa using hblocks, rfl, rfl, rfl, rfl, rfl, rfl, rfl, rfl, rfl, rfl⟩

/-- What resolving drift can do to the repository: nothing, or it appends a baseline that no
execution made to a workspace whose executions are settled, and marks the review as resolved. -/
theorem reconcileDrift_cases (rules : ContentRules C) (limit : ℕ)
    (repository : MigrationRepository C K) (designs : DesignRepository C) (baselineId : String)
    (record : PlanRecord C K) (expectedDesignRevision : ℕ) (resolvedContent liveContent : C) :
    (repository.reconcileDrift rules limit designs baselineId record expectedDesignRevision
        resolvedContent liveContent).2.1 = repository ∨
      ∃ baseline : BaselineRecord C K,
        repository.blocksWorkspaceLifecycle (record.ownerId, record.plan.workspaceId) = false ∧
        baseline.id = baselineId ∧ baseline.sourceExecutionId = none ∧
        (repository.reconcileDrift rules limit designs baselineId record expectedDesignRevision
          resolvedContent liveContent).2.1 = { repository with
            baselineRows := repository.baselineRows.insert
              (record.ownerId, record.plan.workspaceId)
              (repository.baselines (record.ownerId, record.plan.workspaceId) ++ [baseline])
            plans := repository.plans.insert (record.ownerId, record.plan.id)
              { record with plan := { record.plan with status := .resolved } } } := by
  unfold reconcileDrift
  dsimp only
  split_ifs with hblocks
  · exact Or.inl rfl
  split
  · exact Or.inl rfl
  split
  · next design replaced _ failure unchanged houtcome =>
    rcases repository.createBaseline_cases baselineId _ with
      ⟨error, hcreated⟩ | ⟨baseline, -, -, -, -, hcreated⟩
    · rw [hcreated] at houtcome
      exact Or.inl (Prod.mk.inj houtcome).2.symm
    · rw [hcreated] at houtcome
      exact nomatch (Prod.mk.inj houtcome).1
  · next design replaced _ baseline appended houtcome =>
    rcases repository.createBaseline_cases baselineId _ with
      ⟨error, hcreated⟩ | ⟨created, -, hid, -, hsource, hcreated⟩
    · rw [hcreated] at houtcome
      exact nomatch (Prod.mk.inj houtcome).1
    · rw [hcreated] at houtcome
      obtain ⟨hbaseline, rfl⟩ := Prod.mk.inj houtcome
      exact Or.inr ⟨created, by simpa using hblocks, hid, hsource, rfl⟩

end MigrationRepository

end Schemii.Migrations
