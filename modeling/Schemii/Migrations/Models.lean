import Schemii.Foundations.Json
import Mathlib.Data.List.AList

/-!
# The records of the migration subsystem

The values of `migrations/models.py` and the dataclasses of `migrations/repository.py` that plans,
executions and baselines are made of. The content of a design and the catalog of a PostgreSQL schema
are type parameters: the repository stores them, and what the worker asks of them is collected in
`PlannerRules`. Times are natural numbers. The times of the last update and the fields that no
modelled function reads are left out.

The exceptions of the subsystem are one type, `Failure`, with the codes, texts and details the
source gives them.
-/

set_option autoImplicit false

namespace Schemii.Migrations

open Foundations

/-- An owner and the identifier of something the owner has. -/
abbrev Key : Type := String × String

/-- `MigrationExecutionStatus`. -/
inductive ExecutionStatus
  | reserved
  | applying
  | succeeded
  | failed
  | uncertain
  | reconciliationRequired
  deriving DecidableEq, Repr

/-- The `commit_outcome` of an execution. -/
inductive CommitOutcome
  | committed
  | rolledBack
  | uncertain
  deriving DecidableEq, Repr

/-- The `sync_status` of an execution. -/
inductive SyncStatus
  | pending
  | succeeded
  | conflict
  | failed
  deriving DecidableEq, Repr

/-- `MigrationPlanStatus`. -/
inductive PlanStatus
  | reviewable
  | blocked
  | expired
  | claimed
  | resolved
  deriving DecidableEq, Repr

/-- The `source` of a baseline. -/
inductive BaselineSource
  | imported
  | migration
  | driftReconciliation
  deriving DecidableEq, Repr

/-- The evidence of `_target_identity`. -/
structure TargetIdentity where
  database : String
  databaseOid : String
  serverVersionNum : String
  serverAddress : String
  serverPort : ℕ
  deriving DecidableEq, Repr

/-- The identity as it stands in error details. -/
def TargetIdentity.toJson (identity : TargetIdentity) : Json :=
  .object [("database", .string identity.database),
    ("database_oid", .string identity.databaseOid),
    ("server_version_num", .string identity.serverVersionNum),
    ("server_address", .string identity.serverAddress),
    ("server_port", .number identity.serverPort)]

/-- `MigrationStep`, as far as its execution reads it. -/
structure MigrationStep where
  objectPath : String
  sql : String
  deriving DecidableEq, Repr

/-- `ColumnTypeConversion`, as far as its execution reads it. -/
structure ColumnTypeConversion where
  tableId : String
  strategy : Option String
  validationError : Option String
  deriving DecidableEq, Repr

/-- `MigrationPlan`, as far as reservation and execution read it. -/
structure MigrationPlan where
  id : String
  workspaceId : String
  status : PlanStatus
  designRevision : ℕ
  designFingerprint : String
  baselineRevision : ℕ
  reviewDigest : String
  applyCapable : Bool
  destructive : Bool
  columnTypeConversions : List ColumnTypeConversion
  requiresExternalChangeAcknowledgement : Bool
  steps : List MigrationStep
  createdAt : ℕ
  expiresAt : ℕ
  deriving DecidableEq, Repr

/-- `MigrationExecution`. -/
structure MigrationExecution where
  id : String
  planId : String
  workspaceId : String
  revision : ℕ
  status : ExecutionStatus
  completedStepCount : ℕ
  transactionId : Option String
  commitOutcome : Option CommitOutcome
  syncStatus : Option SyncStatus
  errorCode : Option String
  errorMessage : Option String
  reconcileRequired : Bool
  recoveryAvailableAt : Option ℕ
  createdAt : ℕ
  deriving DecidableEq, Repr

/-- The documents of the `intended` dictionary that `on_intended` fills. -/
structure IntendedResult (C K : Type) where
  catalog : K
  content : C
  catalogFingerprint : String
  designFingerprint : String

/-- `ExecutionRecord`. -/
structure ExecutionRecord (C K : Type) where
  ownerId : String
  execution : MigrationExecution
  confirmedReviewDigest : String
  destructiveConfirmed : Bool
  externalChangesConfirmed : Bool
  targetIdentity : Option TargetIdentity
  intendedResult : Option (IntendedResult C K)
  errorDetail : Option (List (String × Json))
  leaseOwner : Option String
  leaseExpiresAt : Option ℕ

/-- The key of an execution in the repository. -/
def ExecutionRecord.key {C K : Type} (record : ExecutionRecord C K) : Key :=
  (record.ownerId, record.execution.id)

/-- `BaselineRecord`. -/
structure BaselineRecord (C K : Type) where
  id : String
  ownerId : String
  workspaceId : String
  revision : ℕ
  predecessorId : Option String
  connectionId : String
  connectionOwnerId : String
  connectionRevision : ℕ
  database : String
  targetNamespace : String
  designRevision : ℕ
  content : C
  catalog : K
  complete : Bool
  issues : List Json
  source : BaselineSource
  sourceExecutionId : Option String

/-- `PlanAuthority`, as far as execution and drift resolution read it. -/
structure PlanAuthority (C K : Type) where
  mergedContent : C
  liveContent : C
  liveCatalog : K
  connectionId : String
  connectionOwnerId : Option String
  connectionRevision : ℕ
  database : String
  targetNamespace : String
  requiredEmptyTables : List String
  rebuildTableIds : List String

/-- `PlanRecord`. -/
structure PlanRecord (C K : Type) where
  ownerId : String
  baselineId : String
  plan : MigrationPlan
  authority : PlanAuthority C K

/-- `ExecutionWorkKind`. -/
inductive ExecutionWorkKind
  | execute
  | reconcile
  | sync
  deriving DecidableEq, Repr

/-- `ExecutionWork`: one durably leased unit of migration work. -/
structure ExecutionWork (C K : Type) where
  kind : ExecutionWorkKind
  record : ExecutionRecord C K

/-- The exceptions the migration subsystem raises and handles. -/
inductive Failure
  /-- `MigrationServiceError`. -/
  | service (status : ℕ) (code message : String) (details : List (String × Json))
      (retryable : Bool)
  /-- `MigrationConflictError`. -/
  | repositoryConflict (code message : String) (details : List (String × Json))
  /-- `MigrationNotFoundError`. -/
  | repositoryNotFound (message : String)
  /-- `MigrationStorageUnavailableError`. -/
  | storageUnavailable (sqlstate constraint errorType : Option String)
  /-- `DesignConflictError`. -/
  | designConflict (currentRevision : ℕ)
  /-- Every other error of the design store. -/
  | designRefused
  /-- `DesignWorkspaceNotFoundError` and `WorkspaceNotFoundError`. -/
  | workspaceNotFound (message : String)
  /-- `ConnectionNotFoundError`. -/
  | connectionNotFound (message : String)
  /-- `PostgresMigrationStaleError`. -/
  | migrationStale (currentFingerprint : String)
  /-- `PostgresMigrationPreconditionError`. -/
  | migrationPrecondition (tables : List String)
  /-- `PostgresCommitUncertainError`. -/
  | commitUncertain
  /-- `PostgresMigrationExecutionError` with its `__cause__`. -/
  | migrationExecution (completedStepCount : ℕ) (sqlstate : Option String) (cause : Failure)
  /-- `PostgresConnectionCapacityError`. -/
  | connectionCapacity (limitName : String) (limit observed : ℕ)
  /-- Every other `PostgresGatewayError`. -/
  | gateway (code message : String) (sqlstate : Option String)
  /-- Every other exception. -/
  | other

/-- Whether an exception is a `PostgresGatewayError`. -/
def Failure.isGatewayError : Failure → Bool
  | .migrationStale _ | .migrationPrecondition _ | .commitUncertain | .migrationExecution _ _ _
  | .connectionCapacity _ _ _ | .gateway _ _ _ => true
  | _ => false

/-- `conversion_validation_message`. -/
def conversionValidationMessage : Option String → String
  | none => "PostgreSQL could not validate the conversion. Check the expression, connection " ++
      "permissions and target availability"
  | some sqlstate =>
    if sqlstate = "SC001" then
      "Strict conversion would alter or lose existing values. Choose a custom expression or " ++
        "revise the target type"
    else if sqlstate = "57014" then
      "Conversion validation exceeded the PostgreSQL statement timeout. Ask the administrator " ++
        "to review the configured timeout"
    else if sqlstate = "42501" then
      "The connection lacks permission to validate or convert this column"
    else if sqlstate ∈ ["42846", "42804", "42883", "42704"] then
      "PostgreSQL cannot use this conversion or its default expression. Review the types and " ++
        "USING expression"
    else if sqlstate.startsWith "22" then
      "Some values cannot be converted to the target type. Revise the type or provide an " ++
        "explicit custom expression"
    else if sqlstate.startsWith "23" then
      "The conversion violates a required value, unique key, foreign key, or check constraint"
    else
      "PostgreSQL could not validate the conversion. Check the expression, connection " ++
        "permissions and target availability"

/-- The message of `PostgresMigrationExecutionError`. -/
def migrationExecutionMessage (sqlstate : Option String) : String :=
  (match sqlstate with
    | some state =>
      if state = "" then "PostgreSQL rejected the migration"
      else conversionValidationMessage (some state)
    | none => "PostgreSQL rejected the migration") ++ "; all migration statements were rolled back"

/-- The `code` of an exception the worker records, with the default of its `getattr`. -/
def Failure.code (failure : Failure) (default : String) : String :=
  match failure with
  | .migrationStale _ => "postgres_migration_stale"
  | .migrationPrecondition _ => "postgres_migration_precondition_changed"
  | .commitUncertain => "postgres_migration_commit_uncertain"
  | .migrationExecution _ _ _ => "postgres_migration_failed"
  | .connectionCapacity _ _ _ => "postgres_connection_capacity_reached"
  | .gateway code _ _ => code
  | _ => default

/-- `str(error)` of the exceptions the worker reports on. -/
def Failure.message : Failure → String
  | .service _ _ message _ _ => message
  | .repositoryConflict _ message _ => message
  | .repositoryNotFound message => message
  | .workspaceNotFound message => message
  | .connectionNotFound message => message
  | .migrationStale _ => "PostgreSQL changed after the migration was reviewed"
  | .migrationPrecondition _ =>
    "A table that had to remain empty received rows after the migration was reviewed"
  | .commitUncertain =>
    "The PostgreSQL connection ended while the migration commit outcome was unknown"
  | .migrationExecution _ sqlstate _ => migrationExecutionMessage sqlstate
  | .connectionCapacity _ _ _ => "Schemii is using all configured PostgreSQL connection slots. " ++
      "Wait for an active operation to finish and retry."
  | .gateway _ message _ => message
  | _ => ""

/-- What the worker asks of contents and catalogs. -/
structure PlannerRules (C K : Type) where
  /-- `PostgresCatalog.fingerprint`. -/
  catalogFingerprint : K → String
  /-- `content_fingerprint`. -/
  contentFingerprint : C → String
  /-- `new_baseline_content`: the content, the issues and whether it is complete. -/
  newBaselineContent : K → C → C × List Json × Bool
  /-- `physical_column_order_mismatches`. -/
  physicalColumnOrderMismatches : C → C → List String → List Json
  /-- `preserve_column_display_order`. -/
  preserveColumnDisplayOrder : C → C → C
  /-- `compile_migration_steps`: the remaining steps and the blockers. -/
  compileMigrationSteps : String → C → C → List MigrationStep × List Json
  /-- The names of the live tables with the given identifiers. -/
  tableNames : C → List String → List String

end Schemii.Migrations
