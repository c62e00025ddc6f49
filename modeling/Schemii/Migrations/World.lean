import Schemii.Designs.HistoryRuns
import Schemii.Foundations.Interaction
import Schemii.Migrations.Repository

/-!
# The stores and the target that migration workers share

The world the worker and the manual reconciliation act on: the migration repository, the design
repository, the workspaces and connections they look up, a clock, and the transactions of the
PostgreSQL targets. `MigrationCall` lists the calls of `migrations/execution.py` and of
`execute_migration` and `transaction_status` in `common/postgres/gateway.py`; `perform` says what
each may answer and do. A call to a store may be lost before or after it took effect. A call to a
target may fail at any time. A commit is atomic: a transaction is committed at most once, from
running, and a commit whose answer was lost is decided later by the environment. The status of a
transaction is reported as it is.

The environment advances the clock, changes workspaces and connections, saves designs as users do,
stores plans, reserves executions, resolves drift, ends transactions whose worker is gone, and
decides commits.

Two parts of the world record what happened and are read by no program: the number of baselines a
workspace had when an execution was reserved (`baselineMarks`), and the journal of reservations and
saves (`journal`).
-/

set_option autoImplicit false

namespace Schemii.Migrations

open Foundations Designs

/-- The target a workspace is bound to. -/
structure WorkspaceTarget where
  connectionId : Option String
  connectionOwnerId : Option String
  database : Option String
  targetNamespace : Option String
  deriving DecidableEq, Repr

/-- A resolved connection, as far as the worker reads it. -/
structure Connection where
  ownerId : Option String
  revision : ℕ
  deriving DecidableEq, Repr

/-- How far a transaction of a target is. -/
inductive TransactionPhase
  | running
  | committing
  | committed
  | aborted
  deriving DecidableEq, Repr

/-- A transaction of a target: the program and the execution it runs for, its target, the identifier
the target gave it, and the catalog it showed after its last statement. -/
structure TargetTransaction (K : Type) where
  thread : ℕ
  execution : Key
  identity : TargetIdentity
  transactionId : Option String
  phase : TransactionPhase
  catalog : Option K

/-- What the journal records. -/
inductive JournalEvent
  | reserved (execution : Key)
  | saved (workspace : Key)
  | synchronised (execution : Key)
  deriving DecidableEq, Repr

/-- The shared stores and targets. -/
structure World (C K : Type) where
  clock : ℕ
  repository : MigrationRepository C K
  designs : DesignRepository C
  workspaces : Key → Option WorkspaceTarget
  connections : Key → Option Connection
  target : List (TargetTransaction K)
  baselineMarks : Key → ℕ
  journal : List JournalEvent

/-- The answer of `transaction_status`. -/
inductive TransactionStatus
  | committed
  | aborted
  | inProgress
  deriving DecidableEq, Repr

/-- The status PostgreSQL reports of a transaction. -/
def TransactionPhase.status : TransactionPhase → TransactionStatus
  | .running => .inProgress
  | .committing => .inProgress
  | .committed => .committed
  | .aborted => .aborted

/-- What a head baseline is read for: the check before a plan is applied, the synchronisation of an
execution, or its second look after a conflict. -/
inductive BaselineRead
  | review
  | synchronise (execution : Key)
  | recheck
  deriving DecidableEq, Repr

/-- The calls of the worker, of manual reconciliation and of the gateway. A call that reads or
changes something for an execution names it. -/
inductive MigrationCall (C K : Type)
  | now
  | leaseToken
  | getPlan (key : Key)
  | getWorkspace (key : Key)
  | getDesign (key : Key)
  | currentBaseline (workspace : Key) (purpose : BaselineRead)
  | createBaseline (values : BaselineCreate C K)
  | getExecution (key : Key)
  | claimNextExecution (claimedAt : ℕ) (leaseOwner : String) (leaseExpiresAt : ℕ)
  | renewExecutionLease (key : Key) (leaseOwner : String) (leaseExpiresAt : ℕ)
  | transitionExecution (key : Key) (transition : ExecutionTransition C K)
  | replaceDesign (workspace execution : Key) (request : DesignReplace C)
  | useConnection (ownerId connectionId : String)
  | gatewaySupports (method : String)
  | beginTransaction (execution : Key) (connection : Connection) (freshSnapshots : Bool)
  | lockTarget (transaction : ℕ) (targetNamespace : String) (tables : List String)
      (conversions : Bool)
  | introspect (transaction : ℕ) (targetNamespace : String)
  | tableEmptiness (transaction : ℕ) (targetNamespace : String) (tables : List String)
  | targetIdentity (transaction : ℕ)
  | currentTransactionId (transaction : ℕ)
  | executeStatement (transaction : ℕ) (statement : String)
  | commit (transaction : ℕ)
  | cleanup (transaction : ℕ)
  | transactionStatus (connection : Connection) (transactionId : String)

/-- The type of each call's reply. -/
@[reducible]
def MigrationCall.Reply {C K : Type} : MigrationCall C K → Type
  | .now => ℕ
  | .leaseToken => String
  | .getPlan _ => Except Failure (PlanRecord C K)
  | .getWorkspace _ => Except Failure WorkspaceTarget
  | .getDesign _ => Except Failure (Design C)
  | .currentBaseline _ _ => Except Failure (Option (BaselineRecord C K))
  | .createBaseline _ => Except Failure (BaselineRecord C K)
  | .getExecution _ => Except Failure (ExecutionRecord C K)
  | .claimNextExecution _ _ _ => Except Failure (Option (ExecutionWork C K))
  | .renewExecutionLease _ _ _ => Except Failure Bool
  | .transitionExecution _ _ => Except Failure (ExecutionRecord C K)
  | .replaceDesign _ _ _ => Except Failure (Design C)
  | .useConnection _ _ => Except Failure Connection
  | .gatewaySupports _ => Bool
  | .beginTransaction _ _ _ => Except Failure ℕ
  | .lockTarget _ _ _ _ => Except Failure Unit
  | .introspect _ _ => Except Failure K
  | .tableEmptiness _ _ _ => Except Failure (List (String × Bool))
  | .targetIdentity _ => Except Failure TargetIdentity
  | .currentTransactionId _ => Except Failure String
  | .executeStatement _ _ => Except Failure Unit
  | .commit _ => Except Failure Unit
  | .cleanup _ => Unit
  | .transactionStatus _ _ => Except Failure (TargetIdentity × TransactionStatus)

/-- The interface of migration programs. -/
def migrationInterface (C K : Type) : Interface where
  Call := MigrationCall C K
  Reply := MigrationCall.Reply

variable {C K : Type}

/-- A store that could not be reached, or any unexpected exception of its client. -/
def Failure.IsOutage : Failure → Prop
  | .storageUnavailable _ _ _ => True
  | .other => True
  | _ => False

/-- A target that failed a call. -/
def Failure.IsTargetFailure : Failure → Prop
  | .connectionCapacity _ _ _ => True
  | .gateway _ _ _ => True
  | .other => True
  | _ => False

/-- A call to a store: it is answered, or it is lost before or after it took effect. -/
def Attempted {α : Type} (outcome : Except Failure α × World C K) (before : World C K)
    (reply : Except Failure α) (after : World C K) : Prop :=
  (reply = outcome.1 ∧ after = outcome.2) ∨
    ∃ failure, Failure.IsOutage failure ∧ reply = .error failure ∧
      (after = before ∨ after = outcome.2)

namespace World

/-- Replace one transaction of the target. -/
def setTransaction (world : World C K) (index : ℕ) (transaction : TargetTransaction K) :
    World C K :=
  { world with target := world.target.set index transaction }

/-- A call that changes the migration repository only. -/
def withRepository {α : Type} (world : World C K)
    (outcome : Except Failure α × MigrationRepository C K) : Except Failure α × World C K :=
  (outcome.1, { world with repository := outcome.2 })

/-- `replace` of the design store for the synchronisation of an execution. -/
def replaceDesign (rules : ContentRules C) (limit : ℕ) (world : World C K)
    (workspace execution : Key) (request : DesignReplace C) :
    Except Failure (Design C) × World C K :=
  match world.designs.replace rules limit workspace false request .checkpoint with
  | (.error error, designs) =>
    (.error (MigrationRepository.designFailure error), { world with designs := designs })
  | (.ok design, designs) =>
    (.ok design, { world with
      designs := designs, journal := world.journal ++ [.synchronised execution] })

end World

/-- A statement in a transaction: it fails, or it succeeds on a running transaction and changes
it. -/
def InTransaction {α : Type} (index : ℕ) (before : World C K) (reply : Except Failure α)
    (after : World C K)
    (succeeds : TargetTransaction K → α → TargetTransaction K → Prop) : Prop :=
  (∃ failure, Failure.IsTargetFailure failure ∧ reply = .error failure ∧ after = before) ∨
    ∃ transaction value changed, before.target[index]? = some transaction ∧
      transaction.phase = .running ∧ reply = .ok value ∧ succeeds transaction value changed ∧
      after = before.setTransaction index changed

/-- What each call may answer and do. `rules` and `limit` are those of the design store. -/
def perform (rules : ContentRules C) (limit : ℕ) (thread : ℕ) :
    (request : MigrationCall C K) → World C K → request.Reply → World C K → Prop
  | .now, before, reply, after => reply = before.clock ∧ after = before
  | .leaseToken, before, _, after => after = before
  | .getPlan key, before, reply, after =>
    Attempted (before.repository.getPlan key, before) before reply after
  | .getWorkspace key, before, reply, after =>
    Attempted (match before.workspaces key with
      | some workspace => .ok workspace
      | none => .error (.workspaceNotFound "Workspace was not found"), before) before reply after
  | .getDesign key, before, reply, after =>
    Attempted (.ok (DesignRepository.currentDesign rules (before.designs.workspaces key)), before)
        before reply after ∨
      (∃ message, reply = .error (.workspaceNotFound message) ∧ after = before)
  | .currentBaseline workspace _, before, reply, after =>
    Attempted (.ok (before.repository.currentBaseline workspace), before) before reply after
  | .createBaseline values, before, reply, after =>
    ∃ id, (∀ workspace, ∀ baseline ∈ before.repository.baselines workspace, baseline.id ≠ id) ∧
      Attempted (before.withRepository (before.repository.createBaseline id values)) before reply
        after
  | .getExecution key, before, reply, after =>
    Attempted (before.repository.getExecution key, before) before reply after
  | .claimNextExecution claimedAt leaseOwner leaseExpiresAt, before, reply, after =>
    let claim := before.repository.claimNextExecution claimedAt leaseOwner leaseExpiresAt
    Attempted (.ok claim.1, { before with repository := claim.2 }) before reply after
  | .renewExecutionLease key leaseOwner leaseExpiresAt, before, reply, after =>
    let renewal := before.repository.renewExecutionLease key leaseOwner leaseExpiresAt
    Attempted (.ok renewal.1, { before with repository := renewal.2 }) before reply after
  | .transitionExecution key transition, before, reply, after =>
    Attempted (before.withRepository (before.repository.transitionExecution key transition))
      before reply after
  | .replaceDesign workspace execution request, before, reply, after =>
    Attempted (before.replaceDesign rules limit workspace execution request) before reply after
  | .useConnection ownerId connectionId, before, reply, after =>
    Attempted (match before.connections (ownerId, connectionId) with
      | some connection => .ok connection
      | none => .error (.connectionNotFound "PostgreSQL connection was not found"), before)
      before reply after
  | .gatewaySupports _, before, _, after => after = before
  | .beginTransaction execution _ _, before, reply, after =>
    (∃ failure, Failure.IsTargetFailure failure ∧ reply = .error failure ∧ after = before) ∨
      ∃ identity, reply = .ok before.target.length ∧
        after = { before with
          target := before.target ++ [⟨thread, execution, identity, none, .running, none⟩] }
  | .lockTarget index _ _ _, before, reply, after =>
    InTransaction index before reply after fun transaction _ changed ↦ changed = transaction
  | .introspect index _, before, reply, after =>
    InTransaction index before reply after fun transaction catalog changed ↦
      changed = { transaction with catalog := some catalog }
  | .tableEmptiness index _ _, before, reply, after =>
    InTransaction index before reply after fun transaction _ changed ↦ changed = transaction
  | .targetIdentity index, before, reply, after =>
    InTransaction index before reply after fun transaction identity changed ↦
      identity = transaction.identity ∧ changed = transaction
  | .currentTransactionId index, before, reply, after =>
    InTransaction index before reply after fun transaction transactionId changed ↦
      changed = { transaction with transactionId := some transactionId } ∧
        (transaction.transactionId = some transactionId ∨
          transaction.transactionId = none ∧ ∀ other ∈ before.target,
            other.identity = transaction.identity → other.transactionId ≠ some transactionId)
  | .executeStatement index _, before, reply, after =>
    InTransaction index before reply after fun transaction _ changed ↦
      changed = { transaction with catalog := none }
  | .commit index, before, reply, after =>
    InTransaction index before reply after (fun transaction _ changed ↦
        changed = { transaction with phase := .committed }) ∨
      ∃ transaction phase failure, before.target[index]? = some transaction ∧
        transaction.phase = .running ∧ reply = .error failure ∧
        after = before.setTransaction index { transaction with phase := phase }
  | .cleanup index, before, _, after =>
    after = before ∨ ∃ transaction, before.target[index]? = some transaction ∧
      transaction.phase = .running ∧
      after = before.setTransaction index { transaction with phase := .aborted }
  | .transactionStatus _ transactionId, before, reply, after =>
    after = before ∧
      ((∃ failure, Failure.IsTargetFailure failure ∧ reply = .error failure) ∨
        ∃ identity status, reply = .ok (identity, status) ∧ ∀ transaction ∈ before.target,
          transaction.identity = identity → transaction.transactionId = some transactionId →
            transaction.phase.status = status)

/-- Whether a change of the design store saved a new revision of a design. -/
def SavedDesign (rules : ContentRules C) (before after : DesignRepository C) (key : Key) : Bool :=
  (DesignRepository.currentDesign rules (after.workspaces key)).revision ≠
    (DesignRepository.currentDesign rules (before.workspaces key)).revision

/-- What happens to the world without a call of a program. -/
inductive WorldChange (rules : ContentRules C) (limit : ℕ) : World C K → World C K → Prop
  | tick (world : World C K) (clock : ℕ) (hclock : world.clock ≤ clock) :
      WorldChange rules limit world { world with clock := clock }
  | configure (world : World C K) (workspaces : Key → Option WorkspaceTarget)
      (connections : Key → Option Connection) :
      WorldChange rules limit world
        { world with workspaces := workspaces, connections := connections }
  /-- A user's request to the design store. -/
  | design (world : World C K) (request : DesignRequest C) :
      WorldChange rules limit world { world with
        designs := Designs.step rules limit world.designs request
        journal := world.journal ++
          if SavedDesign rules world.designs (Designs.step rules limit world.designs request)
            request.key then [.saved request.key] else [] }
  /-- A review is stored: it is new, and made from a revision of the design that was saved and from a
  baseline of the workspace. -/
  | plan (world : World C K) (record : PlanRecord C K)
      (hnew : (record.ownerId, record.plan.id) ∉ world.repository.plans)
      (hdesign : record.plan.designRevision ≤ (DesignRepository.currentDesign rules
        (world.designs.workspaces (record.ownerId, record.plan.workspaceId))).revision)
      (hbaseline : record.baselineId ∈ (world.repository.baselines
        (record.ownerId, record.plan.workspaceId)).map BaselineRecord.id) :
      WorldChange rules limit world
        { world with repository := (world.repository.createPlan record).2 }
  /-- An execution is reserved under a new identifier. -/
  | reserve (world : World C K) (id ownerId planId reviewDigest : String)
      (confirmDestructive confirmExternalChanges : Bool) (reservedAt : ℕ)
      (record : ExecutionRecord C K) (repository : MigrationRepository C K)
      (hnew : ∀ owner, (owner, id) ∉ world.repository.executions)
      (hsource : ∀ workspace, ∀ baseline ∈ world.repository.baselines workspace,
        baseline.sourceExecutionId ≠ some id)
      (hreserve : world.repository.reserveExecution id ownerId planId reviewDigest
        confirmDestructive confirmExternalChanges reservedAt = (.ok (record, true), repository)) :
      WorldChange rules limit world { world with
        repository := repository
        baselineMarks := Function.update world.baselineMarks record.key
          (world.repository.baselines (ownerId, record.execution.workspaceId)).length
        journal := world.journal ++ [.reserved record.key] }
  /-- A user resolves drift with any contents. -/
  | drift (world : World C K) (baselineId : String) (record : PlanRecord C K)
      (expectedDesignRevision : ℕ) (resolvedContent liveContent : C)
      (hplan : world.repository.plans.lookup (record.ownerId, record.plan.id) = some record)
      (hid : ∀ workspace, ∀ baseline ∈ world.repository.baselines workspace,
        baseline.id ≠ baselineId) :
      WorldChange rules limit world
        (let outcome := world.repository.reconcileDrift rules limit world.designs baselineId
          record expectedDesignRevision resolvedContent liveContent
        { world with
          repository := outcome.2.1
          designs := outcome.2.2
          journal := world.journal ++
            if SavedDesign rules world.designs outcome.2.2
              (record.ownerId, record.plan.workspaceId) then
              [.saved (record.ownerId, record.plan.workspaceId)] else [] })
  /-- A workspace without a baseline gets its imported one. -/
  | baseline (world : World C K) (id : String) (values : BaselineCreate C K)
      (hid : ∀ workspace, ∀ baseline ∈ world.repository.baselines workspace, baseline.id ≠ id)
      (hsource : values.source = .imported) (hexpected : values.expectedPredecessorId = none)
      (hexecution : values.sourceExecutionId = none) :
      WorldChange rules limit world
        { world with repository := (world.repository.createBaseline id values).2 }
  /-- The target ends a transaction whose worker is gone, or decides a commit. -/
  | transaction (world : World C K) (index : ℕ) (transaction : TargetTransaction K)
      (phase : TransactionPhase) (hat : world.target[index]? = some transaction)
      (hphase : (transaction.phase = .running ∧ phase = .aborted) ∨
        (transaction.phase = .committing ∧ (phase = .committed ∨ phase = .aborted))) :
      WorldChange rules limit world
        (world.setTransaction index { transaction with phase := phase })

/-- The semantics of migration programs. -/
def migrationSemantics (rules : ContentRules C) (limit : ℕ) :
    Semantics (migrationInterface C K) (World C K) where
  perform := perform rules limit
  environment := WorldChange rules limit

/-- The world in which nothing is stored and no transaction was begun. The target is new; everything
else a worker looks up is arbitrary. -/
def World.IsInitial (world : World C K) : Prop :=
  world.repository = MigrationRepository.init C K ∧ world.target = [] ∧
    world.baselineMarks = (fun _ ↦ 0) ∧ world.journal = []

end Schemii.Migrations
