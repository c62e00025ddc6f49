import Schemii.Migrations.Execution

/-!
# What migration programs know about a changing world

The relations the safety of the worker rests on. A record that a program read stays in the
repository and only moves forward (`ExecutionRecord.Later`): its revision grows, at the same revision
it is the same up to the expiry of its lease, its transaction and its intended result are never
overwritten, it never returns to `reserved`, and once settled it stays settled. A transaction of the
target is changed by its own program only, except that the target may end it
(`TargetTransaction.Later`).

`WorldInv` is the invariant of the world. Its centre is `ready`: a transaction that is committing or
committed is the one the record of its execution holds, with the catalog it showed, and the record
is not given up. `WorldGrowth` is what every step keeps, `WorldRely` what one program may rely on
while the others act, and `Licensed` what a program must know before a call that changes something.
-/

set_option autoImplicit false

namespace Schemii.Migrations

open Foundations Designs

variable {C K : Type}
variable {before after : ExecutionRecord C K} {first second third : World C K}

/-! ### Records -/

namespace ExecutionRecord

/-- Two records of one revision: they agree in everything but the expiry of the lease. -/
structure SameRevision (before after : ExecutionRecord C K) : Prop where
  status : after.execution.status = before.execution.status
  transactionId : after.execution.transactionId = before.execution.transactionId
  targetIdentity : after.targetIdentity = before.targetIdentity
  intendedResult : after.intendedResult = before.intendedResult
  commitOutcome : after.execution.commitOutcome = before.execution.commitOutcome
  syncStatus : after.execution.syncStatus = before.execution.syncStatus
  leaseOwner : after.leaseOwner = before.leaseOwner

/-- A record and what it may have become. -/
structure Later (before after : ExecutionRecord C K) : Prop where
  ownerId : after.ownerId = before.ownerId
  id : after.execution.id = before.execution.id
  planId : after.execution.planId = before.execution.planId
  workspaceId : after.execution.workspaceId = before.execution.workspaceId
  revision : before.execution.revision ≤ after.execution.revision
  same : after.execution.revision = before.execution.revision → SameRevision before after
  evidence : ∀ transactionId, before.execution.transactionId = some transactionId →
    after.execution.transactionId = some transactionId ∧
      after.targetIdentity = before.targetIdentity
  intended : ∀ result, before.intendedResult = some result → after.intendedResult = some result
  reserved : after.execution.status = .reserved → before.execution.status = .reserved
  settled : before.blocksWorkspaceLifecycle = false → after.blocksWorkspaceLifecycle = false
  committed : before.execution.commitOutcome = some .committed →
    after.execution.commitOutcome = some .committed

theorem SameRevision.refl (record : ExecutionRecord C K) : SameRevision record record :=
  ⟨rfl, rfl, rfl, rfl, rfl, rfl, rfl⟩

theorem Later.refl (record : ExecutionRecord C K) : Later record record :=
  ⟨rfl, rfl, rfl, rfl, Nat.le_refl _, fun _ ↦ .refl record, fun _ h ↦ ⟨h, rfl⟩, fun _ h ↦ h,
    fun h ↦ h, fun h ↦ h, fun h ↦ h⟩

theorem Later.trans {first second third : ExecutionRecord C K} (h : Later first second)
    (h' : Later second third) : Later first third where
  ownerId := h'.ownerId.trans h.ownerId
  id := h'.id.trans h.id
  planId := h'.planId.trans h.planId
  workspaceId := h'.workspaceId.trans h.workspaceId
  revision := Nat.le_trans h.revision h'.revision
  same := by
    intro hsame
    have hsecond : second.execution.revision = first.execution.revision :=
      Nat.le_antisymm (hsame ▸ h'.revision) h.revision
    have hfirst := h.same hsecond
    have hthird := h'.same (hsame.trans hsecond.symm)
    exact ⟨hthird.status.trans hfirst.status, hthird.transactionId.trans hfirst.transactionId,
      hthird.targetIdentity.trans hfirst.targetIdentity,
      hthird.intendedResult.trans hfirst.intendedResult,
      hthird.commitOutcome.trans hfirst.commitOutcome, hthird.syncStatus.trans hfirst.syncStatus,
      hthird.leaseOwner.trans hfirst.leaseOwner⟩
  evidence := by
    intro transactionId hbefore
    obtain ⟨hmiddle, hidentity⟩ := h.evidence transactionId hbefore
    obtain ⟨hafter, hidentity'⟩ := h'.evidence transactionId hmiddle
    exact ⟨hafter, hidentity'.trans hidentity⟩
  intended := fun result hbefore ↦ h'.intended result (h.intended result hbefore)
  reserved := fun hafter ↦ h.reserved (h'.reserved hafter)
  settled := fun hbefore ↦ h'.settled (h.settled hbefore)
  committed := fun hbefore ↦ h'.committed (h.committed hbefore)

theorem Later.key (h : Later before after) :
    after.key = before.key := by
  unfold ExecutionRecord.key
  rw [h.ownerId, h.id]

/-- The workspace of a record does not change. -/
def workspace (record : ExecutionRecord C K) : Key :=
  (record.ownerId, record.execution.workspaceId)

theorem Later.workspace_eq (h : Later before after) :
    after.workspace = before.workspace := by
  unfold ExecutionRecord.workspace
  rw [h.ownerId, h.workspaceId]

/-- The record holds the evidence of a transaction. -/
structure Holds (record : ExecutionRecord C K) (transaction : TargetTransaction K) : Prop where
  named : transaction.transactionId ≠ none
  transactionId : record.execution.transactionId = transaction.transactionId
  targetIdentity : record.targetIdentity = some transaction.identity

/-- The execution was given up. -/
def Dead (record : ExecutionRecord C K) : Prop :=
  record.execution.status = .failed ∨ record.execution.commitOutcome = some .rolledBack

theorem Later.holds (h : Later before after)
    {transaction : TargetTransaction K} (hholds : before.Holds transaction) :
    after.Holds transaction := by
  obtain ⟨transactionId, hid⟩ := Option.ne_none_iff_exists'.mp hholds.named
  obtain ⟨hafter, hidentity⟩ := h.evidence transactionId (hholds.transactionId.trans hid)
  exact ⟨hholds.named, hafter.trans hid.symm, hidentity.trans hholds.targetIdentity⟩

theorem SameRevision.holds (h : SameRevision before after)
    {transaction : TargetTransaction K} (hholds : before.Holds transaction) :
    after.Holds transaction :=
  ⟨hholds.named, h.transactionId.trans hholds.transactionId,
    h.targetIdentity.trans hholds.targetIdentity⟩

end ExecutionRecord

/-! ### Transactions -/

/-- A transaction and what it may have become while its own program, if it is the named one, made no
call on it. -/
structure TargetTransaction.Later (thread : ℕ) (before after : TargetTransaction K) : Prop where
  thread_eq : after.thread = before.thread
  execution : after.execution = before.execution
  identity : after.identity = before.identity
  transactionId : ∀ transactionId, before.transactionId = some transactionId →
    after.transactionId = some transactionId
  running : after.phase = .running → before.phase = .running
  aborted : before.phase = .aborted → after.phase = .aborted
  committed : before.phase = .committed → after.phase = .committed
  own : before.thread = thread → after.transactionId = before.transactionId ∧
    after.catalog = before.catalog ∧
    (before.phase = .running → after.phase = .running ∨ after.phase = .aborted)

theorem TargetTransaction.Later.refl (thread : ℕ) (transaction : TargetTransaction K) :
    Later thread transaction transaction :=
  ⟨rfl, rfl, rfl, fun _ h ↦ h, id, id, id, fun _ ↦ ⟨rfl, rfl, Or.inl⟩⟩

theorem TargetTransaction.Later.trans {thread : ℕ} {first second third : TargetTransaction K}
    (h : Later thread first second) (h' : Later thread second third) :
    Later thread first third where
  thread_eq := h'.thread_eq.trans h.thread_eq
  execution := h'.execution.trans h.execution
  identity := h'.identity.trans h.identity
  transactionId := fun _ hfirst ↦ h'.transactionId _ (h.transactionId _ hfirst)
  running := fun hthird ↦ h.running (h'.running hthird)
  aborted := fun hfirst ↦ h'.aborted (h.aborted hfirst)
  committed := fun hfirst ↦ h'.committed (h.committed hfirst)
  own := by
    intro hthread
    obtain ⟨hid, hcatalog, hphase⟩ := h.own hthread
    obtain ⟨hid', hcatalog', hphase'⟩ := h'.own (h.thread_eq.trans hthread)
    refine ⟨hid'.trans hid, hcatalog'.trans hcatalog, fun hrunning ↦ ?_⟩
    rcases hphase hrunning with hsecond | hsecond
    · exact hphase' hsecond
    · exact Or.inr (h'.aborted hsecond)

/-- Assumes: a record that holds a transaction. It holds what the transaction becomes. -/
theorem ExecutionRecord.Holds.of_later {record : ExecutionRecord C K} {thread : ℕ}
    {before after : TargetTransaction K} (hholds : record.Holds before)
    (h : before.Later thread after) : record.Holds after := by
  obtain ⟨transactionId, hid⟩ := Option.ne_none_iff_exists'.mp hholds.named
  have hafter := h.transactionId transactionId hid
  exact ⟨by rw [hafter]; exact Option.some_ne_none _,
    (hholds.transactionId.trans hid).trans hafter.symm,
    hholds.targetIdentity.trans (by rw [h.identity])⟩

namespace World

/-- The record of an execution. -/
def record? (world : World C K) (key : Key) : Option (ExecutionRecord C K) :=
  world.repository.executions.lookup key

/-- The record of the execution of a transaction holds it with the catalog it showed, and is not
given up. -/
def Ready (world : World C K) (transaction : TargetTransaction K) : Prop :=
  ∃ record, world.record? transaction.execution = some record ∧ record.Holds transaction ∧
    (∃ result, record.intendedResult = some result ∧
      transaction.catalog = some result.catalog) ∧ ¬ record.Dead

/-- A program read this record once. -/
def Knows (world : World C K) (record : ExecutionRecord C K) : Prop :=
  ∃ current, world.record? record.key = some current ∧ record.Later current

/-- Two plans that agree in everything but their status. -/
def SamePlan (first second : PlanRecord C K) : Prop :=
  ∃ status, second = { first with plan := { first.plan with status := status } }

/-- A program read this plan of an execution once. -/
def KnowsPlan (world : World C K) (record : ExecutionRecord C K) (plan : PlanRecord C K) : Prop :=
  ∃ stored, world.repository.plans.lookup (record.ownerId, record.execution.planId) = some stored ∧
    SamePlan plan stored

end World

/-- The invariant of the world. -/
structure WorldInv (world : World C K) : Prop where
  keyed : ∀ key record, world.record? key = some record → record.key = key
  reserved : ∀ key record, world.record? key = some record →
    record.execution.status = .reserved →
      record.execution.transactionId = none ∧ record.intendedResult = none ∧
        record.execution.commitOutcome = none
  evidence : ∀ key record transactionId, world.record? key = some record →
    record.execution.transactionId = some transactionId →
      transactionId ≠ "" ∧ ∃ (index : ℕ) (transaction : TargetTransaction K),
        world.target[index]? = some transaction ∧ transaction.execution = key ∧
          record.Holds transaction
  started : ∀ key record, world.record? key = some record →
    record.execution.status ≠ .reserved → record.execution.status ≠ .failed →
      record.execution.transactionId ≠ none
  ready : ∀ (index : ℕ) (transaction : TargetTransaction K),
    world.target[index]? = some transaction →
      transaction.phase = .committing ∨ transaction.phase = .committed → world.Ready transaction
  distinct : ∀ (index other : ℕ) (transaction second : TargetTransaction K),
    world.target[index]? = some transaction → world.target[other]? = some second →
      transaction.transactionId ≠ none → transaction.transactionId = second.transactionId →
        transaction.identity = second.identity → index = other
  committed : ∀ key record, world.record? key = some record →
    record.execution.commitOutcome = some .committed →
      ∃ (index : ℕ) (transaction : TargetTransaction K),
        world.target[index]? = some transaction ∧ transaction.execution = key ∧
          record.Holds transaction ∧ transaction.phase = .committed
  succeeded : ∀ key record, world.record? key = some record →
    (record.execution.status = .succeeded ↔ record.execution.commitOutcome = some .committed)
  lease : ∀ key record, world.record? key = some record →
    holdsExecutionLease record.execution.status record.execution.syncStatus = false →
      record.leaseOwner = none
  plans : ∀ key record, world.record? key = some record →
    (record.ownerId, record.execution.planId) ∈ world.repository.executionByPlan ∧
      ∃ plan, world.repository.plans.lookup (record.ownerId, record.execution.planId) =
        some plan ∧ plan.plan.workspaceId = record.execution.workspaceId
  baselineIds : ∀ workspace,
    ((world.repository.baselines workspace).map BaselineRecord.id).Nodup
  marks : ∀ key record, world.record? key = some record →
    world.baselineMarks key ≤ (world.repository.baselines record.workspace).length

/-- What every step keeps of the world, whoever takes it. -/
structure WorldGrowth (before after : World C K) : Prop where
  executions : ∀ key record, before.record? key = some record →
    ∃ later, after.record? key = some later ∧ record.Later later
  plans : ∀ key record plan, before.record? key = some record →
    before.repository.plans.lookup (record.ownerId, record.execution.planId) = some plan →
      ∃ later, after.repository.plans.lookup (record.ownerId, record.execution.planId) =
        some later ∧ World.SamePlan plan later
  baselines : ∀ workspace,
    before.repository.baselines workspace <+: after.repository.baselines workspace
  marks : ∀ key record, before.record? key = some record →
    after.baselineMarks key = before.baselineMarks key

/-- Every transaction stays, and those of a program change only in how the target ends them. -/
def TransactionsKept (thread : ℕ) (before after : World C K) : Prop :=
  ∀ (index : ℕ) (transaction : TargetTransaction K), before.target[index]? = some transaction →
    ∃ later, after.target[index]? = some later ∧ transaction.Later thread later

/-- What a program sees over a time in which it made no call on its own transactions. -/
structure Quiet (thread : ℕ) (before after : World C K) : Prop where
  growth : WorldGrowth before after
  transactions : TransactionsKept thread before after

/-- What a program may rely on while the others act: the world is quiet for it, and an execution
whose running transaction is its own is not given up. -/
structure WorldRely (thread : ℕ) (before after : World C K) : Prop where
  quiet : Quiet thread before after
  alive : ∀ (index : ℕ) (transaction later : TargetTransaction K)
    (record current : ExecutionRecord C K), before.target[index]? = some transaction →
      transaction.thread = thread → after.target[index]? = some later → later.phase = .running →
        before.record? transaction.execution = some record → record.Holds transaction →
          ¬ record.Dead → after.record? transaction.execution = some current → ¬ current.Dead

/-! ### The relations are preorders -/

theorem World.SamePlan.refl (plan : PlanRecord C K) : World.SamePlan plan plan :=
  ⟨plan.plan.status, rfl⟩

theorem World.SamePlan.trans {first second third : PlanRecord C K}
    (h : World.SamePlan first second) (h' : World.SamePlan second third) :
    World.SamePlan first third := by
  obtain ⟨status, rfl⟩ := h
  obtain ⟨status', rfl⟩ := h'
  exact ⟨status', rfl⟩

theorem WorldGrowth.refl (world : World C K) : WorldGrowth world world where
  executions := fun _ record hrecord ↦ ⟨record, hrecord, .refl record⟩
  plans := fun _ _ plan _ hplan ↦ ⟨plan, hplan, .refl plan⟩
  baselines := fun _ ↦ List.prefix_refl _
  marks := fun _ _ _ ↦ rfl

theorem WorldGrowth.trans (h : WorldGrowth first second)
    (h' : WorldGrowth second third) : WorldGrowth first third where
  executions := by
    intro key record hrecord
    obtain ⟨middle, hmiddle, hlater⟩ := h.executions key record hrecord
    obtain ⟨last, hlast, hlater'⟩ := h'.executions key middle hmiddle
    exact ⟨last, hlast, hlater.trans hlater'⟩
  plans := by
    intro key record plan hrecord hplan
    obtain ⟨middle, hmiddle, hlater⟩ := h.executions key record hrecord
    obtain ⟨middlePlan, hmiddlePlan, hsame⟩ := h.plans key record plan hrecord hplan
    rw [← hlater.ownerId, ← hlater.planId] at hmiddlePlan ⊢
    obtain ⟨last, hlast, hsame'⟩ := h'.plans key middle middlePlan hmiddle hmiddlePlan
    exact ⟨last, hlast, hsame.trans hsame'⟩
  baselines := fun workspace ↦ (h.baselines workspace).trans (h'.baselines workspace)
  marks := by
    intro key record hrecord
    obtain ⟨middle, hmiddle, -⟩ := h.executions key record hrecord
    exact (h'.marks key middle hmiddle).trans (h.marks key record hrecord)

theorem TransactionsKept.refl (thread : ℕ) (world : World C K) :
    TransactionsKept thread world world :=
  fun _ transaction hat ↦ ⟨transaction, hat, .refl thread transaction⟩

theorem TransactionsKept.trans {thread : ℕ}
    (h : TransactionsKept thread first second) (h' : TransactionsKept thread second third) :
    TransactionsKept thread first third := by
  intro index transaction hat
  obtain ⟨middle, hmiddle, hlater⟩ := h index transaction hat
  obtain ⟨last, hlast, hlater'⟩ := h' index middle hmiddle
  exact ⟨last, hlast, hlater.trans hlater'⟩

theorem Quiet.refl (thread : ℕ) (world : World C K) : Quiet thread world world :=
  ⟨.refl world, .refl thread world⟩

theorem Quiet.trans {thread : ℕ} (h : Quiet thread first second)
    (h' : Quiet thread second third) : Quiet thread first third :=
  ⟨h.growth.trans h'.growth, h.transactions.trans h'.transactions⟩

theorem WorldRely.refl (thread : ℕ) (world : World C K) : WorldRely thread world world where
  quiet := .refl thread world
  alive := by
    intro index transaction later record current _ _ _ _ hrecord _ halive hcurrent
    rw [hrecord] at hcurrent
    exact Option.some.inj hcurrent ▸ halive

theorem WorldRely.trans {thread : ℕ}
    (h : WorldRely thread first second) (h' : WorldRely thread second third) :
    WorldRely thread first third where
  quiet := h.quiet.trans h'.quiet
  alive := by
    intro index transaction last record current hat hthread hlast hrunning hrecord hholds halive
      hcurrent
    obtain ⟨middle, hmiddle, hlater⟩ := h.quiet.transactions index transaction hat
    obtain ⟨last', hlast', hlater'⟩ := h'.quiet.transactions index middle hmiddle
    obtain rfl : last' = last := Option.some.inj (hlast'.symm.trans hlast)
    obtain ⟨second', hsecond, hrecordLater⟩ := h.quiet.growth.executions _ record hrecord
    have hthread' : middle.thread = thread := hlater.thread_eq.trans hthread
    have hmiddleRunning : middle.phase = .running := hlater'.running hrunning
    have hsecondAlive := h.alive index transaction middle record second' hat hthread hmiddle
      hmiddleRunning hrecord hholds halive hsecond
    have hexecution : middle.execution = transaction.execution := hlater.execution
    exact h'.alive index middle last' second' current hmiddle hthread' hlast hrunning
      (by rw [hexecution]; exact hsecond) ((hrecordLater.holds hholds).of_later hlater)
      hsecondAlive (by rw [hexecution]; exact hcurrent)

end Schemii.Migrations
