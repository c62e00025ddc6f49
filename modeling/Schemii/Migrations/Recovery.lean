import Schemii.Migrations.Answers

/-!
# A manual reconciliation finishes a committed execution

The run of `reconcile` alone, on stores that answer and a target that answers with the identity the
record holds. Whatever state the execution was left in, an execution with a committed transaction is
recorded as committed (`Classified`), and its synchronisation is over when the design store accepts
the content that was migrated. The branches for missing evidence are not reached.
-/

set_option autoImplicit false

namespace Schemii.Migrations

open Foundations Designs

variable {C K : Type}
variable {record : ExecutionRecord C K} {world : World C K} {intended : IntendedResult C K}
  {plan : PlanRecord C K}

/-- The execution is recorded as committed, and its synchronisation is over under a condition. -/
def World.Classified (world : World C K) (key : Key) (condition : Prop) : Prop :=
  ∃ record, world.record? key = some record ∧ record.execution.status = .succeeded ∧
    record.execution.commitOutcome = some .committed ∧
    (condition → record.execution.syncStatus = some .succeeded ∨
      record.execution.syncStatus = some .conflict)

/-- The design store accepts a content where it replaces the design at hand. -/
def World.Accepts (rules : ContentRules C) (world : World C K) (workspace : Key) (content : C) :
    Prop :=
  rules.validateDesignContent content = none ∧ rules.validateDesignTransition
    (DesignRepository.currentDesign rules (world.designs.workspaces workspace)).content content =
      none

section Runs

variable (rules : ContentRules C) (limit : ℕ) (target : TargetAnswers K) (thread : ℕ)
  (coordinator : Coordinator C K)

theorem run_transitionExecution {status : ExecutionStatus}
    (changes : ExecutionChanges C K) (recoverExpired : Bool)
    (hrecord : world.record? record.key = some record)
    (hlegal : status ∈ legalExecutionTransitions record.execution.status) :
    ∃ transition : ExecutionTransition C K, transition.status = status ∧
      transition.changes = changes ∧
      runAlone rules limit target thread
          (coordinator.transitionExecution record status changes recoverExpired) world =
        (.ok (MigrationRepository.revisedExecution record transition),
          world.setRecord record.key
            (MigrationRepository.revisedExecution record transition)) := by
  -- The lease that the coordinator asks for, and what it reads for it, do not matter.
  have hrun : ∃ transition : ExecutionTransition C K, transition.status = status ∧
      transition.changes = changes ∧
      transition.expectedRevision = record.execution.revision ∧
      transition.allowedFrom = [record.execution.status] ∧
      (record.leaseOwner ≠ none → transition.leaseOwner = record.leaseOwner) ∧
      (holdsExecutionLease status (changes.syncStatus.getD record.execution.syncStatus) = true →
        transition.leaseOwner ≠ none ∧ transition.leaseExpiresAt ≠ none) ∧
      runAlone rules limit target thread
          (coordinator.transitionExecution record status changes recoverExpired) world =
        runAlone rules limit target thread
          (askOr serviceFailure (ask (.transitionExecution record.key transition))) world := by
    unfold Coordinator.transitionExecution Coordinator.leaseOwnerFor Coordinator.leaseDeadlineFor
      Coordinator.recoveryTime
    dsimp only
    cases hretains : holdsExecutionLease status
        (changes.syncStatus.getD record.execution.syncStatus) with
    | false =>
      cases recoverExpired <;>
        exact ⟨_, rfl, rfl, rfl, rfl, fun _ ↦ rfl, fun hcase ↦ (nomatch hcase), rfl⟩
    | true =>
      cases howner : record.leaseOwner with
      | none =>
        cases recoverExpired <;>
          exact ⟨_, rfl, rfl, rfl, rfl, fun hcase ↦ absurd rfl hcase,
            fun _ ↦ ⟨Option.some_ne_none _, Option.some_ne_none _⟩, rfl⟩
      | some owner =>
        cases recoverExpired <;>
          exact ⟨_, rfl, rfl, rfl, rfl, fun _ ↦ rfl,
            fun _ ↦ ⟨Option.some_ne_none _, Option.some_ne_none _⟩, rfl⟩
  obtain ⟨transition, hstatus, hchanges, hrevision, hallowed, howner, hlease, hrun⟩ := hrun
  refine ⟨transition, hstatus, hchanges, hrun.trans ?_⟩
  have hgranted : world.repository.transitionExecution record.key transition =
      (.ok (MigrationRepository.revisedExecution record transition), { world.repository with
        executions := world.repository.executions.insert record.key
          (MigrationRepository.revisedExecution record transition) }) := by
    have hvalid : validateExecutionTransition record.execution transition.expectedRevision
        transition.allowedFrom transition.status = none := by
      unfold validateExecutionTransition
      rw [hrevision, hallowed, hstatus, if_neg (fun hne ↦ hne rfl), if_neg]
      rintro (hfrom | hto)
      · exact hfrom List.mem_cons_self
      · exact hto hlegal
    have hunfenced : MigrationRepository.leaseFences record transition = false := by
      unfold MigrationRepository.leaseFences
      rw [decide_eq_false_iff_not]
      rintro ⟨hleased, hother, -⟩
      exact hother (howner hleased)
    have hleased : ¬ (holdsExecutionLease transition.status
        (transition.changes.syncStatus.getD record.execution.syncStatus) = true ∧
          (transition.leaseOwner = none ∨ transition.leaseExpiresAt = none)) := by
      rw [hstatus, hchanges]
      rintro ⟨hholds, hnone | hnone⟩
      · exact (hlease hholds).1 hnone
      · exact (hlease hholds).2 hnone
    unfold MigrationRepository.transitionExecution
    have hlookup : world.repository.executions.lookup record.key = some record := hrecord
    simp only [hlookup, hvalid, hunfenced, Bool.false_eq_true, if_false, if_neg hleased]
  have hask : runAlone rules limit target thread
      (ask (.transitionExecution record.key transition)) world =
        (.ok (world.withRepository
          (world.repository.transitionExecution record.key transition)).1, (world.withRepository
          (world.repository.transitionExecution record.key transition)).2) := rfl
  rw [runAlone_askOr, hask, World.withRepository, hgranted]
  rfl

/-- A transition to `succeeded` alone. Assumes: a stored record that is recorded as committed, and
changes that keep the outcome and end the synchronisation. -/
theorem classified_transition {changes : ExecutionChanges C K}
    {recoverExpired : Bool} {sync : SyncStatus} {condition : Prop}
    (hrecord : world.record? record.key = some record)
    (hstatus : record.execution.status = .succeeded)
    (houtcome : changes.commitOutcome = some (some .committed))
    (hsync : changes.syncStatus = some (some sync)) (hover : sync = .succeeded ∨ sync = .conflict) :
    (runAlone rules limit target thread
      (do
        let revised ← coordinator.transitionExecution record .succeeded changes recoverExpired
        pure revised.execution) world).2.Classified record.key condition := by
  have hlegal : ExecutionStatus.succeeded ∈ legalExecutionTransitions record.execution.status := by
    rw [hstatus]
    exact List.mem_cons_self
  obtain ⟨transition, hto, hchanges, hrun⟩ := run_transitionExecution rules limit target thread
    coordinator changes recoverExpired hrecord hlegal
  rw [runAlone_bind, hrun]
  refine ⟨_, World.record?_setRecord_self _ _ _, hto, ?_, fun _ ↦ ?_⟩
  · show transition.changes.commitOutcome.getD record.execution.commitOutcome = some .committed
    rw [hchanges, houtcome]
    rfl
  · have hrevised : (MigrationRepository.revisedExecution record transition).execution.syncStatus =
        some sync := by
      show transition.changes.syncStatus.getD record.execution.syncStatus = some sync
      rw [hchanges, hsync]
      rfl
    rw [hrevised]
    rcases hover with rfl | rfl
    · exact Or.inl rfl
    · exact Or.inr rfl

theorem classified_settleSync {workspace : Key} {designConflict : Bool} {condition : Prop}
    (hrecord : world.record? record.key = some record)
    (hstatus : record.execution.status = .succeeded) :
    (runAlone rules limit target thread
      (coordinator.settleSync record intended workspace designConflict) world).2.Classified
        record.key condition := by
  unfold Coordinator.settleSync designOf
  rw [runAlone_bind, runAlone_askOr, runAlone_ask]
  dsimp only [answer]
  split_ifs with hconflict
  · exact classified_transition rules limit target thread coordinator hrecord hstatus rfl rfl (Or.inr rfl)
  · exact classified_transition rules limit target thread coordinator hrecord hstatus rfl rfl (Or.inl rfl)

/-- Recording the baseline alone. Assumes: a stored record that is recorded as committed. -/
theorem classified_syncBaseline {ownerId : String} {designRevision : ℕ}
    {designConflict : Bool} {condition : Prop} (hrecord : world.record? record.key = some record)
    (hstatus : record.execution.status = .succeeded) :
    (runAlone rules limit target thread (coordinator.syncBaseline ownerId plan record intended
      designRevision designConflict) world).2.Classified record.key condition := by
  unfold Coordinator.syncBaseline
  rw [runAlone_bind, runAlone_askOr, runAlone_ask]
  dsimp only [answer]
  split
  · exact classified_settleSync rules limit target thread coordinator hrecord hstatus
  · generalize hvalues : (BaselineCreate.mk ownerId plan.plan.workspaceId _ _ _ _ _ _ _ _ _ _ _ _
      _ : BaselineCreate C K) = values
    have hcurrent : values.expectedPredecessorId = (world.repository.currentBaseline
        (values.ownerId, values.workspaceId)).map BaselineRecord.id := by
      rw [← hvalues]
    obtain ⟨baseline, hcreated⟩ := world.repository.createBaseline_granted
      (freshName world.repository.baselineIds) hcurrent
    rw [runAlone_bind, runAlone_ask]
    dsimp only [answer, World.withRepository]
    rw [hcreated]
    exact classified_settleSync rules limit target thread coordinator hrecord hstatus

/-- Synchronising alone. Assumes: a stored record that is recorded as committed, with its intended
result. It is over when the design store accepts the content. -/
theorem classified_syncCommitted {ownerId : String}
    (hrecord : world.record? record.key = some record)
    (hstatus : record.execution.status = .succeeded)
    (houtcome : record.execution.commitOutcome = some .committed)
    (hintended : record.intendedResult = some intended) :
    (runAlone rules limit target thread (coordinator.syncCommitted ownerId plan record)
      world).2.Classified record.key
        (world.Accepts rules (ownerId, plan.plan.workspaceId) intended.content) := by
  unfold Coordinator.syncCommitted
  rw [hintended]
  dsimp only
  unfold designOf
  rw [runAlone_bind, runAlone_askOr, runAlone_ask]
  dsimp only [answer]
  split_ifs with hsynced hchanged
  · exact classified_syncBaseline rules limit target thread coordinator hrecord hstatus
  · exact classified_syncBaseline rules limit target thread coordinator hrecord hstatus
  rw [runAlone_bind, runAlone_ask]
  dsimp only [answer, World.replaceDesign]
  generalize hreplaced : DesignRepository.replace rules limit world.designs
    (ownerId, plan.plan.workspaceId) false _ _ = replaced
  obtain ⟨error | design, designs⟩ := replaced
  · -- A refusal other than a newer revision leaves the synchronisation pending.
    have hrefused : world.Accepts rules (ownerId, plan.plan.workspaceId) intended.content →
        False := by
      rintro ⟨hvalid, htransition⟩
      obtain ⟨design, after, hok⟩ := replace_checkpoint_ok rules limit world.designs
        (ownerId, plan.plan.workspaceId) ⟨_, intended.content, none⟩ hvalid htransition rfl
      rw [hok] at hreplaced
      exact nomatch (Prod.mk.inj hreplaced).1
    dsimp only
    cases hfailure : MigrationRepository.designFailure error with
    | designConflict revision =>
      exact classified_syncBaseline rules limit target thread coordinator hrecord hstatus
    | _ => exact ⟨record, hrecord, hstatus, houtcome, fun haccepts ↦ (hrefused haccepts).elim⟩
  · exact classified_syncBaseline rules limit target thread coordinator hrecord hstatus

/-- A recovery alone. Assumes: the invariant, the stored record of an execution that is not recorded
as committed but has a committed transaction, and a connection that leads to its target. -/
theorem classified_reconcileTransaction {index : ℕ}
    {transaction : TargetTransaction K} {transactionId : String} {automatic : Bool}
    {connection : Connection}
    (h : WorldInv world) (hrecord : world.record? record.key = some record)
    (hat : world.target[index]? = some transaction) (hphase : transaction.phase = .committed)
    (hholds : record.Holds transaction) (hintended : record.intendedResult = some intended)
    (hid : record.execution.transactionId = some transactionId)
    (hlegal : .succeeded ∈ legalExecutionTransitions record.execution.status)
    (hconnection : world.connections (record.ownerId, plan.authority.connectionId) =
      some connection)
    (howner : connection.ownerId.getD record.ownerId =
      plan.authority.connectionOwnerId.getD record.ownerId)
    (htarget : target.identity = transaction.identity) :
    (runAlone rules limit target thread (coordinator.reconcileTransaction record.ownerId plan record
      transactionId automatic) world).2.Classified record.key
        (world.Accepts rules (record.ownerId, plan.plan.workspaceId) intended.content) := by
  have hstatus : world.statusOf target.identity transactionId = .committed := by
    rw [htarget, h.statusOf_eq (List.mem_of_getElem? hat) (hholds.transactionId.symm.trans hid),
      hphase]
    rfl
  unfold Coordinator.reconcileTransaction
  rw [runAlone_bind, runAlone_ask]
  dsimp only [answer]
  rw [if_pos rfl, runAlone_bind, runAlone_ask]
  dsimp only [answer]
  rw [hconnection]
  dsimp only
  rw [if_neg (fun hne ↦ hne howner), runAlone_bind, runAlone_ask]
  dsimp only [answer]
  rw [hstatus]
  unfold Coordinator.classifyTransaction
  rw [if_neg (fun hne ↦ hne (by rw [htarget]; exact hholds.targetIdentity))]
  dsimp only
  obtain ⟨transition, hto, hchanges, hrun⟩ := run_transitionExecution rules limit target thread
    coordinator
    { commitOutcome := some (some .committed)
      syncStatus := some (some .pending)
      errorCode := some none
      errorDetail := some none } (¬ automatic) hrecord hlegal
  rw [runAlone_bind, hrun]
  dsimp only
  have hstored : (world.setRecord record.key
      (MigrationRepository.revisedExecution record transition)).record?
        (MigrationRepository.revisedExecution record transition).key =
      some (MigrationRepository.revisedExecution record transition) :=
    world.record?_setRecord_self record.key _
  refine classified_syncCommitted rules limit target thread coordinator hstored hto ?_ ?_
  · show transition.changes.commitOutcome.getD record.execution.commitOutcome = some .committed
    rw [hchanges]
    rfl
  · show transition.changes.intendedResult.getD record.intendedResult = some intended
    rw [hchanges]
    exact hintended

/-- A manual reconciliation alone. Assumes: the invariant, the stored record of an execution with a
committed transaction, a lease that is over, the plan, and a connection that leads to the target of
the transaction. The execution is recorded as committed. -/
theorem classified_reconcile {index : ℕ}
    {transaction : TargetTransaction K} {connection : Connection}
    (h : WorldInv world) (hrecord : world.record? record.key = some record)
    (hat : world.target[index]? = some transaction) (hexecution : transaction.execution = record.key)
    (hphase : transaction.phase = .committed)
    (hexpired : ¬ (record.leaseOwner ≠ none ∧ ∃ expiry ∈ record.leaseExpiresAt,
      world.clock < expiry))
    (hplan : world.repository.plans.lookup (record.ownerId, record.execution.planId) = some plan)
    (hconnection : world.connections (record.ownerId, plan.authority.connectionId) =
      some connection)
    (howner : connection.ownerId.getD record.ownerId =
      plan.authority.connectionOwnerId.getD record.ownerId)
    (htarget : target.identity = transaction.identity) :
    (runAlone rules limit target thread (coordinator.reconcile record.ownerId record.execution.id
      record.execution.revision) world).2.Classified record.key
        (∀ intended, record.intendedResult = some intended →
          world.Accepts rules (record.ownerId, plan.plan.workspaceId) intended.content) := by
  obtain ⟨holder, hholder, hholds, ⟨intended, hintended, -⟩, halive⟩ :=
    h.ready index transaction hat (Or.inr hphase)
  rw [hexecution, hrecord] at hholder
  obtain rfl := Option.some.inj hholder
  have hweaker : ∀ {after : World C K}, after.Classified record.key
      (world.Accepts rules (record.ownerId, plan.plan.workspaceId) intended.content) →
        after.Classified record.key (∀ intended, record.intendedResult = some intended →
          world.Accepts rules (record.ownerId, plan.plan.workspaceId) intended.content) := by
    rintro after ⟨found, hfound, hstatus, houtcome, hover⟩
    exact ⟨found, hfound, hstatus, houtcome, fun hall ↦ hover (hall intended hintended)⟩
  have hexecutionRun : runAlone rules limit target thread
      (executionOf (record.ownerId, record.execution.id)) world = (.ok record, world) := by
    unfold executionOf
    rw [runAlone_askOr, runAlone_ask]
    dsimp only [answer]
    unfold MigrationRepository.getExecution
    have hlookup : world.repository.executions.lookup (record.ownerId, record.execution.id) =
        some record := hrecord
    rw [hlookup]
  have hplanRun : runAlone rules limit target thread
      (planOf (record.ownerId, record.execution.planId)) world = (.ok plan, world) := by
    unfold planOf
    rw [runAlone_askOr, runAlone_ask]
    dsimp only [answer]
    unfold MigrationRepository.getPlan
    rw [hplan]
  unfold Coordinator.reconcile
  rw [runAlone_bind, hexecutionRun]
  dsimp only
  rw [if_neg (fun hne ↦ hne rfl), runAlone_bind, runAlone_ask]
  dsimp only [answer]
  rw [if_neg hexpired]
  by_cases hcommitted : record.execution.commitOutcome = some .committed
  · rw [if_pos hcommitted, runAlone_bind, hplanRun]
    exact hweaker (classified_syncCommitted rules limit target thread coordinator hrecord
      ((h.succeeded _ record hrecord).mpr hcommitted) hcommitted hintended)
  · have hactive : ¬ record.execution.status ∉ activeExecutionStatuses := by
      intro hsettled
      cases hstatus : record.execution.status with
      | succeeded => exact hcommitted ((h.succeeded _ record hrecord).mp hstatus)
      | failed => exact halive (Or.inl hstatus)
      | _ => simp [hstatus, activeExecutionStatuses] at hsettled
    obtain ⟨transactionId, hid⟩ := Option.ne_none_iff_exists'.mp hholds.named
    have hrecorded : record.execution.transactionId = some transactionId :=
      hholds.transactionId.trans hid
    have hnonempty : ¬ record.execution.transactionId.getD "" = "" := by
      rw [hrecorded]
      exact (h.evidence _ record transactionId hrecord hrecorded).1
    rw [if_neg hcommitted, if_neg hactive, if_neg hnonempty, runAlone_bind, hplanRun]
    refine hweaker (classified_reconcileTransaction rules limit target thread coordinator h hrecord
      hat hphase hholds hintended ?_ ?_ hconnection howner htarget)
    · rw [hrecorded]
      rfl
    · cases hstatus : record.execution.status with
      | reserved =>
        have hnone := (h.reserved _ record hrecord hstatus).1
        rw [hrecorded] at hnone
        cases hnone
      | failed => exact absurd (Or.inl hstatus) halive
      | _ => simp [legalExecutionTransitions]

end Runs

end Schemii.Migrations
