import Schemii.Migrations.GatewaySafety

/-!
# Licensed transitions revise records

A record of the repository is replaced only by a later one. `Revises` collects what the invariant of
the world asks of the new record, and `WorldInv.setRecord` and `WorldInv.rely_setRecord` say that it
is enough: a record is given up only when the transaction it holds is aborted, or is the running one
of the program that gives it up.

A transition that the repository grants at the revision its caller read finds the record the caller
read, so the licence of the caller is about the stored record (`WorldInv.revises_of_licence`). The
claims and renewals of leases leave everything else as it is (`WorldInv.revises_lease`).
-/

set_option autoImplicit false

namespace Schemii.Migrations

open Foundations Designs

variable {C K : Type}
variable {current : ExecutionRecord C K} {world : World C K} {transition : ExecutionTransition C K}

/-! ### Parts of the world that do not matter -/

/-- Assumes: two worlds that agree in the repository, the target and the marks. The invariant
carries over. -/
theorem WorldInv.congr {before after : World C K} (h : WorldInv before)
    (hrepository : after.repository = before.repository) (htarget : after.target = before.target)
    (hmarks : after.baselineMarks = before.baselineMarks) : WorldInv after := by
  obtain ⟨clock, repository, designs, workspaces, connections, target, marks, journal⟩ := after
  dsimp only at hrepository htarget hmarks
  subst hrepository htarget hmarks
  exact ⟨h.keyed, h.reserved, h.evidence, h.started, h.ready, h.distinct, h.committed, h.succeeded,
    h.lease, h.plans, h.baselineIds, h.marks⟩

variable {thread : ℕ}

/-- Assumes: two worlds that agree in the repository, the target and the marks. Nothing a program
relies on changed. -/
theorem WorldRely.congr {before after : World C K}
    (hrepository : after.repository = before.repository) (htarget : after.target = before.target)
    (hmarks : after.baselineMarks = before.baselineMarks) : WorldRely thread before after := by
  obtain ⟨clock, repository, designs, workspaces, connections, target, marks, journal⟩ := after
  dsimp only at hrepository htarget hmarks
  subst hrepository htarget hmarks
  have h := WorldRely.refl thread before
  exact ⟨⟨⟨h.quiet.growth.executions, h.quiet.growth.plans, h.quiet.growth.baselines,
    h.quiet.growth.marks⟩, h.quiet.transactions⟩, h.alive⟩

/-! ### Records -/

/-- A world with another record under a key. -/
def World.setRecord (world : World C K) (key : Key) (record : ExecutionRecord C K) : World C K :=
  { world with repository := { world.repository with
      executions := world.repository.executions.insert key record } }

theorem World.record?_setRecord_self (world : World C K) (key : Key)
    (record : ExecutionRecord C K) : (world.setRecord key record).record? key = some record :=
  AList.lookup_insert _

theorem World.record?_setRecord_of_ne (world : World C K) {key other : Key}
    (record : ExecutionRecord C K) (h : other ≠ key) :
    (world.setRecord key record).record? other = world.record? other :=
  AList.lookup_insert_ne h

/-- What a program may make of a record. -/
structure Revises (thread : ℕ) (world : World C K) (current next : ExecutionRecord C K) : Prop where
  later : current.Later next
  reserved : next.execution.status = .reserved →
    next.execution.transactionId = none ∧ next.intendedResult = none ∧
      next.execution.commitOutcome = none
  evidence : ∀ transactionId, next.execution.transactionId = some transactionId →
    transactionId ≠ "" ∧ ∃ (index : ℕ) (transaction : TargetTransaction K),
      world.target[index]? = some transaction ∧ transaction.execution = current.key ∧
        next.Holds transaction
  started : next.execution.status ≠ .reserved → next.execution.status ≠ .failed →
    next.execution.transactionId ≠ none
  committed : next.execution.commitOutcome = some .committed →
    ∃ (index : ℕ) (transaction : TargetTransaction K), world.target[index]? = some transaction ∧
      transaction.execution = current.key ∧ next.Holds transaction ∧ transaction.phase = .committed
  succeeded : next.execution.status = .succeeded ↔ next.execution.commitOutcome = some .committed
  lease : holdsExecutionLease next.execution.status next.execution.syncStatus = false →
    next.leaseOwner = none
  dead : next.Dead → current.Dead ∨ world.GaveUp thread current

variable {record : ExecutionRecord C K}

/-- Assumes: the invariant, a record that was given up, and a transaction it holds. The transaction
is aborted, or it is running and the program's own. -/
theorem WorldInv.phase_of_gaveUp {thread index : ℕ} (h : WorldInv world)
    {transaction : TargetTransaction K}
    (hgaveUp : world.GaveUp thread record) (hat : world.target[index]? = some transaction)
    (hholds : record.Holds transaction) :
    transaction.phase = .aborted ∨ transaction.phase = .running ∧ transaction.thread = thread := by
  rcases hgaveUp with hnone | ⟨other, found, hfound, -, hfoundHolds, hphase⟩
  · exact absurd (hholds.transactionId.symm.trans hnone) hholds.named
  · have hsame : index = other := by
      refine h.distinct index other transaction found hat hfound hholds.named
        (hholds.transactionId.symm.trans hfoundHolds.transactionId) ?_
      exact Option.some.inj (hholds.targetIdentity.symm.trans hfoundHolds.targetIdentity)
    subst hsame
    obtain rfl : found = transaction := Option.some.inj (hfound.symm.trans hat)
    exact hphase

variable {key : Key}

/-- Assumes: the invariant, a stored record and what it is replaced by. The invariant holds with the
new record. -/
theorem WorldInv.setRecord (h : WorldInv world)
    {next : ExecutionRecord C K} (hcurrent : world.record? key = some current)
    (hrevises : Revises thread world current next) : WorldInv (world.setRecord key next) := by
  have hkey : current.key = key := h.keyed key current hcurrent
  have hlookup : ∀ {other : Key} {record : ExecutionRecord C K},
      (world.setRecord key next).record? other = some record →
        (other = key ∧ record = next) ∨ world.record? other = some record := by
    intro other record hrecord
    by_cases hother : other = key
    · subst hother
      rw [World.record?_setRecord_self] at hrecord
      exact Or.inl ⟨rfl, (Option.some.inj hrecord).symm⟩
    · rw [World.record?_setRecord_of_ne world next hother] at hrecord
      exact Or.inr hrecord
  refine
    { keyed := ?_, reserved := ?_, evidence := ?_, started := ?_, ready := ?_,
      distinct := h.distinct, committed := ?_, succeeded := ?_, lease := ?_, plans := ?_,
      baselineIds := h.baselineIds, marks := ?_ }
  · intro other record hrecord
    rcases hlookup hrecord with ⟨rfl, rfl⟩ | hold
    · exact hrevises.later.key.trans hkey
    · exact h.keyed other record hold
  · intro other record hrecord
    rcases hlookup hrecord with ⟨rfl, rfl⟩ | hold
    · exact hrevises.reserved
    · exact h.reserved other record hold
  · intro other record transactionId hrecord
    rcases hlookup hrecord with ⟨rfl, rfl⟩ | hold
    · rw [← hkey]
      exact hrevises.evidence transactionId
    · exact h.evidence other record transactionId hold
  · intro other record hrecord
    rcases hlookup hrecord with ⟨rfl, rfl⟩ | hold
    · exact hrevises.started
    · exact h.started other record hold
  · intro index transaction hat hphase
    obtain ⟨record, hrecord, hholds, ⟨result, hresult, hcatalog⟩, halive⟩ :=
      h.ready index transaction hat hphase
    by_cases hother : transaction.execution = key
    · rw [hother, hcurrent] at hrecord
      obtain rfl := Option.some.inj hrecord
      refine ⟨next, ?_, hrevises.later.holds hholds,
        ⟨result, hrevises.later.intended result hresult, hcatalog⟩, fun hdead ↦ ?_⟩
      · rw [hother]
        exact World.record?_setRecord_self world key next
      · rcases hrevises.dead hdead with hcurrentDead | hgaveUp
        · exact halive hcurrentDead
        · rcases h.phase_of_gaveUp hgaveUp hat hholds with haborted | ⟨hrunning, -⟩
          · rw [haborted] at hphase
            exact hphase.elim (fun hcase ↦ nomatch hcase) fun hcase ↦ nomatch hcase
          · rw [hrunning] at hphase
            exact hphase.elim (fun hcase ↦ nomatch hcase) fun hcase ↦ nomatch hcase
    · refine ⟨record, ?_, hholds, ⟨result, hresult, hcatalog⟩, halive⟩
      rw [World.record?_setRecord_of_ne world next hother]
      exact hrecord
  · intro other record hrecord
    rcases hlookup hrecord with ⟨rfl, rfl⟩ | hold
    · rw [← hkey]
      exact hrevises.committed
    · exact h.committed other record hold
  · intro other record hrecord
    rcases hlookup hrecord with ⟨rfl, rfl⟩ | hold
    · exact hrevises.succeeded
    · exact h.succeeded other record hold
  · intro other record hrecord
    rcases hlookup hrecord with ⟨rfl, rfl⟩ | hold
    · exact hrevises.lease
    · exact h.lease other record hold
  · intro other record hrecord
    rcases hlookup hrecord with ⟨rfl, rfl⟩ | hold
    · rw [hrevises.later.ownerId, hrevises.later.planId, hrevises.later.workspaceId]
      exact h.plans other current hcurrent
    · exact h.plans other record hold
  · intro other record hrecord
    rcases hlookup hrecord with ⟨rfl, rfl⟩ | hold
    · rw [hrevises.later.workspace_eq]
      exact h.marks other current hcurrent
    · exact h.marks other record hold

/-- Assumes: the invariant, a stored record and what another program replaces it by. Whatever a
program relies on is kept. -/
theorem WorldInv.rely_setRecord {thread other : ℕ} (h : WorldInv world)
    {next : ExecutionRecord C K} (hcurrent : world.record? key = some current)
    (hrevises : Revises thread world current next) (hother : other ≠ thread) :
    WorldRely other world (world.setRecord key next) where
  quiet :=
    { growth :=
        { executions := by
            intro found record hrecord
            by_cases hsame : found = key
            · subst hsame
              obtain rfl : record = current := Option.some.inj (hrecord.symm.trans hcurrent)
              exact ⟨next, World.record?_setRecord_self world found next, hrevises.later⟩
            · refine ⟨record, ?_, .refl record⟩
              rw [World.record?_setRecord_of_ne world next hsame]
              exact hrecord
          plans := fun _ _ plan _ hplan ↦ ⟨plan, hplan, .refl plan⟩
          baselines := fun _ ↦ List.prefix_refl _
          marks := fun _ _ _ ↦ rfl }
      transactions := .refl other world }
  alive := by
    intro index transaction later record found hat hthread hlater hrunning hrecord hholds halive
      hfound
    obtain rfl : later = transaction := Option.some.inj (hlater.symm.trans hat)
    by_cases hsame : later.execution = key
    · rw [hsame] at hrecord hfound
      obtain rfl : record = current := Option.some.inj (hrecord.symm.trans hcurrent)
      rw [World.record?_setRecord_self] at hfound
      obtain rfl := Option.some.inj hfound
      intro hdead
      rcases hrevises.dead hdead with hcurrentDead | hgaveUp
      · exact halive hcurrentDead
      · rcases h.phase_of_gaveUp hgaveUp hat hholds with haborted | ⟨-, hown⟩
        · rw [haborted] at hrunning
          exact nomatch hrunning
        · exact hother (hthread.symm.trans hown)
    · rw [World.record?_setRecord_of_ne world next hsame, hrecord] at hfound
      exact Option.some.inj hfound ▸ halive

/-! ### Transitions -/

/-- No transition leads to `reserved`. -/
theorem not_reserved_of_legal {first second : ExecutionStatus}
    (h : second ∈ legalExecutionTransitions first) : second ≠ .reserved := by
  cases first <;> simp only [legalExecutionTransitions, List.mem_cons, List.not_mem_nil,
    or_false] at h <;> rintro rfl <;> simp at h

/-- No transition leaves `failed`. -/
theorem not_failed_of_legal {first second : ExecutionStatus}
    (h : second ∈ legalExecutionTransitions first) : first ≠ .failed := by
  rintro rfl
  exact nomatch h

/-- The transitions from `succeeded`. -/
theorem legal_of_succeeded {status : ExecutionStatus}
    (h : status ∈ legalExecutionTransitions .succeeded) :
    status = .succeeded ∨ status = .reconciliationRequired := by
  simpa [legalExecutionTransitions] using h

/-- Assumes: an execution that is settled. It failed, or it succeeded, and its synchronisation is
over where it is recorded as committed. -/
theorem ExecutionRecord.settled_cases (h : record.blocksWorkspaceLifecycle = false) :
    record.execution.status = .failed ∨ record.execution.status = .succeeded ∧
      (record.execution.commitOutcome = some .committed →
        holdsExecutionLease .succeeded record.execution.syncStatus = false) := by
  unfold ExecutionRecord.blocksWorkspaceLifecycle at h
  simp only [decide_eq_false_iff_not, not_or, not_and] at h
  obtain ⟨hactive, hsync⟩ := h
  cases hstatus : record.execution.status with
  | failed => exact Or.inl rfl
  | succeeded =>
    refine Or.inr ⟨rfl, fun hcommitted ↦ ?_⟩
    simpa [holdsExecutionLease] using hsync hstatus hcommitted
  | _ => simp [hstatus, activeExecutionStatuses] at hactive

/-- Assumes: the invariant, and a granted transition of a stored record that does not lose its
evidence, with what the new record says. It revises the record. -/
theorem revises_revised
    (hlegal : transition.status ∈ legalExecutionTransitions current.execution.status)
    (hkept : ∀ transactionId, current.execution.transactionId = some transactionId →
      transition.changes.transactionId.getD current.execution.transactionId = some transactionId ∧
        transition.changes.targetIdentity.getD current.targetIdentity = current.targetIdentity)
    (hintended : ∀ result, current.intendedResult = some result →
      transition.changes.intendedResult.getD current.intendedResult = some result)
    (hsettled : current.blocksWorkspaceLifecycle = false →
      (MigrationRepository.revisedExecution current transition).blocksWorkspaceLifecycle = false)
    (hstays : current.execution.commitOutcome = some .committed →
      transition.changes.commitOutcome.getD current.execution.commitOutcome = some .committed)
    (hevidence : ∀ transactionId,
      transition.changes.transactionId.getD current.execution.transactionId =
        some transactionId → transactionId ≠ "" ∧ ∃ (index : ℕ)
          (transaction : TargetTransaction K), world.target[index]? = some transaction ∧
            transaction.execution = current.key ∧
            (MigrationRepository.revisedExecution current transition).Holds transaction)
    (hstarted : transition.status ≠ .failed →
      transition.changes.transactionId.getD current.execution.transactionId ≠ none)
    (hcommitted : transition.changes.commitOutcome.getD current.execution.commitOutcome =
      some .committed → ∃ (index : ℕ) (transaction : TargetTransaction K),
        world.target[index]? = some transaction ∧ transaction.execution = current.key ∧
        (MigrationRepository.revisedExecution current transition).Holds transaction ∧
        transaction.phase = .committed)
    (hsucceeded : transition.status = .succeeded ↔
      transition.changes.commitOutcome.getD current.execution.commitOutcome = some .committed)
    (hdead : transition.status = .failed ∨
      transition.changes.commitOutcome.getD current.execution.commitOutcome = some .rolledBack →
        current.Dead ∨ world.GaveUp thread current) :
    Revises thread world current (MigrationRepository.revisedExecution current transition) where
  later :=
    { ownerId := rfl
      id := rfl
      planId := rfl
      workspaceId := rfl
      revision := Nat.le_succ _
      same := fun hsame ↦ absurd hsame (Nat.succ_ne_self _)
      evidence := hkept
      intended := hintended
      reserved := fun hreserved ↦ absurd hreserved (not_reserved_of_legal hlegal)
      settled := hsettled
      committed := hstays }
  reserved := fun hreserved ↦ absurd hreserved (not_reserved_of_legal hlegal)
  evidence := hevidence
  started := fun _ hfailed ↦ hstarted hfailed
  committed := hcommitted
  succeeded := hsucceeded
  lease := by
    intro hlease
    have hreleased : holdsExecutionLease transition.status
        (transition.changes.syncStatus.getD current.execution.syncStatus) = false := hlease
    show (if holdsExecutionLease transition.status
      (transition.changes.syncStatus.getD current.execution.syncStatus) then transition.leaseOwner
      else none) = none
    rw [hreleased]
    rfl
  dead := hdead

/-- Assumes: the invariant, and a granted transition of a stored record that leaves its evidence as
it is. It revises the record. -/
theorem WorldInv.revises_kept (h : WorldInv world) (hcurrent : world.record? key = some current)
    (hlegal : transition.status ∈ legalExecutionTransitions current.execution.status)
    (hkeeps : transition.changes.KeepsEvidence current)
    (hsettled : current.blocksWorkspaceLifecycle = false →
      (MigrationRepository.revisedExecution current transition).blocksWorkspaceLifecycle = false)
    (hstays : current.execution.commitOutcome = some .committed →
      transition.changes.commitOutcome.getD current.execution.commitOutcome = some .committed)
    (hreserved : transition.status ≠ .failed → current.execution.status ≠ .reserved)
    (hcommitted : transition.changes.commitOutcome.getD current.execution.commitOutcome =
      some .committed → world.Committed current)
    (hsucceeded : transition.status = .succeeded ↔
      transition.changes.commitOutcome.getD current.execution.commitOutcome = some .committed)
    (hdead : transition.status = .failed ∨
      transition.changes.commitOutcome.getD current.execution.commitOutcome = some .rolledBack →
        current.Dead ∨ world.GaveUp thread current) :
    Revises thread world current (MigrationRepository.revisedExecution current transition) := by
  have hkey := h.keyed key current hcurrent
  have hholds : ∀ transaction : TargetTransaction K, current.Holds transaction →
      (MigrationRepository.revisedExecution current transition).Holds transaction :=
    fun transaction hheld ↦ ⟨hheld.named, hkeeps.transactionId.trans hheld.transactionId,
      hkeeps.targetIdentity.trans hheld.targetIdentity⟩
  refine revises_revised hlegal ?_ ?_ hsettled hstays ?_ ?_ ?_ hsucceeded hdead
  · intro transactionId hid
    exact ⟨hkeeps.transactionId.trans hid, hkeeps.targetIdentity⟩
  · intro result hresult
    exact hkeeps.intendedResult.trans hresult
  · intro transactionId hid
    obtain ⟨hne, index, transaction, hat, hexecution, hheld⟩ :=
      h.evidence key current transactionId hcurrent (hkeeps.transactionId.symm.trans hid)
    exact ⟨hne, index, transaction, hat, hexecution.trans hkey.symm, hholds transaction hheld⟩
  · intro hfailed
    rw [hkeeps.transactionId]
    exact h.started key current hcurrent (hreserved hfailed) (not_failed_of_legal hlegal)
  · intro houtcome
    obtain ⟨index, transaction, hat, hexecution, hheld, hphase⟩ := hcommitted houtcome
    exact ⟨index, transaction, hat, hexecution, hholds transaction hheld, hphase⟩

/-- Assumes: a granted transition to `succeeded` with a synchronisation status that is over. The
record is settled. -/
theorem settled_of_sync {sync : SyncStatus} (hstatus : transition.status = .succeeded)
    (hsync : transition.changes.syncStatus = some (some sync))
    (hover : sync = .succeeded ∨ sync = .conflict) :
    (MigrationRepository.revisedExecution current transition).blocksWorkspaceLifecycle = false := by
  have hrevised : (MigrationRepository.revisedExecution current transition).execution.status =
      .succeeded := hstatus
  have hrevisedSync :
      (MigrationRepository.revisedExecution current transition).execution.syncStatus =
        some sync := by
    show transition.changes.syncStatus.getD current.execution.syncStatus = some sync
    rw [hsync]
    rfl
  unfold ExecutionRecord.blocksWorkspaceLifecycle
  rw [hrevised, hrevisedSync]
  rcases hover with rfl | rfl <;> simp [activeExecutionStatuses]

/-- Assumes: an execution that is not recorded as committed but succeeded. There is none. -/
theorem WorldInv.not_settled (h : WorldInv world) {status : ExecutionStatus}
    (hcurrent : world.record? key = some current)
    (hlegal : status ∈ legalExecutionTransitions current.execution.status)
    (hopen : current.execution.commitOutcome ≠ some .committed) :
    current.blocksWorkspaceLifecycle ≠ false := by
  intro hsettled
  rcases ExecutionRecord.settled_cases hsettled with hfailed | ⟨hsucceeded, -⟩
  · exact not_failed_of_legal hlegal hfailed
  · exact hopen ((h.succeeded key current hcurrent).mp hsucceeded)

/-- Assumes: the invariant, and a granted transition to `succeeded` that leaves the evidence as it is,
of a record whose transaction is committed. It revises the record. -/
theorem WorldInv.revises_succeeded (h : WorldInv world)
    (hcurrent : world.record? key = some current)
    (hlegal : transition.status ∈ legalExecutionTransitions current.execution.status)
    (hkeeps : transition.changes.KeepsEvidence current) (hstatus : transition.status = .succeeded)
    (hmade : transition.changes.commitOutcome.getD current.execution.commitOutcome =
      some .committed)
    (hsettled : current.blocksWorkspaceLifecycle = false →
      (MigrationRepository.revisedExecution current transition).blocksWorkspaceLifecycle = false)
    (hcommitted : world.Committed current) :
    Revises thread world current (MigrationRepository.revisedExecution current transition) := by
  refine h.revises_kept hcurrent hlegal hkeeps hsettled (fun _ ↦ hmade) ?_ (fun _ ↦ hcommitted) ?_ ?_
  · intro _ hreserved
    rw [hreserved, hstatus] at hlegal
    simp [legalExecutionTransitions] at hlegal
  · rw [hstatus, hmade]
    exact iff_of_true rfl rfl
  · rw [hstatus, hmade]
    rintro (hfailed | hrolled)
    · cases hfailed
    · cases hrolled

/-- Assumes: the invariant, and a licensed transition that is granted. It revises the record. -/
theorem WorldInv.revises_of_licence (h : WorldInv world) {fingerprint : K → String}
    (hcurrent : world.record? record.key = some current)
    (hsame : record.SameRevision current)
    (hlegal : transition.status ∈ legalExecutionTransitions current.execution.status)
    (hlicence : TransitionLicence fingerprint thread world record transition.status
      transition.changes) :
    Revises thread world current (MigrationRepository.revisedExecution current transition) := by
  have hkey : current.key = record.key := h.keyed _ current hcurrent
  have hkeeps : transition.changes.KeepsEvidence record →
      transition.changes.KeepsEvidence current := by
    rintro ⟨hid, hidentity, hresult⟩
    exact ⟨by rw [hsame.transactionId]; exact hid, by rw [hsame.targetIdentity]; exact hidentity,
      by rw [hsame.intendedResult]; exact hresult⟩
  have hcommittedOf : world.Committed record → world.Committed current := by
    rintro ⟨index, transaction, hat, hexecution, hheld, hphase⟩
    exact ⟨index, transaction, hat, hexecution.trans hkey.symm, hsame.holds hheld, hphase⟩
  have hstored : current.execution.commitOutcome = some .committed → world.Committed current := by
    intro hcommitted
    obtain ⟨index, transaction, hat, hexecution, hheld, hphase⟩ :=
      h.committed _ current hcurrent hcommitted
    exact ⟨index, transaction, hat, hexecution.trans hkey.symm, hheld, hphase⟩
  have hsucceededIff := h.succeeded _ current hcurrent
  generalize hstatus : transition.status = status at hlicence
  generalize hchanges : transition.changes = changes at hlicence
  cases hlicence with
  | start changes index transaction transactionId hat hthread hexecution hid hne hreserved hmade =>
    subst hmade
    rw [← hsame.status] at hreserved
    obtain ⟨hunnamed, hunintended, houtcome⟩ := h.reserved _ current hcurrent hreserved
    have hholds : (MigrationRepository.revisedExecution current transition).Holds transaction := by
      refine ⟨by rw [hid]; exact Option.some_ne_none _, ?_, ?_⟩
      · show transition.changes.transactionId.getD current.execution.transactionId = _
        rw [hchanges, hid]
        rfl
      · show transition.changes.targetIdentity.getD current.targetIdentity = _
        rw [hchanges]
        rfl
    refine revises_revised hlegal ?_ ?_ ?_ ?_ ?_ ?_ ?_ ?_ ?_
    · intro found hfound
      rw [hunnamed] at hfound
      exact nomatch hfound
    · intro result hresult
      rw [hunintended] at hresult
      exact nomatch hresult
    · intro hsettled
      refine absurd hsettled (h.not_settled hcurrent hlegal ?_)
      rw [houtcome]
      exact fun hnone ↦ nomatch hnone
    · intro hcommitted
      rw [houtcome] at hcommitted
      exact nomatch hcommitted
    · intro found hfound
      rw [hchanges] at hfound
      obtain rfl : transactionId = found := Option.some.inj hfound
      exact ⟨hne, index, transaction, hat, hexecution.trans hkey.symm, hholds⟩
    · intro _
      rw [hchanges]
      exact Option.some_ne_none _
    · intro hcommitted
      rw [hchanges, houtcome] at hcommitted
      exact nomatch hcommitted
    · rw [hstatus, hchanges, houtcome]
      exact ⟨fun hcase ↦ (nomatch hcase), fun hcase ↦ (nomatch hcase)⟩
    · rw [hstatus, hchanges, houtcome]
      exact fun hcase ↦ hcase.elim (fun hfailed ↦ (nomatch hfailed)) fun hrolled ↦ (nomatch hrolled)
  | intend changes index transaction result completed hat hthread hexecution hholds hcatalog
      happlying hfirst hmade =>
    subst hmade
    rw [← hsame.status] at happlying
    have hopen : current.execution.commitOutcome ≠ some .committed := by
      intro hcommitted
      rw [hsucceededIff.mpr hcommitted] at happlying
      exact nomatch happlying
    have hnotReserved : current.execution.status ≠ .reserved := by
      rw [happlying]
      exact fun hcase ↦ nomatch hcase
    have hnone : transition.changes.commitOutcome.getD current.execution.commitOutcome =
        current.execution.commitOutcome := by
      rw [hchanges]
      rfl
    refine revises_revised hlegal ?_ ?_ ?_ ?_ ?_ ?_ ?_ ?_ ?_
    · intro found hfound
      rw [hchanges]
      exact ⟨hfound, rfl⟩
    · intro found hfound
      rw [hsame.intendedResult, hfirst] at hfound
      exact nomatch hfound
    · intro hsettled
      exact absurd hsettled (h.not_settled hcurrent hlegal hopen)
    · exact fun hcommitted ↦ absurd hcommitted hopen
    · intro found hfound
      have hid : current.execution.transactionId = some found := by
        rw [hchanges] at hfound
        exact hfound
      obtain ⟨hne, -⟩ := h.evidence _ current found hcurrent hid
      refine ⟨hne, index, transaction, hat, hexecution.trans hkey.symm, ?_⟩
      have hheld := hsame.holds hholds
      refine ⟨hheld.named, ?_, ?_⟩
      · show transition.changes.transactionId.getD current.execution.transactionId = _
        rw [hchanges]
        exact hheld.transactionId
      · show transition.changes.targetIdentity.getD current.targetIdentity = _
        rw [hchanges]
        exact hheld.targetIdentity
    · intro _
      rw [hchanges]
      exact h.started _ current hcurrent hnotReserved (not_failed_of_legal hlegal)
    · rw [hnone]
      exact fun hcommitted ↦ absurd hcommitted hopen
    · rw [hnone, hstatus]
      exact ⟨fun hcase ↦ (nomatch hcase), fun hcommitted ↦ absurd hcommitted hopen⟩
    · rw [hnone, hstatus]
      exact fun hcase ↦ hcase.elim (fun hfailed ↦ (nomatch hfailed)) fun hrolled ↦
        Or.inl (Or.inr hrolled)
  | fail changes hevidence houtcome hsync hgaveUp =>
    rw [← hchanges] at hevidence houtcome
    have hrolled : transition.changes.commitOutcome.getD current.execution.commitOutcome =
        some .rolledBack := by
      rw [houtcome]
      rfl
    refine h.revises_kept hcurrent hlegal (hkeeps hevidence) ?_ ?_ ?_ ?_ ?_ ?_
    · intro hsettled
      rcases ExecutionRecord.settled_cases hsettled with hfailed | ⟨hsucceeded, -⟩
      · exact absurd hfailed (not_failed_of_legal hlegal)
      · rw [hstatus, hsucceeded] at hlegal
        exact (legal_of_succeeded hlegal).elim (fun hcase ↦ nomatch hcase) fun hcase ↦ nomatch hcase
    · intro hcommitted
      rw [hstatus, hsucceededIff.mpr hcommitted] at hlegal
      exact (legal_of_succeeded hlegal).elim (fun hcase ↦ nomatch hcase) fun hcase ↦ nomatch hcase
    · exact fun hfailed ↦ absurd hstatus hfailed
    · rw [hrolled]
      exact fun hcase ↦ nomatch hcase
    · rw [hrolled, hstatus]
      exact ⟨fun hcase ↦ (nomatch hcase), fun hcase ↦ (nomatch hcase)⟩
    · intro _
      refine Or.inr ?_
      rcases hgaveUp with hnone | ⟨index, transaction, hat, hexecution, hheld, hphase⟩
      · exact Or.inl (hsame.transactionId.trans hnone)
      · exact Or.inr ⟨index, transaction, hat, hexecution.trans hkey.symm, hsame.holds hheld, hphase⟩
  | uncertain status changes hevidence houtcome hsync hkind hstarted hopen =>
    rw [← hchanges] at hevidence houtcome
    rw [← hsame.commitOutcome] at hopen
    rw [← hsame.status] at hstarted
    have huncertain : transition.changes.commitOutcome.getD current.execution.commitOutcome =
        some .uncertain := by
      rw [houtcome]
      rfl
    refine h.revises_kept hcurrent hlegal (hkeeps hevidence) ?_ ?_ ?_ ?_ ?_ ?_
    · intro hsettled
      exact absurd hsettled (h.not_settled hcurrent hlegal hopen)
    · exact fun hcommitted ↦ absurd hcommitted hopen
    · intro _ hreserved
      -- From `reserved` the repository grants `applying` only, which the licence excludes.
      rw [hreserved, hstatus] at hlegal
      rcases hkind with rfl | rfl | rfl
      · simp [legalExecutionTransitions] at hlegal
      · simp [legalExecutionTransitions] at hlegal
      · exact hstarted rfl hreserved
    · rw [huncertain]
      exact fun hcase ↦ nomatch hcase
    · rw [huncertain, hstatus]
      rcases hkind with rfl | rfl | rfl <;>
        exact ⟨fun hcase ↦ (nomatch hcase), fun hcase ↦ (nomatch hcase)⟩
    · rw [huncertain, hstatus]
      rcases hkind with rfl | rfl | rfl <;>
        exact fun hcase ↦ hcase.elim (fun hfailed ↦ (nomatch hfailed)) fun hrolled ↦
          (nomatch hrolled)
  | succeed changes hevidence houtcome hsync hopen hcommitted =>
    rw [← hchanges] at hevidence houtcome
    rw [← hsame.commitOutcome] at hopen
    refine h.revises_succeeded hcurrent hlegal (hkeeps hevidence) hstatus ?_ ?_
      (hcommittedOf hcommitted)
    · rw [houtcome]
      rfl
    · intro hsettled
      exact absurd hsettled (h.not_settled hcurrent hlegal hopen)
  | settle changes result sync hevidence houtcome hsync hover hcommitted hresult hbaseline =>
    rw [← hchanges] at hevidence houtcome hsync
    rw [← hsame.commitOutcome] at hcommitted
    refine h.revises_succeeded hcurrent hlegal (hkeeps hevidence) hstatus ?_
      (fun _ ↦ settled_of_sync hstatus hsync hover) (hstored hcommitted)
    rw [houtcome]
    rfl
  | syncFailed changes hevidence houtcome hsync hsucceeded hlease =>
    rw [← hchanges] at hevidence houtcome
    rw [← hsame.status] at hsucceeded
    rw [← hsame.leaseOwner] at hlease
    have hcommitted := hsucceededIff.mp hsucceeded
    refine h.revises_succeeded hcurrent hlegal (hkeeps hevidence) hstatus ?_ ?_ (hstored hcommitted)
    · rw [houtcome]
      exact hcommitted
    · intro hsettled
      -- A settled execution has no lease, but the licence has one.
      rcases ExecutionRecord.settled_cases hsettled with hfailed | ⟨-, hreleased⟩
      · exact absurd hfailed (not_failed_of_legal hlegal)
      · refine absurd (h.lease _ current hcurrent ?_) hlease
        rw [hsucceeded]
        exact hreleased hcommitted

/-! ### Leases -/

/-- Assumes: the invariant, and a stored record that keeps everything but its lease, which only a
status that holds one has, and its revision, which changes with the lease's owner. It revises the
record. -/
theorem WorldInv.revises_lease (h : WorldInv world) (revision : ℕ) (leaseOwner : Option String)
    (leaseExpiresAt : Option ℕ) (hcurrent : world.record? key = some current)
    (hrevision : current.execution.revision ≤ revision)
    (hsame : revision = current.execution.revision → leaseOwner = current.leaseOwner)
    (hholds : holdsExecutionLease current.execution.status current.execution.syncStatus = true) :
    Revises thread world current { current with
      execution := { current.execution with
        revision := revision
        recoveryAvailableAt := leaseExpiresAt }
      leaseOwner := leaseOwner
      leaseExpiresAt := leaseExpiresAt } where
  later :=
    { ownerId := rfl
      id := rfl
      planId := rfl
      workspaceId := rfl
      revision := hrevision
      same := fun hrevised ↦ ⟨rfl, rfl, rfl, rfl, rfl, rfl, hsame hrevised⟩
      evidence := fun _ hid ↦ ⟨hid, rfl⟩
      intended := fun _ hresult ↦ hresult
      reserved := id
      settled := id
      committed := id }
  reserved := h.reserved key current hcurrent
  evidence := by
    intro transactionId hid
    rw [h.keyed key current hcurrent]
    obtain ⟨hne, index, transaction, hat, hexecution, hheld⟩ :=
      h.evidence key current transactionId hcurrent hid
    exact ⟨hne, index, transaction, hat, hexecution,
      ⟨hheld.named, hheld.transactionId, hheld.targetIdentity⟩⟩
  started := h.started key current hcurrent
  committed := by
    intro hcommitted
    rw [h.keyed key current hcurrent]
    obtain ⟨index, transaction, hat, hexecution, hheld, hphase⟩ :=
      h.committed key current hcurrent hcommitted
    exact ⟨index, transaction, hat, hexecution,
      ⟨hheld.named, hheld.transactionId, hheld.targetIdentity⟩, hphase⟩
  succeeded := h.succeeded key current hcurrent
  lease := by
    intro hreleased
    have hnone : holdsExecutionLease current.execution.status current.execution.syncStatus =
        false := hreleased
    rw [hholds] at hnone
    exact nomatch hnone
  dead := Or.inl

theorem holdsLease_of_eligible {claimedAt : ℕ} {work : ℕ × ExecutionWorkKind}
    (h : MigrationRepository.eligibleWork claimedAt record = some work) :
    holdsExecutionLease record.execution.status record.execution.syncStatus = true := by
  unfold MigrationRepository.eligibleWork at h
  dsimp only at h
  split_ifs at h with hleased happlying hreserved hsucceeded
  · simp [holdsExecutionLease, happlying]
  · simp [holdsExecutionLease, hreserved]
  · simpa [holdsExecutionLease, hsucceeded.1] using hsucceeded.2.2

end Schemii.Migrations
