import Schemii.Migrations.Knowledge

/-!
# Licences of migration programs

Before each call that changes something, a migration program knows what makes the call right:
`Licensed` lists it, call by call. A `Discipline` is an invariant with a rely condition that every
licensed call keeps; it may know more about the baselines a synchronisation reads (`fact`).

A licence is about a record the program read at some time. What was read stays true while the other
programs and the environment act: records move forward, baselines are only appended, and a
transaction is changed by its own program only. The rules for calls (`Discipline.safe_call` and
`Discipline.safe_quiet`) carry it from one call to the next.
-/

set_option autoImplicit false

namespace Schemii.Migrations

open Foundations Designs

variable {C K : Type}
variable {before after : World C K} {record : ExecutionRecord C K} {world : World C K}

/-! ### Licences -/

/-- The changes leave the evidence of a record as it is. -/
structure ExecutionChanges.KeepsEvidence (changes : ExecutionChanges C K)
    (record : ExecutionRecord C K) : Prop where
  transactionId : changes.transactionId.getD record.execution.transactionId =
    record.execution.transactionId
  targetIdentity : changes.targetIdentity.getD record.targetIdentity = record.targetIdentity
  intendedResult : changes.intendedResult.getD record.intendedResult = record.intendedResult

/-- The execution of a record cannot have been committed, and never will be by another program: it
holds no transaction, or one of the program's own that is not committed, or an aborted one. -/
def World.GaveUp (world : World C K) (thread : ℕ) (record : ExecutionRecord C K) : Prop :=
  record.execution.transactionId = none ∨
    ∃ (index : ℕ) (transaction : TargetTransaction K), world.target[index]? = some transaction ∧
      transaction.execution = record.key ∧ record.Holds transaction ∧
      (transaction.phase = .aborted ∨ transaction.phase = .running ∧ transaction.thread = thread)

/-- A committed transaction that a record holds. -/
def World.Committed (world : World C K) (record : ExecutionRecord C K) : Prop :=
  ∃ (index : ℕ) (transaction : TargetTransaction K), world.target[index]? = some transaction ∧
    transaction.execution = record.key ∧ record.Holds transaction ∧
    transaction.phase = .committed

/-- A baseline of the workspace of an execution that was current after its reservation. -/
def World.Seen (world : World C K) (key : Key) (head : BaselineRecord C K) : Prop :=
  ∃ (record : ExecutionRecord C K) (index : ℕ), world.record? key = some record ∧
    (world.repository.baselines record.workspace)[index]? = some head ∧
    world.baselineMarks key ≤ index + 1

/-- A head of the workspace of an execution that was read after its reservation. -/
def World.SeenHead (world : World C K) (key : Key) : Option (BaselineRecord C K) → Prop
  | some head => world.Seen key head
  | none => world.baselineMarks key = 0

/-- The workspace of an execution has a baseline from after its reservation. -/
def World.Advanced (world : World C K) (key : Key) : Prop :=
  ∃ record, world.record? key = some record ∧
    world.baselineMarks key < (world.repository.baselines record.workspace).length

/-- The baselines carry a catalog since the reservation of an execution, or moved on since then. -/
def World.Carries (world : World C K) (fingerprint : K → String) (key : Key) (catalog : K) :
    Prop :=
  (∃ head, world.Seen key head ∧ fingerprint head.catalog = fingerprint catalog) ∨
    world.Advanced key

section Licences

variable (fingerprint : K → String)

/-- What a program must know to move a record it read to a status with changes. -/
inductive TransitionLicence (thread : ℕ) (world : World C K) (record : ExecutionRecord C K) :
    ExecutionStatus → ExecutionChanges C K → Prop
  /-- Record the program's own transaction, before its first statement. -/
  | start (changes : ExecutionChanges C K) (index : ℕ) (transaction : TargetTransaction K)
      (transactionId : String) (hat : world.target[index]? = some transaction)
      (hthread : transaction.thread = thread) (hexecution : transaction.execution = record.key)
      (hid : transaction.transactionId = some transactionId) (hne : transactionId ≠ "")
      (hstatus : record.execution.status = .reserved)
      (hchanges : changes = { transactionId := some (some transactionId)
                              targetIdentity := some (some transaction.identity) }) :
      TransitionLicence thread world record .applying changes
  /-- Record the catalog the program's own transaction shows. -/
  | intend (changes : ExecutionChanges C K) (index : ℕ) (transaction : TargetTransaction K)
      (result : IntendedResult C K) (completed : ℕ)
      (hat : world.target[index]? = some transaction) (hthread : transaction.thread = thread)
      (hexecution : transaction.execution = record.key) (hholds : record.Holds transaction)
      (hcatalog : transaction.catalog = some result.catalog)
      (hstatus : record.execution.status = .applying) (hfirst : record.intendedResult = none)
      (hchanges : changes = { completedStepCount := some completed
                              intendedResult := some (some result) }) :
      TransitionLicence thread world record .applying changes
  /-- Give the execution up. -/
  | fail (changes : ExecutionChanges C K) (hevidence : changes.KeepsEvidence record)
      (houtcome : changes.commitOutcome = some (some .rolledBack))
      (hsync : changes.syncStatus = none) (hgaveUp : world.GaveUp thread record) :
      TransitionLicence thread world record .failed changes
  /-- Leave open how the transaction ended. -/
  | uncertain (status : ExecutionStatus) (changes : ExecutionChanges C K)
      (hevidence : changes.KeepsEvidence record)
      (houtcome : changes.commitOutcome = some (some .uncertain))
      (hsync : changes.syncStatus = none)
      (hstatus : status = .uncertain ∨ status = .reconciliationRequired ∨ status = .applying)
      (hstarted : status = .applying → record.execution.status ≠ .reserved)
      (hopen : record.execution.commitOutcome ≠ some .committed) :
      TransitionLicence thread world record status changes
  /-- Record that the transaction was committed. -/
  | succeed (changes : ExecutionChanges C K) (hevidence : changes.KeepsEvidence record)
      (houtcome : changes.commitOutcome = some (some .committed))
      (hsync : changes.syncStatus = some (some .pending))
      (hopen : record.execution.commitOutcome ≠ some .committed)
      (hcommitted : world.Committed record) :
      TransitionLicence thread world record .succeeded changes
  /-- Settle a committed execution. -/
  | settle (changes : ExecutionChanges C K) (result : IntendedResult C K) (sync : SyncStatus)
      (hevidence : changes.KeepsEvidence record)
      (houtcome : changes.commitOutcome = some (some .committed))
      (hsync : changes.syncStatus = some (some sync))
      (hsettled : sync = .succeeded ∨ sync = .conflict)
      (hcommitted : record.execution.commitOutcome = some .committed)
      (hresult : record.intendedResult = some result)
      (hbaseline : world.Carries fingerprint record.key result.catalog) :
      TransitionLicence thread world record .succeeded changes
  /-- Record that a leased synchronisation failed. -/
  | syncFailed (changes : ExecutionChanges C K) (hevidence : changes.KeepsEvidence record)
      (houtcome : changes.commitOutcome = none)
      (hsync : changes.syncStatus = some (some .failed))
      (hstatus : record.execution.status = .succeeded) (hlease : record.leaseOwner ≠ none) :
      TransitionLicence thread world record .succeeded changes

variable (fact : Key → Option (BaselineRecord C K) → World C K → Prop)

/-- What a program must know to append the catalog of a record it read after a head it read. -/
structure BaselineLicence (world : World C K) (record : ExecutionRecord C K)
    (values : BaselineCreate C K) (result : IntendedResult C K)
    (head : Option (BaselineRecord C K)) : Prop where
  knows : world.Knows record
  committed : record.execution.commitOutcome = some .committed
  intended : record.intendedResult = some result
  workspace : (values.ownerId, values.workspaceId) = record.workspace
  catalog : values.catalog = result.catalog
  source : values.sourceExecutionId = some record.execution.id
  seen : world.SeenHead record.key head
  read : fact record.key head world
  predecessor : values.expectedPredecessorId = head.map BaselineRecord.id
  differs : head.map (fun baseline ↦ fingerprint baseline.catalog) ≠
    some (fingerprint result.catalog)

/-- What a program must know before a call. -/
def Licensed (thread : ℕ) (world : World C K) : MigrationCall C K → Prop
  | .transitionExecution key transition => ∃ record, world.Knows record ∧ key = record.key ∧
      transition.expectedRevision = record.execution.revision ∧
      TransitionLicence fingerprint thread world record transition.status transition.changes
  | .createBaseline values => ∃ record result head,
      BaselineLicence fingerprint fact world record values result head
  | .replaceDesign workspace execution request => ∃ record plan, world.Knows record ∧
      world.KnowsPlan record plan ∧ record.execution.commitOutcome = some .committed ∧
      workspace = record.workspace ∧ execution = record.key ∧
      request.expectedDesignRevision = plan.plan.designRevision
  | .lockTarget index _ _ _ | .introspect index _ | .tableEmptiness index _ _
  | .targetIdentity index | .currentTransactionId index | .executeStatement index _
  | .cleanup index => ∃ transaction, world.target[index]? = some transaction ∧
      transaction.thread = thread
  | .commit index => ∃ transaction, world.target[index]? = some transaction ∧
      transaction.thread = thread ∧ (transaction.phase = .running → world.Ready transaction)
  | _ => True

end Licences

/-- An invariant and a rely condition that every licensed call keeps, with what is known of the
baselines that a synchronisation read. -/
structure Discipline (rules : ContentRules C) (limit : ℕ) (fingerprint : K → String) where
  semantics : Semantics (migrationInterface C K) (World C K)
  logic : RelyGuarantee semantics
  fact : Key → Option (BaselineRecord C K) → World C K → Prop
  perform_le : ∀ {thread : ℕ} {request : MigrationCall C K} {before after : World C K}
    {reply : request.Reply}, semantics.perform thread request before reply after →
      perform rules limit thread request before reply after
  inv_le : ∀ {world : World C K}, logic.inv world → WorldInv world
  rely_le : ∀ {thread : ℕ} {before after : World C K}, logic.rely thread before after →
    WorldRely thread before after
  fact_growth : ∀ {key : Key} {head : Option (BaselineRecord C K)} {before after : World C K},
    WorldGrowth before after → fact key head before → fact key head after
  fact_read : ∀ {thread : ℕ} {record : ExecutionRecord C K} {before after : World C K}
    {head : Option (BaselineRecord C K)}, logic.inv before → before.Knows record →
      record.execution.commitOutcome = some .committed →
      semantics.perform thread (.currentBaseline record.workspace (.synchronise record.key))
        before (.ok head) after → fact record.key head after
  guarantees : ∀ {thread : ℕ} {request : MigrationCall C K} {before after : World C K}
    {reply : request.Reply}, logic.inv before →
      Licensed fingerprint fact thread before request →
      semantics.perform thread request before reply after →
        logic.Guarantees thread before after

/-! ### What stays known -/

theorem World.Knows.growth
    (h : before.Knows record) (hgrowth : WorldGrowth before after) : after.Knows record := by
  obtain ⟨current, hcurrent, hlater⟩ := h
  obtain ⟨next, hnext, hlater'⟩ := hgrowth.executions _ current hcurrent
  exact ⟨next, hnext, hlater.trans hlater'⟩

theorem World.KnowsPlan.growth
    {plan : PlanRecord C K} (h : before.KnowsPlan record plan) (hknows : before.Knows record)
    (hgrowth : WorldGrowth before after) : after.KnowsPlan record plan := by
  obtain ⟨stored, hstored, hsame⟩ := h
  obtain ⟨current, hcurrent, hlater⟩ := hknows
  obtain ⟨next, hnext, hsame'⟩ := hgrowth.plans _ current stored hcurrent
    (by rw [hlater.ownerId, hlater.planId]; exact hstored)
  rw [hlater.ownerId, hlater.planId] at hnext
  exact ⟨next, hnext, hsame.trans hsame'⟩

theorem World.Knows.of_record (h : world.record? record.key = some record) : world.Knows record:=
  ⟨record, h, .refl record⟩

theorem World.Seen.growth {key : Key} {head : BaselineRecord C K}
    (h : before.Seen key head) (hgrowth : WorldGrowth before after) : after.Seen key head := by
  obtain ⟨record, index, hrecord, hat, hmark⟩ := h
  obtain ⟨later, hlater, hrecordLater⟩ := hgrowth.executions key record hrecord
  refine ⟨later, index, hlater, ?_, ?_⟩
  · rw [hrecordLater.workspace_eq]
    obtain ⟨hindex, hvalue⟩ := List.getElem?_eq_some_iff.mp hat
    exact List.prefix_iff_getElem?.mp (hgrowth.baselines record.workspace) index hindex ▸
      congrArg some hvalue
  · rw [hgrowth.marks key record hrecord]
    exact hmark

theorem World.SeenHead.growth
    {head : Option (BaselineRecord C K)} (h : before.SeenHead record.key head)
    (hknows : before.Knows record) (hgrowth : WorldGrowth before after) :
    after.SeenHead record.key head := by
  cases head with
  | some head => exact World.Seen.growth h hgrowth
  | none =>
    obtain ⟨current, hcurrent, -⟩ := hknows
    exact (hgrowth.marks _ current hcurrent).trans h

theorem World.Advanced.growth {key : Key} (h : before.Advanced key)
    (hgrowth : WorldGrowth before after) : after.Advanced key := by
  obtain ⟨record, hrecord, hmark⟩ := h
  obtain ⟨later, hlater, hrecordLater⟩ := hgrowth.executions key record hrecord
  refine ⟨later, hlater, ?_⟩
  rw [hgrowth.marks key record hrecord, hrecordLater.workspace_eq]
  exact hmark.trans_le (hgrowth.baselines record.workspace).length_le

theorem World.Carries.growth {fingerprint : K → String} {key : Key}
    {catalog : K} (h : before.Carries fingerprint key catalog)
    (hgrowth : WorldGrowth before after) : after.Carries fingerprint key catalog := by
  rcases h with ⟨head, hseen, hfingerprint⟩ | hadvanced
  · exact Or.inl ⟨head, hseen.growth hgrowth, hfingerprint⟩
  · exact Or.inr (hadvanced.growth hgrowth)

theorem WorldInv.seen_current (h : WorldInv world) (hknows : world.Knows record) :
    world.SeenHead record.key (world.repository.currentBaseline record.workspace) := by
  obtain ⟨current, hcurrent, hlater⟩ := hknows
  have hmark := h.marks _ current hcurrent
  rw [hlater.workspace_eq] at hmark
  unfold MigrationRepository.currentBaseline
  cases hlast : (world.repository.baselines record.workspace).getLast? with
  | none =>
    rw [List.getLast?_eq_none_iff.mp hlast] at hmark
    exact Nat.le_zero.mp hmark
  | some head =>
    rw [List.getLast?_eq_getElem?] at hlast
    refine ⟨current, _, hcurrent, by rw [hlater.workspace_eq]; exact hlast, ?_⟩
    omega

/-- Assumes: a head that was read for a known record and is not current any more. The workspace moved
on. -/
theorem World.SeenHead.advanced
    {head : Option (BaselineRecord C K)} (h : world.SeenHead record.key head)
    (hknows : world.Knows record)
    (hstale : head.map BaselineRecord.id ≠
      (world.repository.currentBaseline record.workspace).map BaselineRecord.id) :
    world.Advanced record.key := by
  unfold MigrationRepository.currentBaseline at hstale
  cases head with
  | none =>
    obtain ⟨current, hcurrent, hlater⟩ := hknows
    refine ⟨current, hcurrent, ?_⟩
    rw [(h : world.baselineMarks record.key = 0), hlater.workspace_eq, List.length_pos_iff]
    intro hempty
    rw [hempty] at hstale
    exact hstale rfl
  | some head =>
    obtain ⟨current, index, hcurrent, hat, hmark⟩ := h
    obtain ⟨known, hknown, hlater⟩ := hknows
    obtain rfl : current = known := Option.some.inj (hcurrent.symm.trans hknown)
    refine ⟨current, hcurrent, ?_⟩
    obtain ⟨hindex, -⟩ := List.getElem?_eq_some_iff.mp hat
    -- The head stands before the last baseline, or it would still be current.
    have hlast : index ≠ (world.repository.baselines current.workspace).length - 1 := by
      rintro rfl
      rw [← hlater.workspace_eq, List.getLast?_eq_getElem?, hat] at hstale
      exact hstale rfl
    omega

theorem World.GaveUp.quiet {thread : ℕ}
    (h : before.GaveUp thread record) (hquiet : Quiet thread before after) :
    after.GaveUp thread record := by
  rcases h with hnone | ⟨index, transaction, hat, hexecution, hholds, hphase⟩
  · exact Or.inl hnone
  · obtain ⟨later, hlater, hkept⟩ := hquiet.transactions index transaction hat
    refine Or.inr ⟨index, later, hlater, hkept.execution.trans hexecution, hholds.of_later hkept, ?_⟩
    rcases hphase with haborted | ⟨hrunning, hthread⟩
    · exact Or.inl (hkept.aborted haborted)
    · rcases (hkept.own hthread).2.2 hrunning with hrunning' | haborted
      · exact Or.inr ⟨hrunning', hkept.thread_eq.trans hthread⟩
      · exact Or.inl haborted

theorem World.Committed.quiet {thread : ℕ} (h : before.Committed record)
    (hquiet : Quiet thread before after) : after.Committed record := by
  obtain ⟨index, transaction, hat, hexecution, hholds, hphase⟩ := h
  obtain ⟨later, hlater, hkept⟩ := hquiet.transactions index transaction hat
  exact ⟨index, later, hlater, hkept.execution.trans hexecution, hholds.of_later hkept,
    hkept.committed hphase⟩

/-- Assumes: the invariant and a committed execution. Its record has an intended result. -/
theorem WorldInv.intended_of_committed (h : WorldInv world) {key : Key}
    (hrecord : world.record? key = some record)
    (hcommitted : record.execution.commitOutcome = some .committed) :
    ∃ result, record.intendedResult = some result := by
  obtain ⟨index, transaction, hat, hexecution, -, hphase⟩ := h.committed key record hrecord hcommitted
  obtain ⟨holder, hholder, -, ⟨result, hresult, -⟩, -⟩ :=
    h.ready index transaction hat (Or.inr hphase)
  rw [hexecution, hrecord] at hholder
  exact ⟨result, Option.some.inj hholder ▸ hresult⟩

/-! ### Calls -/

/-- The calls that leave the target alone. -/
def MigrationCall.LeavesTarget : MigrationCall C K → Prop
  | .beginTransaction _ _ _ | .lockTarget _ _ _ _ | .introspect _ _ | .tableEmptiness _ _ _
  | .targetIdentity _ | .currentTransactionId _ | .executeStatement _ _ | .commit _
  | .cleanup _ => False
  | _ => True

/-- Assumes: a call to a store whose effect leaves the target alone. So does the call. -/
theorem Attempted.target {α : Type} {outcome : Except Failure α × World C K}
    {reply : Except Failure α} (h : Attempted outcome before reply after)
    (houtcome : outcome.2.target = before.target) : after.target = before.target := by
  rcases h with ⟨-, rfl⟩ | ⟨failure, -, -, rfl | rfl⟩
  · exact houtcome
  · rfl
  · exact houtcome

theorem World.replaceDesign_target (rules : ContentRules C) (limit : ℕ) (world : World C K)
    (workspace execution : Key) (request : DesignReplace C) :
    (world.replaceDesign rules limit workspace execution request).2.target = world.target := by
  unfold World.replaceDesign
  split <;> rfl

theorem perform_target {rules : ContentRules C} {limit thread : ℕ} {request : MigrationCall C K}
    {reply : request.Reply} (hleaves : request.LeavesTarget)
    (h : perform rules limit thread request before reply after) :
    after.target = before.target := by
  cases request with
  | now => exact congrArg World.target h.2
  | leaseToken => exact congrArg World.target h
  | getPlan key => exact Attempted.target h rfl
  | getWorkspace key => exact Attempted.target h rfl
  | getDesign key =>
    rcases h with h | ⟨message, -, rfl⟩
    · exact Attempted.target h rfl
    · rfl
  | currentBaseline workspace purpose => exact Attempted.target h rfl
  | createBaseline values =>
    obtain ⟨id, -, h⟩ := h
    exact Attempted.target h rfl
  | getExecution key => exact Attempted.target h rfl
  | claimNextExecution claimedAt leaseOwner leaseExpiresAt => exact Attempted.target h rfl
  | renewExecutionLease key leaseOwner leaseExpiresAt => exact Attempted.target h rfl
  | transitionExecution key transition => exact Attempted.target h rfl
  | replaceDesign workspace execution request =>
    exact Attempted.target h (World.replaceDesign_target rules limit before workspace execution
      request)
  | useConnection ownerId connectionId => exact Attempted.target h rfl
  | gatewaySupports method => exact congrArg World.target h
  | transactionStatus connection transactionId => exact congrArg World.target h.1
  | _ => exact hleaves.elim

theorem TransactionsKept.of_target {thread : ℕ}
    (h : after.target = before.target) : TransactionsKept thread before after :=
  fun _ transaction hat ↦ ⟨transaction, by rw [h]; exact hat, .refl thread transaction⟩

namespace Discipline

variable {rules : ContentRules C} {limit : ℕ} {fingerprint : K → String}
  (D : Discipline rules limit fingerprint)

theorem growth_of_guarantees {thread : ℕ}
    (h : D.logic.Guarantees thread before after) : WorldGrowth before after :=
  (D.rely_le (h.2 (thread + 1) (Nat.succ_ne_self thread))).quiet.growth

/-- One call. Assumes: the call is licensed wherever the program may make it, and what follows from
its answer. -/
theorem safe_call {thread : ℕ} {request : MigrationCall C K}
    {post : Except Failure request.Reply → World C K → Prop}
    (h : ∀ before, D.logic.rely thread world before → D.logic.inv before →
      Licensed fingerprint D.fact thread before request ∧
        ∀ (reply : request.Reply) (after : World C K),
          D.semantics.perform thread request before reply after → D.logic.inv after →
            WorldGrowth before after → post (.ok reply) after) :
    Safe D.logic thread (ask request) world post := by
  intro before hrely hinv reply after hperform
  obtain ⟨hlicensed, hpost⟩ := h before hrely hinv
  have hguarantees := D.guarantees hinv hlicensed hperform
  exact ⟨hguarantees, hpost reply after hperform hguarantees.1 (D.growth_of_guarantees hguarantees)⟩

/-- One call that leaves the target alone. Assumes: it is licensed wherever the world is quiet for
the program, and what follows from its answer. -/
theorem safe_quiet {thread : ℕ} {request : MigrationCall C K}
    {post : Except Failure request.Reply → World C K → Prop} (hleaves : request.LeavesTarget)
    (hlicensed : ∀ before, Quiet thread world before → D.logic.inv before →
      Licensed fingerprint D.fact thread before request)
    (hpost : ∀ (before : World C K) (reply : request.Reply) (after : World C K),
      Quiet thread world before → D.logic.inv before →
        D.semantics.perform thread request before reply after → Quiet thread world after →
          D.logic.inv after → post (.ok reply) after) :
    Safe D.logic thread (ask request) world post := by
  refine D.safe_call fun before hrely hinv ↦ ?_
  have hquiet := (D.rely_le hrely).quiet
  refine ⟨hlicensed before hquiet hinv, fun reply after hperform hinvAfter hgrowth ↦ ?_⟩
  refine hpost before reply after hquiet hinv hperform (hquiet.trans ⟨hgrowth, ?_⟩) hinvAfter
  exact .of_target (perform_target hleaves (D.perform_le hperform))

/-- A call that raises its exception. Assumes: the call is safe, with the end condition on both
ways it is answered. -/
theorem safe_askOr {α : Type} {thread : ℕ} {translate : Failure → Failure}
    {program : Prog C K (Except Failure α)} {post : Except Failure α → World C K → Prop}
    (h : Safe D.logic thread program world fun outcome after ↦
      match outcome with
      | .ok (.ok value) => post (.ok value) after
      | .ok (.error failure) => post (.error (translate failure)) after
      | .error failure => post (.error failure) after) :
    Safe D.logic thread (askOr translate program) world post := by
  refine Safe.bind (h.mono fun outcome after hpost ↦ ?_)
  rcases outcome with failure | failure | value
  · exact hpost
  · exact hpost
  · exact hpost

end Discipline

end Schemii.Migrations
