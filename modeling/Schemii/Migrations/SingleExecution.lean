import Schemii.Migrations.AtMostOnce

/-!
# One unsettled execution of a workspace

The migration repository under any sequence of its operations, by any callers. Every method runs
under the lock, so an interleaving is a sequence of calls (`RepositoryCall`, `serve`), and
`touches_serve` says once what a call can do to the executions: nothing, reserve one, lease one, or
revise one.

A reservation is refused while an execution of the workspace is unsettled. A transition is not: the
table of legal transitions leads from `succeeded` back to `reconciliation_required`, and to
`succeeded` with any synchronisation status, so an execution that was settled when another one of its
workspace was reserved can become unsettled again (`reopened_execution_is_second`). A transition
reopens an execution when it asks for an unsettled state of a settled one (`reopens`). In the runs in
which no transition reopens an execution beside another unsettled one, every workspace has at most
one unsettled execution, statuses change along the table, a transition is granted on the revision it
names and leaves the next one, work that is being applied is leased, and a refused call leaves the
repository as it was (`single_unsettled_execution`).
-/

set_option autoImplicit false

namespace Schemii.Migrations

open Foundations Designs

variable {C K : Type}

/-! ### Calls on the repository -/

/-- A call on the migration repository. The identifiers that a call draws are its first arguments;
a drift reconciliation also has the design store it writes to. -/
inductive RepositoryCall (C K : Type)
  | createBaseline (id : String) (values : BaselineCreate C K)
  | createPlan (record : PlanRecord C K)
  | reserve (id ownerId planId reviewDigest : String)
      (confirmDestructive confirmExternalChanges : Bool) (reservedAt : ℕ)
  | claim (claimedAt : ℕ) (leaseOwner : String) (leaseExpiresAt : ℕ)
  | renew (key : Key) (leaseOwner : String) (leaseExpiresAt : ℕ)
  | transition (key : Key) (transition : ExecutionTransition C K)
  | reconcileDrift (baselineId : String) (designs : DesignRepository C) (record : PlanRecord C K)
      (expectedDesignRevision : ℕ) (resolvedContent liveContent : C)

/-- Whether an outcome is not an exception. -/
def succeeds {α : Type} : Except Failure α → Bool
  | .ok _ => true
  | .error _ => false

/-- Whether a call succeeds, and the repository it leaves. -/
def serve (rules : ContentRules C) (limit : ℕ) (repository : MigrationRepository C K) :
    RepositoryCall C K → Bool × MigrationRepository C K
  | .createBaseline id values =>
    let outcome := repository.createBaseline id values
    (succeeds outcome.1, outcome.2)
  | .createPlan record =>
    let outcome := repository.createPlan record
    (succeeds outcome.1, outcome.2)
  | .reserve id ownerId planId reviewDigest confirmDestructive confirmExternalChanges reservedAt =>
    let outcome := repository.reserveExecution id ownerId planId reviewDigest confirmDestructive
      confirmExternalChanges reservedAt
    (succeeds outcome.1, outcome.2)
  | .claim claimedAt leaseOwner leaseExpiresAt =>
    let outcome := repository.claimNextExecution claimedAt leaseOwner leaseExpiresAt
    (outcome.1.isSome, outcome.2)
  | .renew key leaseOwner leaseExpiresAt =>
    repository.renewExecutionLease key leaseOwner leaseExpiresAt
  | .transition key transition =>
    let outcome := repository.transitionExecution key transition
    (succeeds outcome.1, outcome.2)
  | .reconcileDrift baselineId designs record expectedDesignRevision resolvedContent liveContent =>
    let outcome := repository.reconcileDrift rules limit designs baselineId record
      expectedDesignRevision resolvedContent liveContent
    (succeeds outcome.1, outcome.2.1)

/-- States of synchronisation are compared as what they are. -/
local instance lawfulBEq_syncStatus : LawfulBEq (Option SyncStatus) :=
  inferInstance

/-- Whether a transition asks for an unsettled state of a settled execution: the execution does not
block its workspace, and the status, outcome and synchronisation that it is to have do. -/
def ExecutionRecord.reopens (current : ExecutionRecord C K) (transition : ExecutionTransition C K) :
    Bool :=
  ¬ current.blocksWorkspaceLifecycle ∧
    (transition.status ∈ activeExecutionStatuses ∨
      (transition.status = .succeeded ∧
        transition.changes.commitOutcome.getD current.execution.commitOutcome =
          some .committed ∧
        transition.changes.syncStatus.getD current.execution.syncStatus ∈
          [some SyncStatus.pending, some SyncStatus.failed]))

/-- What is asked of a call: a reservation draws an unused identifier, and a transition does not
reopen an execution while an execution of the same workspace is unsettled. -/
def RepositoryCall.Meets (repository : MigrationRepository C K) : RepositoryCall C K → Prop
  | .reserve id ownerId _ _ _ _ _ => (ownerId, id) ∉ repository.executions
  | .transition key change => ∀ current, repository.executions.lookup key = some current →
      current.reopens change = true →
        repository.blocksWorkspaceLifecycle (key.1, current.execution.workspaceId) = false
  | _ => True

/-- The repositories that calls lead to from the empty one, each of which meets what is asked of it
where it is made. -/
inductive RepositoryRun (rules : ContentRules C) (limit : ℕ) : MigrationRepository C K → Prop
  | init : RepositoryRun rules limit (.init C K)
  | call {repository : MigrationRepository C K} (request : RepositoryCall C K)
      (hrun : RepositoryRun rules limit repository) (hmeets : request.Meets repository) :
      RepositoryRun rules limit (serve rules limit repository request).2

/-! ### What a call does to the executions -/

/-- What a lease leaves of an execution: everything but the lease and, for a claim, the revision. -/
structure LeasedAs (current next : ExecutionRecord C K) : Prop where
  key_eq : next.key = current.key
  workspace_eq : next.execution.workspaceId = current.execution.workspaceId
  status_eq : next.execution.status = current.execution.status
  outcome_eq : next.execution.commitOutcome = current.execution.commitOutcome
  sync_eq : next.execution.syncStatus = current.execution.syncStatus
  leased : next.leaseOwner ≠ none ∧ next.leaseExpiresAt ≠ none

/-- What a call can do to the executions of a repository. -/
inductive Touches (repository after : MigrationRepository C K) : RepositoryCall C K → Prop
  /-- The executions are as they were. -/
  | none (request : RepositoryCall C K) (hsame : after.executions = repository.executions)
      (hother : ∀ claimedAt leaseOwner leaseExpiresAt,
        request ≠ .claim claimedAt leaseOwner leaseExpiresAt)
      (htransition : ∀ key transition, request ≠ .transition key transition) :
      Touches repository after request
  /-- An execution is reserved in a workspace whose executions are settled. -/
  | reserved (id ownerId planId reviewDigest : String)
      (confirmDestructive confirmExternalChanges : Bool) (reservedAt : ℕ)
      (record : ExecutionRecord C K) (hkey : record.key = (ownerId, id))
      (hstatus : record.execution.status = .reserved)
      (hfree : repository.blocksWorkspaceLifecycle
        (ownerId, record.execution.workspaceId) = false)
      (hafter : after.executions = repository.executions.insert (ownerId, id) record) :
      Touches repository after (.reserve id ownerId planId reviewDigest confirmDestructive
        confirmExternalChanges reservedAt)
  /-- An execution is claimed: it is leased at the next revision. -/
  | claimed (claimedAt : ℕ) (leaseOwner : String) (leaseExpiresAt : ℕ) (key : Key)
      (current next : ExecutionRecord C K)
      (hcurrent : repository.executions.lookup key = some current)
      (hleased : LeasedAs current next)
      (hrevision : next.execution.revision = current.execution.revision + 1)
      (hafter : after.executions = repository.executions.insert current.key next) :
      Touches repository after (.claim claimedAt leaseOwner leaseExpiresAt)
  /-- A lease is renewed. -/
  | renewed (key : Key) (leaseOwner : String) (leaseExpiresAt : ℕ)
      (current next : ExecutionRecord C K)
      (hcurrent : repository.executions.lookup key = some current)
      (hleased : LeasedAs current next)
      (hrevision : next.execution.revision = current.execution.revision)
      (hafter : after.executions = repository.executions.insert key next) :
      Touches repository after (.renew key leaseOwner leaseExpiresAt)
  /-- A transition revises the execution that it names at the revision that it names. -/
  | revised (key : Key) (transition : ExecutionTransition C K) (current : ExecutionRecord C K)
      (hcurrent : repository.executions.lookup key = some current)
      (hrevision : current.execution.revision = transition.expectedRevision)
      (hlegal : transition.status ∈ legalExecutionTransitions current.execution.status)
      (hleased : holdsExecutionLease transition.status
          (transition.changes.syncStatus.getD current.execution.syncStatus) = true →
        transition.leaseOwner ≠ Option.none ∧ transition.leaseExpiresAt ≠ Option.none)
      (hafter : after.executions = repository.executions.insert key
        (MigrationRepository.revisedExecution current transition)) :
      Touches repository after (.transition key transition)

namespace MigrationRepository

theorem reconcileDrift_refused (rules : ContentRules C) (limit : ℕ)
    (repository : MigrationRepository C K) (designs : DesignRepository C) (baselineId : String)
    (record : PlanRecord C K) (expectedDesignRevision : ℕ) (resolvedContent liveContent : C)
    (h : succeeds (repository.reconcileDrift rules limit designs baselineId record
      expectedDesignRevision resolvedContent liveContent).1 = false) :
    (repository.reconcileDrift rules limit designs baselineId record expectedDesignRevision
      resolvedContent liveContent).2.1 = repository := by
  unfold reconcileDrift at h ⊢
  dsimp only at h ⊢
  split_ifs at h ⊢ with hblocks
  · rfl
  split at h
  · rfl
  split at h
  · next design replaced _ failure unchanged houtcome =>
    rcases repository.createBaseline_cases baselineId _ with
      ⟨error, hcreated⟩ | ⟨baseline, -, -, -, -, hcreated⟩
    · rw [hcreated] at houtcome
      exact (Prod.mk.inj houtcome).2.symm
    · rw [hcreated] at houtcome
      exact nomatch (Prod.mk.inj houtcome).1
  · exact nomatch h

theorem reconcileDrift_executions (rules : ContentRules C) (limit : ℕ)
    (repository : MigrationRepository C K) (designs : DesignRepository C) (baselineId : String)
    (record : PlanRecord C K) (expectedDesignRevision : ℕ) (resolvedContent liveContent : C) :
    (repository.reconcileDrift rules limit designs baselineId record expectedDesignRevision
      resolvedContent liveContent).2.1.executions = repository.executions := by
  rcases repository.reconcileDrift_cases rules limit designs baselineId record
      expectedDesignRevision resolvedContent liveContent with hsame | ⟨_, -, -, -, hafter⟩
  · rw [hsame]
  · rw [hafter]

/-- Assumes: a granted transition. It names the revision of a stored execution and a legal status,
and has a lease for a state that is leased. -/
theorem transitionExecution_granted {repository : MigrationRepository C K} {key : Key}
    {transition : ExecutionTransition C K}
    (h : succeeds (repository.transitionExecution key transition).1 = true) :
    Touches repository (repository.transitionExecution key transition).2
      (.transition key transition) := by
  unfold transitionExecution at h ⊢
  cases hlookup : repository.executions.lookup key with
  | none =>
    rw [hlookup] at h
    exact nomatch h
  | some current =>
    rw [hlookup] at h
    dsimp only at h ⊢
    cases hvalid : validateExecutionTransition current.execution transition.expectedRevision
        transition.allowedFrom transition.status with
    | some failure =>
      rw [hvalid] at h
      exact nomatch h
    | none =>
      rw [hvalid] at h
      dsimp only at h ⊢
      unfold validateExecutionTransition at hvalid
      split_ifs at hvalid with hrevision hstatus
      push Not at hrevision hstatus
      split_ifs at h ⊢ with hfenced hleased
      · exact nomatch h
      · exact nomatch h
      · refine .revised key transition current hlookup hrevision hstatus.2 ?_ rfl
        intro hholds
        constructor
        · intro hnone
          exact hleased ⟨hholds, Or.inl hnone⟩
        · intro hnone
          exact hleased ⟨hholds, Or.inr hnone⟩

/-- What a reservation can do: it is refused, it finds the execution of the plan, or it is made
now. -/
theorem reserveExecution_cases (repository : MigrationRepository C K)
    (id ownerId planId reviewDigest : String) (confirmDestructive confirmExternalChanges : Bool)
    (reservedAt : ℕ) :
    (∃ failure, repository.reserveExecution id ownerId planId reviewDigest confirmDestructive
        confirmExternalChanges reservedAt = (.error failure, repository)) ∨
      (∃ existing, repository.reserveExecution id ownerId planId reviewDigest confirmDestructive
        confirmExternalChanges reservedAt = (.ok (existing, false), repository)) ∨
      ∃ plan record after, Reserves repository id ownerId planId plan record after ∧
        repository.reserveExecution id ownerId planId reviewDigest confirmDestructive
          confirmExternalChanges reservedAt = (.ok (record, true), after) := by
  generalize houtcome : repository.reserveExecution id ownerId planId reviewDigest
    confirmDestructive confirmExternalChanges reservedAt = outcome
  obtain ⟨result, after⟩ := outcome
  match result with
  | .ok (record, true) =>
    obtain ⟨plan, hreserves⟩ := reserves_of_reserveExecution houtcome
    exact Or.inr (Or.inr ⟨plan, record, after, hreserves, rfl⟩)
  | .ok (record, false) =>
    have hsame : after = repository := by
      unfold reserveExecution at houtcome
      split at houtcome
      · exact nomatch (Prod.mk.inj houtcome).1
      split at houtcome
      · exact nomatch (Prod.mk.inj houtcome).1
      split at houtcome
      · exact (Prod.mk.inj houtcome).2.symm
      split_ifs at houtcome
      · exact nomatch (Prod.mk.inj houtcome).1
      · exact nomatch (Prod.mk.inj houtcome).1
      · exact nomatch (Prod.mk.inj houtcome).1
      · exact nomatch (Except.ok.inj (Prod.mk.inj houtcome).1)
    rw [hsame]
    exact Or.inr (Or.inl ⟨record, rfl⟩)
  | .error failure =>
    have hsame : after = repository := by
      unfold reserveExecution at houtcome
      split at houtcome
      · exact (Prod.mk.inj houtcome).2.symm
      split at houtcome
      · exact (Prod.mk.inj houtcome).2.symm
      split at houtcome
      · exact nomatch (Prod.mk.inj houtcome).1
      split_ifs at houtcome
      · exact (Prod.mk.inj houtcome).2.symm
      · exact (Prod.mk.inj houtcome).2.symm
      · exact (Prod.mk.inj houtcome).2.symm
      · exact nomatch (Prod.mk.inj houtcome).1
    rw [hsame]
    exact Or.inl ⟨failure, rfl⟩

theorem blocksWorkspaceLifecycle_iff (repository : MigrationRepository C K) (workspace : Key) :
    repository.blocksWorkspaceLifecycle workspace = true ↔
      ∃ key record, repository.executions.lookup key = some record ∧ key.1 = workspace.1 ∧
        record.execution.workspaceId = workspace.2 ∧ record.blocksWorkspaceLifecycle = true := by
  unfold blocksWorkspaceLifecycle
  rw [List.any_eq_true]
  constructor
  · rintro ⟨entry, hentry, hblocks⟩
    have hfacts := of_decide_eq_true hblocks
    exact ⟨entry.1, entry.2, AList.mem_lookup_iff.mpr hentry, hfacts⟩
  · rintro ⟨key, record, hlookup, hfacts⟩
    exact ⟨⟨key, record⟩, AList.mem_lookup_iff.mp hlookup, decide_eq_true hfacts⟩

end MigrationRepository

/-- What a call can do: it is refused and leaves the repository as it was, or it succeeds and does
one of the things that calls do to the executions. -/
theorem touches_serve (rules : ContentRules C) (limit : ℕ) (repository : MigrationRepository C K)
    (request : RepositoryCall C K) :
    serve rules limit repository request = (false, repository) ∨
      ((serve rules limit repository request).1 = true ∧
        Touches repository (serve rules limit repository request).2 request) := by
  cases request with
  | createBaseline id values =>
    rcases repository.createBaseline_cases id values with
      ⟨failure, hrefused⟩ | ⟨baseline, -, -, -, -, hcreated⟩
    · exact Or.inl (by simp only [serve, hrefused, succeeds])
    · refine Or.inr ⟨by simp only [serve, hcreated, succeeds], .none _ ?_ ?_ ?_⟩
      · simp only [serve, hcreated]
      · exact fun _ _ _ ↦ nofun
      · exact fun _ _ ↦ nofun
  | createPlan record =>
    by_cases hblocks : repository.blocksWorkspaceLifecycle
        (record.ownerId, record.plan.workspaceId) = true
    · refine Or.inl ?_
      simp only [serve, MigrationRepository.createPlan, if_pos hblocks, succeeds]
    · refine Or.inr ⟨?_, .none _ (repository.createPlan_frame record).2.1 ?_ ?_⟩
      · simp only [serve, MigrationRepository.createPlan, if_neg hblocks, succeeds]
      · exact fun _ _ _ ↦ nofun
      · exact fun _ _ ↦ nofun
  | reserve id ownerId planId reviewDigest confirmDestructive confirmExternalChanges reservedAt =>
    rcases repository.reserveExecution_cases id ownerId planId reviewDigest confirmDestructive
        confirmExternalChanges reservedAt with
      ⟨failure, hrefused⟩ | ⟨existing, hexisting⟩ | ⟨plan, record, after, hreserves, hreserved⟩
    · exact Or.inl (by simp only [serve, hrefused, succeeds])
    · refine Or.inr ⟨by simp only [serve, hexisting, succeeds], .none _ ?_ ?_ ?_⟩
      · simp only [serve, hexisting]
      · exact fun _ _ _ ↦ nofun
      · exact fun _ _ ↦ nofun
    · refine Or.inr ⟨by simp only [serve, hreserved, succeeds], ?_⟩
      simp only [serve, hreserved]
      refine .reserved id ownerId planId reviewDigest confirmDestructive confirmExternalChanges
        reservedAt record ?_ hreserves.status ?_ ?_
      · exact Prod.ext hreserves.owner_eq hreserves.id_eq
      · rw [hreserves.workspace_eq]
        exact hreserves.free
      · rw [hreserves.after_eq]
  | claim claimedAt leaseOwner leaseExpiresAt =>
    rcases repository.claimNextExecution_cases claimedAt leaseOwner leaseExpiresAt with
      hnone | ⟨key, priority, kind, current, hcurrent, heligible, hclaimed⟩
    · exact Or.inl (by simp only [serve, hnone, Option.isSome_none])
    · dsimp only at hclaimed
      refine Or.inr ⟨by simp only [serve, hclaimed, Option.isSome_some], ?_⟩
      simp only [serve, hclaimed]
      refine .claimed _ _ _ key current _ hcurrent ?_ ?_ rfl
      · exact ⟨rfl, rfl, rfl, rfl, rfl, Option.some_ne_none _, Option.some_ne_none _⟩
      · rfl
  | renew key leaseOwner leaseExpiresAt =>
    rcases repository.renewExecutionLease_cases key leaseOwner leaseExpiresAt with
      hrefused | ⟨current, hcurrent, howner, hrenewed⟩
    · exact Or.inl hrefused
    · refine Or.inr ⟨by simp only [serve, hrenewed], ?_⟩
      simp only [serve, hrenewed]
      refine .renewed key _ _ current _ hcurrent ?_ ?_ rfl
      · exact ⟨rfl, rfl, rfl, rfl, rfl, Option.some_ne_none _, Option.some_ne_none _⟩
      · rfl
  | transition key change =>
    cases hsucceeds : succeeds (repository.transitionExecution key change).1 with
    | false =>
      refine Or.inl ?_
      rcases repository.transitionExecution_cases key change with
        ⟨failure, hrefused⟩ | ⟨current, -, -, -, -, -, hgranted⟩
      · simp only [serve, hrefused, succeeds]
      · rw [hgranted] at hsucceeds
        exact nomatch hsucceeds
    | true => exact Or.inr ⟨hsucceeds, MigrationRepository.transitionExecution_granted hsucceeds⟩
  | reconcileDrift baselineId designs record expectedDesignRevision resolvedContent liveContent =>
    cases hsucceeds : succeeds (repository.reconcileDrift rules limit designs baselineId record
        expectedDesignRevision resolvedContent liveContent).1 with
    | false =>
      refine Or.inl (Prod.ext hsucceeds ?_)
      exact repository.reconcileDrift_refused rules limit designs baselineId record
        expectedDesignRevision resolvedContent liveContent hsucceeds
    | true =>
      refine Or.inr ⟨hsucceeds, .none _ ?_ ?_ ?_⟩
      · exact repository.reconcileDrift_executions rules limit designs baselineId record
          expectedDesignRevision resolvedContent liveContent
      · exact fun _ _ _ ↦ nofun
      · exact fun _ _ ↦ nofun

/-! ### What every run keeps -/

/-- The executions are stored under their own keys, those of a workspace that are unsettled are one,
and the ones being applied are leased. -/
structure ExecutionsInv (repository : MigrationRepository C K) : Prop where
  keyed : ∀ key record, repository.executions.lookup key = some record → record.key = key
  single : ∀ key other record second, repository.executions.lookup key = some record →
    repository.executions.lookup other = some second → key.1 = other.1 →
      record.execution.workspaceId = second.execution.workspaceId →
        record.blocksWorkspaceLifecycle = true → second.blocksWorkspaceLifecycle = true →
          key = other
  leased : ∀ key record, repository.executions.lookup key = some record →
    record.execution.status = .applying → record.leaseOwner ≠ none ∧ record.leaseExpiresAt ≠ none

theorem executionsInv_init : ExecutionsInv (MigrationRepository.init C K) := by
  have hnone : ∀ key, (MigrationRepository.init C K).executions.lookup key = none :=
    fun key ↦ AList.lookup_empty key
  constructor
  · intro key record hfound
    rw [hnone] at hfound
    exact nomatch hfound
  · intro key other record second hfound
    rw [hnone] at hfound
    exact nomatch hfound
  · intro key record hfound
    rw [hnone] at hfound
    exact nomatch hfound

variable {repository after : MigrationRepository C K}

/-- Assumes: an execution written under its own key, that is leased if it is being applied, and
beside which no other execution of its workspace is unsettled if it is. The invariant is kept. -/
theorem ExecutionsInv.insert (h : ExecutionsInv repository) {key : Key} {next : ExecutionRecord C K}
    (hkey : next.key = key)
    (halone : next.blocksWorkspaceLifecycle = true → ∀ other second,
      repository.executions.lookup other = some second → key.1 = other.1 →
        next.execution.workspaceId = second.execution.workspaceId →
          second.blocksWorkspaceLifecycle = true → key = other)
    (hleased : next.execution.status = .applying →
      next.leaseOwner ≠ none ∧ next.leaseExpiresAt ≠ none)
    (hafter : after.executions = repository.executions.insert key next) :
    ExecutionsInv after := by
  have hlookup : ∀ other record, after.executions.lookup other = some record →
      (other = key ∧ record = next) ∨
        (other ≠ key ∧ repository.executions.lookup other = some record) := by
    intro other record hfound
    rw [hafter] at hfound
    by_cases hsame : other = key
    · subst hsame
      rw [AList.lookup_insert] at hfound
      exact Or.inl ⟨rfl, (Option.some.inj hfound).symm⟩
    · rw [AList.lookup_insert_ne hsame] at hfound
      exact Or.inr ⟨hsame, hfound⟩
  constructor
  · intro other record hfound
    rcases hlookup other record hfound with ⟨rfl, rfl⟩ | ⟨-, hbefore⟩
    · exact hkey
    · exact h.keyed other record hbefore
  · intro first other record second hfirst hsecond howner hworkspace hblocks hsecondBlocks
    rcases hlookup first record hfirst with ⟨rfl, rfl⟩ | ⟨-, hfirstBefore⟩
    · rcases hlookup other second hsecond with ⟨rfl, rfl⟩ | ⟨-, hsecondBefore⟩
      · rfl
      · exact halone hblocks other second hsecondBefore howner hworkspace hsecondBlocks
    · rcases hlookup other second hsecond with ⟨rfl, rfl⟩ | ⟨-, hsecondBefore⟩
      · exact (halone hsecondBlocks first record hfirstBefore howner.symm hworkspace.symm
          hblocks).symm
      · exact h.single first other record second hfirstBefore hsecondBefore howner hworkspace
          hblocks hsecondBlocks
  · intro other record hfound hstatus
    rcases hlookup other record hfound with ⟨rfl, rfl⟩ | ⟨-, hbefore⟩
    · exact hleased hstatus
    · exact h.leased other record hbefore hstatus

theorem LeasedAs.blocks_eq {current next : ExecutionRecord C K} (h : LeasedAs current next) :
    next.blocksWorkspaceLifecycle = current.blocksWorkspaceLifecycle := by
  unfold ExecutionRecord.blocksWorkspaceLifecycle
  rw [h.status_eq, h.outcome_eq, h.sync_eq]

/-- Assumes: a settled execution that a transition does not reopen. It stays settled. -/
theorem settled_of_not_reopens {current : ExecutionRecord C K} {change : ExecutionTransition C K}
    (hsettled : current.blocksWorkspaceLifecycle = false)
    (hreopens : current.reopens change = false) :
    (MigrationRepository.revisedExecution current change).blocksWorkspaceLifecycle = false := by
  unfold ExecutionRecord.reopens at hreopens
  rw [hsettled] at hreopens
  unfold ExecutionRecord.blocksWorkspaceLifecycle
  simpa [MigrationRepository.revisedExecution] using hreopens

variable {request : RepositoryCall C K}

/-- Assumes: the invariant, a call that meets what is asked of it, and what it does to the
executions. The invariant is kept. -/
theorem ExecutionsInv.touches (h : ExecutionsInv repository)
    (hmeets : request.Meets repository) (htouches : Touches repository after request) :
    ExecutionsInv after := by
  cases htouches with
  | none _ hsame _ _ =>
    constructor
    · rw [hsame]
      exact h.keyed
    · rw [hsame]
      exact h.single
    · rw [hsame]
      exact h.leased
  | reserved id ownerId planId _ _ _ _ record hkey hstatus hfree hafter =>
    refine h.insert hkey ?_ ?_ hafter
    · intro _ other second hother howner hworkspace hblocks
      have hblocked : repository.blocksWorkspaceLifecycle
          (ownerId, record.execution.workspaceId) = true :=
        (repository.blocksWorkspaceLifecycle_iff _).mpr
          ⟨other, second, hother, howner.symm, hworkspace.symm, hblocks⟩
      rw [hfree] at hblocked
      exact nomatch hblocked
    · intro happlying
      rw [hstatus] at happlying
      exact nomatch happlying
  | claimed _ _ _ key current next hcurrent hleased _ hafter =>
    have hown : current.key = key := h.keyed key current hcurrent
    rw [hown] at hafter
    refine h.insert (hleased.key_eq.trans hown) ?_ (fun _ ↦ hleased.leased) hafter
    intro hblocks other second hother howner hworkspace hsecond
    rw [hleased.blocks_eq] at hblocks
    rw [hleased.workspace_eq] at hworkspace
    exact h.single key other current second hcurrent hother howner hworkspace hblocks hsecond
  | renewed key _ _ current next hcurrent hleased _ hafter =>
    refine h.insert (hleased.key_eq.trans (h.keyed key current hcurrent)) ?_
      (fun _ ↦ hleased.leased) hafter
    intro hblocks other second hother howner hworkspace hsecond
    rw [hleased.blocks_eq] at hblocks
    rw [hleased.workspace_eq] at hworkspace
    exact h.single key other current second hcurrent hother howner hworkspace hblocks hsecond
  | revised key change current hcurrent hrevision hlegal hleased hafter =>
    have hkey : (MigrationRepository.revisedExecution current change).key = key :=
      h.keyed key current hcurrent
    refine h.insert hkey ?_ ?_ hafter
    · intro hblocks other second hother howner hworkspace hsecond
      cases hbefore : current.blocksWorkspaceLifecycle with
      | true =>
        exact h.single key other current second hcurrent hother howner hworkspace hbefore hsecond
      | false =>
        cases hreopens : current.reopens change with
        | false =>
          rw [settled_of_not_reopens hbefore hreopens] at hblocks
          exact nomatch hblocks
        | true =>
          have hfree := hmeets current hcurrent hreopens
          have hblocked : repository.blocksWorkspaceLifecycle
              (key.1, current.execution.workspaceId) = true :=
            (repository.blocksWorkspaceLifecycle_iff _).mpr
              ⟨other, second, hother, howner.symm, hworkspace.symm, hsecond⟩
          rw [hfree] at hblocked
          exact nomatch hblocked
    · intro happlying
      have hstatus : change.status = .applying := happlying
      have hholds : holdsExecutionLease change.status
          (change.changes.syncStatus.getD current.execution.syncStatus) = true := by
        simp [holdsExecutionLease, hstatus]
      simp only [MigrationRepository.revisedExecution, if_pos hholds]
      exact hleased hholds

/-- What holds of a call on a repository: a refusal leaves the repository as it was, every status
that changes does so along the table of legal transitions, a transition is granted on the revision
that it names and leaves the next one, and so does a claim with the revision that it finds. -/
structure CallSound (rules : ContentRules C) (limit : ℕ) (repository : MigrationRepository C K)
    (request : RepositoryCall C K) : Prop where
  refused : (serve rules limit repository request).1 = false →
    (serve rules limit repository request).2 = repository
  edges : ∀ key before later, repository.executions.lookup key = some before →
    (serve rules limit repository request).2.executions.lookup key = some later →
      later.execution.status ≠ before.execution.status →
        later.execution.status ∈ legalExecutionTransitions before.execution.status
  named : ∀ key change, request = .transition key change →
    (serve rules limit repository request).1 = true → ∃ before later,
      repository.executions.lookup key = some before ∧
        before.execution.revision = change.expectedRevision ∧
        (serve rules limit repository request).2.executions.lookup key = some later ∧
        later.execution.revision = change.expectedRevision + 1
  claimed : ∀ claimedAt leaseOwner leaseExpiresAt,
    request = .claim claimedAt leaseOwner leaseExpiresAt →
      (serve rules limit repository request).1 = true → ∃ key before later,
        repository.executions.lookup key = some before ∧
          (serve rules limit repository request).2.executions.lookup key = some later ∧
          later.execution.revision = before.execution.revision + 1

/-- Assumes: an execution written under a key, with the status that the execution stored there has,
or one that follows it. Statuses change along the table. -/
theorem legal_of_insert {key : Key} {next : ExecutionRecord C K}
    (hnext : ∀ before, repository.executions.lookup key = some before →
      next.execution.status ≠ before.execution.status →
        next.execution.status ∈ legalExecutionTransitions before.execution.status)
    (hafter : after.executions = repository.executions.insert key next) {other : Key}
    {before later : ExecutionRecord C K}
    (hbefore : repository.executions.lookup other = some before)
    (hlater : after.executions.lookup other = some later)
    (hchanged : later.execution.status ≠ before.execution.status) :
    later.execution.status ∈ legalExecutionTransitions before.execution.status := by
  rw [hafter] at hlater
  by_cases hsame : other = key
  · subst hsame
    rw [AList.lookup_insert] at hlater
    obtain rfl := Option.some.inj hlater
    exact hnext before hbefore hchanged
  · rw [AList.lookup_insert_ne hsame, hbefore] at hlater
    exact absurd (congrArg (fun record ↦ record.execution.status) (Option.some.inj hlater)).symm
      hchanged

/-- Assumes: the invariant, a call that meets what is asked of it, and what it does to the
executions. Statuses change along the table. -/
theorem Touches.edges (h : ExecutionsInv repository) (hmeets : request.Meets repository)
    (htouches : Touches repository after request) {key : Key} {before later : ExecutionRecord C K}
    (hbefore : repository.executions.lookup key = some before)
    (hlater : after.executions.lookup key = some later)
    (hchanged : later.execution.status ≠ before.execution.status) :
    later.execution.status ∈ legalExecutionTransitions before.execution.status := by
  cases htouches with
  | none _ hsame _ _ =>
    rw [hsame, hbefore] at hlater
    exact absurd (congrArg (fun record ↦ record.execution.status) (Option.some.inj hlater)).symm
      hchanged
  | reserved id ownerId _ _ _ _ _ record _ _ _ hafter =>
    -- the drawn identifier is unused, so no stored execution is overwritten
    refine legal_of_insert ?_ hafter hbefore hlater hchanged
    intro stored hstored
    have hmember : (ownerId, id) ∈ repository.executions :=
      AList.lookup_isSome.mp (Option.isSome_of_eq_some hstored)
    exact absurd hmember hmeets
  | claimed _ _ _ found current next hcurrent hleased _ hafter =>
    refine legal_of_insert ?_ hafter hbefore hlater hchanged
    intro stored hstored hstatus
    rw [h.keyed found current hcurrent, hcurrent] at hstored
    obtain rfl := Option.some.inj hstored
    exact absurd hleased.status_eq hstatus
  | renewed found _ _ current next hcurrent hleased _ hafter =>
    refine legal_of_insert ?_ hafter hbefore hlater hchanged
    intro stored hstored hstatus
    rw [hcurrent] at hstored
    obtain rfl := Option.some.inj hstored
    exact absurd hleased.status_eq hstatus
  | revised found change current hcurrent _ hlegal _ hafter =>
    refine legal_of_insert ?_ hafter hbefore hlater hchanged
    intro stored hstored _
    rw [hcurrent] at hstored
    obtain rfl := Option.some.inj hstored
    exact hlegal

theorem ExecutionsInv.callSound {rules : ContentRules C} {limit : ℕ}
    {repository : MigrationRepository C K} (h : ExecutionsInv repository)
    (hmeets : request.Meets repository) :
    CallSound rules limit repository request := by
  rcases touches_serve rules limit repository request with hrefused | ⟨hgranted, htouches⟩
  · rw [← Prod.eta (serve rules limit repository request)] at hrefused
    obtain ⟨hfalse, hsame⟩ := Prod.mk.inj hrefused
    constructor
    · exact fun _ ↦ hsame
    · intro key before later hbefore hlater hchanged
      rw [hsame, hbefore] at hlater
      exact absurd (congrArg (fun record ↦ record.execution.status)
        (Option.some.inj hlater)).symm hchanged
    · intro key change _ htrue
      rw [hfalse] at htrue
      exact nomatch htrue
    · intro claimedAt leaseOwner leaseExpiresAt _ htrue
      rw [hfalse] at htrue
      exact nomatch htrue
  · constructor
    · intro hfalse
      rw [hgranted] at hfalse
      exact nomatch hfalse
    · intro key before later hbefore hlater hchanged
      exact htouches.edges h hmeets hbefore hlater hchanged
    · rintro key change rfl -
      cases htouches with
      | none _ _ _ hno => exact absurd rfl (hno key change)
      | revised _ _ current hcurrent hrevision _ _ hafter =>
        refine ⟨current, MigrationRepository.revisedExecution current change, hcurrent, hrevision,
          ?_, ?_⟩
        · rw [hafter, AList.lookup_insert]
        · rw [← hrevision]
          rfl
    · rintro claimedAt leaseOwner leaseExpiresAt rfl -
      cases htouches with
      | none _ _ hno _ => exact absurd rfl (hno claimedAt leaseOwner leaseExpiresAt)
      | claimed _ _ _ key current next hcurrent _ hrevision hafter =>
        refine ⟨key, current, next, hcurrent, ?_, hrevision⟩
        rw [hafter, h.keyed key current hcurrent, AList.lookup_insert]

theorem RepositoryRun.executionsInv {rules : ContentRules C} {limit : ℕ}
    {repository : MigrationRepository C K} (h : RepositoryRun rules limit repository) :
    ExecutionsInv repository := by
  induction h with
  | init => exact executionsInv_init
  | call request hrun hmeets ih =>
    rcases touches_serve rules limit _ request with hrefused | ⟨-, htouches⟩
    · rw [hrefused]
      exact ih
    · exact ih.touches hmeets htouches

/-- Assumes: a repository that a run leads to in which no transition reopens an execution beside
another unsettled one of its workspace. Every workspace has at most one unsettled execution, every
execution that is being applied has a lease owner and an expiry, and every further call is sound. -/
theorem single_unsettled_execution (rules : ContentRules C) (limit : ℕ)
    (repository : MigrationRepository C K) (h : RepositoryRun rules limit repository) :
    (∀ owner workspace first second record other,
        repository.executions.lookup (owner, first) = some record →
        repository.executions.lookup (owner, second) = some other →
        record.execution.workspaceId = workspace → other.execution.workspaceId = workspace →
        record.blocksWorkspaceLifecycle = true → other.blocksWorkspaceLifecycle = true →
          first = second) ∧
      (∀ key record, repository.executions.lookup key = some record →
        record.execution.status = .applying → ∃ owner expiry,
          record.leaseOwner = some owner ∧ record.leaseExpiresAt = some expiry) ∧
      ∀ request : RepositoryCall C K, request.Meets repository →
        CallSound rules limit repository request := by
  have hinv := h.executionsInv
  refine ⟨?_, ?_, fun request hmeets ↦ hinv.callSound hmeets⟩
  · intro owner workspace first second record other hfirst hsecond hworkspace hsame hblocks hother
    have hkeys := hinv.single (owner, first) (owner, second) record other hfirst hsecond rfl
      (hworkspace.trans hsame.symm) hblocks hother
    exact (Prod.mk.inj hkeys).2
  · intro key record hfound hstatus
    obtain ⟨howner, hexpiry⟩ := hinv.leased key record hfound hstatus
    obtain ⟨owner, howner⟩ := Option.ne_none_iff_exists'.mp howner
    obtain ⟨expiry, hexpiry⟩ := Option.ne_none_iff_exists'.mp hexpiry
    exact ⟨owner, expiry, howner, hexpiry⟩

/-! ### Concrete runs -/

/-- Whether each of a list of calls succeeds, and the repository that they leave. -/
def serveAll (rules : ContentRules C) (limit : ℕ) (repository : MigrationRepository C K) :
    List (RepositoryCall C K) → List Bool × MigrationRepository C K
  | [] => ([], repository)
  | request :: rest =>
    let outcome := serve rules limit repository request
    let later := serveAll rules limit outcome.2 rest
    (outcome.1 :: later.1, later.2)

/-- A transition of a sample execution by the worker that leased it. -/
def sampleChange (expectedRevision : ℕ) (source status : ExecutionStatus)
    (commitOutcome : CommitOutcome) (syncStatus : SyncStatus) :
    RepositoryCall String String :=
  .transition ("o", "e1")
    { expectedRevision := expectedRevision
      allowedFrom := [source]
      status := status
      leaseOwner := some "w1"
      leaseExpiresAt := some 90
      recoverExpiredBefore := none
      changes :=
        { commitOutcome := some (some commitOutcome)
          syncStatus := some (some syncStatus) } }

/-- The execution of a plan is reserved, claimed, applied and committed. -/
def firstExecution : List (RepositoryCall String String) :=
  [.createPlan (samplePlan "p1" "b" "A" "B" 1 2),
    .reserve "e1" "o" "p1" "r" false false 1,
    .claim 2 "w1" 60,
    sampleChange 2 .reserved .applying .uncertain .pending,
    sampleChange 3 .applying .succeeded .committed .succeeded]

/-- An execution settles as succeeded, the next one of its workspace is reserved, and a legal
transition takes the first one back to `reconciliation_required`: every call succeeds, and the
workspace has two unsettled executions. -/
theorem reopened_execution_is_second :
    let outcome := serveAll sampleRules 10 (.init String String)
      (firstExecution ++
        [.createPlan (samplePlan "p2" "b" "B" "C" 2 3),
          .reserve "e2" "o" "p2" "r" false false 5,
          sampleChange 4 .succeeded .reconciliationRequired .committed .failed])
    outcome.1.all id = true ∧
      ∃ first ∈ outcome.2.executions.lookup ("o", "e1"),
      ∃ second ∈ outcome.2.executions.lookup ("o", "e2"),
        first.execution.workspaceId = second.execution.workspaceId ∧
          first.blocksWorkspaceLifecycle = true ∧ second.blocksWorkspaceLifecycle = true := by
  decide

/-- The run that reserves an execution leads to a repository that holds it, and to which the theorem
applies. -/
theorem sample_single_unsettled_execution :
    ∃ repository, RepositoryRun sampleRules 10 repository ∧
      (repository.executions.lookup ("o", "e1")).isSome = true ∧
      ∀ request : RepositoryCall String String, request.Meets repository →
        CallSound sampleRules 10 repository request := by
  let planned := (serve sampleRules 10 (.init String String)
    (.createPlan (samplePlan "p1" "b" "A" "B" 1 2))).2
  have hplanned : RepositoryRun sampleRules 10 planned := .call _ .init trivial
  have hreserved : RepositoryRun sampleRules 10 (serve sampleRules 10 planned
      (.reserve "e1" "o" "p1" "r" false false 1)).2 := by
    refine .call _ hplanned ?_
    change ("o", "e1") ∉ planned.executions
    decide
  refine ⟨_, hreserved, by decide, ?_⟩
  exact (single_unsettled_execution sampleRules 10 _ hreserved).2.2

end Schemii.Migrations
