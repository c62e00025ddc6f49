import Schemii.Migrations.Discipline

/-!
# Every migration program is disciplined

`Discipline.safe_starts`: every program that may start, a turn of a worker, a heartbeat or a manual
reconciliation, is safe for every discipline. Each program is followed once, through all its
branches: the exception handlers of the worker, the two callbacks of the gateway, and whatever the
other programs and the environment do between any two calls.
-/

set_option autoImplicit false

namespace Schemii.Migrations

open Foundations Designs

variable {C K : Type}
variable {world : World C K} {record : ExecutionRecord C K}

/-- What a granted transition made of a record. -/
structure Transitioned (record : ExecutionRecord C K) (status : ExecutionStatus)
    (changes : ExecutionChanges C K) (next : ExecutionRecord C K) : Prop where
  ownerId : next.ownerId = record.ownerId
  id : next.execution.id = record.execution.id
  planId : next.execution.planId = record.execution.planId
  workspaceId : next.execution.workspaceId = record.execution.workspaceId
  status : next.execution.status = status
  transactionId : next.execution.transactionId =
    changes.transactionId.getD record.execution.transactionId
  targetIdentity : next.targetIdentity = changes.targetIdentity.getD record.targetIdentity
  intendedResult : next.intendedResult = changes.intendedResult.getD record.intendedResult
  commitOutcome : next.execution.commitOutcome =
    changes.commitOutcome.getD record.execution.commitOutcome

theorem Transitioned.key {next : ExecutionRecord C K} {status : ExecutionStatus}
    {changes : ExecutionChanges C K} (h : Transitioned record status changes next) :
    next.key = record.key := by
  unfold ExecutionRecord.key
  rw [h.ownerId, h.id]

theorem Transitioned.workspace {next : ExecutionRecord C K} {status : ExecutionStatus}
    {changes : ExecutionChanges C K} (h : Transitioned record status changes next) :
    next.workspace = record.workspace := by
  unfold ExecutionRecord.workspace
  rw [h.ownerId, h.workspaceId]

namespace Discipline

variable {rules : ContentRules C} {limit : ℕ} {fingerprint : K → String}
  (D : Discipline rules limit fingerprint) {thread : ℕ}

/-! ### Reads and transitions -/

theorem safe_read {request : MigrationCall C K}
    {post : Except Failure request.Reply → World C K → Prop} (hleaves : request.LeavesTarget)
    (hlicensed : ∀ before, Licensed fingerprint D.fact thread before request)
    (hpost : ∀ (reply : request.Reply) (after : World C K), Quiet thread world after →
      D.logic.inv after → post (.ok reply) after) :
    Safe D.logic thread (ask request) world post :=
  D.safe_quiet hleaves (fun before _ _ ↦ hlicensed before)
    fun _ reply after _ _ _ hquiet hinv ↦ hpost reply after hquiet hinv

theorem safe_leaseOwnerFor {retainsLease : Bool}
    {post : Except Failure (Option String) → World C K → Prop}
    (hpost : ∀ owner after, Quiet thread world after → post (.ok owner) after) :
    Safe D.logic thread (Coordinator.leaseOwnerFor record retainsLease) world post := by
  unfold Coordinator.leaseOwnerFor
  split_ifs
  · exact Safe.bind (D.safe_read trivial (fun _ ↦ trivial)
      fun token after hquiet _ ↦ hpost _ after hquiet)
  · exact hpost _ world (.refl thread world)

variable {coordinator : Coordinator C K}

theorem safe_leaseDeadlineFor {retainsLease : Bool}
    {post : Except Failure (Option ℕ) → World C K → Prop}
    (hpost : ∀ deadline after, Quiet thread world after → post (.ok deadline) after) :
    Safe D.logic thread (coordinator.leaseDeadlineFor retainsLease) world post := by
  unfold Coordinator.leaseDeadlineFor
  split_ifs
  · exact Safe.bind (D.safe_read trivial (fun _ ↦ trivial)
      fun time after hquiet _ ↦ hpost _ after hquiet)
  · exact hpost _ world (.refl thread world)

variable {recoverExpired : Bool}

theorem safe_recoveryTime {post : Except Failure (Option ℕ) → World C K → Prop}
    (hpost : ∀ time after, Quiet thread world after → post (.ok time) after) :
    Safe D.logic thread (Coordinator.recoveryTime recoverExpired) world post := by
  unfold Coordinator.recoveryTime
  split_ifs
  · exact Safe.bind (D.safe_read trivial (fun _ ↦ trivial)
      fun time after hquiet _ ↦ hpost _ after hquiet)
  · exact hpost _ world (.refl thread world)

/-- Assumes: a granted transition of a record that was read at its revision. What it made of the
record. -/
theorem transitioned_of_perform {before after : World C K} {next : ExecutionRecord C K}
    {transition : ExecutionTransition C K} (hknows : before.Knows record)
    (hrevision : transition.expectedRevision = record.execution.revision)
    (hperform : perform rules limit thread (.transitionExecution record.key transition) before
      (.ok next) after) :
    after.record? record.key = some next ∧
      Transitioned record transition.status transition.changes next := by
  rcases hperform with ⟨hreply, hafter⟩ | ⟨failure, -, hreply, -⟩
  · rcases before.repository.transitionExecution_cases record.key transition with
      ⟨failure, houtcome⟩ | ⟨current, hlookup, hcurrent, -, -, -, houtcome⟩
    · rw [World.withRepository, houtcome] at hreply
      exact nomatch hreply
    · rw [World.withRepository, houtcome] at hreply hafter
      obtain rfl : next = MigrationRepository.revisedExecution current transition :=
        Except.ok.inj hreply
      obtain ⟨stored, hstored, hlater⟩ := hknows
      obtain rfl : stored = current := Option.some.inj (hstored.symm.trans hlookup)
      have hsame := hlater.same (hcurrent.trans hrevision)
      refine ⟨by rw [hafter]; exact AList.lookup_insert _, ?_⟩
      exact
        { ownerId := hlater.ownerId
          id := hlater.id
          planId := hlater.planId
          workspaceId := hlater.workspaceId
          status := rfl
          transactionId := by rw [← hsame.transactionId]; rfl
          targetIdentity := by rw [← hsame.targetIdentity]; rfl
          intendedResult := by rw [← hsame.intendedResult]; rfl
          commitOutcome := by rw [← hsame.commitOutcome]; rfl }
  · exact nomatch hreply

variable {post : Except Failure (ExecutionRecord C K) → World C K → Prop}

/-- A transition. Assumes: a licence wherever the program may make the call, and what follows from
its outcome. -/
theorem safe_transitionExecution {status : ExecutionStatus} {changes : ExecutionChanges C K}
    (hlicence : ∀ before, Quiet thread world before → D.logic.inv before →
      before.Knows record ∧
        TransitionLicence fingerprint thread before record status changes)
    (hok : ∀ next after, Quiet thread world after → D.logic.inv after →
      after.record? next.key = some next → Transitioned record status changes next →
        post (.ok next) after)
    (herror : ∀ failure after, Quiet thread world after → D.logic.inv after →
      post (.error failure) after) :
    Safe D.logic thread
      (coordinator.transitionExecution record status changes recoverExpired) world post := by
  refine Safe.bind (D.safe_leaseOwnerFor fun owner first hfirst ↦ ?_)
  refine Safe.bind (D.safe_leaseDeadlineFor fun deadline second hsecond ↦ ?_)
  refine Safe.bind (D.safe_recoveryTime fun time third hthird ↦ ?_)
  have hquiet := (hfirst.trans hsecond).trans hthird
  refine D.safe_askOr (D.safe_quiet trivial ?_ ?_)
  · intro before hbefore hinv
    obtain ⟨hknows, hlicence⟩ := hlicence before (hquiet.trans hbefore) hinv
    exact ⟨record, hknows, rfl, rfl, hlicence⟩
  · intro before reply after hbefore hinv hperform hafter hinvAfter
    have hquietAfter := hquiet.trans hafter
    cases reply with
    | error failure => exact herror _ after hquietAfter hinvAfter
    | ok next =>
      obtain ⟨hknows, -⟩ := hlicence before (hquiet.trans hbefore) hinv
      obtain ⟨hrecord, htransitioned⟩ :=
        transitioned_of_perform hknows rfl (D.perform_le hperform)
      rw [← htransitioned.key] at hrecord
      exact hok next after hquietAfter hinvAfter hrecord htransitioned

/-- The plan of a known record. Assumes: what follows from the plan, which is for the workspace of
the record, and from an exception. -/
theorem safe_planOf
    {post : Except Failure (PlanRecord C K) → World C K → Prop} (hknows : world.Knows record)
    (hok : ∀ plan after, Quiet thread world after → D.logic.inv after →
      after.KnowsPlan record plan → plan.plan.workspaceId = record.execution.workspaceId →
        post (.ok plan) after)
    (herror : ∀ failure after, Quiet thread world after → post (.error failure) after) :
    Safe D.logic thread (planOf (record.ownerId, record.execution.planId)) world post := by
  refine D.safe_askOr (D.safe_quiet trivial (fun _ _ _ ↦ trivial) ?_)
  intro before reply after hbefore hinv hperform hafter hinvAfter
  cases reply with
  | error failure => exact herror _ after hafter
  | ok plan =>
    rcases D.perform_le hperform with ⟨hreply, rfl⟩ | ⟨failure, -, hreply, -⟩
    · obtain ⟨current, hcurrent, hlater⟩ := hknows.growth hafter.growth
      obtain ⟨-, stored, hstored, hworkspace⟩ := (D.inv_le hinvAfter).plans _ current hcurrent
      rw [hlater.ownerId, hlater.planId] at hstored
      simp only [MigrationRepository.getPlan, hstored] at hreply
      obtain rfl := Except.ok.inj hreply
      exact hok plan after hafter hinvAfter ⟨plan, hstored, .refl plan⟩
        (hworkspace.trans hlater.workspaceId)
    · cases hreply

theorem safe_designOf {key : Key} {post : Except Failure (Design C) → World C K → Prop}
    (hpost : ∀ outcome after, Quiet thread world after → post outcome after) :
    Safe D.logic thread (designOf key) world post := by
  refine D.safe_askOr (D.safe_read trivial (fun _ ↦ trivial) fun reply after hquiet _ ↦ ?_)
  cases reply <;> exact hpost _ after hquiet

theorem safe_workspaceOf {key : Key} {post : Except Failure WorkspaceTarget → World C K → Prop}
    (hpost : ∀ outcome after, Quiet thread world after → post outcome after) :
    Safe D.logic thread (workspaceOf key) world post := by
  refine D.safe_askOr (D.safe_read trivial (fun _ ↦ trivial) fun reply after hquiet _ ↦ ?_)
  cases reply <;> exact hpost _ after hquiet

/-- An execution that is read. Assumes: what follows from a record of the repository under the key
that was asked for, and from an exception. -/
theorem safe_getExecution {translate : Failure → Failure} {key : Key}
    (hok : ∀ record after, D.logic.inv after → after.record? key = some record →
      record.key = key → post (.ok record) after)
    (herror : ∀ failure after, post (.error failure) after) :
    Safe D.logic thread (askOr translate (ask (.getExecution key))) world post := by
  refine D.safe_askOr (D.safe_quiet trivial (fun _ _ _ ↦ trivial) ?_)
  intro before reply after hbefore hinv hperform hafter hinvAfter
  cases reply with
  | error failure => exact herror _ after
  | ok record =>
    rcases D.perform_le hperform with ⟨hreply, rfl⟩ | ⟨failure, -, hreply, -⟩
    · have hrecord : after.record? key = some record := by
        unfold MigrationRepository.getExecution at hreply
        unfold World.record?
        split at hreply
        · next found hfound =>
          rw [hfound, Except.ok.inj hreply]
        · exact nomatch hreply
      exact hok record after hinvAfter hrecord ((D.inv_le hinvAfter).keyed key record hrecord)
    · exact nomatch hreply

/-- A head baseline that a synchronisation reads. Assumes: a known committed record, and what follows
from the head and from an exception. -/
theorem safe_currentBaseline {workspace : Key} {purpose : BaselineRead}
    {post : Except Failure (Option (BaselineRecord C K)) → World C K → Prop}
    (hkey : workspace = record.workspace) (hknows : world.Knows record)
    (hcommitted : record.execution.commitOutcome = some .committed)
    (hok : ∀ head after, Quiet thread world after → after.SeenHead record.key head →
      (purpose = .synchronise record.key → D.fact record.key head after) → post (.ok head) after)
    (herror : ∀ failure after, post (.error failure) after) :
    Safe D.logic thread (askOr id (ask (.currentBaseline workspace purpose))) world post := by
  subst hkey
  refine D.safe_askOr (D.safe_quiet trivial (fun _ _ _ ↦ trivial) ?_)
  intro before reply after hbefore hinv hperform hafter hinvAfter
  cases reply with
  | error failure => exact herror _ after
  | ok head =>
    refine hok head after hafter ?_ ?_
    · rcases D.perform_le hperform with ⟨hreply, rfl⟩ | ⟨failure, -, hreply, -⟩
      · rw [Except.ok.inj hreply]
        exact (D.inv_le hinvAfter).seen_current (hknows.growth hafter.growth)
      · exact nomatch hreply
    · rintro rfl
      exact D.fact_read hinv (hknows.growth hbefore.growth) hcommitted hperform

/-- Giving an execution up. Assumes: a known record that was given up, and an end condition that
holds everywhere. -/
theorem safe_failExecution
    {code : String} {detail : Option (Option (List (String × Json)))} {completed : Option ℕ}
    (hknows : world.Knows record) (hgaveUp : world.GaveUp thread record)
    (hpost : ∀ outcome after, post outcome after) :
    Safe D.logic thread
      (coordinator.failExecution record code detail completed recoverExpired) world post := by
  refine D.safe_transitionExecution (fun before hquiet _ ↦ ⟨hknows.growth hquiet.growth, ?_⟩)
    (fun next after _ _ _ _ ↦ hpost _ after) fun failure after _ _ ↦ hpost _ after
  exact .fail _ ⟨rfl, rfl, rfl⟩ rfl rfl (hgaveUp.quiet hquiet)

theorem safe_failBeforeApply {α : Type} {code message : String} {status : ℕ}
    {details : List (String × Json)} (hknows : world.Knows record)
    (hgaveUp : world.GaveUp thread record) :
    Safe D.logic thread
      (coordinator.failBeforeApply record code message status details : Prog C K α)
      world fun _ _ ↦ True := by
  refine Safe.bind (D.safe_failExecution hknows hgaveUp fun outcome after ↦ ?_)
  cases outcome with
  | error failure => trivial
  | ok failed => trivial

/-- Leaving the outcome open. Assumes: a known record that is not recorded as committed, of a started
execution if it stays `applying`. -/
theorem safe_leaveUncertain {status : ExecutionStatus} {code : String}
    {detail : Option (Option (List (String × Json)))} (hknows : world.Knows record)
    (hstatus : status = .uncertain ∨ status = .reconciliationRequired ∨ status = .applying)
    (hstarted : status = .applying → record.execution.status ≠ .reserved)
    (hopen : record.execution.commitOutcome ≠ some .committed) :
    Safe D.logic thread (coordinator.leaveUncertain record status code detail recoverExpired)
      world fun _ _ ↦ True := by
  refine Safe.bind (D.safe_transitionExecution
    (fun before hquiet _ ↦ ⟨hknows.growth hquiet.growth, ?_⟩)
    (fun next after _ _ _ _ ↦ trivial) fun failure after _ _ ↦ trivial)
  exact .uncertain status _ ⟨rfl, rfl, rfl⟩ rfl rfl hstatus hstarted hopen

end Discipline

/-! ### Synchronising a committed execution -/

namespace Discipline

variable {rules : ContentRules C} {limit : ℕ} {coordinator : Coordinator C K}
  (D : Discipline rules limit coordinator.planner.catalogFingerprint) {thread : ℕ}

/-- Assumes: the invariant, and a baseline that was created for a known record. It is seen, with the
catalog it was created with. -/
theorem created_of_perform {before after : World C K}
    {values : BaselineCreate C K} {baseline : BaselineRecord C K} (hinv : WorldInv before)
    (hknows : before.Knows record)
    (hworkspace : (values.ownerId, values.workspaceId) = record.workspace)
    (hperform : perform rules limit thread (.createBaseline values) before (.ok baseline) after) :
    after.Seen record.key baseline ∧ baseline.catalog = values.catalog := by
  obtain ⟨id, -, ⟨hreply, hafter⟩ | ⟨failure, -, hreply, -⟩⟩ := hperform
  · rcases before.repository.createBaseline_cases id values with
      ⟨failure, houtcome⟩ | ⟨created, -, -, hcatalog, -, houtcome⟩
    · rw [World.withRepository, houtcome] at hreply
      exact nomatch hreply
    · rw [World.withRepository, houtcome] at hreply hafter
      rw [Except.ok.inj hreply]
      obtain ⟨current, hcurrent, hlater⟩ := hknows
      subst hafter
      refine ⟨⟨current, (before.repository.baselines record.workspace).length, hcurrent, ?_, ?_⟩,
        hcatalog⟩
      · unfold MigrationRepository.baselines
        rw [hlater.workspace_eq, hworkspace, AList.lookup_insert]
        exact List.getElem?_concat_length
      · have hmark := hinv.marks _ current hcurrent
        rw [hlater.workspace_eq] at hmark
        exact hmark.trans (Nat.le_succ _)
  · exact nomatch hreply

/-- Assumes: a head that was seen, and a baseline after it that was refused as a conflict. The
workspace moved on. -/
theorem advanced_of_perform {before after : World C K}
    {values : BaselineCreate C K} {head : Option (BaselineRecord C K)}
    {code message : String} {details : List (String × Json)}
    (hknows : before.Knows record) (hseen : before.SeenHead record.key head)
    (hworkspace : (values.ownerId, values.workspaceId) = record.workspace)
    (hpredecessor : values.expectedPredecessorId = head.map BaselineRecord.id)
    (hperform : perform rules limit thread (.createBaseline values) before
      (.error (.repositoryConflict code message details)) after) :
    after.Advanced record.key := by
  obtain ⟨id, -, ⟨hreply, hafter⟩ | ⟨failure, houtage, hreply, -⟩⟩ := hperform
  · by_cases hgranted : values.expectedPredecessorId = (before.repository.currentBaseline
        (values.ownerId, values.workspaceId)).map BaselineRecord.id
    · obtain ⟨baseline, houtcome⟩ := before.repository.createBaseline_granted id hgranted
      rw [World.withRepository, houtcome] at hreply
      exact nomatch hreply
    · rcases before.repository.createBaseline_cases id values with
        ⟨failure, houtcome⟩ | ⟨created, hexpected, -⟩
      · rw [World.withRepository, houtcome] at hafter
        obtain rfl : after = before := hafter
        refine hseen.advanced hknows ?_
        rw [← hpredecessor, ← hworkspace]
        exact hgranted
      · exact absurd hexpected hgranted
  · obtain rfl := Except.error.inj hreply
    exact houtage.elim

variable {intended : IntendedResult C K}

/-- Settling. Assumes: a known committed record with its intended result, and baselines that carry
its catalog. -/
theorem safe_settleSync {workspace : Key} {designConflict : Bool} (hknows : world.Knows record)
    (hcommitted : record.execution.commitOutcome = some .committed)
    (hintended : record.intendedResult = some intended)
    (hcarries : world.Carries coordinator.planner.catalogFingerprint record.key
      intended.catalog) :
    Safe D.logic thread (coordinator.settleSync record intended workspace designConflict) world
      fun _ _ ↦ True := by
  refine Safe.bind (D.safe_designOf fun outcome after hquiet ↦ ?_)
  cases outcome with
  | error failure => trivial
  | ok latest =>
    have hknowsAfter := hknows.growth hquiet.growth
    have hcarriesAfter := hcarries.growth hquiet.growth
    dsimp only
    split_ifs with hconflict
    · refine Safe.bind (D.safe_transitionExecution
        (fun before hbefore _ ↦ ⟨hknowsAfter.growth hbefore.growth, ?_⟩)
        (fun next after _ _ _ _ ↦ trivial) fun failure after _ _ ↦ trivial)
      exact .settle _ intended .conflict ⟨rfl, rfl, rfl⟩ rfl rfl (Or.inr rfl) hcommitted hintended
        (hcarriesAfter.growth hbefore.growth)
    · refine Safe.bind (D.safe_transitionExecution
        (fun before hbefore _ ↦ ⟨hknowsAfter.growth hbefore.growth, ?_⟩)
        (fun next after _ _ _ _ ↦ trivial) fun failure after _ _ ↦ trivial)
      exact .settle _ intended .succeeded ⟨rfl, rfl, rfl⟩ rfl rfl (Or.inl rfl) hcommitted hintended
        (hcarriesAfter.growth hbefore.growth)

variable {plan : PlanRecord C K}

/-- Recording the baseline. Assumes: a known committed record with its intended result, and the plan
of its workspace. -/
theorem safe_syncBaseline {ownerId : String} {designRevision : ℕ}
    {designConflict : Bool} (hknows : world.Knows record) (howner : record.ownerId = ownerId)
    (hworkspace : plan.plan.workspaceId = record.execution.workspaceId)
    (hcommitted : record.execution.commitOutcome = some .committed)
    (hintended : record.intendedResult = some intended) :
    Safe D.logic thread
      (coordinator.syncBaseline ownerId plan record intended designRevision designConflict) world
      fun _ _ ↦ True := by
  have hkey : ((ownerId, plan.plan.workspaceId) : Key) = record.workspace := by
    rw [← howner, hworkspace]
    rfl
  refine Safe.bind (D.safe_currentBaseline hkey hknows hcommitted
    (fun head first hfirst hseen hfact ↦ ?_) fun failure after ↦ trivial)
  replace hfact := hfact rfl
  have hknowsFirst := hknows.growth hfirst.growth
  by_cases hcurrent : head.map (fun head ↦ coordinator.planner.catalogFingerprint head.catalog) =
      some (coordinator.planner.catalogFingerprint intended.catalog)
  · simp only [if_pos hcurrent]
    obtain ⟨baseline, rfl, hfingerprint⟩ := Option.map_eq_some_iff.mp hcurrent
    exact D.safe_settleSync hknowsFirst hcommitted hintended
      (Or.inl ⟨baseline, hseen, hfingerprint⟩)
  · simp only [if_neg hcurrent]
    refine Safe.bind (D.safe_quiet trivial ?_ ?_)
    · intro before hbefore _
      exact ⟨record, intended, head, hknowsFirst.growth hbefore.growth, hcommitted, hintended, hkey,
        rfl, rfl, hseen.growth hknowsFirst hbefore.growth, D.fact_growth hbefore.growth hfact, rfl,
        hcurrent⟩
    · intro before reply after hbefore hinv hperform hafter _
      have hknowsAfter := hknowsFirst.growth hafter.growth
      cases reply with
      | ok baseline =>
        obtain ⟨hcreated, hcatalog⟩ := created_of_perform (D.inv_le hinv)
          (hknowsFirst.growth hbefore.growth) hkey (D.perform_le hperform)
        refine D.safe_settleSync hknowsAfter hcommitted hintended
          (Or.inl ⟨baseline, hcreated, ?_⟩)
        rw [hcatalog]
      | error failure =>
        cases failure with
        | repositoryConflict code message details =>
          have hadvanced : after.Advanced record.key := advanced_of_perform
            (hknowsFirst.growth hbefore.growth) (hseen.growth hknowsFirst hbefore.growth) hkey rfl
            (D.perform_le hperform)
          refine Safe.bind (D.safe_currentBaseline hkey hknowsAfter hcommitted
            (fun again last hlast hseenLast _ ↦ ?_) fun failure after ↦ trivial)
          have hknowsLast := hknowsAfter.growth hlast.growth
          dsimp only
          split_ifs with hagain
          · obtain ⟨baseline, rfl, hfingerprint⟩ := Option.map_eq_some_iff.mp hagain
            exact D.safe_settleSync hknowsLast hcommitted hintended
              (Or.inl ⟨baseline, hseenLast, hfingerprint⟩)
          · refine Safe.bind (D.safe_transitionExecution
              (fun before hbefore _ ↦ ⟨hknowsLast.growth hbefore.growth, ?_⟩)
              (fun next after _ _ _ _ ↦ trivial) fun failure after _ _ ↦ trivial)
            exact .settle _ intended .conflict ⟨rfl, rfl, rfl⟩ rfl rfl (Or.inr rfl) hcommitted
              hintended (Or.inr ((hadvanced.growth hlast.growth).growth hbefore.growth))
        | _ => trivial

/-- Synchronising. Assumes: a known committed record, its plan for its workspace, and its intended
result. -/
theorem safe_syncCommitted {ownerId : String}
    (hknows : world.Knows record) (hplan : world.KnowsPlan record plan)
    (howner : record.ownerId = ownerId)
    (hworkspace : plan.plan.workspaceId = record.execution.workspaceId)
    (hcommitted : record.execution.commitOutcome = some .committed)
    (hintended : record.intendedResult = some intended) :
    Safe D.logic thread (coordinator.syncCommitted ownerId plan record) world
      fun _ _ ↦ True := by
  have hkey : ((ownerId, plan.plan.workspaceId) : Key) = record.workspace := by
    rw [← howner, hworkspace]
    rfl
  unfold Coordinator.syncCommitted
  rw [hintended]
  refine Safe.bind (D.safe_designOf fun outcome first hfirst ↦ ?_)
  cases outcome with
  | error failure => trivial
  | ok design =>
    have hknowsFirst := hknows.growth hfirst.growth
    have hplanFirst := hplan.growth hknows hfirst.growth
    dsimp only
    split_ifs with hsynced hchanged
    · exact D.safe_syncBaseline hknowsFirst howner hworkspace hcommitted hintended
    · exact D.safe_syncBaseline hknowsFirst howner hworkspace hcommitted hintended
    · push Not at hchanged
      refine Safe.bind (D.safe_quiet trivial ?_ ?_)
      · intro before hbefore _
        exact ⟨record, plan, hknowsFirst.growth hbefore.growth,
          hplanFirst.growth hknowsFirst hbefore.growth, hcommitted, hkey, rfl, hchanged.1⟩
      · intro before reply after _ _ _ hafter _
        have hknowsAfter := hknowsFirst.growth hafter.growth
        cases reply with
        | ok replaced =>
          exact D.safe_syncBaseline hknowsAfter howner hworkspace hcommitted hintended
        | error failure =>
          cases failure with
          | designConflict revision =>
            exact D.safe_syncBaseline hknowsAfter howner hworkspace hcommitted hintended
          | _ => trivial

/-! ### Recovering an execution -/

/-- The exception handler of a recovery. Assumes: a known record that is not recorded as
committed. -/
theorem safe_recoveryFailure {automatic : Bool} {failure : Failure} (hknows : world.Knows record)
    (hopen : record.execution.commitOutcome ≠ some .committed) :
    Safe D.logic thread (coordinator.recoveryFailure record automatic failure) world
      fun _ _ ↦ True := by
  have hleave : ∀ code, Safe D.logic thread
      (coordinator.leaveUncertain record .reconciliationRequired code none false) world
      fun _ _ ↦ True :=
    fun code ↦ D.safe_leaveUncertain hknows (Or.inr (Or.inl rfl)) (fun h ↦ nomatch h) hopen
  have hhandle : ∀ (code : String) (raised : Failure), Safe D.logic thread
      (if automatic then
        coordinator.leaveUncertain record .reconciliationRequired code none false
      else .raise raised) world fun _ _ ↦ True := by
    intro code raised
    split_ifs
    · exact hleave code
    · trivial
  cases failure with
  | connectionNotFound message => exact hhandle _ _
  | connectionCapacity limitName limit observed => exact hhandle _ _
  | gateway code message sqlstate => exact hhandle _ _
  | _ => trivial

/-- What a recovery does with the answer of the target. Assumes: a known record of a started
execution that is not recorded as committed, its plan, a transaction it holds, and a true
answer. -/
theorem safe_classifyTransaction
    {automatic : Bool} {identity : TargetIdentity} {status : TransactionStatus} {index : ℕ}
    {transaction : TargetTransaction K}
    (hknows : world.Knows record) (hplan : world.KnowsPlan record plan)
    (hworkspace : plan.plan.workspaceId = record.execution.workspaceId)
    (hstarted : record.execution.status ≠ .reserved)
    (hopen : record.execution.commitOutcome ≠ some .committed)
    (hat : world.target[index]? = some transaction) (hexecution : transaction.execution = record.key)
    (hholds : record.Holds transaction)
    (htrue : transaction.identity = identity → transaction.phase.status = status) :
    Safe D.logic thread
      (coordinator.classifyTransaction record.ownerId plan record automatic identity status) world
      fun _ _ ↦ True := by
  unfold Coordinator.classifyTransaction
  by_cases hidentity : record.targetIdentity ≠ some identity
  · rw [if_pos hidentity]
    exact D.safe_leaveUncertain hknows (Or.inr (Or.inl rfl)) (fun h ↦ nomatch h) hopen
  · rw [if_neg hidentity]
    push Not at hidentity
    have hsame : transaction.identity = identity :=
      Option.some.inj (hholds.targetIdentity.symm.trans hidentity)
    have hphase := htrue hsame
    cases status with
    | aborted =>
      have haborted : transaction.phase = .aborted := by
        cases hcase : transaction.phase <;> simp [hcase, TransactionPhase.status] at hphase ⊢
      refine Safe.bind (D.safe_failExecution hknows
        (Or.inr ⟨index, transaction, hat, hexecution, hholds, Or.inl haborted⟩)
        fun outcome after ↦ ?_)
      cases outcome <;> trivial
    | inProgress =>
      refine D.safe_leaveUncertain hknows ?_ (fun _ ↦ hstarted) hopen
      split_ifs
      · exact Or.inr (Or.inr rfl)
      · exact Or.inr (Or.inl rfl)
    | committed =>
      have hcommitted : transaction.phase = .committed := by
        cases hcase : transaction.phase <;> simp [hcase, TransactionPhase.status] at hphase ⊢
      have hevidence : world.Committed record :=
        ⟨index, transaction, hat, hexecution, hholds, hcommitted⟩
      refine Safe.bind (D.safe_transitionExecution
        (fun before hquiet _ ↦ ⟨hknows.growth hquiet.growth, ?_⟩) ?_ fun failure after _ _ ↦ trivial)
      · exact .succeed _ ⟨rfl, rfl, rfl⟩ rfl rfl hopen (hevidence.quiet hquiet)
      · intro next after hquiet hinv hrecord htransitioned
        obtain ⟨result, hresult⟩ := (D.inv_le hinv).intended_of_committed hrecord
          htransitioned.commitOutcome
        refine D.safe_syncCommitted (.of_record hrecord) ?_ htransitioned.ownerId ?_
          htransitioned.commitOutcome hresult
        · obtain ⟨stored, hstored, hsamePlan⟩ := hplan.growth hknows hquiet.growth
          exact ⟨stored, by rw [htransitioned.ownerId, htransitioned.planId]; exact hstored,
            hsamePlan⟩
        · exact hworkspace.trans htransitioned.workspaceId.symm

/-- A recovery. Assumes: a known record of a started execution that is not recorded as committed,
with its transaction and its plan. -/
theorem safe_reconcileTransaction {transactionId : String} {automatic : Bool}
    (hknows : world.Knows record) (hplan : world.KnowsPlan record plan)
    (hworkspace : plan.plan.workspaceId = record.execution.workspaceId)
    (hstarted : record.execution.status ≠ .reserved)
    (hopen : record.execution.commitOutcome ≠ some .committed)
    (hid : record.execution.transactionId = some transactionId) :
    Safe D.logic thread
      (coordinator.reconcileTransaction record.ownerId plan record transactionId automatic) world
      fun _ _ ↦ True := by
  refine Safe.bind (D.safe_read trivial (fun _ ↦ trivial) fun supported first hfirst _ ↦ ?_)
  have hknowsFirst := hknows.growth hfirst.growth
  have hplanFirst := hplan.growth hknows hfirst.growth
  dsimp only
  split_ifs with hsupported hautomatic
  · refine Safe.bind (D.safe_read trivial (fun _ ↦ trivial) fun reply second hsecond _ ↦ ?_)
    have hknowsSecond := hknowsFirst.growth hsecond.growth
    have hplanSecond := hplanFirst.growth hknowsFirst hsecond.growth
    cases reply with
    | error failure => exact D.safe_recoveryFailure hknowsSecond hopen
    | ok connection =>
      dsimp only
      split_ifs with hchanged
      · exact D.safe_recoveryFailure hknowsSecond hopen
      · refine Safe.bind (D.safe_quiet trivial (fun _ _ _ ↦ trivial) ?_)
        intro before answer after _ _ hperform hafter hinv
        have hknowsAfter := hknowsSecond.growth hafter.growth
        have hplanAfter := hplanSecond.growth hknowsSecond hafter.growth
        cases answer with
        | error failure => exact D.safe_recoveryFailure hknowsAfter hopen
        | ok answer =>
          obtain ⟨rfl, ⟨failure, -, hreply⟩ | ⟨identity, status, hreply, htrue⟩⟩ :=
            D.perform_le hperform
          · exact nomatch hreply
          · obtain rfl := Except.ok.inj hreply
            obtain ⟨current, hcurrent, hlater⟩ := hknowsAfter
            obtain ⟨hidCurrent, hidentity⟩ := hlater.evidence transactionId hid
            obtain ⟨-, index, transaction, hat, hexecution, hholds⟩ :=
              (D.inv_le hinv).evidence _ current transactionId hcurrent hidCurrent
            have hidTransaction : transaction.transactionId = some transactionId :=
              hholds.transactionId.symm.trans hidCurrent
            refine D.safe_classifyTransaction ⟨current, hcurrent, hlater⟩ hplanAfter hworkspace
              hstarted hopen hat hexecution
              ⟨hholds.named, hid.trans hidTransaction.symm,
                hidentity.symm.trans hholds.targetIdentity⟩ fun hsame ↦ ?_
            exact htrue transaction (List.mem_of_getElem? hat) hsame hidTransaction
  · exact D.safe_leaveUncertain hknowsFirst (Or.inr (Or.inl rfl)) (fun h ↦ nomatch h) hopen
  · trivial

/-- An automatic recovery. Assumes: the invariant, and a record of the repository in status
`applying`. -/
theorem safe_recoverClaimed
    (hinv : D.logic.inv world) (hrecord : world.record? record.key = some record)
    (hstatus : record.execution.status = .applying) :
    Safe D.logic thread (coordinator.recoverClaimed record) world fun _ _ ↦ True := by
  have hworld := D.inv_le hinv
  have hknows : world.Knows record := .of_record hrecord
  have hstarted : record.execution.status ≠ .reserved := by
    rw [hstatus]
    exact fun h ↦ nomatch h
  have hopen : record.execution.commitOutcome ≠ some .committed := by
    intro hcommitted
    have hsucceeded := (hworld.succeeded _ record hrecord).mpr hcommitted
    rw [hstatus] at hsucceeded
    exact nomatch hsucceeded
  unfold Coordinator.recoverClaimed
  dsimp only
  split_ifs with hempty
  · refine Safe.bind (D.safe_failExecution hknows (Or.inl ?_) fun outcome after ↦ ?_)
    · cases hid : record.execution.transactionId with
      | none => rfl
      | some transactionId =>
        rw [hid] at hempty
        exact absurd hempty (hworld.evidence _ record transactionId hrecord hid).1
    · cases outcome <;> trivial
  · refine Safe.bind (D.safe_planOf hknows (fun plan after hquiet _ hplan hworkspace ↦ ?_)
      fun failure after _ ↦ trivial)
    cases hid : record.execution.transactionId with
    | none => exact absurd (by rw [hid]; rfl) hempty
    | some transactionId =>
      exact D.safe_reconcileTransaction (hknows.growth hquiet.growth) hplan hworkspace hstarted
        hopen hid

theorem safe_reconcile {ownerId executionId : String} {expectedExecutionRevision : ℕ} :
    Safe D.logic thread (coordinator.reconcile ownerId executionId expectedExecutionRevision) world
      fun _ _ ↦ True := by
  refine Safe.bind (D.safe_getExecution (fun record after hinv hrecord hkey ↦ ?_)
    fun failure after ↦ trivial)
  have hworld := D.inv_le hinv
  have howner : record.ownerId = ownerId := congrArg Prod.fst hkey
  subst howner
  rw [← hkey] at hrecord
  have hknows : after.Knows record := .of_record hrecord
  dsimp only
  by_cases hrevision : record.execution.revision ≠ expectedExecutionRevision
  · rw [if_pos hrevision]
    trivial
  · rw [if_neg hrevision]
    refine Safe.bind (D.safe_read trivial (fun _ ↦ trivial) fun time second hsecond _ ↦ ?_)
    have hknowsSecond := hknows.growth hsecond.growth
    dsimp only
    split_ifs with hleased hcommitted hactive hempty
    · trivial
    · refine Safe.bind (D.safe_planOf hknowsSecond
        (fun plan third hthird _ hplan hworkspace ↦ ?_) fun failure after _ ↦ trivial)
      obtain ⟨intended, hintended⟩ := hworld.intended_of_committed hrecord hcommitted
      exact D.safe_syncCommitted (hknowsSecond.growth hthird.growth) hplan rfl hworkspace
        hcommitted hintended
    · refine Safe.bind (D.safe_failExecution hknowsSecond (Or.inl ?_) fun outcome after ↦ ?_)
      · cases hid : record.execution.transactionId with
        | none => rfl
        | some transactionId =>
          rw [hid] at hempty
          exact absurd hempty (hworld.evidence _ record transactionId hrecord hid).1
      · cases outcome <;> trivial
    · refine Safe.bind (D.safe_planOf hknowsSecond
        (fun plan third hthird _ hplan hworkspace ↦ ?_) fun failure after _ ↦ trivial)
      cases hid : record.execution.transactionId with
      | none => exact absurd (by rw [hid]; rfl) hempty
      | some transactionId =>
        refine D.safe_reconcileTransaction (hknowsSecond.growth hthird.growth) hplan hworkspace
          ?_ hcommitted hid
        intro hreserved
        have hnone := (hworld.reserved _ record hrecord hreserved).1
        rw [hid] at hnone
        exact nomatch hnone
    · trivial

end Discipline

end Schemii.Migrations
