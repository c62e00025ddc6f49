import Schemii.Migrations.Fencing

/-!
# The environment, and every run of the workers

What users, other services and the target do between the calls of the workers keeps the invariant of
the world too (`environment_guarantees`): reviews are stored, executions reserved and drift is
resolved, and transactions end. So the invariant holds in every state of every run.
-/

set_option autoImplicit false

namespace Schemii.Migrations

open Foundations Designs

variable {C K : Type}

/-! ### The environment -/

/-- The environment keeps the invariant and what every program relies on. -/
def SparesWorld (before after : World C K) : Prop :=
  WorldInv after ∧ ∀ thread, WorldRely thread before after

variable {before after : World C K}

/-- Assumes: a world in which the executions and the target are as they were, every plan of an
execution is kept up to its status, and baselines and marks only grow. What a program relies on is
kept. -/
theorem WorldRely.of_plans {thread : ℕ}
    (hexecutions : after.repository.executions = before.repository.executions)
    (htarget : after.target = before.target)
    (hmarks : after.baselineMarks = before.baselineMarks)
    (hplans : ∀ key record plan, before.record? key = some record →
      before.repository.plans.lookup (record.ownerId, record.execution.planId) = some plan →
        ∃ later, after.repository.plans.lookup (record.ownerId, record.execution.planId) =
          some later ∧ World.SamePlan plan later)
    (hbaselines : ∀ workspace,
      before.repository.baselines workspace <+: after.repository.baselines workspace) :
    WorldRely thread before after := by
  have hrecord : ∀ key, after.record? key = before.record? key := by
    intro key
    unfold World.record?
    rw [hexecutions]
  refine ⟨⟨⟨?_, hplans, hbaselines, ?_⟩, .of_target htarget⟩, ?_⟩
  · intro key record hfound
    exact ⟨record, (hrecord key).trans hfound, .refl record⟩
  · intro key record _
    rw [hmarks]
  · intro index transaction later record current _ _ _ _ hfound _ halive hcurrent
    rw [hrecord] at hcurrent
    obtain rfl : record = current := Option.some.inj (hfound.symm.trans hcurrent)
    exact halive

/-- Assumes: the invariant, and a world in which the executions, their keys by plan and the target
are as they were, and every plan of an execution is kept up to its status. The invariant holds with
the new plans, if the baselines keep distinct identifiers and the marks. -/
theorem WorldInv.of_plans (h : WorldInv before)
    (hexecutions : after.repository.executions = before.repository.executions)
    (hbyPlan : after.repository.executionByPlan = before.repository.executionByPlan)
    (htarget : after.target = before.target)
    (hmarks : after.baselineMarks = before.baselineMarks)
    (hplans : ∀ key record plan, before.record? key = some record →
      before.repository.plans.lookup (record.ownerId, record.execution.planId) = some plan →
        ∃ later, after.repository.plans.lookup (record.ownerId, record.execution.planId) =
          some later ∧ World.SamePlan plan later)
    (hids : ∀ workspace, ((after.repository.baselines workspace).map BaselineRecord.id).Nodup)
    (hbaselines : ∀ workspace,
      before.repository.baselines workspace <+: after.repository.baselines workspace) :
    WorldInv after := by
  have hrecord : ∀ key, after.record? key = before.record? key := by
    intro key
    unfold World.record?
    rw [hexecutions]
  refine
    { keyed := ?_, reserved := ?_, evidence := ?_, started := ?_, ready := ?_, distinct := ?_,
      committed := ?_, succeeded := ?_, lease := ?_, plans := ?_, baselineIds := hids,
      marks := ?_ }
  · simpa only [hrecord] using h.keyed
  · simpa only [hrecord] using h.reserved
  · simpa only [hrecord, htarget] using h.evidence
  · simpa only [hrecord] using h.started
  · intro index transaction hat hphase
    rw [htarget] at hat
    obtain ⟨record, hfound, hrest⟩ := h.ready index transaction hat hphase
    exact ⟨record, (hrecord _).trans hfound, hrest⟩
  · simpa only [htarget] using h.distinct
  · simpa only [hrecord, htarget] using h.committed
  · simpa only [hrecord] using h.succeeded
  · simpa only [hrecord] using h.lease
  · intro key record hfound
    rw [hrecord] at hfound
    obtain ⟨hmem, plan, hplan, hworkspace⟩ := h.plans key record hfound
    obtain ⟨later, hlater, status, rfl⟩ := hplans key record plan hfound hplan
    exact ⟨by rw [hbyPlan]; exact hmem, _, hlater, hworkspace⟩
  · intro key record hfound
    rw [hrecord] at hfound
    rw [hmarks]
    exact (h.marks key record hfound).trans (hbaselines _).length_le

variable {plans : AList fun _ : Key ↦ PlanRecord C K}

theorem lookup_foldl_erase {keys : List Key} {key : Key} (h : key ∉ keys) :
    (keys.foldl (fun plans key ↦ plans.erase key) plans).lookup key = plans.lookup key := by
  induction keys generalizing plans with
  | nil => rfl
  | cons first rest ih =>
    rw [List.mem_cons, not_or] at h
    rw [List.foldl_cons, ih h.2, AList.lookup_erase_ne h.1]

variable {plan : PlanRecord C K}

theorem lookup_of_foldl_erase {keys : List Key} {key : Key}
    (h : (keys.foldl (fun plans key ↦ plans.erase key) plans).lookup key = some plan) :
    plans.lookup key = some plan := by
  induction keys generalizing plans with
  | nil => exact h
  | cons first rest ih =>
    rw [List.foldl_cons] at h
    have herased := ih h
    by_cases hsame : key = first
    · subst hsame
      rw [AList.lookup_erase] at herased
      exact nomatch herased
    · rwa [AList.lookup_erase_ne hsame] at herased

/-- Assumes: a review in the repository after a review was stored. It is that review, or it was
there. -/
theorem lookup_createPlan {repository : MigrationRepository C K} {record plan : PlanRecord C K}
    {key : Key} (h : (repository.createPlan record).2.plans.lookup key = some plan) :
    (key = (record.ownerId, record.plan.id) ∧ plan = record) ∨
      repository.plans.lookup key = some plan := by
  unfold MigrationRepository.createPlan at h
  split_ifs at h
  · exact Or.inr h
  · dsimp only at h
    by_cases hsame : key = (record.ownerId, record.plan.id)
    · rw [hsame, AList.lookup_insert] at h
      exact Or.inl ⟨hsame, (Option.some.inj h).symm⟩
    · rw [AList.lookup_insert_ne hsame] at h
      exact Or.inr (lookup_of_foldl_erase h)

/-- Assumes: the invariant, and a new review. Storing it keeps the plans of executions. -/
theorem WorldInv.plans_createPlan {world : World C K} (h : WorldInv world)
    {review : PlanRecord C K}
    (hnew : (review.ownerId, review.plan.id) ∉ world.repository.plans) {key : Key}
    {record : ExecutionRecord C K} (hrecord : world.record? key = some record)
    (hplan : world.repository.plans.lookup (record.ownerId, record.execution.planId) =
      some plan) :
    (world.repository.createPlan review).2.plans.lookup
      (record.ownerId, record.execution.planId) = some plan := by
  unfold MigrationRepository.createPlan
  split_ifs
  · exact hplan
  · have hne : ((record.ownerId, record.execution.planId) : Key) ≠
        (review.ownerId, review.plan.id) := by
      intro hsame
      refine hnew ?_
      rw [← hsame, ← AList.lookup_isSome, hplan]
      rfl
    have hkept : ((record.ownerId, record.execution.planId) : Key) ∉
        world.repository.expiredPlans review := by
      intro hexpired
      obtain ⟨entry, hentry, hkey⟩ := List.mem_map.mp hexpired
      have hunused := (of_decide_eq_true (List.mem_filter.mp hentry).2).2.2.2
      rw [hkey] at hunused
      exact hunused (h.plans key record hrecord).1
    dsimp only
    rw [AList.lookup_insert_ne hne, lookup_foldl_erase hkept]
    exact hplan

/-- Assumes: the invariant, and a plan that is stored again with another status. The plans of
executions are kept up to their status. -/
theorem samePlan_insert {key other : Key}
    {stored plan : PlanRecord C K} (status : PlanStatus) (hstored : plans.lookup key = some stored)
    (hplan : plans.lookup other = some plan) :
    ∃ later, (plans.insert key { stored with plan := { stored.plan with status := status } }).lookup
      other = some later ∧ World.SamePlan plan later := by
  by_cases hsame : other = key
  · subst hsame
    obtain rfl : plan = stored := Option.some.inj (hplan.symm.trans hstored)
    exact ⟨_, AList.lookup_insert _, status, rfl⟩
  · exact ⟨plan, by rw [AList.lookup_insert_ne hsame]; exact hplan, .refl plan⟩

/-- Assumes: the invariant, and a reservation under a new identifier. The invariant holds with the
new execution, and nothing a program relies on changed. -/
theorem WorldInv.spares_reserve {world : World C K} (h : WorldInv world)
    {id ownerId planId : String} {record : ExecutionRecord C K}
    {repository : MigrationRepository C K} {journal : List JournalEvent}
    (hnew : (ownerId, id) ∉ world.repository.executions)
    (hreserves : world.repository.Reserves id ownerId planId plan record repository) :
    SparesWorld world { world with
      repository := repository
      baselineMarks := Function.update world.baselineMarks record.key
        (world.repository.baselines (ownerId, record.execution.workspaceId)).length
      journal := journal } := by
  have hkey : record.key = (ownerId, id) := by
    unfold ExecutionRecord.key
    rw [hreserves.owner_eq, hreserves.id_eq]
  have hafter := hreserves.after_eq
  subst hafter
  -- The new execution has a new key, so that every other record is as it was.
  have hold : ∀ {key : Key} {found : ExecutionRecord C K}, world.record? key = some found →
      key ≠ (ownerId, id) := by
    rintro key found hfound rfl
    refine hnew ?_
    rw [← AList.lookup_isSome]
    exact Option.isSome_iff_exists.mpr ⟨found, hfound⟩
  have hkept : ∀ {key : Key} {found : ExecutionRecord C K}, world.record? key = some found →
      (world.repository.executions.insert (ownerId, id) record).lookup key = some found := by
    intro key found hfound
    rw [AList.lookup_insert_ne (hold hfound)]
    exact hfound
  have hlookup : ∀ {key : Key} {found : ExecutionRecord C K},
      (world.repository.executions.insert (ownerId, id) record).lookup key = some found →
        (key = (ownerId, id) ∧ found = record) ∨ world.record? key = some found := by
    intro key found hfound
    by_cases hsame : key = (ownerId, id)
    · subst hsame
      rw [AList.lookup_insert] at hfound
      exact Or.inl ⟨rfl, (Option.some.inj hfound).symm⟩
    · rw [AList.lookup_insert_ne hsame] at hfound
      exact Or.inr hfound
  have hreservedStatus := hreserves.status
  refine ⟨?_, fun thread ↦ ⟨⟨⟨?_, ?_, fun _ ↦ List.prefix_refl _, ?_⟩, .of_target rfl⟩, ?_⟩⟩
  · refine
      { keyed := ?_, reserved := ?_, evidence := ?_, started := ?_, ready := ?_,
        distinct := h.distinct, committed := ?_, succeeded := ?_, lease := ?_, plans := ?_,
        baselineIds := h.baselineIds, marks := ?_ }
    · intro key found hfound
      rcases hlookup hfound with ⟨rfl, rfl⟩ | hbefore
      · exact hkey
      · exact h.keyed key found hbefore
    · intro key found hfound hstatus
      rcases hlookup hfound with ⟨rfl, rfl⟩ | hbefore
      · exact ⟨hreserves.transactionId, hreserves.intendedResult, hreserves.commitOutcome⟩
      · exact h.reserved key found hbefore hstatus
    · intro key found transactionId hfound hid
      rcases hlookup hfound with ⟨rfl, rfl⟩ | hbefore
      · rw [hreserves.transactionId] at hid
        exact nomatch hid
      · exact h.evidence key found transactionId hbefore hid
    · intro key found hfound hstatus
      rcases hlookup hfound with ⟨rfl, rfl⟩ | hbefore
      · exact absurd hreservedStatus hstatus
      · exact h.started key found hbefore hstatus
    · intro index transaction hat hphase
      obtain ⟨found, hfound, hrest⟩ := h.ready index transaction hat hphase
      exact ⟨found, hkept hfound, hrest⟩
    · intro key found hfound hcommitted
      rcases hlookup hfound with ⟨rfl, rfl⟩ | hbefore
      · rw [hreserves.commitOutcome] at hcommitted
        exact nomatch hcommitted
      · exact h.committed key found hbefore hcommitted
    · intro key found hfound
      rcases hlookup hfound with ⟨rfl, rfl⟩ | hbefore
      · rw [hreservedStatus, hreserves.commitOutcome]
        exact ⟨fun hcase ↦ (nomatch hcase), fun hcase ↦ (nomatch hcase)⟩
      · exact h.succeeded key found hbefore
    · intro key found hfound hreleased
      rcases hlookup hfound with ⟨rfl, rfl⟩ | hbefore
      · exact hreserves.leaseOwner
      · exact h.lease key found hbefore hreleased
    · intro key found hfound
      rcases hlookup hfound with ⟨rfl, rfl⟩ | hbefore
      · rw [hreserves.owner_eq, hreserves.plan_eq]
        exact ⟨AList.mem_insert _ |>.mpr (Or.inl rfl), _, AList.lookup_insert _,
          hreserves.workspace_eq.symm⟩
      · obtain ⟨hmem, stored, hstored, hworkspace⟩ := h.plans key found hbefore
        obtain ⟨later, hlater, status, rfl⟩ := samePlan_insert .claimed hreserves.stored hstored
        exact ⟨AList.mem_insert _ |>.mpr (Or.inr hmem), _, hlater, hworkspace⟩
    · intro key found hfound
      rcases hlookup hfound with ⟨rfl, rfl⟩ | hbefore
      · show Function.update world.baselineMarks found.key _ (ownerId, id) ≤ _
        rw [hkey, Function.update_self, ← hreserves.owner_eq]
        exact Nat.le_refl _
      · show Function.update world.baselineMarks record.key _ key ≤ _
        rw [hkey, Function.update_of_ne (hold hbefore)]
        exact h.marks key found hbefore
  · exact fun key found hfound ↦ ⟨found, hkept hfound, .refl found⟩
  · exact fun key found stored hfound hstored ↦
      samePlan_insert .claimed hreserves.stored hstored
  · intro key found hfound
    show Function.update world.baselineMarks record.key _ key = _
    rw [hkey, Function.update_of_ne (hold hfound)]
  · intro index transaction later found current _ _ _ _ hfound _ halive hcurrent
    obtain rfl : found = current := Option.some.inj ((hkept hfound).symm.trans hcurrent)
    exact halive

/-- Assumes: the invariant, and a world that differs by one more baseline with a new identifier and
by plans that are kept up to their status. -/
theorem WorldInv.spares_baseline (h : WorldInv before)
    (workspace : Key) (baseline : BaselineRecord C K)
    (hfresh : ∀ other ∈ before.repository.baselines workspace, other.id ≠ baseline.id)
    (hexecutions : after.repository.executions = before.repository.executions)
    (hbyPlan : after.repository.executionByPlan = before.repository.executionByPlan)
    (htarget : after.target = before.target)
    (hmarks : after.baselineMarks = before.baselineMarks)
    (hbaselines : after.repository.baselines =
      (before.appendBaseline workspace baseline).repository.baselines)
    (hplans : ∀ key record plan, before.record? key = some record →
      before.repository.plans.lookup (record.ownerId, record.execution.planId) = some plan →
        ∃ later, after.repository.plans.lookup (record.ownerId, record.execution.planId) =
          some later ∧ World.SamePlan plan later) :
    SparesWorld before after := by
  have hinitial : ∀ other,
      before.repository.baselines other <+: after.repository.baselines other := by
    intro other
    rw [hbaselines, before.appendBaseline_baselines]
    exact List.prefix_append _ _
  refine ⟨h.of_plans hexecutions hbyPlan htarget hmarks hplans ?_ hinitial,
    fun thread ↦ .of_plans hexecutions htarget hmarks hplans hinitial⟩
  rw [hbaselines]
  exact (h.appendBaseline hfresh).baselineIds

/-- Assumes: the invariant, and a world that agrees in the repository, the target and the marks. -/
theorem WorldInv.spares_congr (h : WorldInv before)
    (hrepository : after.repository = before.repository) (htarget : after.target = before.target)
    (hmarks : after.baselineMarks = before.baselineMarks) : SparesWorld before after :=
  ⟨h.congr hrepository htarget hmarks, fun _ ↦ .congr hrepository htarget hmarks⟩

/-- Assumes: the invariant. Whatever happens without a call keeps it, and what every program relies
on. -/
theorem environment_guarantees {rules : ContentRules C} {limit : ℕ}
    (h : WorldInv before) (hchange : WorldChange rules limit before after) :
    SparesWorld before after := by
  cases hchange with
  | tick clock hclock => exact h.spares_congr rfl rfl rfl
  | configure workspaces connections => exact h.spares_congr rfl rfl rfl
  | design request => exact h.spares_congr rfl rfl rfl
  | plan record hnew hdesign hbaseline =>
    obtain ⟨hbaselines, hexecutions, hbyPlan⟩ := before.repository.createPlan_frame record
    have hplans : ∀ key found plan, before.record? key = some found →
        before.repository.plans.lookup (found.ownerId, found.execution.planId) = some plan →
          ∃ later, (before.repository.createPlan record).2.plans.lookup
            (found.ownerId, found.execution.planId) = some later ∧ World.SamePlan plan later :=
      fun key found plan hfound hplan ↦
        ⟨plan, h.plans_createPlan hnew hfound hplan, .refl plan⟩
    have hinitial : ∀ workspace, before.repository.baselines workspace <+:
        (before.repository.createPlan record).2.baselines workspace := by
      intro workspace
      rw [hbaselines]
    refine ⟨h.of_plans hexecutions hbyPlan rfl rfl hplans ?_ hinitial,
      fun thread ↦ .of_plans hexecutions rfl rfl hplans hinitial⟩
    show ∀ workspace, (((before.repository.createPlan record).2.baselines workspace).map _).Nodup
    rw [hbaselines]
    exact h.baselineIds
  | reserve id ownerId planId reviewDigest confirmDestructive confirmExternalChanges reservedAt
      record repository hnew hsource hreserve =>
    obtain ⟨plan, hreserves⟩ := MigrationRepository.reserves_of_reserveExecution hreserve
    exact h.spares_reserve (hnew ownerId) hreserves
  | drift baselineId record expectedDesignRevision resolvedContent liveContent hplan hid =>
    rcases before.repository.reconcileDrift_cases rules limit before.designs baselineId record
        expectedDesignRevision resolvedContent liveContent with
      hsame | ⟨baseline, -, hbaseline, -, hafter⟩
    · exact h.spares_congr hsame rfl rfl
    · have hexecutions := congrArg MigrationRepository.executions hafter
      have hbyPlan := congrArg MigrationRepository.executionByPlan hafter
      have hbaselines := congrArg MigrationRepository.baselines hafter
      refine h.spares_baseline (record.ownerId, record.plan.workspaceId) baseline
        (by rw [hbaseline]; exact hid _) hexecutions hbyPlan rfl rfl hbaselines ?_
      · intro key found plan _ hfound
        obtain ⟨later, hlater, hsame⟩ := samePlan_insert .resolved hplan hfound
        exact ⟨later, by dsimp only; rw [hafter]; exact hlater, hsame⟩
  | baseline id values hid hsource hexpected hexecution =>
    rcases before.repository.createBaseline_cases id values with
      ⟨failure, houtcome⟩ | ⟨baseline, -, hbaseline, -, -, houtcome⟩
    · rw [houtcome]
      exact h.spares_congr rfl rfl rfl
    · rw [houtcome]
      exact h.spares_baseline (values.ownerId, values.workspaceId) baseline
        (by rw [hbaseline]; exact hid _) rfl rfl rfl rfl rfl fun _ _ plan _ hplan ↦ ⟨plan, hplan, .refl plan⟩
  | transaction index transaction phase hat hphase =>
    have hopen : transaction.phase ≠ .committed := by
      rcases hphase with ⟨hrunning, -⟩ | ⟨hcommitting, -⟩
      · rw [hrunning]
        exact fun hcase ↦ nomatch hcase
      · rw [hcommitting]
        exact fun hcase ↦ nomatch hcase
    refine ⟨h.setTransaction hat (.phase phase hopen fun hdecided ↦ ?_), fun thread ↦
      .setTransaction hat ⟨rfl, rfl, rfl, fun _ hid ↦ hid, ?_, ?_, ?_, ?_⟩⟩
    · rcases hphase with ⟨-, rfl⟩ | ⟨hcommitting, -⟩
      · exact hdecided.elim (fun hcase ↦ nomatch hcase) fun hcase ↦ nomatch hcase
      · exact h.ready index transaction hat (Or.inl hcommitting)
    · rintro hrunning
      rcases hphase with ⟨-, rfl⟩ | ⟨-, rfl | rfl⟩
      · exact nomatch hrunning
      · exact nomatch hrunning
      · exact nomatch hrunning
    · intro haborted
      rcases hphase with ⟨hrunning, -⟩ | ⟨hcommitting, -⟩
      · rw [hrunning] at haborted
        exact nomatch haborted
      · rw [hcommitting] at haborted
        exact nomatch haborted
    · exact fun hcommitted ↦ absurd hcommitted hopen
    · intro _
      refine ⟨rfl, rfl, fun hrunning ↦ Or.inr ?_⟩
      rcases hphase with ⟨-, rfl⟩ | ⟨hcommitting, -⟩
      · rfl
      · rw [hcommitting] at hrunning
        exact nomatch hrunning

/-! ### Runs -/

/-- The invariant of the world with what programs rely on. -/
def worldLogic (S : Semantics (migrationInterface C K) (World C K)) : RelyGuarantee S where
  inv := WorldInv
  rely := WorldRely
  rely_refl := WorldRely.refl
  rely_trans := fun _ _ _ _ h h' ↦ h.trans h'

/-- The discipline of the invariant alone: nothing is known of the baselines a synchronisation
read. -/
def worldDiscipline (rules : ContentRules C) (limit : ℕ) (fingerprint : K → String) :
    Discipline rules limit fingerprint where
  semantics := migrationSemantics rules limit
  logic := worldLogic _
  fact := fun _ _ _ ↦ True
  perform_le := id
  inv_le := id
  rely_le := id
  fact_growth := fun _ _ ↦ trivial
  fact_read := fun _ _ _ _ ↦ trivial
  guarantees := perform_guarantees

theorem World.IsInitial.worldInv {world : World C K} (h : world.IsInitial) : WorldInv world := by
  obtain ⟨clock, repository, designs, workspaces, connections, target, marks, journal⟩ := world
  obtain ⟨rfl, rfl, rfl, rfl⟩ := h
  have hnone : ∀ {key : Key} {record : ExecutionRecord C K},
      (∅ : AList fun _ : Key ↦ ExecutionRecord C K).lookup key ≠ some record :=
    fun hfound ↦ nomatch (AList.lookup_empty _).symm.trans hfound
  exact
    { keyed := fun _ _ hfound ↦ (hnone hfound).elim
      reserved := fun _ _ hfound ↦ (hnone hfound).elim
      evidence := fun _ _ _ hfound ↦ (hnone hfound).elim
      started := fun _ _ hfound ↦ (hnone hfound).elim
      ready := fun _ _ hat ↦ nomatch hat
      distinct := fun _ _ _ _ hat ↦ nomatch hat
      committed := fun _ _ hfound ↦ (hnone hfound).elim
      succeeded := fun _ _ hfound ↦ (hnone hfound).elim
      lease := fun _ _ hfound ↦ (hnone hfound).elim
      plans := fun _ _ hfound ↦ (hnone hfound).elim
      baselineIds := fun _ ↦ List.nodup_nil
      marks := fun _ _ _ ↦ Nat.zero_le _ }

/-- The states that workers, heartbeats, manual reconciliations, users and targets reach, in any
order and with crashes anywhere. -/
def Coordinator.Reachable (coordinator : Coordinator C K) (rules : ContentRules C) (limit : ℕ)
    (pool : Pool (migrationInterface C K) Failure (World C K)) : Prop :=
  Pool.Reachable (migrationSemantics rules limit) coordinator.Starts World.IsInitial pool

theorem Coordinator.Reachable.worldInv {coordinator : Coordinator C K} {rules : ContentRules C}
    {limit : ℕ} {pool : Pool (migrationInterface C K) Failure (World C K)}
    (h : coordinator.Reachable rules limit pool) : WorldInv pool.world := by
  let D := worldDiscipline rules limit coordinator.planner.catalogFingerprint
  exact RelyGuarantee.reachable_inv (R := D.logic) (fun _ hworld ↦ hworld.worldInv)
    (fun _ hstarts _ _ _ ↦ D.safe_starts hstarts)
    (fun _ _ hinv hchange ↦ environment_guarantees hinv hchange) h

end Schemii.Migrations
