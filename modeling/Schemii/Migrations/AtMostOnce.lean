import Schemii.Migrations.Scripts

/-!
# At most one commit, and evidence before it

Two properties of every run of the migration workers, with any number of workers, heartbeats and
manual reconciliations, leases that expire at any moment and crashes between any two calls. At most
one target transaction of an execution commits, and none when the record says that the execution
failed or was rolled back (`commits_at_most_once`). The record holds the transaction, its target and
the catalog it produced before it commits (`evidence_precedes_commit`), so that the branches for
missing evidence are never taken for a committed execution and a reconciliation can finish it.

Both are read off the invariant of the world. A small instance of the planner, of the design rules
and of a target gives concrete runs.
-/

set_option autoImplicit false

namespace Schemii.Migrations

open Foundations Designs

/-! ### A small instance -/

/-- Contents are texts, and every text is a valid design. -/
def sampleRules : ContentRules String where
  empty := ""
  validateDesignContent := fun _ ↦ none
  validateDesignTransition := fun _ _ ↦ none
  designFingerprint := id
  designObjectLayer := fun _ _ ↦ none
  empty_valid := Option.none_or

/-- Catalogs are texts, and the content of a catalog is the same text. -/
def samplePlanner : PlannerRules String String where
  catalogFingerprint := id
  contentFingerprint := id
  newBaselineContent := fun catalog _ ↦ (catalog, [], true)
  physicalColumnOrderMismatches := fun _ _ _ ↦ []
  preserveColumnDisplayOrder := fun inspected _ ↦ inspected
  compileMigrationSteps := fun _ live desired ↦
    (if live = desired then [] else [⟨"schema", "ALTER"⟩], [])
  tableNames := fun _ _ ↦ []

def sampleCoordinator : Coordinator String String := ⟨samplePlanner, 30⟩

/-- The first execution finds catalog A and produces B, the second finds B and produces C. -/
def sampleTarget : TargetAnswers String where
  identity := ⟨"d", "1", "160000", "10.0.0.1", 5432⟩
  shows := fun transaction ↦
    if transaction.execution.2 = "e1" then
      if transaction.transactionId = none then "A" else "B"
    else if transaction.transactionId = none then "B" else "C"

def sampleWorld : World String String where
  clock := 0
  repository := .init String String
  designs := seeded sampleRules [⟨("o", "w"), "A", []⟩]
  workspaces := fun _ ↦ some ⟨some "c", none, some "d", some "n"⟩
  connections := fun _ ↦ some ⟨none, 1⟩
  target := []
  baselineMarks := fun _ ↦ 0
  journal := []

/-- The review that a sample execution runs. -/
def samplePlan (id baselineId live merged : String) (baselineRevision designRevision : ℕ) :
    PlanRecord String String where
  ownerId := "o"
  baselineId := baselineId
  plan :=
    { id := id
      workspaceId := "w"
      status := .reviewable
      designRevision := designRevision
      designFingerprint := merged
      baselineRevision := baselineRevision
      reviewDigest := "r"
      applyCapable := true
      destructive := false
      columnTypeConversions := []
      requiresExternalChangeAcknowledgement := false
      steps := [⟨"schema", "ALTER"⟩]
      createdAt := 0
      expiresAt := 60 }
  authority :=
    { mergedContent := merged
      liveContent := live
      liveCatalog := live
      connectionId := "c"
      connectionOwnerId := none
      connectionRevision := 1
      database := "d"
      targetNamespace := "n"
      requiredEmptyTables := []
      rebuildTableIds := [] }

/-- A workspace is imported with catalog A, its design becomes B, and the migration is executed. -/
def firstMigration : List (ScriptEvent String String) :=
  [.baseline "b"
      { ownerId := "o"
        workspaceId := "w"
        connectionId := "c"
        connectionOwnerId := "o"
        connectionRevision := 1
        database := "d"
        targetNamespace := "n"
        designRevision := 1
        content := "A"
        catalog := "A"
        complete := true
        issues := []
        source := .imported
        expectedPredecessorId := none
        sourceExecutionId := none },
    .design (.replace ("o", "w") false ⟨1, "B", none⟩ .edit),
    .plan (samplePlan "p1" "b" "A" "B" 1 2),
    .reserve "e1" "o" "p1" "r" 1,
    .turn "w1"]

/-- Run a sample script from the initial world. -/
def runSample (script : List (ScriptEvent String String)) :
    Option (ℕ × World String String) :=
  runScript sampleCoordinator sampleRules 10 sampleTarget (0, sampleWorld) script

/-- Assumes: a sample script that runs to its end and whose programs meet a condition. Its last world
is reached under the condition. -/
theorem reachable_runSample_of_meets
    {condition : MigrationCall String String → World String String → Prop}
    {script : List (ScriptEvent String String)} {state : ℕ × World String String}
    (h : runSample script = some state)
    (hmeets : ScriptMeets sampleCoordinator sampleRules 10 sampleTarget condition (0, sampleWorld)
      script) :
    ∃ pool, sampleCoordinator.ReachableUnder sampleRules 10 condition pool ∧
      pool.world = state.2 := by
  have hfirst : sampleCoordinator.ReachableUnder sampleRules 10 condition
      (Pool.initial sampleWorld) :=
    ⟨sampleWorld, ⟨rfl, rfl, rfl, rfl⟩, .refl⟩
  obtain ⟨pool, hpool, -, hworld⟩ := reachable_runScript hfirst hmeets h
  exact ⟨pool, hpool, hworld⟩

theorem reachable_runSample {script : List (ScriptEvent String String)}
    {state : ℕ × World String String} (h : runSample script = some state) :
    ∃ pool, sampleCoordinator.Reachable sampleRules 10 pool ∧ pool.world = state.2 := by
  obtain ⟨pool, hpool, hworld⟩ := reachable_runSample_of_meets h (scriptMeets_true _ _)
  exact ⟨pool, hpool.reachable, hworld⟩

/-! ### At most one commit -/

section Commits

variable {C K : Type} {coordinator : Coordinator C K} {rules : ContentRules C} {limit : ℕ}
  {pool : Pool (migrationInterface C K) Failure (World C K)}

/-- Assumes: the invariant, and two committed transactions of one execution. They are the same. -/
theorem WorldInv.committed_unique {world : World C K} (h : WorldInv world) {index other : ℕ}
    {first second : TargetTransaction K} (hfirst : world.target[index]? = some first)
    (hsecond : world.target[other]? = some second) (hexecution : first.execution = second.execution)
    (hfirstPhase : first.phase = .committed) (hsecondPhase : second.phase = .committed) :
    index = other := by
  obtain ⟨record, hrecord, hholds, -, -⟩ := h.ready index first hfirst (Or.inr hfirstPhase)
  obtain ⟨holder, hholder, hholdsSecond, -, -⟩ := h.ready other second hsecond (Or.inr hsecondPhase)
  rw [← hexecution, hrecord] at hholder
  obtain rfl := Option.some.inj hholder
  exact h.distinct index other first second hfirst hsecond hholds.named
    (hholds.transactionId.symm.trans hholdsSecond.transactionId)
    (Option.some.inj (hholds.targetIdentity.symm.trans hholdsSecond.targetIdentity))

/-- Assumes: a reachable state. At most one target transaction of an execution is committed, and
none when its record is failed or rolled back. -/
theorem commits_at_most_once (h : coordinator.Reachable rules limit pool) :
    (∀ (index other : ℕ) (first second : TargetTransaction K),
      pool.world.target[index]? = some first → pool.world.target[other]? = some second →
        first.execution = second.execution → first.phase = .committed →
          second.phase = .committed → index = other) ∧
      ∀ (key : Key) (record : ExecutionRecord C K),
        pool.world.repository.executions.lookup key = some record →
          record.execution.status = .failed ∨
              record.execution.commitOutcome = some .rolledBack →
            ∀ transaction ∈ pool.world.target, transaction.execution = key →
              transaction.phase ≠ .committed := by
  have hinv := h.worldInv
  refine ⟨fun index other first second ↦ hinv.committed_unique, ?_⟩
  intro key record hrecord hdead transaction hmem hexecution hphase
  obtain ⟨index, hat⟩ := List.mem_iff_getElem?.mp hmem
  obtain ⟨holder, hholder, -, -, halive⟩ := hinv.ready index transaction hat (Or.inr hphase)
  rw [hexecution] at hholder
  obtain rfl : record = holder := Option.some.inj (hrecord.symm.trans hholder)
  exact halive hdead

/-- The sample migration is such a run, and its transaction committed. -/
theorem sample_commits_at_most_once :
    ∃ pool : Pool (migrationInterface String String) Failure (World String String),
      sampleCoordinator.Reachable sampleRules 10 pool ∧
      pool.world.target.map TargetTransaction.phase = [.committed] ∧
      ((∀ (index other : ℕ) (first second : TargetTransaction String),
        pool.world.target[index]? = some first → pool.world.target[other]? = some second →
          first.execution = second.execution → first.phase = .committed →
            second.phase = .committed → index = other) ∧
        ∀ (key : Key) (record : ExecutionRecord String String),
          pool.world.repository.executions.lookup key = some record →
            record.execution.status = .failed ∨
                record.execution.commitOutcome = some .rolledBack →
              ∀ transaction ∈ pool.world.target, transaction.execution = key →
                transaction.phase ≠ .committed) := by
  have hphases : (runSample firstMigration).map (fun state ↦
      state.2.target.map TargetTransaction.phase) = some [.committed] := by
    decide +kernel
  obtain ⟨state, hstate, htarget⟩ := Option.map_eq_some_iff.mp hphases
  obtain ⟨pool, hpool, hworld⟩ := reachable_runSample hstate
  exact ⟨pool, hpool, by rw [hworld]; exact htarget, commits_at_most_once hpool⟩

/-! ### Evidence before the commit -/

/-- The record of the execution of a transaction holds its name, its target and the catalog it
shows. -/
def World.HoldsEvidence (world : World C K) (transaction : TargetTransaction K) : Prop :=
  ∃ record transactionId intended,
    world.repository.executions.lookup transaction.execution = some record ∧
    record.execution.transactionId = some transactionId ∧ transactionId ≠ "" ∧
    transaction.transactionId = some transactionId ∧
    record.targetIdentity = some transaction.identity ∧
    record.intendedResult = some intended ∧ transaction.catalog = some intended.catalog

/-- Assumes: the invariant, and a committed transaction. Its record holds the evidence. -/
theorem WorldInv.holdsEvidence {world : World C K} (h : WorldInv world) {index : ℕ}
    {transaction : TargetTransaction K} (hat : world.target[index]? = some transaction)
    (hphase : transaction.phase = .committed) : world.HoldsEvidence transaction := by
  obtain ⟨record, hrecord, hholds, ⟨intended, hintended, hcatalog⟩, -⟩ :=
    h.ready index transaction hat (Or.inr hphase)
  obtain ⟨transactionId, hid⟩ := Option.ne_none_iff_exists'.mp hholds.named
  have hrecorded := hholds.transactionId.trans hid
  exact ⟨record, transactionId, intended, hrecord, hrecorded,
    (h.evidence _ record transactionId hrecord hrecorded).1, hid, hholds.targetIdentity, hintended,
    hcatalog⟩

theorem perform_target_or_repository {thread : ℕ} {request : MigrationCall C K}
    {before after : World C K} {reply : request.Reply}
    (h : perform rules limit thread request before reply after) :
    after.target = before.target ∨ after.repository = before.repository := by
  have hstatement : ∀ {α : Type} {index : ℕ} {answer : Except Failure α}
      {succeeds : TargetTransaction K → α → TargetTransaction K → Prop},
      InTransaction index before answer after succeeds → after.repository = before.repository := by
    rintro α index answer succeeds (⟨-, -, -, rfl⟩ | ⟨-, -, -, -, -, -, -, rfl⟩)
    · rfl
    · rfl
  by_cases hleaves : request.LeavesTarget
  · exact Or.inl (perform_target hleaves h)
  · refine Or.inr ?_
    cases request with
    | beginTransaction execution connection freshSnapshots =>
      rcases h with ⟨-, -, -, rfl⟩ | ⟨-, -, rfl⟩
      · rfl
      · rfl
    | commit index =>
      rcases h with h | ⟨-, -, -, -, -, -, rfl⟩
      · exact hstatement h
      · rfl
    | cleanup index =>
      rcases h with rfl | ⟨-, -, -, rfl⟩
      · rfl
      · rfl
    | lockTarget index targetNamespace tables conversions => exact hstatement h
    | introspect index targetNamespace => exact hstatement h
    | tableEmptiness index targetNamespace tables => exact hstatement h
    | targetIdentity index => exact hstatement h
    | currentTransactionId index => exact hstatement h
    | executeStatement index statement => exact hstatement h
    | _ => exact absurd trivial hleaves

theorem step_target_or_repository
    {after : Pool (migrationInterface C K) Failure (World C K)}
    (h : Pool.Step (migrationSemantics rules limit) coordinator.Starts pool after) :
    after.world.target = pool.world.target ∨
      after.world.repository = pool.world.repository := by
  cases h with
  | act thread request next reply world hthread hperform =>
    exact perform_target_or_repository hperform
  | spawn program hstarts => exact Or.inl rfl
  | crash thread => exact Or.inl rfl
  | environment world henvironment =>
    generalize pool.world = before at henvironment
    cases henvironment with
    | transaction index transaction phase hat hphase => exact Or.inr rfl
    | _ => exact Or.inl rfl

/-- Assumes: a reachable state. Whenever a step leads to a committed transaction, the record held
its evidence before the step already. The branches for missing evidence are closed to an execution
with a committed transaction, and a manual reconciliation alone, once no lease is alive, records it
as committed and ends its synchronisation: the stores answer, the connection of the plan leads to
the target of the transaction, and the design store accepts the content. -/
theorem evidence_precedes_commit (h : coordinator.Reachable rules limit pool) :
    (∀ (after : Pool (migrationInterface C K) Failure (World C K)) (index : ℕ)
      (transaction : TargetTransaction K),
      Pool.Step (migrationSemantics rules limit) coordinator.Starts pool after →
        after.world.target[index]? = some transaction → transaction.phase = .committed →
          pool.world.HoldsEvidence transaction) ∧
      ∀ (index : ℕ) (transaction : TargetTransaction K),
        pool.world.target[index]? = some transaction → transaction.phase = .committed →
          ∃ record, pool.world.repository.executions.lookup transaction.execution =
              some record ∧
            record.execution.transactionId.getD "" ≠ "" ∧ record.intendedResult ≠ none ∧
            ∀ (target : TargetAnswers K) (thread : ℕ) (plan : PlanRecord C K)
              (connection : Connection), target.identity = transaction.identity →
              ¬ (record.leaseOwner ≠ none ∧ ∃ expiry ∈ record.leaseExpiresAt,
                pool.world.clock < expiry) →
              pool.world.repository.plans.lookup (record.ownerId, record.execution.planId) =
                some plan →
              pool.world.connections (record.ownerId, plan.authority.connectionId) =
                some connection →
              connection.ownerId.getD record.ownerId =
                plan.authority.connectionOwnerId.getD record.ownerId →
              (runAlone rules limit target thread (coordinator.reconcile record.ownerId
                record.execution.id record.execution.revision) pool.world).2.Classified
                  transaction.execution (∀ intended, record.intendedResult = some intended →
                    pool.world.Accepts rules (record.ownerId, plan.plan.workspaceId)
                      intended.content) := by
  have hinv := h.worldInv
  constructor
  · intro after index transaction hstep hat hphase
    have hafter := (Coordinator.Reachable.worldInv (Pool.Reachable.step h hstep)).holdsEvidence hat
      hphase
    rcases step_target_or_repository hstep with htarget | hrepository
    · rw [htarget] at hat
      exact hinv.holdsEvidence hat hphase
    · unfold World.HoldsEvidence at hafter ⊢
      rw [← hrepository]
      exact hafter
  · intro index transaction hat hphase
    obtain ⟨record, transactionId, intended, hrecord, hid, hne, -, -, hintended, -⟩ :=
      hinv.holdsEvidence hat hphase
    have hkey := hinv.keyed _ record hrecord
    refine ⟨record, hrecord, ?_, ?_, ?_⟩
    · rw [hid]
      exact hne
    · rw [hintended]
      exact Option.some_ne_none _
    · intro target thread plan connection htarget hexpired hplan hconnection howner
      rw [← hkey]
      exact classified_reconcile rules limit target thread coordinator hinv
        (by rw [hkey]; exact hrecord) hat hkey.symm hphase hexpired hplan hconnection howner htarget

/-- The sample migration is such a run: its transaction committed, and the reconciliation of its
execution keeps it recorded as committed. -/
theorem sample_evidence_precedes_commit :
    ∃ (pool : Pool (migrationInterface String String) Failure (World String String))
      (transaction : TargetTransaction String) (record : ExecutionRecord String String)
      (plan : PlanRecord String String),
      sampleCoordinator.Reachable sampleRules 10 pool ∧
      pool.world.target[0]? = some transaction ∧ transaction.phase = .committed ∧
      pool.world.repository.executions.lookup transaction.execution = some record ∧
      (runAlone sampleRules 10 sampleTarget 7 (sampleCoordinator.reconcile record.ownerId
        record.execution.id record.execution.revision) pool.world).2.Classified
          transaction.execution (∀ intended, record.intendedResult = some intended →
            pool.world.Accepts sampleRules (record.ownerId, plan.plan.workspaceId)
              intended.content) := by
  have htarget : (runSample firstMigration).bind (fun state ↦
      state.2.target[0]?.map fun transaction ↦
        (transaction.phase, transaction.execution, transaction.identity)) =
      some (.committed, ("o", "e1"), sampleTarget.identity) := by
    decide +kernel
  have hexecution : (runSample firstMigration).bind (fun state ↦
      (state.2.repository.executions.lookup ("o", "e1")).map fun record ↦
        (record.ownerId, record.execution.planId, record.leaseOwner)) =
      some ("o", "p1", none) := by
    decide +kernel
  have hplans : (runSample firstMigration).bind (fun state ↦
      (state.2.repository.plans.lookup ("o", "p1")).map fun plan ↦
        (plan.authority.connectionOwnerId,
          state.2.connections ("o", plan.authority.connectionId))) =
      some (none, some ⟨none, 1⟩) := by
    decide +kernel
  obtain ⟨state, hstate, hfirst⟩ := Option.bind_eq_some_iff.mp htarget
  rw [hstate] at hexecution hplans
  obtain ⟨transaction, hat, htransaction⟩ := Option.map_eq_some_iff.mp hfirst
  obtain ⟨stored, hstored, hfields⟩ := Option.map_eq_some_iff.mp hexecution
  obtain ⟨plan, hplan, hconnection⟩ := Option.map_eq_some_iff.mp hplans
  simp only [Prod.mk.injEq] at htransaction hfields hconnection
  obtain ⟨hphase, hkey, hidentity⟩ := htransaction
  obtain ⟨howner, hplanId, hlease⟩ := hfields
  obtain ⟨pool, hpool, hworld⟩ := reachable_runSample hstate
  rw [← hworld] at hat hstored hplan hconnection
  obtain ⟨record, hrecord, -, -, hreconcile⟩ :=
    (evidence_precedes_commit hpool).2 0 transaction hat hphase
  rw [hkey] at hrecord
  obtain rfl : stored = record := Option.some.inj (hstored.symm.trans hrecord)
  refine ⟨pool, transaction, stored, plan, hpool, hat, hphase, by rw [hkey]; exact hrecord, ?_⟩
  refine hreconcile sampleTarget 7 plan ⟨none, 1⟩ hidentity.symm (fun hleased ↦ ?_) ?_ ?_ ?_
  · exact hleased.1 hlease
  · rw [howner, hplanId]
    exact hplan
  · rw [howner]
    exact hconnection.2
  · rw [hconnection.1]

/-! ### What a run does not take back -/

end Commits

end Schemii.Migrations
