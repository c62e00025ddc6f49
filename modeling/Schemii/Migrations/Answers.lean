import Schemii.Migrations.Environment

/-!
# Stores and a target that answer

A run of one program alone, on stores that answer every call and a target that succeeds with every
statement (`runAlone`). Its answers are answers of the semantics (`answer_perform`), so a world that
such a run leads to from a reachable one is reachable (`Coordinator.ReachableUnder.start`). Which catalogs
the target shows is a parameter (`TargetAnswers`).

The answers are executable. They serve two purposes: to say that a recovery can finish, and to give
concrete runs.
-/

set_option autoImplicit false

namespace Schemii.Migrations

open Foundations Designs

variable {C K : Type}

/-- How a target answers: its identity, and the catalog that one of its transactions shows. -/
structure TargetAnswers (K : Type) where
  identity : TargetIdentity
  shows : TargetTransaction K → K

/-- A text that is longer than every one of a list. -/
def freshName (taken : List String) : String :=
  "#" ++ taken.foldr (· ++ ·) ""

theorem freshName_not_mem (taken : List String) : freshName taken ∉ taken := by
  have hlength : ∀ name ∈ taken, name.length ≤ (taken.foldr (· ++ ·) "").length := by
    induction taken with
    | nil => exact fun name hname ↦ nomatch hname
    | cons first rest ih =>
      intro name hname
      rw [List.foldr_cons, String.length_append]
      rcases List.mem_cons.mp hname with rfl | hrest
      · exact Nat.le_add_right _ _
      · exact (ih name hrest).trans (Nat.le_add_left _ _)
  intro hmem
  have hshort := hlength _ hmem
  unfold freshName at hshort
  rw [String.length_append] at hshort
  have hmark : ("#" : String).length = 1 := rfl
  omega

/-- The identifiers of all baselines. -/
def MigrationRepository.baselineIds (repository : MigrationRepository C K) : List String :=
  repository.baselineRows.entries.flatMap fun entry ↦ entry.2.map BaselineRecord.id

theorem MigrationRepository.mem_baselineIds {repository : MigrationRepository C K}
    {workspace : Key} {baseline : BaselineRecord C K}
    (h : baseline ∈ repository.baselines workspace) : baseline.id ∈ repository.baselineIds := by
  unfold MigrationRepository.baselines at h
  cases hrows : repository.baselineRows.lookup workspace with
  | none =>
    rw [hrows] at h
    exact nomatch h
  | some rows =>
    rw [hrows] at h
    exact List.mem_flatMap.mpr ⟨⟨workspace, rows⟩, AList.mem_lookup_iff.mp hrows,
      List.mem_map_of_mem h⟩

/-- The answer of a running transaction to a statement. -/
def answerStatement {α : Type} (world : World C K) (index : ℕ) (value : TargetTransaction K → α)
    (change : TargetTransaction K → TargetTransaction K) : Except Failure α × World C K :=
  match world.target[index]? with
  | none => (.error .other, world)
  | some transaction =>
    if transaction.phase = .running then
      (.ok (value transaction), world.setTransaction index (change transaction))
    else (.error .other, world)

/-- The status of a named transaction of the target. -/
def World.statusOf (world : World C K) (identity : TargetIdentity) (transactionId : String) :
    TransactionStatus :=
  match world.target.find? fun transaction ↦
      transaction.identity = identity ∧ transaction.transactionId = some transactionId with
  | some transaction => transaction.phase.status
  | none => .aborted

/-- The answers of the stores and the target. -/
def answer (rules : ContentRules C) (limit : ℕ) (target : TargetAnswers K) (thread : ℕ) :
    (request : MigrationCall C K) → World C K → request.Reply × World C K
  | .now, world => (world.clock, world)
  | .leaseToken, world => ("", world)
  | .getPlan key, world => (world.repository.getPlan key, world)
  | .getWorkspace key, world =>
    (match world.workspaces key with
      | some workspace => .ok workspace
      | none => .error (.workspaceNotFound "Workspace was not found"), world)
  | .getDesign key, world =>
    (.ok (DesignRepository.currentDesign rules (world.designs.workspaces key)), world)
  | .currentBaseline workspace _, world =>
    (.ok (world.repository.currentBaseline workspace), world)
  | .createBaseline values, world =>
    world.withRepository
      (world.repository.createBaseline (freshName world.repository.baselineIds) values)
  | .getExecution key, world => (world.repository.getExecution key, world)
  | .claimNextExecution claimedAt leaseOwner leaseExpiresAt, world =>
    let claim := world.repository.claimNextExecution claimedAt leaseOwner leaseExpiresAt
    (.ok claim.1, { world with repository := claim.2 })
  | .renewExecutionLease key leaseOwner leaseExpiresAt, world =>
    let renewal := world.repository.renewExecutionLease key leaseOwner leaseExpiresAt
    (.ok renewal.1, { world with repository := renewal.2 })
  | .transitionExecution key transition, world =>
    world.withRepository (world.repository.transitionExecution key transition)
  | .replaceDesign workspace execution request, world =>
    world.replaceDesign rules limit workspace execution request
  | .useConnection ownerId connectionId, world =>
    (match world.connections (ownerId, connectionId) with
      | some connection => .ok connection
      | none => .error (.connectionNotFound "PostgreSQL connection was not found"), world)
  | .gatewaySupports _, world => (true, world)
  | .beginTransaction execution _ _, world =>
    (.ok world.target.length, { world with
      target := world.target ++ [⟨thread, execution, target.identity, none, .running, none⟩] })
  | .lockTarget index _ _ _, world => answerStatement world index (fun _ ↦ ()) id
  | .introspect index _, world =>
    answerStatement world index target.shows fun transaction ↦
      { transaction with catalog := some (target.shows transaction) }
  | .tableEmptiness index _ tables, world =>
    answerStatement world index (fun _ ↦ tables.map fun table ↦ (table, true)) id
  | .targetIdentity index, world => answerStatement world index TargetTransaction.identity id
  | .currentTransactionId index, world =>
    let name := freshName (world.target.filterMap TargetTransaction.transactionId)
    answerStatement world index (fun transaction ↦ transaction.transactionId.getD name)
      fun transaction ↦
        { transaction with transactionId := some (transaction.transactionId.getD name) }
  | .executeStatement index _, world =>
    answerStatement world index (fun _ ↦ ()) fun transaction ↦
      { transaction with catalog := none }
  | .commit index, world =>
    answerStatement world index (fun _ ↦ ()) fun transaction ↦
      { transaction with phase := .committed }
  | .cleanup _, world => ((), world)
  | .transactionStatus _ transactionId, world =>
    (.ok (target.identity, world.statusOf target.identity transactionId), world)

/-- Run a program alone on stores and a target that answer. -/
def runAlone {α : Type} (rules : ContentRules C) (limit : ℕ) (target : TargetAnswers K)
    (thread : ℕ) (program : Prog C K α) (world : World C K) : Except Failure α × World C K :=
  Program.run (I := migrationInterface C K) (answer rules limit target thread) program world

theorem runAlone_bind {α β : Type} (rules : ContentRules C) (limit : ℕ) (target : TargetAnswers K)
    (thread : ℕ) (program : Prog C K α) (f : α → Prog C K β) (world : World C K) :
    runAlone rules limit target thread (program >>= f) world =
      match runAlone rules limit target thread program world with
      | (.ok value, after) => runAlone rules limit target thread (f value) after
      | (.error failure, after) => (.error failure, after) := by
  have hrun := Program.run_bind (I := migrationInterface C K) (answer rules limit target thread)
    program f world
  unfold runAlone
  rw [hrun]
  rcases Program.run (I := migrationInterface C K) (answer rules limit target thread) program
    world with ⟨failure | value, after⟩
  · rfl
  · rfl

theorem runAlone_ask (rules : ContentRules C) (limit : ℕ) (target : TargetAnswers K) (thread : ℕ)
    (request : MigrationCall C K) (world : World C K) :
    runAlone rules limit target thread (ask request) world =
      (.ok (answer rules limit target thread request world).1,
        (answer rules limit target thread request world).2) :=
  rfl

theorem runAlone_askOr {α : Type} (rules : ContentRules C) (limit : ℕ) (target : TargetAnswers K)
    (thread : ℕ) (translate : Failure → Failure) (program : Prog C K (Except Failure α))
    (world : World C K) :
    runAlone rules limit target thread (askOr translate program) world =
      match runAlone rules limit target thread program world with
      | (.ok (.ok value), after) => (.ok value, after)
      | (.ok (.error failure), after) => (.error (translate failure), after)
      | (.error failure, after) => (.error failure, after) := by
  unfold askOr
  rw [runAlone_bind]
  rcases runAlone rules limit target thread program world with ⟨failure | failure | value, after⟩
  · rfl
  · rfl
  · rfl

theorem Attempted.answered {α : Type} (outcome : Except Failure α × World C K)
    (before : World C K) : Attempted outcome before outcome.1 outcome.2 :=
  Or.inl ⟨rfl, rfl⟩

/-- Assumes: a statement that may do what the target does with it. The answer is one of the
semantics. -/
theorem inTransaction_answerStatement {α : Type} {world : World C K} {index : ℕ}
    {value : TargetTransaction K → α} {change : TargetTransaction K → TargetTransaction K}
    {succeeds : TargetTransaction K → α → TargetTransaction K → Prop}
    (h : ∀ transaction, world.target[index]? = some transaction → transaction.phase = .running →
      succeeds transaction (value transaction) (change transaction)) :
    InTransaction index world (answerStatement world index value change).1
      (answerStatement world index value change).2 succeeds := by
  unfold answerStatement
  cases hat : world.target[index]? with
  | none => exact Or.inl ⟨.other, trivial, rfl, rfl⟩
  | some transaction =>
    dsimp only
    split_ifs with hrunning
    · exact Or.inr ⟨transaction, _, _, hat, hrunning, rfl, h transaction hat hrunning, rfl⟩
    · exact Or.inl ⟨.other, trivial, rfl, rfl⟩

theorem WorldInv.statusOf_eq {world : World C K} (h : WorldInv world)
    {transaction : TargetTransaction K} {transactionId : String}
    (hmem : transaction ∈ world.target) (hid : transaction.transactionId = some transactionId) :
    world.statusOf transaction.identity transactionId = transaction.phase.status := by
  unfold World.statusOf
  cases hfind : world.target.find? (fun other ↦
      other.identity = transaction.identity ∧ other.transactionId = some transactionId) with
  | none =>
    have hnone := List.find?_eq_none.mp hfind transaction hmem
    simp [hid] at hnone
  | some found =>
    have hfound := List.find?_some hfind
    simp only [decide_eq_true_eq] at hfound
    obtain ⟨index, hat⟩ := List.mem_iff_getElem?.mp hmem
    obtain ⟨other, hother⟩ := List.mem_iff_getElem?.mp (List.mem_of_find?_eq_some hfind)
    have hsame : index = other := h.distinct index other transaction found hat hother
      (by rw [hid]; exact Option.some_ne_none _) (hid.trans hfound.2.symm) hfound.1.symm
    subst hsame
    obtain rfl : transaction = found := Option.some.inj (hat.symm.trans hother)
    rfl

theorem answer_perform {rules : ContentRules C} {limit : ℕ} {target : TargetAnswers K}
    {world : World C K} (h : WorldInv world) (thread : ℕ) (request : MigrationCall C K) :
    perform rules limit thread request world (answer rules limit target thread request world).1
      (answer rules limit target thread request world).2 := by
  cases request with
  | now => exact ⟨rfl, rfl⟩
  | leaseToken => exact rfl
  | getPlan key => exact .answered _ _
  | getWorkspace key => exact .answered _ _
  | getDesign key => exact Or.inl (.answered _ _)
  | currentBaseline workspace purpose => exact .answered _ _
  | createBaseline values =>
    refine ⟨_, fun workspace baseline hmem hsame ↦ ?_, .answered _ _⟩
    exact freshName_not_mem world.repository.baselineIds
      (hsame ▸ MigrationRepository.mem_baselineIds hmem)
  | getExecution key => exact .answered _ _
  | claimNextExecution claimedAt leaseOwner leaseExpiresAt => exact .answered _ _
  | renewExecutionLease key leaseOwner leaseExpiresAt => exact .answered _ _
  | transitionExecution key transition => exact .answered _ _
  | replaceDesign workspace execution request => exact .answered _ _
  | useConnection ownerId connectionId => exact .answered _ _
  | gatewaySupports method => exact rfl
  | beginTransaction execution connection freshSnapshots =>
    exact Or.inr ⟨target.identity, rfl, rfl⟩
  | lockTarget index targetNamespace tables conversions =>
    exact inTransaction_answerStatement fun _ _ _ ↦ rfl
  | introspect index targetNamespace =>
    exact inTransaction_answerStatement fun _ _ _ ↦ rfl
  | tableEmptiness index targetNamespace tables =>
    exact inTransaction_answerStatement fun _ _ _ ↦ rfl
  | targetIdentity index => exact inTransaction_answerStatement fun _ _ _ ↦ ⟨rfl, rfl⟩
  | currentTransactionId index =>
    refine inTransaction_answerStatement fun transaction _ _ ↦ ⟨rfl, ?_⟩
    cases hid : transaction.transactionId with
    | some transactionId => exact Or.inl rfl
    | none =>
      refine Or.inr ⟨rfl, fun other hother _ hsame ↦ ?_⟩
      exact freshName_not_mem (world.target.filterMap TargetTransaction.transactionId)
        (List.mem_filterMap.mpr ⟨other, hother, hsame⟩)
  | executeStatement index statement => exact inTransaction_answerStatement fun _ _ _ ↦ rfl
  | commit index => exact Or.inl (inTransaction_answerStatement fun _ _ _ ↦ rfl)
  | cleanup index => exact Or.inl rfl
  | transactionStatus connection transactionId =>
    refine ⟨rfl, Or.inr ⟨target.identity, _, rfl, ?_⟩⟩
    intro transaction hmem hidentity hid
    rw [← hidentity]
    exact (h.statusOf_eq hmem hid).symm

/-- The states of the runs in which every call meets a condition on it and the world. -/
def Coordinator.ReachableUnder (coordinator : Coordinator C K) (rules : ContentRules C) (limit : ℕ)
    (condition : MigrationCall C K → World C K → Prop)
    (pool : Pool (migrationInterface C K) Failure (World C K)) : Prop :=
  Pool.Reachable ((migrationSemantics rules limit).restrict condition) coordinator.Starts
    World.IsInitial pool

theorem Coordinator.ReachableUnder.reachable {coordinator : Coordinator C K}
    {rules : ContentRules C} {limit : ℕ} {condition : MigrationCall C K → World C K → Prop}
    {pool : Pool (migrationInterface C K) Failure (World C K)}
    (h : coordinator.ReachableUnder rules limit condition pool) :
    coordinator.Reachable rules limit pool :=
  Pool.Reachable.of_restrict h

/-- Every call of a program that runs alone meets a condition. -/
def MeetsAlone {α : Type} (rules : ContentRules C) (limit : ℕ) (target : TargetAnswers K)
    (condition : MigrationCall C K → World C K → Prop) (thread : ℕ) (program : Prog C K α)
    (world : World C K) : Prop :=
  Program.Meets (I := migrationInterface C K) (answer rules limit target thread) condition program
    world

instance {α : Type} (rules : ContentRules C) (limit : ℕ) (target : TargetAnswers K)
    (condition : MigrationCall C K → World C K → Prop)
    [h : ∀ request world, Decidable (condition request world)] (thread : ℕ) (program : Prog C K α)
    (world : World C K) :
    Decidable (MeetsAlone rules limit target condition thread program world) :=
  have : ∀ (request : (migrationInterface C K).Call) (world : World C K),
      Decidable (condition request world) := h
  Program.decidableMeets (I := migrationInterface C K) (answer rules limit target thread) condition
    program world

/-- Assumes: a state of a run under a condition, and a program that may start and meets it. The world
in which the program ran alone is reached under the condition. -/
theorem Coordinator.ReachableUnder.start {coordinator : Coordinator C K} {rules : ContentRules C}
    {limit : ℕ} {condition : MigrationCall C K → World C K → Prop}
    {pool : Pool (migrationInterface C K) Failure (World C K)}
    (h : coordinator.ReachableUnder rules limit condition pool) (target : TargetAnswers K)
    {program : Prog C K Unit} (hstarts : coordinator.Starts program)
    (hmeets : MeetsAlone rules limit target condition pool.spawned program pool.world) :
    ∃ after, coordinator.ReachableUnder rules limit condition after ∧
      after.world = (runAlone rules limit target pool.spawned program pool.world).2 ∧
      after.spawned = pool.spawned + 1 :=
  Pool.Reachable.start (fun _ hpool thread request ↦ answer_perform
    (Coordinator.ReachableUnder.reachable hpool).worldInv thread request) hstarts h hmeets

end Schemii.Migrations
