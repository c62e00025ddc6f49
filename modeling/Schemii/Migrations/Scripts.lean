import Schemii.Migrations.Recovery

/-!
# Executable runs

A script is a list of events: what users do between the turns of the workers, and programs that run
alone on stores and a target that answer. `runScript` executes a script and checks what the
environment may do; the worlds it leads to are reachable (`reachable_runScript`), also in runs whose
calls meet a condition if those of the script do. A fixed script is a concrete run, with nothing
left to prove about it but its end.
-/

set_option autoImplicit false

namespace Schemii.Migrations

open Foundations Designs

variable {C K : Type}

/-- An event of a script. -/
inductive ScriptEvent (C K : Type)
  | baseline (id : String) (values : BaselineCreate C K)
  | plan (record : PlanRecord C K)
  | reserve (id ownerId planId reviewDigest : String) (reservedAt : ℕ)
  | design (request : DesignRequest C)
  | turn (workerId : String)
  | reconciliation (ownerId executionId : String) (expectedExecutionRevision : ℕ)

section Scripts

variable (coordinator : Coordinator C K) (rules : ContentRules C) (limit : ℕ)
  (target : TargetAnswers K)

/-- A program that runs alone under the next identity. -/
def startAlone (program : Prog C K Unit) (state : ℕ × World C K) : ℕ × World C K :=
  (state.1 + 1, (runAlone rules limit target state.1 program state.2).2)

/-- One event, where the environment may do it. The state is the number of programs that started
and the world. -/
def runEvent (state : ℕ × World C K) : ScriptEvent C K → Option (ℕ × World C K)
  | .baseline id values =>
    let world := state.2
    if values.source = .imported ∧ values.expectedPredecessorId = none ∧
        values.sourceExecutionId = none ∧ id ∉ world.repository.baselineIds then
      some (state.1, { world with
        repository := (world.repository.createBaseline id values).2 })
    else none
  | .plan record =>
    let world := state.2
    if (record.ownerId, record.plan.id) ∉ world.repository.plans ∧
        record.plan.designRevision ≤ (DesignRepository.currentDesign rules
          (world.designs.workspaces (record.ownerId, record.plan.workspaceId))).revision ∧
        record.baselineId ∈ (world.repository.baselines
          (record.ownerId, record.plan.workspaceId)).map BaselineRecord.id then
      some (state.1, { world with repository := (world.repository.createPlan record).2 })
    else none
  | .reserve id ownerId planId reviewDigest reservedAt =>
    let world := state.2
    if (∀ entry ∈ world.repository.executions.entries, entry.1.2 ≠ id) ∧
        (∀ entry ∈ world.repository.baselineRows.entries, ∀ baseline ∈ entry.2,
          baseline.sourceExecutionId ≠ some id) then
      match world.repository.reserveExecution id ownerId planId reviewDigest true true
          reservedAt with
      | (.ok (record, true), repository) =>
        some (state.1, { world with
          repository := repository
          baselineMarks := Function.update world.baselineMarks record.key
            (world.repository.baselines (ownerId, record.execution.workspaceId)).length
          journal := world.journal ++ [.reserved record.key] })
      | _ => none
    else none
  | .design request =>
    let world := state.2
    some (state.1, { world with
      designs := Designs.step rules limit world.designs request
      journal := world.journal ++
        if SavedDesign rules world.designs (Designs.step rules limit world.designs request)
          request.key then [.saved request.key] else [] })
  | .turn workerId =>
    some (startAlone rules limit target (coordinator.runOnce workerId) state)
  | .reconciliation ownerId executionId revision =>
    some (startAlone rules limit target
      (coordinator.reconcileRequest ownerId executionId revision) state)

/-- The events of a script, one after another. -/
def runScript (state : ℕ × World C K) : List (ScriptEvent C K) → Option (ℕ × World C K)
  | [] => some state
  | event :: rest => (runEvent coordinator rules limit target state event).bind fun after ↦
      runScript after rest

/-- The calls of the program of an event meet a condition. -/
def EventMeets (condition : MigrationCall C K → World C K → Prop) (state : ℕ × World C K) :
    ScriptEvent C K → Prop
  | .turn workerId =>
    MeetsAlone rules limit target condition state.1 (coordinator.runOnce workerId) state.2
  | .reconciliation ownerId executionId revision =>
    MeetsAlone rules limit target condition state.1
      (coordinator.reconcileRequest ownerId executionId revision) state.2
  | _ => True

/-- The calls of the programs of a script meet a condition. -/
def ScriptMeets (condition : MigrationCall C K → World C K → Prop) (state : ℕ × World C K) :
    List (ScriptEvent C K) → Prop
  | [] => True
  | event :: rest => EventMeets coordinator rules limit target condition state event ∧
      ∀ after ∈ runEvent coordinator rules limit target state event,
        ScriptMeets condition after rest

instance (condition : MigrationCall C K → World C K → Prop)
    [∀ request world, Decidable (condition request world)] (state : ℕ × World C K)
    (event : ScriptEvent C K) :
    Decidable (EventMeets coordinator rules limit target condition state event) :=
  match event with
  | .turn workerId => inferInstanceAs (Decidable
      (MeetsAlone rules limit target condition state.1 (coordinator.runOnce workerId) state.2))
  | .reconciliation ownerId executionId revision => inferInstanceAs (Decidable
      (MeetsAlone rules limit target condition state.1
        (coordinator.reconcileRequest ownerId executionId revision) state.2))
  | .baseline _ _ | .plan _ | .reserve _ _ _ _ _ | .design _ => .isTrue trivial

instance decidableScriptMeets (condition : MigrationCall C K → World C K → Prop)
    [∀ request world, Decidable (condition request world)] :
    (state : ℕ × World C K) → (script : List (ScriptEvent C K)) →
      Decidable (ScriptMeets coordinator rules limit target condition state script)
  | _, [] => .isTrue trivial
  | state, event :: rest =>
    have := fun after ↦ decidableScriptMeets condition after rest
    inferInstanceAs (Decidable (EventMeets coordinator rules limit target condition state event ∧
      ∀ after ∈ runEvent coordinator rules limit target state event,
        ScriptMeets coordinator rules limit target condition after rest))

variable {coordinator rules limit target}

/-- Assumes: what holds of every baseline row. It holds of the baselines of every workspace. -/
theorem forall_baselines {repository : MigrationRepository C K} {p : BaselineRecord C K → Prop}
    (h : ∀ entry ∈ repository.baselineRows.entries, ∀ baseline ∈ entry.2, p baseline)
    (workspace : Key) : ∀ baseline ∈ repository.baselines workspace, p baseline := by
  intro baseline hmem
  unfold MigrationRepository.baselines at hmem
  cases hrows : repository.baselineRows.lookup workspace with
  | none =>
    rw [hrows] at hmem
    exact nomatch hmem
  | some rows =>
    rw [hrows] at hmem
    exact h ⟨workspace, rows⟩ (AList.mem_lookup_iff.mp hrows) baseline hmem

theorem scriptMeets_true (state : ℕ × World C K) (script : List (ScriptEvent C K)) :
    ScriptMeets coordinator rules limit target (fun _ _ ↦ True) state script := by
  induction script generalizing state with
  | nil => trivial
  | cons event rest ih =>
    refine ⟨?_, fun after _ ↦ ih after⟩
    cases event with
    | turn workerId => exact Program.meets_true _ _ _
    | reconciliation ownerId executionId revision => exact Program.meets_true _ _ _
    | _ => trivial

variable {condition : MigrationCall C K → World C K → Prop}

/-- Assumes: a state of a run under a condition, and a change of the environment. The changed world
is reached under the condition. -/
theorem Coordinator.ReachableUnder.change
    {pool : Pool (migrationInterface C K) Failure (World C K)}
    (h : coordinator.ReachableUnder rules limit condition pool) {world : World C K}
    (hchange : WorldChange rules limit pool.world world) :
    ∃ after, coordinator.ReachableUnder rules limit condition after ∧ after.world = world ∧
      after.spawned = pool.spawned :=
  ⟨⟨world, pool.threads, pool.spawned⟩, Pool.Reachable.step h (.environment world hchange), rfl,
    rfl⟩

/-- Assumes: a state of a run under a condition, and an event that happens and whose program meets
it. The world after it is reached under the condition. -/
theorem reachable_runEvent {pool : Pool (migrationInterface C K) Failure (World C K)}
    (h : coordinator.ReachableUnder rules limit condition pool) {event : ScriptEvent C K}
    {state : ℕ × World C K}
    (hmeets : EventMeets coordinator rules limit target condition (pool.spawned, pool.world) event)
    (hevent : runEvent coordinator rules limit target (pool.spawned, pool.world) event =
      some state) :
    ∃ after, coordinator.ReachableUnder rules limit condition after ∧ after.spawned = state.1 ∧
      after.world = state.2 := by
  cases event with
  | baseline id values =>
    unfold runEvent at hevent
    dsimp only at hevent
    split_ifs at hevent with hchecks
    obtain rfl := Option.some.inj hevent
    obtain ⟨hsource, hexpected, hexecution, hfresh⟩ := hchecks
    obtain ⟨after, hafter, hworld, hspawned⟩ := h.change (.baseline pool.world id values
      (fun workspace baseline hmem hsame ↦ hfresh (hsame ▸ MigrationRepository.mem_baselineIds hmem))
      hsource hexpected hexecution)
    exact ⟨after, hafter, hspawned, hworld⟩
  | plan record =>
    unfold runEvent at hevent
    dsimp only at hevent
    split_ifs at hevent with hchecks
    obtain rfl := Option.some.inj hevent
    obtain ⟨after, hafter, hworld, hspawned⟩ :=
      h.change (.plan pool.world record hchecks.1 hchecks.2.1 hchecks.2.2)
    exact ⟨after, hafter, hspawned, hworld⟩
  | reserve id ownerId planId reviewDigest reservedAt =>
    unfold runEvent at hevent
    dsimp only at hevent
    split_ifs at hevent with hchecks
    split at hevent
    · next record repository hreserve =>
      obtain rfl := Option.some.inj hevent
      obtain ⟨after, hafter, hworld, hspawned⟩ := h.change (.reserve pool.world id ownerId planId
        reviewDigest true true reservedAt record repository
        (fun owner hmem ↦ by
          obtain ⟨found, hfound⟩ := Option.isSome_iff_exists.mp (AList.lookup_isSome.mpr hmem)
          exact hchecks.1 _ (AList.mem_lookup_iff.mp hfound) rfl)
        (forall_baselines hchecks.2) hreserve)
      exact ⟨after, hafter, hspawned, hworld⟩
    · exact nomatch hevent
  | design request =>
    obtain rfl := Option.some.inj hevent
    obtain ⟨after, hafter, hworld, hspawned⟩ := h.change (.design pool.world request)
    exact ⟨after, hafter, hspawned, hworld⟩
  | turn workerId =>
    obtain rfl := Option.some.inj hevent
    obtain ⟨after, hafter, hworld, hspawned⟩ := h.start target (.worker workerId) hmeets
    exact ⟨after, hafter, hspawned, hworld⟩
  | reconciliation ownerId executionId revision =>
    obtain rfl := Option.some.inj hevent
    obtain ⟨after, hafter, hworld, hspawned⟩ :=
      h.start target (.reconciliation ownerId executionId revision) hmeets
    exact ⟨after, hafter, hspawned, hworld⟩

/-- Assumes: a state of a run under a condition, and a script that runs to its end and whose programs
meet it. Its last world is reached under the condition. -/
theorem reachable_runScript {script : List (ScriptEvent C K)}
    {pool : Pool (migrationInterface C K) Failure (World C K)}
    (h : coordinator.ReachableUnder rules limit condition pool) {state : ℕ × World C K}
    (hmeets : ScriptMeets coordinator rules limit target condition (pool.spawned, pool.world)
      script)
    (hscript : runScript coordinator rules limit target (pool.spawned, pool.world) script =
      some state) :
    ∃ after, coordinator.ReachableUnder rules limit condition after ∧ after.spawned = state.1 ∧
      after.world = state.2 := by
  induction script generalizing pool with
  | nil =>
    obtain rfl := Option.some.inj hscript
    exact ⟨pool, h, rfl, rfl⟩
  | cons event rest ih =>
    obtain ⟨middle, hevent, hrest⟩ := Option.bind_eq_some_iff.mp hscript
    obtain ⟨next, hnext, hspawned, hworld⟩ := reachable_runEvent h hmeets.1 hevent
    refine ih hnext ?_ ?_
    · rw [hspawned, hworld]
      exact hmeets.2 middle hevent
    · rw [hspawned, hworld]
      exact hrest

end Scripts

end Schemii.Migrations
