import Schemii.Migrations.WorkerSafety

/-!
# The worker inside a target transaction

While a plan is applied the worker has a transaction of its own on the target. `InSession` is what
it knows between its calls there: the record as it last wrote it, the transaction, and whether the
record names the transaction already. An exception before the commit leaves an execution that was
given up (`Abandoned`), so the handlers may record it as failed; an exception of the commit itself is
recorded as uncertain. The commit is reached only after both callbacks wrote their evidence, and the
compare-and-set of the callbacks fences a worker whose lease was taken over
(`Discipline.safe_commitTransaction`).

`Discipline.safe_starts` collects both halves: every program that may start is safe.
-/

set_option autoImplicit false

namespace Schemii.Migrations

open Foundations Designs

variable {C K : Type}
variable {world : World C K} {plan : PlanRecord C K} {record : ExecutionRecord C K}
  {transaction : TargetTransaction K} {session : Coordinator.MigrationSession C K}

/-! ### Transactions of a program -/

/-- A transaction a program began for an execution and has not tried to commit. -/
structure World.Owns (world : World C K) (thread index : ℕ) (key : Key)
    (transaction : TargetTransaction K) : Prop where
  at_index : world.target[index]? = some transaction
  thread_eq : transaction.thread = thread
  execution : transaction.execution = key
  open_phase : transaction.phase = .running ∨ transaction.phase = .aborted

/-- What the worker knows while it applies a plan: the record as it last wrote it, the plan, and its
transaction, which the record names or no record names yet. -/
structure World.InSession (world : World C K) (thread index : ℕ) (plan : PlanRecord C K)
    (record : ExecutionRecord C K) (transaction : TargetTransaction K) : Prop where
  knows : world.Knows record
  knowsPlan : world.KnowsPlan record plan
  workspace : plan.plan.workspaceId = record.execution.workspaceId
  owns : world.Owns thread index record.key transaction
  outcome : record.execution.commitOutcome = none
  evidence : record.execution.transactionId = none ∨ record.Holds transaction

variable {thread index : ℕ} {before after : World C K}

/-- Assumes: a session in a quiet world. It goes on, with what the transaction has become. -/
theorem World.InSession.quiet
    (h : before.InSession thread index plan record transaction) (hquiet : Quiet thread before after) :
    ∃ later, after.InSession thread index plan record later ∧ transaction.Later thread later := by
  obtain ⟨later, hlater, hkept⟩ := hquiet.transactions index transaction h.owns.at_index
  refine ⟨later, ⟨h.knows.growth hquiet.growth, h.knowsPlan.growth h.knows hquiet.growth,
    h.workspace, ?_, h.outcome, ?_⟩, hkept⟩
  · refine ⟨hlater, hkept.thread_eq.trans h.owns.thread_eq, hkept.execution.trans h.owns.execution,
      ?_⟩
    rcases h.owns.open_phase with hrunning | haborted
    · exact (hkept.own h.owns.thread_eq).2.2 hrunning
    · exact Or.inr (hkept.aborted haborted)
  · exact h.evidence.imp id fun hholds ↦ hholds.of_later hkept

theorem World.InSession.gaveUp
    (h : world.InSession thread index plan record transaction) : world.GaveUp thread record := by
  rcases h.evidence with hnone | hholds
  · exact Or.inl hnone
  · refine Or.inr ⟨index, transaction, h.owns.at_index, h.owns.execution, hholds, ?_⟩
    exact h.owns.open_phase.elim (fun hrunning ↦ Or.inr ⟨hrunning, h.owns.thread_eq⟩) Or.inl

/-- Assumes: a session whose transaction was changed by an own call that kept its execution, its
target and its name, unless the record names none yet. The session goes on. -/
theorem World.InSession.change {changed : TargetTransaction K}
    (h : before.InSession thread index plan record transaction) (hgrowth : WorldGrowth before after)
    (hat : after.target[index]? = some changed) (hthread : changed.thread = transaction.thread)
    (hexecution : changed.execution = transaction.execution)
    (hidentity : changed.identity = transaction.identity)
    (hphase : changed.phase = transaction.phase)
    (hid : record.Holds transaction → changed.transactionId = transaction.transactionId) :
    after.InSession thread index plan record changed := by
  refine ⟨h.knows.growth hgrowth, h.knowsPlan.growth h.knows hgrowth, h.workspace, ⟨hat, hthread.trans h.owns.thread_eq,
    hexecution.trans h.owns.execution, ?_⟩, h.outcome, ?_⟩
  · rw [hphase]
    exact h.owns.open_phase
  · refine h.evidence.imp id fun hholds ↦ ⟨?_, ?_, ?_⟩
    · rw [hid hholds]
      exact hholds.named
    · rw [hid hholds]
      exact hholds.transactionId
    · rw [hidentity]
      exact hholds.targetIdentity

/-- Assumes: a statement in a transaction a program owns. It failed without effect, or it succeeded
on the running transaction. -/
theorem InTransaction.owned {α : Type} {key : Key} {reply : Except Failure α}
    {succeeds : TargetTransaction K → α → TargetTransaction K → Prop}
    (h : InTransaction index before reply after succeeds)
    (howns : before.Owns thread index key transaction) :
    (∃ failure, reply = .error failure ∧ after = before) ∨
      ∃ value changed, reply = .ok value ∧ succeeds transaction value changed ∧
        after.target[index]? = some changed := by
  rcases h with ⟨failure, -, hreply, hafter⟩ | ⟨found, value, changed, hfound, -, hreply, hsucceeds,
    hafter⟩
  · exact Or.inl ⟨failure, hreply, hafter⟩
  · obtain rfl : found = transaction := Option.some.inj (hfound.symm.trans howns.at_index)
    refine Or.inr ⟨value, changed, hreply, hsucceeds, ?_⟩
    obtain ⟨hindex, -⟩ := List.getElem?_eq_some_iff.mp hfound
    rw [hafter]
    exact List.getElem?_set_self hindex

/-! ### Computations of the gateway -/

/-- How a computation of the gateway that raised leaves the execution: given up, unless its commit
failed. -/
structure Abandoned (world : World C K) (thread index : ℕ) (record : ExecutionRecord C K)
    (failure : Failure) : Prop where
  knows : world.Knows record
  outcome : record.execution.commitOutcome = none
  gaveUp : world.GaveUp thread record ∨ failure = .commitUncertain
  owned : ∃ transaction, world.target[index]? = some transaction ∧ transaction.thread = thread

/-- The end condition of a computation of the gateway, from what holds when it returns. -/
def GatewayPost {α : Type} (thread index : ℕ)
    (returns : Coordinator.MigrationSession C K → α → World C K → Prop) :
    Except Failure (Coordinator.MigrationSession C K × Except Failure α) → World C K → Prop
  | .ok (kept, .ok value), after => returns kept value after
  | .ok (kept, .error failure), after => Abandoned after thread index kept.record failure
  | .error _, _ => False

theorem World.InSession.abandoned
    (h : world.InSession thread index plan record transaction) (failure : Failure) :
    Abandoned world thread index record failure :=
  ⟨h.knows, h.outcome, Or.inl h.gaveUp, transaction, h.owns.at_index, h.owns.thread_eq⟩

namespace Discipline

section Calls

variable {rules : ContentRules C} {limit : ℕ} {fingerprint : K → String}
  (D : Discipline rules limit fingerprint) {thread index : ℕ}

/-- Sequencing of computations of the gateway. Assumes: the first is safe, and what follows is safe
when it returns. -/
theorem safe_gatewayBind {α β : Type} {computation : Coordinator.GatewayStep C K α}
    {f : α → Coordinator.GatewayStep C K β}
    {returns : Coordinator.MigrationSession C K → β → World C K → Prop}
    (h : Safe D.logic thread (computation session) world
      (GatewayPost thread index fun kept value after ↦
        Safe D.logic thread (f value kept) after (GatewayPost thread index returns))) :
    Safe D.logic thread ((computation >>= f) session) world
      (GatewayPost thread index returns) := by
  refine Safe.keeping_bind (h.mono fun outcome after hpost ↦ ?_)
  rcases outcome with failure | ⟨kept, failure | value⟩
  · exact hpost
  · exact hpost
  · exact hpost

/-- A call of the gateway. Assumes: the call is safe, with the end condition on both ways it is
answered. -/
theorem safe_gatewayCall {α : Type} {program : Prog C K (Except Failure α)}
    {returns : Coordinator.MigrationSession C K → α → World C K → Prop}
    (h : Safe D.logic thread program world fun outcome after ↦
      match outcome with
      | .ok (.ok value) => returns session value after
      | .ok (.error failure) => Abandoned after thread index session.record failure
      | .error _ => False) :
    Safe D.logic thread (Coordinator.gatewayCall program session) world
      (GatewayPost thread index returns) := by
  refine Safe.bind (h.mono fun outcome after hpost ↦ ?_)
  rcases outcome with failure | failure | value
  · exact hpost
  · exact hpost
  · exact hpost

/-- A call on an own transaction. Assumes: a session, and what follows from the answer of the call,
from the session as the call found it. -/
theorem safe_own {request : MigrationCall C K}
    {post : Except Failure request.Reply → World C K → Prop}
    (hsession : world.InSession thread index plan record transaction)
    (hlicensed : ∀ before transaction, before.target[index]? = some transaction →
      transaction.thread = thread → Licensed fingerprint D.fact thread before request)
    (hpost : ∀ (before : World C K) (found : TargetTransaction K) (reply : request.Reply)
      (after : World C K), before.InSession thread index plan record found →
        transaction.Later thread found → perform rules limit thread request before reply after →
          WorldGrowth before after → D.logic.inv after → post (.ok reply) after) :
    Safe D.logic thread (ask request) world post := by
  refine D.safe_call fun before hrely hinv ↦ ?_
  obtain ⟨found, hfound, hlater⟩ := hsession.quiet (D.rely_le hrely).quiet
  refine ⟨hlicensed before found hfound.owns.at_index hfound.owns.thread_eq, ?_⟩
  intro reply after hperform hinvAfter hgrowth
  exact hpost before found reply after hfound hlater (D.perform_le hperform) hgrowth hinvAfter

/-- A statement in an own transaction, and what follows it. Assumes: a session, a call that is a
statement in its transaction, which keeps the transaction's name where the record holds it, and that
what follows is safe from the session as the statement leaves it. -/
theorem safe_gatewayStatement {α β : Type} (request : MigrationCall C K)
    (answer : request.Reply → Except Failure α)
    (succeeds : World C K → TargetTransaction K → α → TargetTransaction K → Prop)
    {f : α → Coordinator.GatewayStep C K β}
    {returns : Coordinator.MigrationSession C K → β → World C K → Prop}
    (hsession : world.InSession thread index plan session.record transaction)
    (hlicensed : ∀ before transaction, before.target[index]? = some transaction →
      transaction.thread = thread → Licensed fingerprint D.fact thread before request)
    (hrequest : ∀ before reply after, perform rules limit thread request before reply after →
      InTransaction index before (answer reply) after (succeeds before))
    (hkeeps : ∀ before found value changed, succeeds before found value changed →
      changed.thread = found.thread ∧ changed.execution = found.execution ∧
      changed.identity = found.identity ∧ changed.phase = found.phase ∧
      (session.record.Holds found → changed.transactionId = found.transactionId))
    (hnext : ∀ value before after found changed, transaction.Later thread found →
      succeeds before found value changed →
        after.InSession thread index plan session.record changed →
          Safe D.logic thread (f value session) after (GatewayPost thread index returns)) :
    Safe D.logic thread
      ((Coordinator.gatewayCall (ask request >>= fun reply ↦ .done (answer reply)) >>= f) session)
      world (GatewayPost thread index returns) := by
  refine D.safe_gatewayBind (D.safe_gatewayCall (Safe.bind (D.safe_own hsession hlicensed ?_)))
  intro before found reply after hfound hlater hperform hgrowth _
  rcases (hrequest before reply after hperform).owned hfound.owns with
    ⟨failure, hreply, rfl⟩ | ⟨value, changed, hreply, hsucceeds, hat⟩
  · simp only [Safe, hreply]
    exact hfound.abandoned failure
  · obtain ⟨hthread, hexecution, hidentity, hphase, hname⟩ :=
      hkeeps before found value changed hsucceeds
    simp only [Safe, hreply]
    exact hnext value before after found changed hlater hsucceeds
      (hfound.change hgrowth hat hthread hexecution hidentity hphase hname)

end Calls

section Apply

variable {rules : ContentRules C} {limit : ℕ} {coordinator : Coordinator C K}
  (D : Discipline rules limit coordinator.planner.catalogFingerprint) {thread index : ℕ}

/-! ### The callbacks -/

/-- Assumes: a session whose record was transitioned without an outcome, and holds the transaction
then. The session goes on with the new record. -/
theorem inSession_of_transitioned {next : ExecutionRecord C K} {status : ExecutionStatus}
    {changes : ExecutionChanges C K}
    (hsession : world.InSession thread index plan record transaction)
    (hrecord : world.record? next.key = some next)
    (htransitioned : Transitioned record status changes next)
    (houtcome : changes.commitOutcome = none) (hholds : next.Holds transaction) :
    world.InSession thread index plan next transaction := by
  refine ⟨.of_record hrecord, ?_, ?_, ?_, ?_, Or.inr hholds⟩
  · obtain ⟨stored, hstored, hsame⟩ := hsession.knowsPlan
    exact ⟨stored, by rw [htransitioned.ownerId, htransitioned.planId]; exact hstored, hsame⟩
  · exact hsession.workspace.trans htransitioned.workspaceId.symm
  · rw [htransitioned.key]
    exact hsession.owns
  · rw [htransitioned.commitOutcome, houtcome]
    exact hsession.outcome

variable (hsession : world.InSession thread index plan session.record transaction)

include hsession in
/-- `on_started`. Assumes: a session with a reserved record, and the name and the target of its
transaction. The record holds the transaction when it returns. -/
theorem safe_onStarted {transactionId : String}
    (hid : transaction.transactionId = some transactionId) (hne : transactionId ≠ "")
    (hstatus : session.record.execution.status = .reserved)
    (hintended : session.record.intendedResult = none) :
    Safe D.logic thread (coordinator.onStarted transactionId transaction.identity session) world
      (GatewayPost thread index fun kept _ after ↦
        (∃ later, after.InSession thread index plan kept.record later) ∧
          kept.record.execution.status = .applying ∧
          kept.record.execution.transactionId = some transactionId ∧
          kept.record.targetIdentity = some transaction.identity ∧
          kept.record.intendedResult = none) := by
  refine Safe.bind (Safe.attempt (D.safe_transitionExecution ?_ ?_ ?_))
  · intro before hquiet _
    obtain ⟨found, hfound, hlater⟩ := hsession.quiet hquiet
    refine ⟨hfound.knows, .start _ index found transactionId hfound.owns.at_index
      hfound.owns.thread_eq hfound.owns.execution (hlater.transactionId _ hid) hne hstatus ?_⟩
    rw [hlater.identity]
  · intro next after hquiet _ hrecord htransitioned
    obtain ⟨found, hfound, hlater⟩ := hsession.quiet hquiet
    have hnext : next.execution.transactionId = some transactionId := htransitioned.transactionId
    have hfoundId := hlater.transactionId _ hid
    have hholds : next.Holds found :=
      ⟨by rw [hfoundId]; exact Option.some_ne_none _, hnext.trans hfoundId.symm,
        htransitioned.targetIdentity.trans (by rw [hlater.identity]; rfl)⟩
    exact ⟨⟨found, inSession_of_transitioned hfound hrecord htransitioned rfl hholds⟩,
      htransitioned.status, hnext, htransitioned.targetIdentity,
      htransitioned.intendedResult.trans hintended⟩
  · intro failure after hquiet _
    obtain ⟨found, hfound, -⟩ := hsession.quiet hquiet
    exact hfound.abandoned failure

/-- The statements of a plan. Assumes: a session. It goes on with the same record when they
return. -/
theorem safe_executeStatements (statements : List String)
    (hsession : world.InSession thread index plan session.record transaction) :
    Safe D.logic thread (Coordinator.executeStatements index statements session) world
      (GatewayPost thread index fun kept _ after ↦ kept.record = session.record ∧
        ∃ later, after.InSession thread index plan kept.record later) := by
  induction statements generalizing session transaction world with
  | nil => exact ⟨rfl, transaction, hsession⟩
  | cons statement rest ih =>
    unfold Coordinator.executeStatements
    split_ifs with hblank
    · exact hsession.abandoned _
    · refine D.safe_gatewayStatement (.executeStatement index statement) (fun reply ↦ reply)
        (fun _ found _ changed ↦ changed = { found with catalog := none }) hsession
        (fun _ found hat hthread ↦ ⟨found, hat, hthread⟩) (fun _ _ _ h ↦ h) ?_ ?_
      · rintro before found value changed rfl
        exact ⟨rfl, rfl, rfl, rfl, fun _ ↦ rfl⟩
      · intro value before after found changed _ _ hchanged
        exact D.safe_gatewayBind (ih hchanged)

/-- Assumes: a result that `on_intended` records. It has the catalog that was inspected. -/
theorem intendedResult_catalog {catalog : K}
    {intended : IntendedResult C K} (h : coordinator.intendedResult plan catalog = .ok intended) :
    intended.catalog = catalog := by
  unfold Coordinator.intendedResult at h
  dsimp only at h
  split_ifs at h
  rw [← Except.ok.inj h]

/-- What the evidence of a session is once both callbacks returned: the stored record holds the
transaction with the catalog it shows, and is not given up. -/
structure Evidenced (world : World C K) (thread index : ℕ) (plan : PlanRecord C K)
    (session : Coordinator.MigrationSession C K) (transaction : TargetTransaction K) : Prop where
  inSession : world.InSession thread index plan session.record transaction
  stored : world.record? session.record.key = some session.record
  holds : session.record.Holds transaction
  intended : session.intended = session.record.intendedResult
  result : ∃ result, session.record.intendedResult = some result ∧
    transaction.catalog = some result.catalog
  alive : ¬ session.record.Dead

include hsession in
/-- `on_intended`. Assumes: a session with a started record and the catalog its transaction shows.
The evidence is complete when it returns. -/
theorem safe_onIntended {catalog : K}
    (hholds : session.record.Holds transaction)
    (hstatus : session.record.execution.status = .applying)
    (hfirst : session.record.intendedResult = none)
    (hcatalog : transaction.catalog = some catalog) :
    Safe D.logic thread (coordinator.onIntended plan catalog session) world
      (GatewayPost thread index fun kept _ after ↦
        (∃ later, Evidenced after thread index plan kept later) ∧
          kept.record.execution.transactionId = session.record.execution.transactionId ∧
          kept.record.targetIdentity = session.record.targetIdentity) := by
  unfold Coordinator.onIntended
  cases hresult : coordinator.intendedResult plan catalog with
  | error failure => exact hsession.abandoned failure
  | ok intended =>
    have hsame := intendedResult_catalog hresult
    refine Safe.bind (Safe.attempt (D.safe_transitionExecution ?_ ?_ ?_))
    · intro before hquiet _
      obtain ⟨found, hfound, hlater⟩ := hsession.quiet hquiet
      have hshown := (hlater.own hsession.owns.thread_eq).2.1
      exact ⟨hfound.knows, .intend _ index found intended plan.plan.steps.length
        hfound.owns.at_index hfound.owns.thread_eq hfound.owns.execution (hholds.of_later hlater)
        (by rw [hshown, hcatalog, hsame]) hstatus hfirst rfl⟩
    · intro next after hquiet _ hrecord htransitioned
      obtain ⟨found, hfound, hlater⟩ := hsession.quiet hquiet
      have hshown := (hlater.own hsession.owns.thread_eq).2.1
      have hholdsFound := hholds.of_later hlater
      have hholdsNext : next.Holds found :=
        ⟨hholdsFound.named, htransitioned.transactionId.trans hholdsFound.transactionId,
          htransitioned.targetIdentity.trans hholdsFound.targetIdentity⟩
      refine ⟨⟨found, ?_⟩, htransitioned.transactionId, htransitioned.targetIdentity⟩
      exact
        { inSession := inSession_of_transitioned hfound hrecord htransitioned rfl hholdsNext
          stored := hrecord
          holds := hholdsNext
          intended := htransitioned.intendedResult.symm
          result := ⟨intended, htransitioned.intendedResult, by rw [hshown, hcatalog, hsame]⟩
          alive := by
            have houtcome : next.execution.commitOutcome = none :=
              htransitioned.commitOutcome.trans hsession.outcome
            rintro (hfailed | hrolledBack)
            · rw [htransitioned.status] at hfailed
              exact nomatch hfailed
            · rw [houtcome] at hrolledBack
              exact nomatch hrolledBack }
    · intro failure after hquiet _
      obtain ⟨found, hfound, -⟩ := hsession.quiet hquiet
      exact hfound.abandoned failure

/-! ### The commit -/

variable {before after : World C K}

/-- Assumes: complete evidence, and a world the worker relies on. A transaction that is still running
is ready to be committed. -/
theorem Evidenced.ready {found : TargetTransaction K}
    (h : Evidenced before thread index plan session transaction)
    (hrely : WorldRely thread before after) (hat : after.target[index]? = some found)
    (hrunning : found.phase = .running) : after.Ready found := by
  obtain ⟨later, hlater, hkept⟩ :=
    hrely.quiet.transactions index transaction h.inSession.owns.at_index
  obtain rfl : later = found := Option.some.inj (hlater.symm.trans hat)
  have hkey := h.inSession.owns.execution
  obtain ⟨current, hcurrent, hrecord⟩ := hrely.quiet.growth.executions _ _ h.stored
  obtain ⟨result, hresult, hcatalog⟩ := h.result
  refine ⟨current, ?_, (hrecord.holds h.holds).of_later hkept,
    ⟨result, hrecord.intended result hresult, ?_⟩, ?_⟩
  · rw [hkept.execution, hkey]
    exact hcurrent
  · rw [(hkept.own h.inSession.owns.thread_eq).2.1]
    exact hcatalog
  · exact hrely.alive index transaction later session.record current h.inSession.owns.at_index
      h.inSession.owns.thread_eq hat hrunning (by rw [hkey]; exact h.stored) h.holds h.alive
      (by rw [hkey]; exact hcurrent)

/-- What the worker knows when the gateway returned: its transaction is committed, and the record it
wrote holds it. -/
structure Applied (world : World C K) (plan : PlanRecord C K)
    (session : Coordinator.MigrationSession C K) : Prop where
  knows : world.Knows session.record
  knowsPlan : world.KnowsPlan session.record plan
  workspace : plan.plan.workspaceId = session.record.execution.workspaceId
  outcome : session.record.execution.commitOutcome = none
  intended : session.intended = session.record.intendedResult
  committed : world.Committed session.record

theorem safe_commitTransaction (h : Evidenced world thread index plan session transaction) :
    Safe D.logic thread (Coordinator.commitTransaction index session) world
      (GatewayPost thread index fun kept _ after ↦ Applied after plan kept ∧
        kept.record = session.record ∧
        ∃ transaction, after.target[index]? = some transaction ∧ transaction.thread = thread) := by
  refine Safe.bind (D.safe_call fun before hrely hinv ↦ ?_)
  have hworld := D.rely_le hrely
  obtain ⟨found, hfound, hlater⟩ := h.inSession.quiet hworld.quiet
  have hat := hfound.owns.at_index
  obtain ⟨hindex, -⟩ := List.getElem?_eq_some_iff.mp hat
  refine ⟨⟨found, hat, hfound.owns.thread_eq, h.ready hworld hat⟩, ?_⟩
  intro reply after hperform hinvAfter hgrowth
  have hknows := hfound.knows.growth hgrowth
  -- Whatever the commit did, the transaction is still the worker's own.
  have howned : ∀ phase, after = before.setTransaction index { found with phase := phase } →
      after.target[index]? = some { found with phase := phase } := by
    rintro phase rfl
    exact List.getElem?_set_self hindex
  rcases D.perform_le hperform with
    (⟨failure, -, rfl, rfl⟩ | ⟨committed, value, changed, hcommitted, -, rfl, rfl, hafter⟩) |
      ⟨committed, phase, failure, hcommitted, -, rfl, hafter⟩
  · exact ⟨hknows, hfound.outcome, Or.inr rfl, found, hat, hfound.owns.thread_eq⟩
  · obtain rfl : committed = found := Option.some.inj (hcommitted.symm.trans hat)
    have hset := howned _ hafter
    refine ⟨⟨hknows, hfound.knowsPlan.growth hfound.knows hgrowth, hfound.workspace,
      hfound.outcome, h.intended, index, _, hset, hfound.owns.execution, ?_, rfl⟩, rfl, _, hset,
      hfound.owns.thread_eq⟩
    have hholds := h.holds.of_later hlater
    exact ⟨hholds.named, hholds.transactionId, hholds.targetIdentity⟩
  · obtain rfl : committed = found := Option.some.inj (hcommitted.symm.trans hat)
    exact ⟨hknows, hfound.outcome, Or.inr rfl, _, howned phase hafter, hfound.owns.thread_eq⟩

include hsession in
/-- The body of `execute_migration` from `on_started` on. Assumes: a session with a reserved record,
and the name and the target of its transaction. -/
theorem safe_startedMigration {transactionId : String}
    (hname : transaction.transactionId = some transactionId) (hne : transactionId ≠ "")
    (hstatus : session.record.execution.status = .reserved)
    (hintended : session.record.intendedResult = none) :
    Safe D.logic thread ((do
        coordinator.onStarted transactionId transaction.identity
        Coordinator.executeStatements index (plan.plan.steps.map MigrationStep.sql)
        let result ← Coordinator.gatewayCall
          (ask (.introspect index plan.authority.targetNamespace))
        coordinator.onIntended plan result
        Coordinator.commitTransaction index
        let session ← Program.Keeping.read
        pure ⟨result, transactionId, transaction.identity, session.completed⟩ :
          Coordinator.GatewayStep C K (Coordinator.MigrationResult K)) session) world
      (GatewayPost thread index fun kept result after ↦ Applied after plan kept ∧
        kept.record.execution.transactionId = some result.transactionId ∧
        kept.record.targetIdentity = some result.targetIdentity ∧
        ∃ transaction, after.target[index]? = some transaction ∧ transaction.thread = thread) := by
  refine D.safe_gatewayBind ((D.safe_onStarted hsession hname hne hstatus hintended).mono ?_)
  rintro (failure | ⟨kept, failure | value⟩) first hpost
  · exact hpost
  · exact hpost
  obtain ⟨⟨started, hstarted⟩, happlying, hid, htarget, hfirst⟩ := hpost
  refine D.safe_gatewayBind ((D.safe_executeStatements _ hstarted).mono ?_)
  rintro (failure | ⟨executed, failure | value⟩) second hpost
  · exact hpost
  · exact hpost
  obtain ⟨hrecord, later, hlater⟩ := hpost
  rw [← hrecord] at happlying hid htarget hfirst
  -- The catalog that is recorded is the one the transaction shows after its last statement.
  refine D.safe_gatewayStatement (.introspect index _) (fun reply ↦ reply)
    (fun _ found catalog changed ↦ changed = { found with catalog := some catalog }) hlater
    (fun _ found hat hthread ↦ ⟨found, hat, hthread⟩) (fun _ _ _ h ↦ h) ?_ ?_
  · rintro before found value changed rfl
    exact ⟨rfl, rfl, rfl, rfl, fun _ ↦ rfl⟩
  rintro result before third found changed - rfl hshown
  have hholds : executed.record.Holds { found with catalog := some result } :=
    hshown.evidence.resolve_left (by rw [hid]; exact Option.some_ne_none _)
  refine D.safe_gatewayBind ((D.safe_onIntended hshown hholds happlying hfirst rfl).mono ?_)
  rintro (failure | ⟨evidenced, failure | value⟩) fourth hpost
  · exact hpost
  · exact hpost
  obtain ⟨⟨ready, hready⟩, hidKept, htargetKept⟩ := hpost
  refine D.safe_gatewayBind ((D.safe_commitTransaction hready).mono ?_)
  rintro (failure | ⟨committed, failure | value⟩) fifth hpost
  · exact hpost
  · exact hpost
  obtain ⟨happlied, hsame, howned⟩ := hpost
  refine ⟨happlied, ?_, ?_, howned⟩
  · rw [hsame, hidKept, hid]
  · rw [hsame, htargetKept, htarget]

include hsession in
/-- The body of `execute_migration`. Assumes: a session with a reserved record. -/
theorem safe_applyMigration {conversionTables : List String}
    (hstatus : session.record.execution.status = .reserved)
    (hunnamed : session.record.execution.transactionId = none)
    (hintended : session.record.intendedResult = none) :
    Safe D.logic thread (coordinator.applyMigration plan conversionTables index session) world
      (GatewayPost thread index fun kept result after ↦ Applied after plan kept ∧
        kept.record.execution.transactionId = some result.transactionId ∧
        kept.record.targetIdentity = some result.targetIdentity ∧
        ∃ transaction, after.target[index]? = some transaction ∧ transaction.thread = thread) := by
  have hnever : ∀ found : TargetTransaction K, ¬ session.record.Holds found := by
    intro found hholds
    exact hholds.named (hholds.transactionId.symm.trans hunnamed)
  have hown : ∀ (before : World C K) (found : TargetTransaction K),
      before.target[index]? = some found → found.thread = thread →
        ∃ transaction, before.target[index]? = some transaction ∧ transaction.thread = thread :=
    fun _ found hat hthread ↦ ⟨found, hat, hthread⟩
  have hsame : ∀ (before : World C K) (found : TargetTransaction K) (value : Unit)
      (changed : TargetTransaction K), changed = found →
        changed.thread = found.thread ∧ changed.execution = found.execution ∧
        changed.identity = found.identity ∧ changed.phase = found.phase ∧
        (session.record.Holds found → changed.transactionId = found.transactionId) := by
    rintro before found value changed rfl
    exact ⟨rfl, rfl, rfl, rfl, fun _ ↦ rfl⟩
  unfold Coordinator.applyMigration
  -- The target is locked and inspected before anything is changed.
  refine D.safe_gatewayStatement (.lockTarget index _ _ _) (fun reply ↦ reply)
    (fun _ found _ changed ↦ changed = found) hsession hown (fun _ _ _ h ↦ h) hsame ?_
  intro value before first found locked _ _ hlocked
  refine D.safe_gatewayStatement (.introspect index _) (fun reply ↦ reply)
    (fun _ found catalog changed ↦ changed = { found with catalog := some catalog }) hlocked hown
    (fun _ _ _ h ↦ h) ?_ ?_
  · rintro before found value changed rfl
    exact ⟨rfl, rfl, rfl, rfl, fun _ ↦ rfl⟩
  intro live before second found inspected _ _ hinspected
  by_cases hstale : coordinator.planner.catalogFingerprint live ≠
      coordinator.planner.catalogFingerprint plan.authority.liveCatalog
  · simp only [if_pos hstale]
    exact hinspected.abandoned _
  simp only [if_neg hstale]
  refine D.safe_gatewayStatement (.tableEmptiness index _ _) (fun reply ↦ reply)
    (fun _ found _ changed ↦ changed = found) hinspected hown (fun _ _ _ h ↦ h) ?_ ?_
  · rintro before found value changed rfl
    exact ⟨rfl, rfl, rfl, rfl, fun _ ↦ rfl⟩
  intro emptiness before third found counted _ _ hcounted
  split_ifs with hnonempty
  · exact hcounted.abandoned _
  -- The evidence of the transaction is read in the transaction itself.
  refine D.safe_gatewayStatement (.targetIdentity index) (fun reply ↦ reply)
    (fun _ found identity changed ↦ identity = found.identity ∧ changed = found) hcounted hown
    (fun _ _ _ h ↦ h) ?_ ?_
  · rintro before found value changed ⟨-, rfl⟩
    exact ⟨rfl, rfl, rfl, rfl, fun _ ↦ rfl⟩
  rintro identity before fourth found identified - ⟨rfl, rfl⟩ hidentified
  refine D.safe_gatewayStatement (.currentTransactionId index) (fun reply ↦ reply)
    (fun before found transactionId changed ↦
      changed = { found with transactionId := some transactionId } ∧
        (found.transactionId = some transactionId ∨
          found.transactionId = none ∧ ∀ other ∈ before.target,
            other.identity = found.identity → other.transactionId ≠ some transactionId))
    hidentified hown (fun _ _ _ h ↦ h) ?_ ?_
  · rintro before found value changed ⟨rfl, -⟩
    exact ⟨rfl, rfl, rfl, rfl, fun hholds ↦ (hnever found hholds).elim⟩
  rintro transactionId before fifth named changed hnamed ⟨rfl, -⟩ hstartable
  split_ifs with hblank
  · exact hstartable.abandoned _
  rw [← hnamed.identity]
  have hstarted := D.safe_startedMigration hstartable rfl hblank hstatus hintended
  exact hstarted

/-! ### The handlers of the worker -/

/-- Assumes: a known execution that was given up. Cleaning up a transaction keeps it so. -/
theorem gaveUp_cleanup (h : before.GaveUp thread record)
    (hperform : perform rules limit thread (.cleanup index) before () after) :
    after.GaveUp thread record := by
  rcases hperform with rfl | ⟨transaction, hat, hrunning, rfl⟩
  · exact h
  rcases h with hnone | ⟨held, found, hfound, hexecution, hholds, hphase⟩
  · exact Or.inl hnone
  obtain ⟨hindex, -⟩ := List.getElem?_eq_some_iff.mp hat
  by_cases hsame : held = index
  · subst hsame
    obtain rfl : found = transaction := Option.some.inj (hfound.symm.trans hat)
    exact Or.inr ⟨held, _, List.getElem?_set_self hindex, hexecution,
      ⟨hholds.named, hholds.transactionId, hholds.targetIdentity⟩, Or.inl rfl⟩
  · refine Or.inr ⟨held, found, ?_, hexecution, hholds, hphase⟩
    exact (List.getElem?_set_ne (Ne.symm hsame)).trans hfound

theorem committed_cleanup (h : before.Committed record)
    (hperform : perform rules limit thread (.cleanup index) before () after) :
    after.Committed record := by
  rcases hperform with rfl | ⟨transaction, hat, hrunning, rfl⟩
  · exact h
  obtain ⟨held, found, hfound, hexecution, hholds, hphase⟩ := h
  refine ⟨held, found, ?_, hexecution, hholds, hphase⟩
  have hne : index ≠ held := by
    rintro rfl
    obtain rfl : found = transaction := Option.some.inj (hfound.symm.trans hat)
    rw [hrunning] at hphase
    exact nomatch hphase
  exact (List.getElem?_set_ne hne).trans hfound

/-- How the gateway leaves an execution when it raised: the worker knows the record, and it was
given up unless the exception is that of the commit. -/
structure Failed (world : World C K) (thread : ℕ) (record : ExecutionRecord C K)
    (failure : Failure) : Prop where
  knows : world.Knows record
  outcome : record.execution.commitOutcome = none
  gaveUp : world.GaveUp thread record ∨ failure = .commitUncertain

/-- `execute_migration`. Assumes: a known record that is reserved, with its plan. -/
theorem safe_executeMigration {connection : Connection} {conversionTables : List String}
    (hknows : world.Knows session.record) (hplan : world.KnowsPlan session.record plan)
    (hworkspace : plan.plan.workspaceId = session.record.execution.workspaceId)
    (hstatus : session.record.execution.status = .reserved)
    (hunnamed : session.record.execution.transactionId = none)
    (hintended : session.record.intendedResult = none)
    (houtcome : session.record.execution.commitOutcome = none) :
    Safe D.logic thread (coordinator.executeMigration plan connection conversionTables session)
      world fun outcome after ↦
        match outcome with
        | .ok (kept, .ok result) => Applied after plan kept ∧
            kept.record.execution.transactionId = some result.transactionId ∧
            kept.record.targetIdentity = some result.targetIdentity
        | .ok (kept, .error failure) => Failed after thread kept.record failure
        | .error _ => False := by
  refine Safe.bind (D.safe_call fun before hrely _ ↦ ⟨trivial, fun reply after hperform _ hgrowth ↦ ?_⟩)
  have hquiet := (D.rely_le hrely).quiet
  have hgrown := hquiet.growth.trans hgrowth
  cases reply with
  | error failure => exact ⟨hknows.growth hgrown, houtcome, Or.inl (Or.inl hunnamed)⟩
  | ok index =>
    rcases D.perform_le hperform with ⟨failure, -, hreply, -⟩ | ⟨identity, hreply, hafter⟩
    · exact nomatch hreply
    obtain rfl : index = before.target.length := Except.ok.inj hreply
    have hat : after.target[before.target.length]? =
        some ⟨thread, session.record.key, identity, none, .running, none⟩ := by
      rw [hafter]
      exact List.getElem?_concat_length
    have hsession : after.InSession thread before.target.length plan session.record
        ⟨thread, session.record.key, identity, none, .running, none⟩ :=
      ⟨hknows.growth hgrown, hplan.growth hknows hgrown, hworkspace,
        ⟨hat, rfl, rfl, Or.inl rfl⟩, houtcome, Or.inl hunnamed⟩
    refine Safe.bind ((D.safe_applyMigration hsession hstatus hunnamed hintended).mono ?_)
    rintro (failure | ⟨kept, failure | result⟩) applied hpost
    · exact hpost.elim
    · refine Safe.bind (D.safe_call fun cleaned hrely _ ↦ ?_)
      have hquiet := (D.rely_le hrely).quiet
      obtain ⟨transaction, htransaction, hthread⟩ := hpost.owned
      obtain ⟨later, hlater, hkept⟩ := hquiet.transactions _ transaction htransaction
      refine ⟨⟨later, hlater, hkept.thread_eq.trans hthread⟩, fun reply last hperform _ hgrowth ↦ ?_⟩
      refine ⟨hpost.knows.growth (hquiet.growth.trans hgrowth), hpost.outcome, ?_⟩
      rcases hpost.gaveUp with hgaveUp | rfl
      · exact Or.inl (gaveUp_cleanup (hgaveUp.quiet hquiet) (D.perform_le hperform))
      · exact Or.inr rfl
    · obtain ⟨happlied, hid, htarget, transaction, htransaction, hthread⟩ := hpost
      refine Safe.bind (D.safe_call fun cleaned hrely _ ↦ ?_)
      have hquiet := (D.rely_le hrely).quiet
      obtain ⟨later, hlater, hkept⟩ := hquiet.transactions _ transaction htransaction
      refine ⟨⟨later, hlater, hkept.thread_eq.trans hthread⟩, fun reply last hperform _ hgrowth ↦ ?_⟩
      have hgrown := hquiet.growth.trans hgrowth
      refine ⟨⟨happlied.knows.growth hgrown, happlied.knowsPlan.growth happlied.knows hgrown,
        happlied.workspace, happlied.outcome, happlied.intended, ?_⟩, hid, htarget⟩
      exact committed_cleanup (happlied.committed.quiet hquiet) (D.perform_le hperform)

/-- A record that is failed before the exception is raised again. Assumes: a known record that was
given up. -/
theorem safe_failThenRaise {code : String}
    {detail : Option (Option (List (String × Json)))} {completed : Option ℕ} {raised : Failure}
    (hknows : world.Knows record) (hgaveUp : world.GaveUp thread record) :
    Safe D.logic thread ((do
        let _ ← coordinator.failExecution record code detail completed false
        .raise raised) : Prog C K MigrationExecution) world fun _ _ ↦ True := by
  refine Safe.bind (D.safe_failExecution hknows hgaveUp fun outcome after ↦ ?_)
  cases outcome <;> trivial

/-- The exception handlers of `_execute_claimed`. Assumes: an execution the gateway failed. -/
theorem safe_handleApplyFailure {failure : Failure} (h : Failed world thread record failure) :
    Safe D.logic thread (coordinator.handleApplyFailure plan record failure) world
      fun _ _ ↦ True := by
  by_cases huncertain : failure = .commitUncertain
  · subst huncertain
    have hopen : record.execution.commitOutcome ≠ some .committed := by
      rw [h.outcome]
      exact fun hnone ↦ nomatch hnone
    exact D.safe_leaveUncertain h.knows (Or.inl rfl) (fun happlying ↦ nomatch happlying) hopen
  have hgaveUp := h.gaveUp.resolve_right huncertain
  cases failure with
  | migrationStale fingerprint => exact D.safe_failThenRaise h.knows hgaveUp
  | migrationPrecondition tables => exact D.safe_failThenRaise h.knows hgaveUp
  | commitUncertain => exact absurd rfl huncertain
  | connectionCapacity limitName limit observed => exact D.safe_failThenRaise h.knows hgaveUp
  | connectionNotFound message => exact D.safe_failThenRaise h.knows hgaveUp
  | gateway code message sqlstate => exact D.safe_failThenRaise h.knows hgaveUp
  | migrationExecution completed sqlstate cause =>
    cases cause with
    | service status code message details retryable =>
      simp only [Coordinator.handleApplyFailure]
      split_ifs
      · exact D.safe_failThenRaise h.knows hgaveUp
      · trivial
    | _ => exact D.safe_failThenRaise h.knows hgaveUp
  | _ => trivial

/-- Recording a confirmed commit. Assumes: an applied plan, with the evidence the gateway
returned. -/
theorem safe_finishCommitted {result : Coordinator.MigrationResult K}
    (h : Applied world plan session)
    (hid : session.record.execution.transactionId = some result.transactionId)
    (htarget : session.record.targetIdentity = some result.targetIdentity) :
    Safe D.logic thread (coordinator.finishCommitted plan session result) world
      fun _ _ ↦ True := by
  refine Safe.bind (D.safe_transitionExecution
    (fun before hquiet _ ↦ ⟨h.knows.growth hquiet.growth, ?_⟩) ?_ fun failure after _ _ ↦ trivial)
  · refine .succeed _ ⟨hid.symm, htarget.symm, h.intended⟩ rfl rfl ?_ (h.committed.quiet hquiet)
    rw [h.outcome]
    exact fun hnone ↦ nomatch hnone
  · intro next after hquiet hinv hrecord htransitioned
    obtain ⟨intended, hintended⟩ := (D.inv_le hinv).intended_of_committed hrecord
      htransitioned.commitOutcome
    refine D.safe_syncCommitted (.of_record hrecord) ?_ htransitioned.ownerId
      (h.workspace.trans htransitioned.workspaceId.symm) htransitioned.commitOutcome hintended
    obtain ⟨stored, hstored, hsame⟩ := h.knowsPlan.growth h.knows hquiet.growth
    exact ⟨stored, by rw [htransitioned.ownerId, htransitioned.planId]; exact hstored, hsame⟩

/-! ### The programs -/

/-- What the worker knows of a reserved record it claimed. -/
structure Claimed (world : World C K) (record : ExecutionRecord C K) : Prop where
  knows : world.Knows record
  status : record.execution.status = .reserved
  unnamed : record.execution.transactionId = none
  unintended : record.intendedResult = none
  outcome : record.execution.commitOutcome = none

theorem Claimed.growth
    (h : Claimed before record) (hgrowth : WorldGrowth before after) : Claimed after record :=
  ⟨h.knows.growth hgrowth, h.status, h.unnamed, h.unintended, h.outcome⟩

/-- The part of `_execute_claimed` that uses the connection. Assumes: a claimed record with its
plan. -/
theorem safe_applyPlan (h : Claimed world record) (hplan : world.KnowsPlan record plan)
    (hworkspace : plan.plan.workspaceId = record.execution.workspaceId) :
    Safe D.logic thread (coordinator.applyPlan plan record) world fun _ _ ↦ True := by
  refine Safe.bind (D.safe_read trivial (fun _ ↦ trivial) fun reply first hfirst _ ↦ ?_)
  have hclaimed := h.growth hfirst.growth
  cases reply with
  | error failure =>
    exact D.safe_handleApplyFailure ⟨hclaimed.knows, h.outcome, Or.inl (Or.inl h.unnamed)⟩
  | ok connection =>
    dsimp only
    split_ifs with hchanged
    · exact D.safe_failBeforeApply hclaimed.knows (Or.inl h.unnamed)
    · refine Safe.bind ((D.safe_executeMigration hclaimed.knows
        (hplan.growth h.knows hfirst.growth) hworkspace h.status h.unnamed h.unintended
        h.outcome).mono ?_)
      rintro (failure | ⟨kept, failure | result⟩) after hpost
      · exact hpost.elim
      · exact D.safe_handleApplyFailure hpost
      · exact D.safe_finishCommitted hpost.1 hpost.2.1 hpost.2.2

/-- `_execute_claimed`. Assumes: a claimed record. -/
theorem safe_executeClaimed (h : Claimed world record) :
    Safe D.logic thread (coordinator.executeClaimed record) world fun _ _ ↦ True := by
  have hfail : ∀ (after : World C K) (code message : String) (status : ℕ)
      (details : List (String × Json)), Claimed after record →
        Safe D.logic thread (coordinator.failBeforeApply record code message status details :
          Prog C K MigrationExecution) after fun _ _ ↦ True :=
    fun _ _ _ _ _ hclaimed ↦ D.safe_failBeforeApply hclaimed.knows (Or.inl hclaimed.unnamed)
  refine Safe.bind (D.safe_planOf h.knows (fun plan first hfirst _ hplan hworkspace ↦ ?_)
    fun failure after _ ↦ trivial)
  have hfirstClaimed := h.growth hfirst.growth
  refine Safe.bind (D.safe_workspaceOf fun outcome second hsecond ↦ ?_)
  cases outcome with
  | error failure => trivial
  | ok workspace =>
    have hsecondClaimed := hfirstClaimed.growth hsecond.growth
    refine Safe.bind (D.safe_designOf fun outcome third hthird ↦ ?_)
    cases outcome with
    | error failure => trivial
    | ok design =>
      have hthirdClaimed := hsecondClaimed.growth hthird.growth
      have hplanThird := hplan.growth hfirstClaimed.knows (hsecond.trans hthird).growth
      dsimp only
      split
      · exact hfail _ _ _ _ _ hthirdClaimed
      split
      · exact hfail _ _ _ _ _ hthirdClaimed
      refine Safe.bind (D.safe_askOr (D.safe_read trivial (fun _ ↦ trivial)
        fun reply fourth hfourth _ ↦ ?_))
      cases reply with
      | error failure => trivial
      | ok baseline =>
        have hfourthClaimed := hthirdClaimed.growth hfourth.growth
        dsimp only
        split
        · exact hfail _ _ _ _ _ hfourthClaimed
        refine Safe.bind (D.safe_read trivial (fun _ ↦ trivial) fun supported fifth hfifth _ ↦ ?_)
        have hfifthClaimed := hfourthClaimed.growth hfifth.growth
        dsimp only
        split_ifs with hsupported
        · exact D.safe_applyPlan hfifthClaimed
            (hplanThird.growth hthirdClaimed.knows (hfourth.trans hfifth).growth) hworkspace
        · exact hfail _ _ _ _ _ hfifthClaimed

/-- What a kind of work says about the record it is offered for. -/
def OfferedBy (record : ExecutionRecord C K) : ExecutionWorkKind → Prop
  | .execute => record.execution.status = .reserved
  | .reconcile => record.execution.status = .applying
  | .sync => record.execution.commitOutcome = some .committed

/-- What a worker knows of a unit of work it claimed: a leased record of the repository that offers
the work. -/
structure ClaimedWork (world : World C K) (work : ExecutionWork C K) : Prop where
  stored : world.record? work.record.key = some work.record
  leased : work.record.leaseOwner ≠ none
  offered : OfferedBy work.record work.kind

theorem offeredBy_of_eligible {claimedAt priority : ℕ} {kind : ExecutionWorkKind}
    (h : MigrationRepository.eligibleWork claimedAt record = some (priority, kind)) :
    OfferedBy record kind := by
  unfold MigrationRepository.eligibleWork at h
  dsimp only at h
  split_ifs at h with hleased happlying hreserved hsucceeded
  · obtain ⟨-, rfl⟩ := Prod.mk.inj (Option.some.inj h)
    exact happlying
  · obtain ⟨-, rfl⟩ := Prod.mk.inj (Option.some.inj h)
    exact hreserved
  · obtain ⟨-, rfl⟩ := Prod.mk.inj (Option.some.inj h)
    exact hsucceeded.2.1

variable {work : ExecutionWork C K}

theorem claimedWork_of_perform {claimedAt leaseExpiresAt : ℕ} {leaseOwner : String}
    (hperform : perform rules limit thread (.claimNextExecution claimedAt leaseOwner leaseExpiresAt)
      before (.ok (some work)) after) : ClaimedWork after work := by
  rcases hperform with ⟨hreply, hafter⟩ | ⟨failure, -, hreply, -⟩
  · rcases before.repository.claimNextExecution_cases claimedAt leaseOwner leaseExpiresAt with
      houtcome | ⟨key, priority, kind, current, hlookup, heligible, houtcome⟩
    · rw [houtcome] at hreply
      exact nomatch hreply
    · rw [houtcome] at hreply hafter
      obtain rfl := Option.some.inj (Except.ok.inj hreply)
      refine ⟨?_, Option.some_ne_none _, ?_⟩
      · rw [hafter]
        exact AList.lookup_insert _
      · have hoffered := offeredBy_of_eligible heligible
        cases kind with
        | execute => exact hoffered
        | reconcile => exact hoffered
        | sync => exact hoffered
  · exact nomatch hreply

/-- The body of `_record_processing_failure`. Assumes: a unit of work that was leased. -/
theorem safe_recordFailure {code : String}
    {detail : Option (List (String × Json))} (hleased : work.record.leaseOwner ≠ none) :
    Safe D.logic thread (coordinator.recordFailure work code detail) world fun _ _ ↦ True := by
  refine Safe.bind (D.safe_getExecution (fun current after hinv hrecord hkey ↦ ?_)
    fun failure after ↦ trivial)
  have hworld := D.inv_le hinv
  rw [← hkey] at hrecord
  have hknows : after.Knows current := .of_record hrecord
  dsimp only
  split_ifs with howner hreserved happlying hsucceeded
  · trivial
  · refine Safe.bind (D.safe_failExecution hknows
      (Or.inl (hworld.reserved _ current hrecord hreserved).1) fun outcome after ↦ ?_)
    cases outcome <;> trivial
  · refine D.safe_leaveUncertain hknows (Or.inr (Or.inl rfl)) (fun h ↦ nomatch h) ?_
    intro hcommitted
    rw [(hworld.succeeded _ current hrecord).mpr hcommitted] at happlying
    exact nomatch happlying
  · push Not at howner
    refine Safe.bind (D.safe_transitionExecution
      (fun before hquiet _ ↦ ⟨hknows.growth hquiet.growth, ?_⟩)
      (fun next after _ _ _ _ ↦ trivial) fun failure after _ _ ↦ trivial)
    exact .syncFailed _ ⟨rfl, rfl, rfl⟩ rfl rfl hsucceeded.1 (by rw [howner]; exact hleased)
  · trivial

theorem safe_performWork (hinv : D.logic.inv world) (h : ClaimedWork world work) :
    Safe D.logic thread (coordinator.performWork work) world fun _ _ ↦ True := by
  have hworld := D.inv_le hinv
  have hstatus := h.offered
  unfold Coordinator.performWork
  cases hkind : work.kind with
  | execute =>
    rw [hkind] at hstatus
    obtain ⟨hunnamed, hunintended, houtcome⟩ := hworld.reserved _ _ h.stored hstatus
    exact D.safe_executeClaimed ⟨.of_record h.stored, hstatus, hunnamed, hunintended, houtcome⟩
  | reconcile =>
    rw [hkind] at hstatus
    exact D.safe_recoverClaimed hinv h.stored hstatus
  | sync =>
    rw [hkind] at hstatus
    obtain ⟨intended, hintended⟩ := hworld.intended_of_committed h.stored hstatus
    have hknows : world.Knows work.record := .of_record h.stored
    exact Safe.bind (D.safe_planOf hknows
      (fun plan after hquiet _ hplan hworkspace ↦ D.safe_syncCommitted
        (hknows.growth hquiet.growth) hplan rfl hworkspace hstatus hintended)
      fun failure after _ ↦ trivial)

/-- `process`. Assumes: the invariant, and a claimed unit. -/
theorem safe_process (hinv : D.logic.inv world) (h : ClaimedWork world work) :
    Safe D.logic thread (coordinator.process work) world fun _ _ ↦ True := by
  have hrecord : ∀ (after : World C K) (code : String) (detail : Option (List (String × Json))),
      Safe D.logic thread (coordinator.recordProcessingFailure work code detail) after
        fun _ _ ↦ True := by
    intro after code detail
    refine Safe.bind (Safe.attempt ((D.safe_recordFailure h.leased).mono fun outcome last _ ↦ ?_))
    cases outcome <;> trivial
  refine Safe.bind (Safe.attempt ((D.safe_performWork hinv h).mono fun outcome after _ ↦ ?_))
  cases outcome with
  | ok execution => trivial
  | error failure =>
    cases failure <;> exact hrecord after _ _

theorem safe_starts {program : Prog C K Unit} (hstarts : coordinator.Starts program)
    : Safe D.logic thread program world fun _ _ ↦ True := by
  cases hstarts with
  | worker workerId =>
    refine Safe.bind (D.safe_read trivial (fun _ ↦ trivial) fun time first _ _ ↦ ?_)
    refine Safe.bind (D.safe_askOr (D.safe_quiet trivial (fun _ _ _ ↦ trivial) ?_))
    intro before reply after _ _ hperform _ hinvAfter
    rcases reply with failure | (none | work)
    · trivial
    · trivial
    · have hwork := claimedWork_of_perform (D.perform_le hperform)
      refine Safe.bind ((D.safe_process hinvAfter hwork).mono fun outcome last _ ↦ ?_)
      cases outcome <;> trivial
  | heartbeat key leaseOwner =>
    refine Safe.bind (D.safe_read trivial (fun _ ↦ trivial) fun time first _ _ ↦ ?_)
    refine Safe.bind (D.safe_askOr (D.safe_read trivial (fun _ ↦ trivial) fun reply after _ _ ↦ ?_))
    cases reply <;> trivial
  | reconciliation ownerId executionId expectedExecutionRevision =>
    refine Safe.bind (D.safe_reconcile.mono fun outcome after _ ↦ ?_)
    cases outcome <;> trivial

end Apply

end Discipline

end Schemii.Migrations
