import Schemii.RawSessions.Service

/-!
# Whole runs are atomic

One execution in the mode `whole_run` on the connection of its session. What PostgreSQL does with a
script is a relation, `Served`, that says what a transaction is and nothing about which statement
fails or what the responses are. `Executes` and `RollsBack` add what can go wrong on the way: a
cancellation before the script is sent, an exception, and a connection that breaks before or after
PostgreSQL ran the script. The answers to the checks of the execution, whether it is cancelled and
whether it is still authorized, are free at every point.

The run keeps its connection `Untouched` until COMMIT is sent: `preparePolicy_wholeRun` and
`runStatements_wholeRun`. From there it is `Settled` (`endWholeRun_settles`), on the paths of its
exceptions too (`handleException_settles`), and no transaction of the run is left open (`Closed`).
`whole_run_all_or_none` puts these together.

No other command runs on the connection meanwhile; that is what the operation lock of the session is
for.
-/

set_option autoImplicit false

namespace Schemii.RawSessions

open Schemii.Foundations

/-! ### The connection -/

/-- What a connection is in the middle of. In `active` the client stopped reading the responses of a
command, and nothing more can be sent. A `lost` connection is closed or broken: PostgreSQL drops
what was not committed. -/
inductive Phase
  | idle
  | intrans (staged : List String)
  | inerror
  | active
  | lost
  deriving DecidableEq, Repr

/-- The status that the client reads. -/
def Phase.status : Phase → TransactionStatus
  | .idle => .idle
  | .intrans _ => .intrans
  | .inerror => .inerror
  | .active => .active
  | .lost => .unknown

/-- A connection: the effects that PostgreSQL committed through it, what it is in the middle of, and
whether COMMIT was sent. -/
structure Connection where
  durable : List String
  phase : Phase
  commitSent : Bool
  deriving DecidableEq, Repr

/-- How PostgreSQL runs a script that it received. Transactions are atomic: a statement that fails
aborts the open transaction, and the script with it; COMMIT makes all staged effects durable, or
none; a script outside a transaction is a transaction of its own. BEGIN opens a transaction unless
it responds with an error. Of scripts with other transaction control nothing is assumed. -/
inductive Served (script : Script) : Connection → List Response → Connection → Prop
  | began {connection : Connection} {responses : List Response} (hscript : script = .beginScript)
      (hphase : connection.phase = .idle) :
      Served script connection responses { connection with phase := .intrans [] }
  | beginFailed {connection : Connection} {responses : List Response}
      (hscript : script = .beginScript)
      (herror : truthy (Result.ofResponses responses).errorMessage = true) :
      Served script connection responses connection
  | committed {connection : Connection} {staged : List String} {responses : List Response}
      (hscript : script = .commitScript) (hphase : connection.phase = .intrans staged) :
      Served script connection responses
        { connection with durable := connection.durable ++ staged, phase := .idle }
  | commitFailed {connection : Connection} {responses : List Response}
      (hscript : script = .commitScript) :
      Served script connection responses { connection with phase := .idle }
  | staged {connection : Connection} {staged : List String} {responses : List Response}
      (hplain : script.Plain) (hphase : connection.phase = .intrans staged) :
      Served script connection responses
        { connection with phase := .intrans (staged ++ script.effects) }
  | aborted {connection : Connection} {responses : List Response} (hplain : script.Plain)
      (hphase : connection.phase ≠ .idle) :
      Served script connection responses { connection with phase := .inerror }
  | ranAlone {connection : Connection} {responses : List Response} (hplain : script.Plain)
      (hphase : connection.phase = .idle) :
      Served script connection responses
        { connection with durable := connection.durable ++ script.effects }
  | failedAlone {connection : Connection} {responses : List Response} (hplain : script.Plain)
      (hphase : connection.phase = .idle) : Served script connection responses connection
  | controlled {connection after : Connection} {responses : List Response}
      (hcontrol : ¬ script.Plain) (hbegin : script ≠ .beginScript)
      (hcommit : script ≠ .commitScript) (hsent : after.commitSent = connection.commitSent) :
      Served script connection responses after

/-- A connection after COMMIT was sent, if the script is COMMIT. -/
def Connection.sending (connection : Connection) (script : Script) : Connection :=
  { connection with commitSent := connection.commitSent || decide (script = .commitScript) }

/-- What a script does to a connection: a cancellation refuses it, PostgreSQL runs it and responds,
or an exception is raised. An exception before it is sent leaves the connection as it is. One after
that leaves it broken or in the middle of the responses, whether PostgreSQL ran the script or
not. -/
inductive Executes (script : Script) : Connection → Except Raised Answer → Connection → Prop
  | refused (connection : Connection) : Executes script connection (.ok .refused) connection
  | responded {connection after : Connection} {responses : List Response}
      (hactive : connection.phase ≠ .active) (hlost : connection.phase ≠ .lost)
      (hserved : Served script (connection.sending script) responses after) :
      Executes script connection (.ok (.responses responses)) after
  | notSent (connection : Connection) (error : Raised) :
      Executes script connection (.error error) connection
  | interrupted {connection middle : Connection} (error : Raised) (phase : Phase)
      (hactive : connection.phase ≠ .active) (hlost : connection.phase ≠ .lost)
      (hmiddle : middle = connection.sending script ∨
        ∃ responses, Served script (connection.sending script) responses middle)
      (hphase : phase = .active ∨ phase = .lost) :
      Executes script connection (.error error) { middle with phase := phase }

/-- What a rollback does to a connection. It may raise, and then leave the connection as it is. -/
inductive RollsBack : Connection → Except Raised Unit → Connection → Prop
  | done {connection : Connection} (hactive : connection.phase ≠ .active)
      (hlost : connection.phase ≠ .lost) :
      RollsBack connection (.ok ()) { connection with phase := .idle }
  | notSent (connection : Connection) (error : Raised) :
      RollsBack connection (.error error) connection
  | interrupted {connection : Connection} (error : Raised) (phase : Phase)
      (hphase : phase = .active ∨ phase = .lost) :
      RollsBack connection (.error error) { connection with phase := phase }

/-- The connection of one session while one execution uses it. Whether the execution is cancelled
or has lost its authorization may be answered either way at any time. -/
def connectionSemantics : Semantics rawInterface Connection where
  perform := fun _ request before reply after ↦
    match request, reply with
    | .execute _ script, reply => Executes script before reply after
    | .rollback _, reply => RollsBack before reply after
    | .closeConnection _, _ => after = { before with phase := .lost }
    | .transactionStatus _, reply => reply = before.phase.status ∧ after = before
    | _, _ => after = before
  environment := fun _ _ ↦ False

/-! ### The parts of a whole run -/

section Parts

variable {thread session : ℕ} {guarded : Bool}

/-- Safety of a part of an execution that runs alone on its connection. -/
abbrev Alone {α : Type} (thread : ℕ) (program : RawProgram α) (connection : Connection)
    (post : Except Raised α → Connection → Prop) : Prop :=
  Safe (RelyGuarantee.alone connectionSemantics thread) thread program connection post

variable {connection : Connection} {execution : Execution}

theorem alone_andThen {α β : Type} {first : Running α} {next : α → Running β}
    {post : Except Raised (Execution × Except Raised β) → Connection → Prop}
    (h : Alone thread (first execution) connection fun outcome after ↦
      match outcome with
      | .ok (kept, .ok value) => Alone thread (next value kept) after post
      | .ok (kept, .error exception) => post (.ok (kept, .error exception)) after
      | .error exception => post (.error exception) after) :
    Alone thread (Running.andThen first next execution) connection post := by
  refine Safe.keeping_bind (h.mono fun outcome after hpost ↦ ?_)
  rcases outcome with exception | ⟨kept, exception | value⟩
  · exact hpost
  · exact hpost
  · exact hpost

theorem alone_call {request : RawCall}
    {post : Except Raised (Execution × Except Raised request.Reply) → Connection → Prop}
    (hsame : ∀ before reply after, connectionSemantics.perform thread request before reply after →
      after = before)
    (h : ∀ reply, post (.ok (execution, .ok reply)) connection) :
    Alone thread (Running.call request execution) connection post := by
  refine Safe.alone_call fun reply after hperform ↦ ?_
  obtain rfl := hsame _ _ _ hperform
  exact h reply

theorem alone_stopped {post : Except Raised (Execution × Except Raised Bool) → Connection → Prop}
    (h : ∀ outcome, post (.ok (execution, outcome)) connection) :
    Alone thread (stopped session guarded execution) connection post := by
  refine alone_andThen (alone_call (fun _ _ _ hsame ↦ hsame) fun cancelled ↦ ?_)
  dsimp only
  split
  · exact h _
  split
  · refine alone_andThen ?_
    refine Safe.alone_call fun reply after hperform ↦ ?_
    obtain rfl : after = connection := hperform
    cases reply with
    | error error => exact h _
    | ok authorized => exact h _
  · exact h _

/-- A script that is handed to the connection. Assumes: the end condition of each answer, and of the
result without one. -/
theorem alone_execute {script : Script}
    {post : Except Raised (Execution × Except Raised Result) → Connection → Prop}
    (hcopy : script.copiesStdio = true →
      post (.ok (execution, .ok Result.copyRefused)) connection)
    (hraised : ∀ error after, Executes script connection (.error error) after →
      post (.ok (execution, .error error)) after)
    (hanswered : ∀ answer after, Executes script connection (.ok answer) after →
      post (.ok (execution, .ok answer.result)) after) :
    Alone thread (execute session script execution) connection post := by
  unfold execute
  split
  · next hcopies => exact hcopy hcopies
  · refine alone_andThen ?_
    refine Safe.alone_call fun reply after hperform ↦ ?_
    have hexecutes : Executes script connection reply after := hperform
    cases reply with
    | error error => exact hraised error after hexecutes
    | ok answer => exact hanswered answer after hexecutes

theorem alone_rollback {post : Except Raised (Execution × Except Raised Unit) → Connection → Prop}
    (h : ∀ reply after, RollsBack connection reply after → post (.ok (execution, reply)) after) :
    Alone thread (rollback session execution) connection post := by
  refine Safe.alone_call fun reply after hperform ↦ ?_
  exact h reply after hperform

end Parts

/-! ### What scripts do -/

theorem not_plain_beginScript : ¬ Script.beginScript.Plain := by
  intro h
  have := h .begin (by simp [Script.beginScript])
  simp [Statement.effect] at this

theorem not_plain_commitScript : ¬ Script.commitScript.Plain := by
  intro h
  have := h .commit (by simp [Script.commitScript])
  simp [Statement.effect] at this

variable {connection after : Connection} {responses : List Response}

/-- BEGIN makes nothing durable, and opens an empty transaction unless it responds with an error. -/
theorem served_begin (h : Served .beginScript connection responses after) :
    after.durable = connection.durable ∧ after.commitSent = connection.commitSent ∧
      (truthy (Result.ofResponses responses).errorMessage = false → after.phase = .intrans []) := by
  cases h with
  | began hscript hphase => exact ⟨rfl, rfl, fun _ ↦ rfl⟩
  | beginFailed hscript herror =>
    refine ⟨rfl, rfl, fun hquiet ↦ ?_⟩
    rw [herror] at hquiet
    cases hquiet
  | committed hscript => cases hscript
  | commitFailed hscript => cases hscript
  | staged hplain => exact absurd hplain not_plain_beginScript
  | aborted hplain => exact absurd hplain not_plain_beginScript
  | ranAlone hplain => exact absurd hplain not_plain_beginScript
  | failedAlone hplain => exact absurd hplain not_plain_beginScript
  | controlled hcontrol hbegin => exact absurd rfl hbegin

/-- Assumes: an open transaction and a script without transaction control. Nothing becomes durable,
and all effects are staged or the transaction is aborted. -/
theorem served_plain {script : Script}
    {staged : List String} (hplain : script.Plain) (hphase : connection.phase = .intrans staged)
    (h : Served script connection responses after) :
    after.durable = connection.durable ∧ after.commitSent = connection.commitSent ∧
      (after.phase = .intrans (staged ++ script.effects) ∨ after.phase = .inerror) := by
  cases h with
  | began hscript => exact absurd (hscript ▸ hplain) not_plain_beginScript
  | beginFailed hscript => exact absurd (hscript ▸ hplain) not_plain_beginScript
  | committed hscript => exact absurd (hscript ▸ hplain) not_plain_commitScript
  | commitFailed hscript => exact absurd (hscript ▸ hplain) not_plain_commitScript
  | staged _ hopen =>
    rw [hphase] at hopen
    cases hopen
    exact ⟨rfl, rfl, .inl rfl⟩
  | aborted => exact ⟨rfl, rfl, .inr rfl⟩
  | ranAlone _ hidle =>
    rw [hphase] at hidle
    cases hidle
  | failedAlone _ hidle =>
    rw [hphase] at hidle
    cases hidle
  | controlled hcontrol => exact absurd hplain hcontrol

theorem served_commit (h : Served .commitScript connection responses after) :
    after.phase = .idle ∧ after.commitSent = connection.commitSent ∧
      (after.durable = connection.durable ∨ ∃ staged, connection.phase = .intrans staged ∧
        after.durable = connection.durable ++ staged) := by
  cases h with
  | began hscript => cases hscript
  | beginFailed hscript => cases hscript
  | committed hscript hphase => exact ⟨rfl, rfl, .inr ⟨_, hphase, rfl⟩⟩
  | commitFailed hscript => exact ⟨rfl, rfl, .inl rfl⟩
  | staged hplain => exact absurd hplain not_plain_commitScript
  | aborted hplain => exact absurd hplain not_plain_commitScript
  | ranAlone hplain => exact absurd hplain not_plain_commitScript
  | failedAlone hplain => exact absurd hplain not_plain_commitScript
  | controlled _ _ hcommit => exact absurd rfl hcommit

/-! ### The run -/

/-- COMMIT was not sent, and nothing became durable since. -/
def Untouched (base : List String) (connection : Connection) : Prop :=
  connection.durable = base ∧ connection.commitSent = false

/-- All effects became durable or none, and none unless COMMIT was sent. -/
def Settled (base effects : List String) (connection : Connection) : Prop :=
  (connection.durable = base ∨ connection.durable = base ++ effects) ∧
    (connection.commitSent = false → connection.durable = base)

theorem Untouched.settled {base effects : List String} {connection : Connection}
    (h : Untouched base connection) : Settled base effects connection :=
  ⟨.inl h.1, fun _ ↦ h.1⟩

/-- No transaction of the run is open: the connection is as the run found it, or in none. -/
def Closed (start : Phase) (connection : Connection) : Prop :=
  connection.phase = start ∨ connection.phase.status.isOpen = false

section Run

variable {thread session : ℕ} {guarded : Bool} {base : List String} {execution : Execution}
  {connection : Connection}

theorem sending_of_ne {script : Script} (h : script ≠ .commitScript) :
    connection.sending script = connection := by
  cases connection
  simp [Connection.sending, h]

/-- Assumes: an untouched connection. `prepare_policy` of a whole run leaves it untouched, in an empty
transaction if it did not raise. -/
theorem preparePolicy_wholeRun (script : Script) (h : Untouched base connection) :
    Alone thread (preparePolicy session script .wholeRun execution) connection
      fun outcome after ↦
        match outcome with
        | .ok (_, .ok _) => Untouched base after ∧ after.phase = .intrans []
        | .ok (_, .error _) => Untouched base after
        | .error _ => False := by
  have hbegin : Script.beginScript ≠ Script.commitScript := by decide
  refine alone_andThen ?_
  have hvalidate : Alone thread (validatePolicy session script .wholeRun).attempt connection
      fun outcome after ↦ after = connection ∧ ∃ result, outcome = .ok result := by
    refine Safe.attempt ?_
    unfold validatePolicy
    rw [if_neg (by decide)]
    refine Safe.alone_call fun reply after hperform ↦ ?_
    obtain ⟨rfl, rfl⟩ := hperform
    cases hproblem : policyProblem script after.phase.status with
    | error problem =>
      change Alone thread (Program.ofExcept (policyProblem script after.phase.status)) _ _
      rw [hproblem]
      exact ⟨rfl, _, rfl⟩
    | ok value =>
      change Alone thread (Program.ofExcept (policyProblem script after.phase.status)) _ _
      rw [hproblem]
      exact ⟨rfl, _, rfl⟩
  refine Safe.bind (hvalidate.mono fun outcome after hpost ↦ ?_)
  obtain ⟨rfl, result, rfl⟩ := hpost
  cases result with
  | error problem => exact h
  | ok value =>
    refine alone_andThen ?_
    refine alone_andThen (alone_execute ?_ ?_ ?_)
    · intro hcopies
      cases hcopies
    · intro error later hexecutes
      cases hexecutes with
      | notSent => exact h
      | interrupted _ phase hactive hlost hmiddle hphase =>
        rw [sending_of_ne hbegin] at hmiddle
        rcases hmiddle with rfl | ⟨responses, hserved⟩
        · exact h
        · obtain ⟨hdurable, hsent, -⟩ := served_begin hserved
          exact ⟨hdurable.trans h.1, hsent.trans h.2⟩
    · intro answer later hexecutes
      cases hexecutes with
      | refused => exact h
      | responded hactive hlost hserved =>
        rw [sending_of_ne hbegin] at hserved
        obtain ⟨hdurable, hsent, hopened⟩ := served_begin hserved
        have huntouched : Untouched base later := ⟨hdurable.trans h.1, hsent.trans h.2⟩
        dsimp only
        split
        · exact huntouched
        · next hquiet => exact ⟨huntouched, hopened (by simpa [Answer.result] using hquiet)⟩

/-- Assumes: an untouched connection in an empty transaction. The statements of a whole run leave it
untouched. Without an error all effects are staged or the transaction is aborted. -/
theorem runStatements_wholeRun {script : Script} (hplain : script.Plain)
    (h : Untouched base connection) (hphase : connection.phase = .intrans []) :
    Alone thread (runStatements session .wholeRun guarded [script] execution) connection
      fun outcome after ↦
        match outcome with
        | .ok (kept, .ok _) => Untouched base after ∧ (truthy kept.errorMessage = false →
            after.phase = .intrans script.effects ∨ after.phase = .inerror)
        | .ok (_, .error _) => Untouched base after
        | .error _ => False := by
  have hcommit : script ≠ .commitScript := by
    rintro rfl
    exact not_plain_commitScript hplain
  refine alone_andThen (alone_stopped fun outcome ↦ ?_)
  cases outcome with
  | error problem => exact h
  | ok stops =>
    dsimp only
    split
    · refine ⟨h, fun hquiet ↦ ?_⟩
      simp [Execution.queryCancelled, truthy] at hquiet
    · refine alone_andThen ?_
      refine alone_andThen (alone_execute ?_ ?_ ?_)
      · intro _
        refine ⟨h, fun hquiet ↦ ?_⟩
        simp [Execution.absorb, Result.copyRefused, truthy] at hquiet
      · intro error later hexecutes
        cases hexecutes with
        | notSent => exact h
        | interrupted _ phase hactive hlost hmiddle hphase' =>
          rw [sending_of_ne hcommit] at hmiddle
          rcases hmiddle with rfl | ⟨responses, hserved⟩
          · exact h
          · obtain ⟨hdurable, hsent, -⟩ := served_plain hplain hphase hserved
            exact ⟨hdurable.trans h.1, hsent.trans h.2⟩
      · intro answer later hexecutes
        have hlater : Untouched base later ∧ (truthy answer.result.errorMessage = false →
            later.phase = .intrans script.effects ∨ later.phase = .inerror) := by
          cases hexecutes with
          | refused =>
            refine ⟨h, fun hquiet ↦ ?_⟩
            simp [Answer.result, truthy] at hquiet
          | responded hactive hlost hserved =>
            rw [sending_of_ne hcommit] at hserved
            obtain ⟨hdurable, hsent, hstaged⟩ := served_plain hplain hphase hserved
            exact ⟨⟨hdurable.trans h.1, hsent.trans h.2⟩, fun _ ↦ by simpa using hstaged⟩
        refine alone_andThen ?_
        refine alone_andThen ?_
        change Alone thread ((if truthy (execution.absorb answer.result).errorMessage then pure ()
          else runStatements session .wholeRun guarded []) _) _ _
        split
        · exact hlater
        · exact hlater

/-- Assumes: an untouched connection, with all effects staged or an aborted transaction unless the
receipt has an error. The end of a whole run settles it, and closes the transaction if it does not
raise. -/
theorem endWholeRun_settles (effects : List String) (start : Phase) (h : Untouched base connection)
    (hstaged : truthy execution.errorMessage = false →
      connection.phase = .intrans effects ∨ connection.phase = .inerror) :
    Alone thread (endWholeRun session execution) connection fun outcome after ↦
      match outcome with
      | .ok (_, .ok _) => Settled base effects after ∧ Closed start after
      | .ok (_, .error _) => Settled base effects after
      | .error _ => False := by
  refine alone_andThen ?_
  change Alone thread ((if truthy execution.errorMessage then rollback session else _) _) _ _
  split
  · refine alone_rollback fun reply after hrollback ↦ ?_
    cases hrollback with
    | done => exact ⟨⟨.inl h.1, fun _ ↦ h.1⟩, .inr rfl⟩
    | notSent => exact h.settled
    | interrupted => exact ⟨.inl h.1, fun _ ↦ h.1⟩
  · next hquiet =>
    have hphase := hstaged (by simpa using hquiet)
    have hcommitted : ∀ responses later, Served .commitScript (connection.sending .commitScript)
        responses later → later.phase = .idle ∧ Settled base effects later := by
      intro responses later hserved
      obtain ⟨hidle, hsent, hdurable⟩ := served_commit hserved
      have hunsent : later.commitSent = false → later.durable = base := by
        intro hnot
        rw [hsent] at hnot
        simp [Connection.sending] at hnot
      refine ⟨hidle, ?_, hunsent⟩
      rcases hdurable with hnone | ⟨staged, hopen, hall⟩
      · exact .inl (hnone.trans h.1)
      · -- What COMMIT makes durable is what the transaction has staged.
        have hsame : connection.phase = .intrans staged := hopen
        rcases hphase with hintrans | hinerror
        · rw [hintrans] at hsame
          cases hsame
          exact .inr (hall.trans (by rw [← h.1]; rfl))
        · rw [hinerror] at hsame
          cases hsame
    refine alone_andThen (alone_execute ?_ ?_ ?_)
    · intro hcopies
      cases hcopies
    · intro error later hexecutes
      cases hexecutes with
      | notSent => exact h.settled
      | interrupted _ phase hactive hlost hmiddle hphase' =>
        rcases hmiddle with rfl | ⟨responses, hserved⟩
        · exact ⟨.inl h.1, fun _ ↦ h.1⟩
        · exact (hcommitted _ _ hserved).2
    · intro answer later hexecutes
      have hlater : Settled base effects later ∧
          (truthy answer.result.errorMessage = false → later.phase = .idle) := by
        cases hexecutes with
        | refused =>
          refine ⟨h.settled, fun hquiet' ↦ ?_⟩
          simp [Answer.result, truthy] at hquiet'
        | responded hactive hlost hserved =>
          obtain ⟨hidle, hsettled⟩ := hcommitted _ _ hserved
          exact ⟨hsettled, fun _ ↦ hidle⟩
      dsimp only
      split
      · refine alone_andThen ?_
        refine alone_andThen ?_
        refine Safe.alone_call fun reply after hperform ↦ ?_
        obtain ⟨rfl, rfl⟩ := hperform
        change Alone thread ((if after.phase.status.isOpen then rollback session else pure ()) _) _ _
        split
        · refine alone_rollback fun reply final hrollback ↦ ?_
          cases hrollback with
          | done => exact ⟨hlater.1, .inr rfl⟩
          | notSent => exact hlater.1
          | interrupted => exact hlater.1
        · next hclosed => exact ⟨hlater.1, .inr (by simpa using hclosed)⟩
      · next hquiet' =>
        refine ⟨hlater.1, .inr ?_⟩
        rw [hlater.2 (by simpa using hquiet')]
        rfl

variable {body : Body}

/-- Assumes: an untouched connection, with all effects staged or an aborted transaction unless the
receipt has an error. The part of a whole run after its statements settles it, and closes the
transaction if it does not raise. -/
theorem finishRun_settles (hmode : body.commitMode = .wholeRun)
    (effects : List String) (start : Phase) (h : Untouched base connection)
    (hstaged : truthy execution.errorMessage = false →
      connection.phase = .intrans effects ∨ connection.phase = .inerror) :
    Alone thread (finishRun session body guarded execution) connection fun outcome after ↦
      match outcome with
      | .ok (_, .ok _) => Settled base effects after ∧ Closed start after
      | .ok (_, .error _) => Settled base effects after
      | .error _ => False := by
  refine alone_andThen (alone_stopped fun outcome ↦ ?_)
  cases outcome with
  | error problem => exact h.settled
  | ok stops =>
  refine alone_andThen ?_
  rw [if_pos hmode]
  refine alone_andThen ((endWholeRun_settles effects start h ?_).mono fun outcome last hended ↦ ?_)
  · intro hquiet
    -- The receipt is quiet only if it was so before the check.
    refine hstaged ?_
    dsimp only at hquiet
    split at hquiet
    · simp [Execution.queryCancelled, truthy] at hquiet
    · exact hquiet
  · rcases outcome with problem | ⟨receipt, problem | ended⟩
    · exact hended
    · exact hended
    · exact hended

/-- Assumes: an untouched connection and a script without transaction control. The part of a whole
run that an exception may leave settles the connection, and closes the transaction if it does not
raise. -/
theorem runBody_settles {start : Phase} (hmode : body.commitMode = .wholeRun)
    (hplain : body.script.Plain) (h : Untouched base connection) (hstart : connection.phase = start) :
    Alone thread (runBody session body guarded execution) connection fun outcome after ↦
      match outcome with
      | .ok (_, .ok _) => Settled base body.script.effects after ∧ Closed start after
      | .ok (_, .error _) => Settled base body.script.effects after
      | .error _ => False := by
  refine alone_andThen ?_
  refine Safe.alone_call fun reply after hperform ↦ ?_
  obtain rfl : after = connection := hperform
  cases reply with
  | error problem => exact h.settled
  | ok value =>
  refine alone_andThen (alone_stopped fun outcome ↦ ?_)
  cases outcome with
  | error problem => exact h.settled
  | ok stops =>
  dsimp only
  split
  · exact ⟨h.settled, .inl hstart⟩
  refine alone_andThen ((preparePolicy_wholeRun body.script h).mono fun outcome later hprepared ↦ ?_)
  rcases outcome with problem | ⟨kept, problem | prepared⟩
  · exact hprepared
  · exact Untouched.settled hprepared
  refine alone_andThen ?_
  have hscripts : body.scripts = .ok [body.script] := by rw [Body.scripts, if_pos hmode]
  rw [hscripts]
  obtain ⟨huntouched, hphase⟩ := hprepared
  change Alone thread (Running.andThen (runStatements session body.commitMode guarded [body.script])
    (fun _ ↦ finishRun session body guarded) kept) _ _
  rw [hmode]
  refine alone_andThen ((runStatements_wholeRun hplain huntouched hphase).mono
    fun outcome final hran ↦ ?_)
  rcases outcome with problem | ⟨receipt, problem | ran⟩
  · exact hran
  · exact Untouched.settled hran
  exact finishRun_settles hmode _ start hran.1 hran.2

/-- Assumes: a settled connection. The exception handler of a whole run keeps it settled and closes
the transaction. -/
theorem handleException_settles {effects : List String} (start : Phase)
    (hmode : body.commitMode = .wholeRun) (h : Settled base effects connection) (error : Raised) :
    Alone thread (handleException session body execution error) connection fun outcome after ↦
      (∃ receipt, outcome = .ok receipt) ∧ Settled base effects after ∧ Closed start after := by
  refine Safe.alone_call fun flag after hperform ↦ ?_
  obtain rfl : after = connection := hperform
  simp only [Program.bind, if_pos hmode]
  refine Safe.alone_call fun status later hperform ↦ ?_
  obtain ⟨rfl, rfl⟩ := hperform
  simp only [Program.bind]
  split
  · refine Safe.alone_call fun outcome final hrollback ↦ ?_
    have hrolls : RollsBack later outcome final := hrollback
    cases hrolls with
    | done => exact ⟨⟨_, rfl⟩, h, .inr rfl⟩
    | notSent =>
      refine Safe.alone_call fun closed last hclose ↦ ?_
      obtain rfl : last = _ := hclose
      exact ⟨⟨_, rfl⟩, h, .inr rfl⟩
    | interrupted =>
      refine Safe.alone_call fun closed last hclose ↦ ?_
      obtain rfl : last = _ := hclose
      exact ⟨⟨_, rfl⟩, h, .inr rfl⟩
  · next hclosed => exact ⟨⟨_, rfl⟩, h, .inr (by simpa using hclosed)⟩

/-- Assumes: an untouched connection and a script without transaction control. A whole run settles
the connection and closes the transaction. -/
theorem run_settles (hmode : body.commitMode = .wholeRun)
    (hplain : body.script.Plain) (h : Untouched base connection) :
    Alone thread (run session body guarded) connection fun outcome after ↦
      (∃ receipt, outcome = .ok receipt) ∧ Settled base body.script.effects after ∧
        Closed connection.phase after := by
  refine Safe.alone_call fun started after hperform ↦ ?_
  obtain rfl : after = connection := hperform
  cases started with
  | error problem =>
    refine Safe.alone_call fun released later hperform ↦ ?_
    obtain rfl : later = after := hperform
    exact ⟨⟨_, rfl⟩, h.settled, .inl rfl⟩
  | ok value =>
    change Alone thread (runStarted session body guarded) after _
    refine Safe.bind ((runBody_settles hmode hplain h rfl).mono fun outcome later hran ↦ ?_)
    rcases outcome with problem | ⟨receipt, problem | ran⟩
    · exact hran.elim
    · refine Safe.bind ((handleException_settles after.phase hmode hran problem).mono
        fun outcome final hhandled ↦ ?_)
      obtain ⟨⟨handled, rfl⟩, hsettled, hclosed⟩ := hhandled
      refine Safe.alone_call fun released last hperform ↦ ?_
      obtain rfl : last = final := hperform
      exact ⟨⟨_, rfl⟩, hsettled, hclosed⟩
    · refine Safe.alone_call fun released last hperform ↦ ?_
      obtain rfl : last = later := hperform
      exact ⟨⟨_, rfl⟩, hran⟩

end Run

/-- Assumes: a script without transaction control, run as a whole on a connection, and any answers
to its calls: statements that fail, cancellation, revoked authorization and lost connections at any
point.

The run returns a receipt. The effects of all statements became durable or of none. A run that is
reported failed or cancelled and did not send COMMIT made nothing durable. No transaction of the run
is left open. -/
theorem whole_run_all_or_none {thread session : ℕ} {body : Body} {guarded : Bool}
    {connection after : Connection} {outcome : Except Raised Execution}
    (hmode : body.commitMode = .wholeRun) (hplain : body.script.Plain)
    (hends : Program.Ends connectionSemantics thread (run session body guarded)
      { connection with commitSent := false } outcome after) :
    (∃ receipt, outcome = .ok receipt ∧
      ((receipt.status = .failed ∨ receipt.status = .cancelled) → after.commitSent = false →
        after.durable = connection.durable)) ∧
    (after.durable = connection.durable ∨
      after.durable = connection.durable ++ body.script.effects) ∧
    (after.phase = connection.phase ∨ after.phase.status.isOpen = false) := by
  have huntouched : Untouched connection.durable { connection with commitSent := false } :=
    ⟨rfl, rfl⟩
  obtain ⟨⟨receipt, hreceipt⟩, hsettled, hclosed⟩ :=
    ((run_settles hmode hplain huntouched).ends trivial hends).1
  exact ⟨⟨receipt, hreceipt, fun _ hunsent ↦ hsettled.2 hunsent⟩, hsettled.1, hclosed⟩

instance decidablePlain (script : Script) : Decidable script.Plain :=
  inferInstanceAs (Decidable (∀ statement ∈ script.statements, statement.effect.isSome = true))

/-- A connection on which everything works. -/
def sampleExecute (script : Script) (connection : Connection) :
    Except Raised Answer × Connection :=
  match connection.phase with
  | .idle =>
    if script = .beginScript then
      (.ok (.responses [.completed "BEGIN"]), { connection with phase := .intrans [] })
    else (.ok .refused, connection)
  | .intrans staged =>
    if script = .commitScript then
      (.ok (.responses [.completed "COMMIT"]), { connection.sending script with
        durable := connection.durable ++ staged, phase := .idle })
    else if script.Plain then
      (.ok (.responses (script.effects.map .completed)),
        { connection with phase := .intrans (staged ++ script.effects) })
    else (.ok .refused, connection)
  | _ => (.ok .refused, connection)

/-- The answers of the sample. -/
def sampleAnswer : (request : RawCall) → Connection → request.Reply × Connection
  | .execute _ script, connection => sampleExecute script connection
  | .rollback _, connection => (.error (apiProblem "not used"), connection)
  | .closeConnection _, connection => ((), { connection with phase := .lost })
  | .transactionStatus _, connection => (connection.phase.status, connection)
  | .isAuthorized, connection => (.ok true, connection)
  | .readClosed, connection | .isCancelled _, connection => (false, connection)
  | .ticket _, connection => (.ok none, connection)
  | .copy _, connection => (.ok false, connection)
  | .liveSessions, connection | .beginClose, connection => ([], connection)
  | .retire _, connection => (true, connection)
  | .release _, connection | .openDownload, connection | .finishDownload _, connection
  | .reap _, connection
  | .acquireOperation _, connection | .closeHeld _, connection | .awaitOpening, connection
  | .discard _, connection => ((), connection)
  | .lookup _, connection | .claim _ _ _, connection | .startReserved _, connection
  | .cancel _, connection | .recordHistory, connection | .enterCancellable, connection
  | .closeSession _ _ _, connection | .admitKey _, connection | .connect _, connection
  | .register _, connection => (.ok (), connection)

theorem sampleExecute_executes (script : Script) (connection : Connection) :
    Executes script connection (sampleExecute script connection).1
      (sampleExecute script connection).2 := by
  unfold sampleExecute
  cases hphase : connection.phase with
  | idle =>
    dsimp only
    split
    · next hbegin =>
      refine .responded (by simp [hphase]) (by simp [hphase]) ?_
      rw [sending_of_ne (by rw [hbegin]; decide)]
      exact .began hbegin hphase
    · exact .refused connection
  | intrans staged =>
    dsimp only
    split
    · next hcommit =>
      exact .responded (by simp [hphase]) (by simp [hphase]) (.committed hcommit hphase)
    · next hcommit =>
      split
      · next hplain =>
        refine .responded (by simp [hphase]) (by simp [hphase]) ?_
        rw [sending_of_ne hcommit]
        exact .staged hplain hphase
      · exact .refused connection
  | inerror => exact .refused connection
  | active => exact .refused connection
  | lost => exact .refused connection

theorem sampleAnswer_perform (thread : ℕ) (request : RawCall) (connection : Connection) :
    connectionSemantics.perform thread request connection (sampleAnswer request connection).1
      (sampleAnswer request connection).2 := by
  cases request with
  | execute session script => exact sampleExecute_executes script connection
  | rollback session => exact RollsBack.notSent connection _
  | transactionStatus session => exact ⟨rfl, rfl⟩
  | _ => rfl

/-- Two statements that run as a whole. -/
def sampleBody : Body :=
  ⟨none, ⟨[.work "first", .work "second"], false, false⟩, .ok [], .wholeRun⟩

/-- Two statements that run as a whole commit both. -/
theorem whole_run_commits_both :
    ∃ receipt after, Program.Ends connectionSemantics 0 (run 0 sampleBody false)
        ⟨["before"], .idle, false⟩ (.ok receipt) after ∧
      receipt.status = .succeeded ∧ after.durable = ["before", "first", "second"] ∧
      after.phase = .idle ∧
      (after.durable = ["before"] ∨ after.durable = ["before"] ++ sampleBody.script.effects) := by
  have hends := Program.ends_run (sampleAnswer_perform 0) (run 0 sampleBody false)
    ⟨["before"], .idle, false⟩
  have hresult : ((run 0 sampleBody false).run sampleAnswer ⟨["before"], .idle, false⟩) =
      (.ok ⟨.succeeded, ["first", "second"], none, none, 2⟩,
        ⟨["before", "first", "second"], .idle, true⟩) := by rfl
  rw [hresult] at hends
  have hsettled := @whole_run_all_or_none 0 0 sampleBody false ⟨["before"], .idle, false⟩ _ _ rfl
    (by decide) hends
  exact ⟨_, _, hends, rfl, rfl, rfl, hsettled.2.1⟩

end Schemii.RawSessions
