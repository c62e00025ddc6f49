import Mathlib.Data.List.Basic
import Mathlib.Data.Nat.Notation
import Mathlib.Tactic

/-!
# Bulk jobs

One job of `bulk_jobs/service.py` with its document in `bulk_jobs/repository.py`, its entry in the
in-process map of active workers, and the transactions its batches open on the target.

* `Job` is the stored document. The functions on it are the `update` callbacks of the service, under
  the source's names: `begun`, `started`, `committingBatch`, `committed`, `failed`, `interrupted`,
  `finished`, `tick`, the three commands, and `recovered` of the repository.
* `change` is the repository's read-modify-write. An `Attempt` says how it went: answered, lost
  before it took effect, or lost after.
* `Worker` is the entry of the active map with the thread that made it. `Point` is the place that
  thread has reached in `run` and `_run_batches`, with the variables it holds there. `work` is its
  next action: one update of the document, one call of the target, or one test of the stop flag.
* `Event` lists what can happen next: a request of a user, a worker that claims the job, a
  heartbeat, the worker's next action, a shutdown, a crash, `recover` at the next start, and what
  the target does with a transaction that was left to it. A section under the service's lock is one
  event: every other section that reads the active map waits for it.

The target commits a transaction only after a COMMIT was sent for it, and then at any later time
(`Phase`). The journal records executions and reconciliations and is read by no part of the service.
Left out are the identifiers of the owner, the workspace, the console and the job, the name and the
creation time, and the admission limit of two jobs, which only refuses requests. Other jobs of the
owner appear as `Attempt.othersActive`. One update reads the clock once.
-/

set_option autoImplicit false

namespace Schemii.BulkJobs

/-! ### Documents -/

/-- The status of a batch. -/
inductive BatchStatus
  | pending
  | running
  | committing
  | committed
  | failed
  | uncertain
  deriving DecidableEq, Repr

/-- The status of a job. -/
inductive JobStatus
  | queued
  | running
  | cancelling
  | paused
  | failed
  | completed
  | reconciliationRequired
  deriving DecidableEq, Repr

/-- What a user found in the target when reconciling a batch. -/
inductive Outcome
  | committed
  | rolledBack
  deriving DecidableEq, Repr

/-- The status a reconciled batch gets. -/
def Outcome.batchStatus : Outcome → BatchStatus
  | .committed => .committed
  | .rolledBack => .pending

/-- One batch of a job. -/
structure Batch where
  sql : String
  status : BatchStatus
  errorMessage : Option String
  committedAt : Option ℕ
  reconciledAt : Option ℕ
  reconciledOutcome : Option Outcome
  deriving DecidableEq, Repr

/-- The stored document of a job. Times are in milliseconds. -/
structure Job (T : Type) where
  workspaceRevision : ℕ
  settingsRevision : ℕ
  target : T
  revision : ℕ
  status : JobStatus
  updatedAt : ℕ
  elapsedMs : ℕ
  activeSince : Option ℕ
  errorMessage : Option String
  batches : List Batch
  deriving DecidableEq, Repr

/-- An exception: an `ApiProblem` with its status and code, or any other. -/
inductive Raised
  | problem (status : ℕ) (code message : String)
  | other (message : String)
  deriving DecidableEq, Repr

/-- The text of an exception. -/
def Raised.message : Raised → String
  | .problem _ _ message => message
  | .other message => message

namespace Job

variable {T : Type}

/-- The status of a batch of a job. -/
def statusOf (job : Job T) (index : ℕ) : Option BatchStatus :=
  (job.batches[index]?).map Batch.status

/-- Change one batch. -/
def setBatch (job : Job T) (index : ℕ) (f : Batch → Batch) : Job T :=
  { job with batches := job.batches.modify index f }

/-- `touch`. -/
def touch (now : ℕ) (job : Job T) : Job T :=
  { job with revision := job.revision + 1, updatedAt := now }

/-- `stop_clock`: the time since the clock was started is added, and never a negative time. -/
def stopClock (now : ℕ) (job : Job T) : Job T :=
  match job.activeSince with
  | some since => { job with elapsedMs := job.elapsedMs + (now - since), activeSince := none }
  | none => job

/-- The first batch that is not recorded committed. -/
def nextIndex (job : Job T) : Option ℕ :=
  job.batches.findIdx? fun batch ↦ batch.status ≠ .committed

/-- The first batch that is recorded running or committing. -/
def inFlight (job : Job T) : Option ℕ :=
  job.batches.findIdx? fun batch ↦ batch.status = .running ∨ batch.status = .committing

/-- The document `create` stores. -/
def created (workspaceRevision settingsRevision : ℕ) (target : T) (now : ℕ)
    (statements : List String) : Job T where
  workspaceRevision := workspaceRevision
  settingsRevision := settingsRevision
  target := target
  revision := 1
  status := .queued
  updatedAt := now
  elapsedMs := 0
  activeSince := none
  errorMessage := none
  batches := statements.map fun sql ↦ ⟨sql, .pending, none, none, none, none⟩

/-! ### Updates of the worker -/

/-- `begin` in `run`. -/
def begun (now : ℕ) (job : Job T) : Except Raised (Job T) :=
  if job.status ≠ .queued then
    .error (.problem 409 "bulk_job_changed" "Job already claimed")
  else
    .ok (touch now { job with status := .running, activeSince := some now })

/-- `finish`. -/
def finished (index : Option ℕ) (now : ℕ) (job : Job T) : Job T :=
  touch now (stopClock now
    { job with status := if index = none then .completed else .paused })

/-- `started`. -/
def started (index now : ℕ) (job : Job T) : Job T :=
  touch now (job.setBatch index fun batch ↦ { batch with status := .running })

/-- `committing_batch`: the fence that is stored before the COMMIT is sent. -/
def committingBatch (index now : ℕ) (job : Job T) : Job T :=
  touch now (job.setBatch index fun batch ↦ { batch with status := .committing })

/-- `committed`. -/
def committed (index now : ℕ) (job : Job T) : Job T :=
  let marked := job.setBatch index fun batch ↦
    { batch with status := .committed, committedAt := some now, errorMessage := none }
  touch now { stopClock now marked with activeSince := some now }

/-- The message of a batch whose outcome is not known. -/
def uncertainMessage : String :=
  "Commit outcome is uncertain. Verify this batch in PostgreSQL before reconciling; " ++
    "it will not be retried automatically."

/-- The message of a cancelled batch. -/
def cancelledMessage : String :=
  "Cancelled; the current transaction was rolled back. Previously committed batches remain " ++
    "committed."

/-- `failed`. -/
def failed (index : Option ℕ) (uncertain stopped : Bool) (error : String) (now : ℕ)
    (job : Job T) : Job T :=
  let message := if uncertain then uncertainMessage
    else if stopped then cancelledMessage else (error.take 2048).toString
  let stated : Job T := { job with
    status := if uncertain then .reconciliationRequired
      else if stopped then .paused else .failed
    errorMessage := some message }
  let marked := match index with
    | some index => stated.setBatch index fun batch ↦
        { batch with status := if uncertain then .uncertain else .failed
                     errorMessage := some message }
    | none => stated
  touch now (stopClock now marked)

/-- `interrupted`. -/
def interrupted (now : ℕ) (job : Job T) : Job T :=
  let marked : Job T := match job.inFlight with
    | some index => { job.setBatch index (fun batch ↦ { batch with status := .uncertain }) with
        status := .reconciliationRequired }
    | none => { job with status := .paused }
  touch now (stopClock now marked)

/-- `tick`. -/
def tick (now : ℕ) (job : Job T) : Job T :=
  match job.activeSince with
  | some _ => { stopClock now job with activeSince := some now, updatedAt := now }
  | none => job

/-! ### Updates of the users and of the restart -/

/-- The `cancel` command. -/
def cancelled (active : Bool) (now : ℕ) (job : Job T) : Except Raised (Job T) :=
  if job.status = .queued ∨ job.status = .running ∨ job.status = .cancelling then
    .ok (touch now { job with status := if active then .cancelling else .paused })
  else
    .error (.problem 409 "bulk_job_not_running" "This job is not running.")

/-- A failed batch is pending again. -/
def Batch.retried (batch : Batch) : Batch :=
  if batch.status = .failed then { batch with status := .pending } else batch

/-- The `resume` command, with the reviewed revisions and the target they lead to. -/
def resumed [DecidableEq T] (active : Bool) (review : Option (ℕ × ℕ × T)) (now : ℕ)
    (job : Job T) : Except Raised (Job T) :=
  if active then
    .error (.problem 409 "bulk_job_active"
      "Wait for the active worker to stop before continuing.")
  else if job.status ≠ .paused ∧ job.status ≠ .failed then
    .error (.problem 409 "bulk_job_not_resumable" "Resolve any uncertain batch before resuming.")
  else match review with
    | none => .error (.problem 422 "bulk_resume_review_required"
        "Review current workspace and settings revisions before resuming.")
    | some (workspaceRevision, settingsRevision, target) =>
      if target ≠ job.target then
        .error (.problem 409 "bulk_target_changed"
          "The saved database target changed. Create a newly reviewed job.")
      else
        .ok (touch now { job with
          workspaceRevision := workspaceRevision
          settingsRevision := settingsRevision
          batches := job.batches.map Batch.retried
          status := .queued
          errorMessage := none })

/-- The first batch that is recorded uncertain. -/
def uncertainIndex (job : Job T) : Option ℕ :=
  job.batches.findIdx? fun batch ↦ batch.status = .uncertain

/-- The `reconcile` command. -/
def reconciled (active : Bool) (outcome : Outcome) (now : ℕ) (job : Job T) :
    Except Raised (Job T) :=
  if active then
    .error (.problem 409 "bulk_job_active"
      "Wait for the active worker to stop before continuing.")
  else if job.status ≠ .reconciliationRequired then
    .error (.problem 409 "bulk_reconciliation_not_required" "This job has no uncertain batch.")
  else match job.uncertainIndex with
    | none => .error (.other "StopIteration")
    | some index =>
      let marked := job.setBatch index fun batch ↦
        { batch with
          status := outcome.batchStatus
          reconciledAt := some now
          reconciledOutcome := some outcome
          errorMessage := none }
      .ok (touch now { marked with
        status := if marked.batches.all fun batch ↦ batch.status = .committed
          then .completed else .paused
        errorMessage := none })

/-- `recover` of the repository: the last heartbeat bounds the active time. -/
def recovered (job : Job T) : Job T :=
  if job.status = .running ∨ job.status = .queued ∨ job.status = .cancelling then
    let elapsed := match job.activeSince with
      | some since => job.updatedAt - since
      | none => 0
    let marked : Job T := match job.inFlight with
      | some index => { job.setBatch index (fun batch ↦ { batch with status := .uncertain }) with
          status := .reconciliationRequired
          errorMessage := some ("Server restarted. Verify the interrupted batch's database " ++
            "outcome before resuming.") }
      | none => { job with
          status := .paused
          errorMessage := some "Server restarted. Resume the remaining batches when ready." }
    { marked with
      elapsedMs := job.elapsedMs + elapsed
      activeSince := none
      revision := job.revision + 1 }
  else job

end Job

/-! ### The repository -/

/-- How a call of the metadata store went. -/
inductive Delivery
  | answered
  | lostBefore (message : String)
  | lostAfter (message : String)
  deriving DecidableEq, Repr

/-- The time of a call, whether another job of the owner is queued, running or cancelling then, and
how the call went. -/
structure Attempt where
  now : ℕ
  othersActive : Bool
  delivery : Delivery
  deriving DecidableEq, Repr

section Repository

variable {T : Type}

/-- `_validate`, the update, and `_check_active`. -/
def applyUpdate (attempt : Attempt) (revision : Option ℕ)
    (update : ℕ → Job T → Except Raised (Job T)) (stored : Option (Job T)) :
    Except Raised (Job T) :=
  match stored with
  | none => .error (.problem 404 "bulk_job_not_found" "Bulk job not found")
  | some job =>
    if revision.any fun expected ↦ job.revision ≠ expected then
      .error (.problem 409 "bulk_job_changed"
        "The bulk job changed. Refresh its status before continuing.")
    else
      match update attempt.now job with
      | .error raised => .error raised
      | .ok value =>
        if value.status = .queued ∧ attempt.othersActive then
          .error (.problem 409 "bulk_job_already_active"
            "Wait for your current bulk job to stop before starting another.")
        else .ok value

/-- A call that was not lost before it took effect. -/
def Attempt.arrives (attempt : Attempt) : Bool :=
  match attempt.delivery with
  | .lostBefore _ => false
  | _ => true

/-- `change`: what the caller gets, and what is stored afterwards. -/
def change (attempt : Attempt) (revision : Option ℕ)
    (update : ℕ → Job T → Except Raised (Job T)) (stored : Option (Job T)) :
    Except Raised (Job T) × Option (Job T) :=
  match attempt.delivery with
  | .lostBefore message => (.error (.other message), stored)
  | .answered =>
    match applyUpdate attempt revision update stored with
    | .error raised => (.error raised, stored)
    | .ok value => (.ok value, some value)
  | .lostAfter message =>
    match applyUpdate attempt revision update stored with
    | .error raised => (.error raised, stored)
    | .ok value => (.error (.other message), some value)

/-- An update that raises nothing. -/
def always (update : ℕ → Job T → Job T) (now : ℕ) (job : Job T) : Except Raised (Job T) :=
  .ok (update now job)

/-- `change` without an update. -/
def unchanged (_ : ℕ) (job : Job T) : Except Raised (Job T) :=
  .ok job

end Repository

/-! ### The service and the target -/

/-- How far a transaction of the target is. -/
inductive Phase
  | running
  | committing
  | committed
  | aborted
  deriving DecidableEq, Repr

/-- A transaction of the target, for the batch that it runs. -/
structure Transaction where
  batch : ℕ
  phase : Phase
  deriving DecidableEq, Repr

/-- What the journal records: the statements of a batch were executed in a transaction, or a user
reconciled a batch. -/
inductive JournalEvent
  | executed (transaction batch : ℕ)
  | reconciled (batch : ℕ) (outcome : Outcome)
  deriving DecidableEq, Repr

/-- The places of `run` and `_run_batches`, with the variables that are set there. -/
inductive Point
  | entering
  | reading
  | testing (index : Option ℕ)
  | finishing (index : Option ℕ)
  | preparing (index : ℕ)
  | starting (index transaction : ℕ)
  | executing (index transaction : ℕ)
  | checking (index transaction : ℕ)
  | fencing (index transaction : ℕ)
  | committing (index transaction : ℕ)
  | awaiting (index transaction : ℕ)
  | recording (index : ℕ)
  | leaving (index : ℕ)
  | handling (index transaction : Option ℕ) (committing : Bool) (error : String)
  | failing (index : Option ℕ) (uncertain : Bool) (error : String)
  | interrupting
  | releasing
  deriving DecidableEq, Repr

/-- The entry of the active map: its stop flag, and the thread that made it. -/
structure Worker where
  stopped : Bool
  point : Point
  deriving DecidableEq, Repr

/-- The service with its job, and the transactions of the target, by their number. The newest event
of the journal comes first. -/
structure State (T : Type) where
  serving : Bool
  closed : Bool
  job : Option (Job T)
  active : Option Worker
  transactions : List Transaction
  journal : List JournalEvent
  deriving DecidableEq, Repr

/-- A job as `create` leaves it. -/
def State.start {T : Type} (job : Job T) : State T where
  serving := true
  closed := false
  job := some job
  active := none
  transactions := []
  journal := []

/-- What decides the worker's next action: how a call of the metadata store goes, and whether
another call raises an exception. -/
structure Fate where
  attempt : Attempt
  raises : Option String
  deriving DecidableEq, Repr

section Service

variable {T : Type}

/-- Change the phase of a transaction. -/
def State.setPhase (s : State T) (transaction : ℕ) (f : Phase → Phase) : State T :=
  { s with transactions := s.transactions.modify transaction fun known ↦
      { known with phase := f known.phase } }

/-- The worker goes on to a point. -/
def State.goto (s : State T) (worker : Worker) (point : Point) : State T :=
  { s with active := some { worker with point := point } }

/-- The worker updates the document and goes on with the document it got or the exception. -/
def State.updating (s : State T) (worker : Worker) (attempt : Attempt)
    (update : ℕ → Job T → Except Raised (Job T)) (next : Job T → Point)
    (handler : String → Point) : State T :=
  { s with
    job := (change attempt none update s.job).2
    active := some { worker with point :=
      match (change attempt none update s.job).1 with
      | .ok value => next value
      | .error raised => handler raised.message } }

/-- A ROLLBACK ends a transaction that runs. -/
def Phase.rolledBack : Phase → Phase
  | .running => .aborted
  | phase => phase

/-- A COMMIT is sent. -/
def Phase.sent : Phase → Phase
  | .running => .committing
  | phase => phase

/-- The target decides a COMMIT. -/
def Phase.decided (commits : Bool) : Phase → Phase
  | .committing => if commits then .committed else .aborted
  | phase => phase

/-- The next action of the worker. -/
def work (fate : Fate) (s : State T) (worker : Worker) : State T :=
  match worker.point with
  | .entering =>
    -- The scope checks the stop flag; a cancellation of the scope raises as well.
    match worker.stopped, fate.raises with
    | false, none => s.goto worker .reading
    | _, _ => s.goto worker .interrupting
  | .reading =>
    s.updating worker fate.attempt unchanged (fun value ↦ .testing value.nextIndex)
      (.handling none none false)
  | .testing index =>
    match index with
    | none => s.goto worker (.finishing none)
    | some position =>
      s.goto worker (if worker.stopped then .finishing (some position) else .preparing position)
  | .finishing index =>
    s.updating worker fate.attempt (always (Job.finished index)) (fun _ ↦ .releasing)
      (.handling index none false)
  | .preparing index =>
    -- The target, the settings and the statements are checked and the connection is opened.
    match fate.raises with
    | some message => s.goto worker (.handling (some index) none false message)
    | none =>
      { s.goto worker (.starting index s.transactions.length) with
        transactions := s.transactions ++ [⟨index, .running⟩] }
  | .starting index transaction =>
    s.updating worker fate.attempt (always (Job.started index))
      (fun _ ↦ .executing index transaction) (.handling (some index) (some transaction) false)
  | .executing index transaction =>
    { s.goto worker (match fate.raises with
        | some message => .handling (some index) (some transaction) false message
        | none => .checking index transaction) with
      journal := .executed transaction index :: s.journal }
  | .checking index transaction =>
    s.goto worker (if worker.stopped then
        .handling (some index) (some transaction) false "Batch cancelled before commit"
      else .fencing index transaction)
  | .fencing index transaction =>
    s.updating worker fate.attempt (always (Job.committingBatch index))
      (fun _ ↦ .committing index transaction) (.handling (some index) (some transaction) false)
  | .committing index transaction =>
    match fate.raises with
    | some message => s.goto worker (.handling (some index) (some transaction) true message)
    | none => (s.goto worker (.awaiting index transaction)).setPhase transaction .sent
  | .awaiting index transaction =>
    match fate.raises, s.transactions[transaction]? with
    | none, some ⟨_, .committed⟩ => s.goto worker (.recording index)
    | none, _ => s
    | some message, _ => s.goto worker (.handling (some index) (some transaction) true message)
  | .recording index =>
    s.updating worker fate.attempt (always (Job.committed index))
      (fun _ ↦ .leaving index) (.handling (some index) none true)
  | .leaving index =>
    -- The connection is given back, and the loop starts again.
    match fate.raises with
    | some message => s.goto worker (.handling (some index) none true message)
    | none => s.goto worker .reading
  | .handling index transaction committing error =>
    match transaction, fate.raises with
    | none, _ => s.goto worker (.failing index committing error)
    | some number, none =>
      (s.goto worker (.failing index committing error)).setPhase number .rolledBack
    | some _, some _ => s.goto worker (.failing index true error)
  | .failing index uncertain error =>
    s.updating worker fate.attempt (always (Job.failed index uncertain worker.stopped error))
      (fun _ ↦ .releasing) (fun _ ↦ .interrupting)
  | .interrupting =>
    s.updating worker fate.attempt (always Job.interrupted) (fun _ ↦ .releasing)
      (fun _ ↦ .releasing)
  | .releasing => { s with active := none }

/-- What can happen next. -/
inductive Event (T : Type)
  | run (read claim : Attempt)
  | cancel (revision : ℕ) (attempt : Attempt)
  | resume (revision : ℕ) (review : Option (ℕ × ℕ × T)) (attempt : Attempt)
  | reconcile (revision : ℕ) (outcome : Outcome) (attempt : Attempt)
  | delete (revision : ℕ) (attempt : Attempt)
  | heartbeat (attempt : Attempt)
  | work (fate : Fate)
  | close
  | crash
  | recover (attempt : Attempt)
  | decide (transaction : ℕ) (commits : Bool)
  | abandon (transaction : ℕ)
  deriving DecidableEq, Repr

/-- The `cancel` command: a worker that is active is told to stop, once the update was made. -/
def State.cancel (s : State T) (revision : ℕ) (attempt : Attempt) : State T :=
  let result := change attempt (some revision) (Job.cancelled s.active.isSome) s.job
  { s with
    job := result.2
    active := match result.1 with
      | .ok _ => s.active.map fun worker ↦ { worker with stopped := true }
      | .error _ => s.active }

/-- The section of `run` under the lock: the job is claimed. -/
def State.run (s : State T) (read claim : Attempt) : State T :=
  match s.active, (change read none unchanged s.job).1 with
  | none, .ok value =>
    if value.status ≠ .queued then s
    else if s.closed then s.cancel value.revision claim
    else
      let result := change claim (some value.revision) Job.begun s.job
      { s with
        job := result.2
        active := match result.1 with
          | .ok _ => some ⟨false, .entering⟩
          | .error _ => none }
  | _, _ => s

/-- The check of `delete` in the repository. -/
def Job.deletable (_ : ℕ) (job : Job T) : Except Raised (Job T) :=
  if job.status = .running ∨ job.status = .queued ∨ job.status = .cancelling ∨
      job.status = .reconciliationRequired then
    .error (.problem 409 "bulk_job_active"
      "Resolve or stop this job before deleting its checkpoints.")
  else .ok job

/-- The `delete` request. -/
def State.delete (s : State T) (revision : ℕ) (attempt : Attempt) : State T :=
  match s.active, attempt.arrives, applyUpdate attempt (some revision) Job.deletable s.job with
  | none, true, .ok _ => { s with job := none }
  | _, _, _ => s

/-- The `reconcile` request. The journal records the batch that was reconciled. -/
def State.reconcile (s : State T) (revision : ℕ) (outcome : Outcome) (attempt : Attempt) :
    State T :=
  let update := Job.reconciled s.active.isSome outcome
  match s.job.bind Job.uncertainIndex, attempt.arrives,
    applyUpdate attempt (some revision) update s.job with
  | some index, true, .ok value =>
    { s with job := some value, journal := .reconciled index outcome :: s.journal }
  | _, _, _ => s

/-- One heartbeat: when it fails, the worker is told to stop. -/
def State.heartbeat (s : State T) (attempt : Attempt) : State T :=
  let result := change attempt none (always Job.tick) s.job
  { s with
    job := result.2
    active := match result.1 with
      | .ok _ => s.active
      | .error _ => s.active.map fun worker ↦ { worker with stopped := true } }

variable [DecidableEq T]

/-- One event. While the server is down, only the target acts and the server starts again. -/
def step (event : Event T) (s : State T) : State T :=
  match event, s.serving with
  | .decide transaction commits, _ => s.setPhase transaction (.decided commits)
  | .abandon transaction, _ =>
    -- The target ends a transaction whose connection is gone.
    s.setPhase transaction .rolledBack
  | .recover attempt, false =>
    let result := change attempt none (always fun _ ↦ Job.recovered) s.job
    { s with job := result.2, serving := attempt.delivery = .answered }
  | .run read claim, true => s.run read claim
  | .cancel revision attempt, true => s.cancel revision attempt
  | .resume revision review attempt, true =>
    { s with job := (change attempt (some revision) (Job.resumed s.active.isSome review) s.job).2 }
  | .reconcile revision outcome attempt, true => s.reconcile revision outcome attempt
  | .delete revision attempt, true => s.delete revision attempt
  | .heartbeat attempt, true => s.heartbeat attempt
  | .work fate, true =>
    match s.active with
    | some worker => work fate s worker
    | none => s
  | .close, true =>
    { s with
      closed := true
      active := s.active.map fun worker ↦ { worker with stopped := true } }
  | .crash, _ => { s with serving := false, closed := false, active := none }
  | _, _ => s

/-- The events of a run in order. -/
def steps (events : List (Event T)) (s : State T) : State T :=
  events.foldl (fun state event ↦ step event state) s

end Service

end Schemii.BulkJobs
