import Mathlib.Tactic
import Schemii.Foundations.Dictionary
import Schemii.Foundations.Interaction

/-!
# Raw database sessions

The service of `console/raw_session.py`, which keeps database connections open between the commands
of their owner, over `RawSession` of `common/postgres/console/raw.py`.

Every function of the service is a program over one interface, `RawCall`. A section under the lock
of a session (`signalLock`) is one call, and so is a section under the lock of the registry: every
other section of the same lock waits for it. The reads and commands of a session's connection are
calls of their own, and between any two calls the other threads may run, cancel the command, revoke
the authorization, or lose the connection.

* `execute` is `RawSession.execute`: what it returns for the responses of PostgreSQL.
* `run` is one execution in any of the three commit modes, with its error paths; `createExecution`
  reserves the session for it first.
* `download` and `upload` are the COPY transfers, `create`, `closeSession`, `cancel`, `reap` and
  `close` the rest of the service.

A script is known by its statements, as PostgreSQL runs them, and by what `pglast` finds in it. Rows
and their budgets, notices, times, the bounded lists of receipts and of pending statements are left
out; COPY tickets are one answer of the calls that read them. A consumer of a download asks for some
number of chunks and then goes away.
-/

set_option autoImplicit false

namespace Schemii.RawSessions

open Schemii.Foundations

/-! ### Scripts and their results -/

/-- A statement, as PostgreSQL runs it: transaction control, or work with an effect. -/
inductive Statement
  | work (effect : String)
  | begin
  | commit
  | rollback
  deriving DecidableEq, Repr

/-- A script: its statements, whether `pglast` finds a COPY that needs a transfer, and whether it
finds transaction control. It finds nothing in what it cannot parse. -/
structure Script where
  statements : List Statement
  copiesStdio : Bool
  transactionStmt : Bool
  deriving DecidableEq, Repr

/-- The script `BEGIN`. -/
def Script.beginScript : Script := ⟨[.begin], false, true⟩

/-- The script `COMMIT`. -/
def Script.commitScript : Script := ⟨[.commit], false, true⟩

/-- The effect of a statement. -/
def Statement.effect : Statement → Option String
  | .work effect => some effect
  | _ => none

/-- The effects of the statements of a script. -/
def Script.effects (script : Script) : List String := script.statements.filterMap (·.effect)

/-- A script without transaction control. -/
def Script.Plain (script : Script) : Prop := ∀ statement ∈ script.statements, statement.effect.isSome

/-- `commit_mode`. -/
inductive CommitMode
  | manual
  | eachStatement
  | wholeRun
  deriving DecidableEq, Repr

/-- The transaction status of a connection. -/
inductive TransactionStatus
  | idle
  | active
  | intrans
  | inerror
  | unknown
  deriving DecidableEq, Repr

/-- Whether a transaction is open that can be rolled back. -/
def TransactionStatus.isOpen (status : TransactionStatus) : Bool :=
  status = .intrans ∨ status = .inerror

/-- An exception: whether it is an `OperationalError` or an `InterfaceError`, and its state. -/
structure Raised where
  connection : Bool
  sqlstate : Option String
  message : String
  deriving DecidableEq, Repr

/-- `ApiProblem`. -/
def apiProblem (message : String) : Raised := ⟨false, none, message⟩

/-- A response of PostgreSQL to a script. -/
inductive Response
  | singleTuple
  | completed (command : String)
  | copyIn
  | copyOut
  | fatalError (message sqlstate : Option String)
  | badResponse (message : String)
  | other
  deriving DecidableEq, Repr

/-- What `RawSession.execute` returns. -/
structure Result where
  results : List String
  errorMessage : Option String
  sqlstate : Option String
  deriving DecidableEq, Repr

/-- Whether a Python value that is a text or None counts as true. -/
def truthy : Option String → Bool
  | some text => text ≠ ""
  | none => false

/-- What a response adds to the result. -/
def Result.absorb (result : Result) : Response → Result
  | .singleTuple => result
  | .completed command =>
    if result.results.length < 1000 then { result with results := result.results ++ [command] }
    else result
  | .copyIn => { result with
      errorMessage := some "COPY FROM STDIN needs an upload. Use Upload COPY data."
      sqlstate := some "57014" }
  | .copyOut => { result with
      errorMessage := some "COPY TO STDOUT needs a download. Use Download COPY data."
      sqlstate := some "0A000" }
  | .fatalError message sqlstate => { result with
      errorMessage := some (if truthy message then message.getD "" else
        "PostgreSQL rejected the command")
      sqlstate := sqlstate }
  | .badResponse message => { result with errorMessage := some message, sqlstate := none }
  | .other => result

/-- The result of all responses to a script. -/
def Result.ofResponses (responses : List Response) : Result :=
  responses.foldl Result.absorb ⟨[], none, none⟩

/-- What becomes of a script that is handed to a connection: a cancellation refuses it before it is
sent, or PostgreSQL responds. -/
inductive Answer
  | refused
  | responses (received : List Response)
  deriving DecidableEq, Repr

/-- The result of a script that was answered. -/
def Answer.result : Answer → Result
  | .refused => ⟨[], some "Database operation cancelled before execution", some "57014"⟩
  | .responses received => Result.ofResponses received

/-- The result of a script that is not sent because it needs a COPY transfer. -/
def Result.copyRefused : Result :=
  ⟨[], some ("COPY STDIN/STDOUT requires Upload or Download COPY data; no commands in this run "
    ++ "were executed."), some "0A000"⟩

/-! ### Calls -/

/-- The key under which a session is opened: its owner and its console. -/
abbrev Key : Type := String × String

/-- The calls of the service: sections under a lock, reads, and uses of a connection. A session is
known by its number. -/
inductive RawCall
  /-- `get`: look the session up and validate its target. -/
  | lookup (session : ℕ)
  /-- Read whether the service is closed, under the lock of the registry. -/
  | readClosed
  /-- The rest of `claim`, under the lock of the session. -/
  | claim (session : ℕ) (expectedRevision : Option ℕ) (reserved : Bool)
  | release (session : ℕ)
  | startReserved (session : ℕ)
  | cancel (session : ℕ)
  /-- Read the flag that `cancel` sets. -/
  | isCancelled (session : ℕ)
  | isAuthorized
  | recordHistory
  /-- Enter the context in which an assistant can cancel the connection. -/
  | enterCancellable
  | transactionStatus (session : ℕ)
  | execute (session : ℕ) (script : Script)
  | rollback (session : ℕ)
  | closeConnection (session : ℕ)
  /-- Read the ticket of a COPY transfer: it is refused, or it names an expected revision. -/
  | ticket (session : ℕ)
  /-- One exchange of a COPY transfer: a chunk, or its end. -/
  | copy (session : ℕ)
  /-- Make the object of a download, which is not released. -/
  | openDownload
  /-- `CopyDownload.finish`. -/
  | finishDownload (session : ℕ)
  /-- The section of `close_session`, with what was read of the registry. -/
  | closeSession (session : ℕ) (expectedRevision : Option ℕ) (closed : Bool)
  | liveSessions
  /-- The section of `reap` for one session. -/
  | reap (session : ℕ)
  /-- The first section of `close`. -/
  | beginClose
  /-- The section of `close` that cancels a session or retires its reservation. -/
  | retire (session : ℕ)
  /-- Wait for the operation lock of a session. -/
  | acquireOperation (session : ℕ)
  /-- The section of `close` that closes a session whose operation lock it holds. -/
  | closeHeld (session : ℕ)
  /-- Wait until no session is opening; `close` returns then. -/
  | awaitOpening
  /-- The first section of `create`. -/
  | admitKey (key : Key)
  /-- Connect and prepare the connection. -/
  | connect (key : Key)
  /-- The section of `create` that registers the session, or closes its connection. -/
  | register (key : Key)
  /-- The last section of `create`. -/
  | discard (key : Key)

/-- What the calls answer. -/
def RawCall.Reply : RawCall → Type
  | .readClosed | .isCancelled _ => Bool
  | .isAuthorized => Except Raised Bool
  | .transactionStatus _ => TransactionStatus
  | .execute _ _ => Except Raised Answer
  | .ticket _ => Except Raised (Option ℕ)
  | .copy _ => Except Raised Bool
  | .liveSessions | .beginClose => List ℕ
  | .retire _ => Bool
  | .release _ | .closeConnection _ | .openDownload | .finishDownload _ | .reap _
  | .acquireOperation _ | .closeHeld _ | .awaitOpening | .discard _ => Unit
  | .lookup _ | .claim _ _ _ | .startReserved _ | .cancel _ | .recordHistory | .enterCancellable
  | .rollback _ | .closeSession _ _ _ | .admitKey _ | .connect _ | .register _ => Except Raised Unit

/-- The interface of the service. -/
def rawInterface : Interface := ⟨RawCall, RawCall.Reply⟩

/-- A program of the service. -/
abbrev RawProgram (α : Type) : Type := Program rawInterface Raised α

/-- Make a call. -/
def ask (request : RawCall) : RawProgram request.Reply := Program.ask (I := rawInterface) request

/-- Make a call that may raise. -/
def attempt {α : Type} (program : RawProgram (Except Raised α)) : RawProgram α :=
  Program.bind program Program.ofExcept

/-! ### Running scripts -/

/-- The status of a receipt. -/
inductive Status
  | reserved
  | running
  | succeeded
  | failed
  | cancelled
  | uncertain
  deriving DecidableEq, Repr

/-- The receipt of an execution. -/
structure Execution where
  status : Status
  results : List String
  errorMessage : Option String
  sqlstate : Option String
  completedStatements : ℕ
  deriving DecidableEq, Repr

/-- What a request asks to run: the script, and the scripts it is split into where each statement is
sent by itself. -/
structure Body where
  expectedRevision : Option ℕ
  script : Script
  parts : Except Raised (List Script)
  commitMode : CommitMode

/-- A step of an execution, with its receipt. -/
abbrev Running (α : Type) : Type := Program.Keeping rawInterface Raised Execution α

namespace Running

/-- Make a call in an execution. -/
def call (request : RawCall) : Running request.Reply :=
  fun execution ↦ Program.bind (ask request) fun reply ↦ .done (execution, .ok reply)

/-- Make a call in an execution, which may raise. -/
def attempting {α : Type} (program : RawProgram (Except Raised α)) : Running α :=
  Program.Keeping.attempting program

/-- Raise an exception in an execution. -/
def raising {α : Type} (exception : Raised) : Running α := Program.Keeping.raising exception

/-- Change the receipt. -/
def modify (f : Execution → Execution) : Running Unit := Program.Keeping.modify f

/-- Read the receipt. -/
def receipt : Running Execution := Program.Keeping.read

/-- Run a part of an execution and continue with its value. -/
def andThen {α β : Type} (first : Running α) (next : α → Running β) : Running β :=
  Program.Keeping.bind first next

end Running

/-- The error of an execution that was cancelled. -/
def Execution.queryCancelled (execution : Execution) : Execution :=
  { execution with errorMessage := some "Query cancelled", sqlstate := some "57014" }

/-- `RawSession.execute`. -/
def execute (session : ℕ) (script : Script) : Running Result :=
  if script.copiesStdio then pure .copyRefused
  else
    Running.andThen (Running.attempting (ask (.execute session script))) fun answer ↦
      pure answer.result

/-- Why an automatic commit policy is refused. -/
def policyProblem (script : Script) (status : TransactionStatus) : Except Raised Unit :=
  if status ≠ .idle then
    .error (apiProblem "Finish the current transaction before choosing an automatic commit policy")
  else if script.transactionStmt then
    .error (apiProblem "Choose Manual to run SQL containing transaction commands")
  else .ok ()

/-- `validate_policy`. -/
def validatePolicy (session : ℕ) (script : Script) (mode : CommitMode) : RawProgram Unit :=
  if mode = .manual then .done ()
  else
    Program.bind (ask (.transactionStatus session)) fun status ↦
      Program.ofExcept (policyProblem script status)

/-- Whether `prepare_policy` sends BEGIN. -/
def beginsTransaction (session : ℕ) (script : Script) (mode : CommitMode) : Running Bool :=
  match mode with
  | .wholeRun => pure true
  | .manual =>
    Running.andThen (Running.call (.transactionStatus session)) fun (status : TransactionStatus) ↦
      pure (decide (status = .idle) && !script.transactionStmt)
  | .eachStatement => pure false

/-- `prepare_policy`. -/
def preparePolicy (session : ℕ) (script : Script) (mode : CommitMode) : Running Unit :=
  Running.andThen (Running.attempting (validatePolicy session script mode).attempt) fun _ ↦
    Running.andThen (beginsTransaction session script mode) fun begins ↦
      if begins then
        Running.andThen (execute session .beginScript) fun result ↦
          if truthy result.errorMessage then
            Running.raising (apiProblem (result.errorMessage.getD ""))
          else pure ()
      else pure ()

/-- Whether the execution has to stop: it is cancelled, or its authorization is gone. -/
def stopped (session : ℕ) (guarded : Bool) : Running Bool :=
  Running.andThen (Running.call (.isCancelled session)) fun (cancelled : Bool) ↦
    if cancelled then pure true
    else if guarded then
      Running.andThen (Running.attempting (ask .isAuthorized)) fun authorized ↦ pure !authorized
    else pure false

/-- The results and the error of one script in the receipt. -/
def Execution.absorb (execution : Execution) (result : Result) : Execution :=
  { execution with
    results := execution.results ++ result.results.take (1000 - execution.results.length)
    errorMessage := result.errorMessage
    sqlstate := result.sqlstate }

/-- The loop of `run` over its scripts. -/
def runStatements (session : ℕ) (mode : CommitMode) (guarded : Bool) : List Script → Running Unit
  | [] => pure ()
  | script :: rest =>
    Running.andThen (stopped session guarded) fun stops ↦
      if stops then Running.modify Execution.queryCancelled
      else
        Running.andThen
          (if mode = .manual then preparePolicy session script .manual else pure ()) fun _ ↦
          Running.andThen (execute session script) fun result ↦
            Running.andThen (Running.modify (·.absorb result)) fun _ ↦
              Running.andThen Running.receipt fun execution ↦
                if truthy execution.errorMessage then pure ()
                else runStatements session mode guarded rest

/-- Roll back, in an execution. -/
def rollback (session : ℕ) : Running Unit := Running.attempting (ask (.rollback session))

/-- The end of the transaction of a whole run: a rollback after an error, or COMMIT. -/
def endWholeRun (session : ℕ) : Running Unit :=
  Running.andThen Running.receipt fun execution ↦
    if truthy execution.errorMessage then rollback session
    else
      Running.andThen (execute session .commitScript) fun boundary ↦
        if truthy boundary.errorMessage then
          Running.andThen (Running.modify fun execution ↦ { execution with
            errorMessage := boundary.errorMessage, sqlstate := boundary.sqlstate }) fun _ ↦
            Running.andThen (Running.call (.transactionStatus session)) fun status ↦
              if TransactionStatus.isOpen status then rollback session else pure ()
        else pure ()

/-- The status that a receipt gets when nothing was raised. -/
def Execution.finished (execution : Execution) : Execution :=
  { execution with
    completedStatements := execution.results.length
    status := if execution.sqlstate = some "57014" then .cancelled
      else if truthy execution.errorMessage then .failed else .succeeded }

/-- The scripts that are sent: each statement by itself, or the whole script. -/
def Body.scripts (body : Body) : Except Raised (List Script) :=
  if body.commitMode = .wholeRun then .ok [body.script] else body.parts

/-- The part of `run` after the statements. -/
def finishRun (session : ℕ) (body : Body) (guarded : Bool) : Running Unit :=
  Running.andThen (stopped session guarded) fun stops ↦
    Running.andThen (Running.modify fun execution ↦
      if stops ∧ ¬ truthy execution.errorMessage then execution.queryCancelled else execution)
      fun _ ↦
      Running.andThen (if body.commitMode = .wholeRun then endWholeRun session else pure ()) fun _ ↦
        Running.modify Execution.finished

/-- The part of `run` that an exception may leave. -/
def runBody (session : ℕ) (body : Body) (guarded : Bool) : Running Unit :=
  Running.andThen (Running.attempting (ask .recordHistory)) fun _ ↦
    Running.andThen (stopped session guarded) fun stops ↦
      if stops then
        Running.modify fun execution ↦ { execution with
          status := .cancelled
          errorMessage := some "Query cancelled before it started"
          sqlstate := some "57014" }
      else
        Running.andThen
          (if body.commitMode = .wholeRun then preparePolicy session body.script .wholeRun
            else pure ()) fun _ ↦
          Running.andThen (Running.attempting (.done body.scripts)) fun scripts ↦
            Running.andThen (runStatements session body.commitMode guarded scripts) fun _ ↦
              finishRun session body guarded

/-- The exception handler of `run`. -/
def handleException (session : ℕ) (body : Body) (execution : Execution) (error : Raised) :
    RawProgram Execution :=
  Program.bind (ask (.isCancelled session)) fun (flag : Bool) ↦
    let uncertain : Bool := error.connection && !truthy error.sqlstate
    let cancelled : Bool := flag && !uncertain
    let failed : Execution := { execution with
      status := if uncertain then .uncertain else if cancelled then .cancelled else .failed
      errorMessage := some (String.ofList (error.message.toList.take 2048))
      sqlstate := if cancelled then some "57014" else error.sqlstate }
    if body.commitMode = .wholeRun then
      Program.bind (ask (.transactionStatus session)) fun status ↦
        if TransactionStatus.isOpen status then
          Program.bind (ask (.rollback session)) fun (outcome : Except Raised Unit) ↦
            match outcome with
            | .ok () => .done failed
            | .error _ => Program.bind (ask (.closeConnection session)) fun _ ↦ .done failed
        else .done failed
    else .done failed

/-- The receipt of a new reservation. -/
def Execution.new : Execution := ⟨.reserved, [], none, none, 0⟩

/-- The part of `run` after its reservation was started: the body, its exception handler, and the
release. -/
def runStarted (session : ℕ) (body : Body) (guarded : Bool) : RawProgram Execution :=
  Program.bind (runBody session body guarded { Execution.new with status := .running })
    fun (execution, outcome) ↦
    Program.bind
      (match outcome with
        | .ok () => .done execution
        | .error error => handleException session body execution error) fun execution ↦
      Program.bind (ask (.release session)) fun _ ↦ .done execution

/-- `run`. -/
def run (session : ℕ) (body : Body) (guarded : Bool) : RawProgram Execution :=
  Program.bind (ask (.startReserved session)) fun (started : Except Raised Unit) ↦
    match started with
    | .error problem =>
      Program.bind (ask (.release session)) fun _ ↦
        .done { Execution.new with
          status := .cancelled, errorMessage := some problem.message, sqlstate := some "57014" }
    | .ok () => runStarted session body guarded

/-! ### Requests -/

/-- `reap`, over the sessions it selected. -/
def reapEach : List ℕ → RawProgram Unit
  | [] => .done ()
  | session :: rest => Program.bind (ask (.reap session)) fun _ ↦ reapEach rest

/-- `reap`. -/
def reap : RawProgram Unit :=
  Program.bind (ask .liveSessions) reapEach

/-- `get`. -/
def get (session : ℕ) : RawProgram Unit :=
  Program.bind reap fun _ ↦ attempt (ask (.lookup session))

/-- `claim`. -/
def claim (session : ℕ) (expectedRevision : Option ℕ) (reserved : Bool) : RawProgram Unit :=
  Program.bind (ask .readClosed) fun (closed : Bool) ↦
    if closed then .raise (apiProblem "Database sessions are shutting down")
    else attempt (ask (.claim session expectedRevision reserved))

/-- `reserve`, and `run` in the background of the request. -/
def createExecution (session : ℕ) (body : Body) : RawProgram Execution :=
  Program.bind (get session) fun _ ↦
    Program.bind (validatePolicy session body.script body.commitMode) fun _ ↦
      Program.bind (claim session body.expectedRevision true) fun _ ↦ run session body false

/-- `reserve` and `run` for an assistant, whose authorization may be revoked. A reservation that never
ran is released. -/
def executeForAssistant (session : ℕ) (body : Body) : RawProgram Execution :=
  Program.bind (get session) fun _ ↦
    Program.bind (validatePolicy session body.script body.commitMode) fun _ ↦
      Program.bind (claim session body.expectedRevision true) fun _ ↦
        Program.bind (ask .enterCancellable) fun (entered : Except Raised Unit) ↦
          match entered with
          | .error error => Program.bind (ask (.release session)) fun _ ↦ .raise error
          | .ok () => run session body true

/-- `authorize_ticket`. -/
def authorizeTicket : RawProgram Unit :=
  Program.bind (ask .isAuthorized) fun (authorized : Except Raised Bool) ↦
    match authorized with
    | .ok true => .done ()
    | .ok false => .raise (apiProblem "COPY authorization was revoked or its request stopped")
    | .error error => .raise error

/-- `prepare_policy` of a COPY transfer, outside an execution. -/
def prepareCopy (session : ℕ) (script : Script) (mode : CommitMode) : RawProgram Unit :=
  Program.bind (preparePolicy session script
      (if mode = .wholeRun then .eachStatement else mode) Execution.new) fun (_, outcome) ↦
    Program.ofExcept outcome

/-- One exchange of a COPY transfer. -/
def copy (session : ℕ) : RawProgram Bool := attempt (ask (.copy session))

/-- The chunks of a download, as many as the consumer asks for. -/
def streamChunks (session : ℕ) : ℕ → RawProgram Unit
  | 0 => .done ()
  | asked + 1 =>
    Program.bind (copy session) fun more ↦
      if more then Program.bind authorizeTicket fun _ ↦ streamChunks session asked else .done ()

/-- The body of `CopyDownload.stream`. -/
def stream (session : ℕ) (script : Script) (mode : CommitMode) (asked : ℕ) : RawProgram Unit :=
  Program.bind (attempt (ask (.startReserved session))) fun _ ↦
    Program.bind authorizeTicket fun _ ↦
      Program.bind (prepareCopy session script mode) fun _ ↦ streamChunks session asked

/-- The consumer of a download: it asks for some chunks and closes the download. A stream that was
started finishes by itself first, and closing finishes it again. -/
def consume (session : ℕ) (script : Script) (mode : CommitMode) (asked : ℕ) : RawProgram Unit :=
  Program.bind
    (if asked = 0 then .done ()
      else Program.bind (stream session script mode asked).attempt fun _ ↦
        ask (.finishDownload session)) fun _ ↦
    ask (.finishDownload session)

/-- `download` with its consumer. -/
def download (session : ℕ) (script : Script) (mode : CommitMode) (asked : ℕ) : RawProgram Unit :=
  Program.bind (get session) fun _ ↦
    Program.bind (attempt (ask (.ticket session))) fun expectedRevision ↦
      Program.bind (claim session expectedRevision true) fun _ ↦
        Program.bind (ask .openDownload) fun _ ↦ consume session script mode asked

/-- The chunks of an upload, and the end of its COPY. -/
def uploadChunks (session : ℕ) : ℕ → RawProgram Unit
  | 0 => authorizeTicket
  | chunks + 1 =>
    Program.bind authorizeTicket fun _ ↦
      Program.bind (copy session) fun _ ↦ uploadChunks session chunks

/-- Leave the COPY of an upload that raised. A COPY that cannot be left closes the connection. -/
def leaveCopy (session : ℕ) : RawProgram Unit :=
  Program.bind (copy session).attempt fun outcome ↦
    match outcome with
    | .ok _ => .done ()
    | .error _ => ask (.closeConnection session)

/-- The body of `upload_copy`. -/
def uploadBody (session : ℕ) (script : Script) (mode : CommitMode) (chunks : ℕ) :
    RawProgram Unit :=
  Program.bind (prepareCopy session script mode) fun _ ↦
    Program.bind (copy session) fun _ ↦
      Program.bind (uploadChunks session chunks).attempt fun outcome ↦
        match outcome with
        | .ok () => Program.bind (copy session) fun _ ↦ .done ()
        | .error error => Program.bind (leaveCopy session) fun _ ↦ .raise error

/-- `upload_copy`. -/
def upload (session : ℕ) (script : Script) (mode : CommitMode) (chunks : ℕ) : RawProgram Unit :=
  Program.bind (get session) fun _ ↦
    Program.bind (attempt (ask (.ticket session))) fun expectedRevision ↦
      Program.bind (claim session expectedRevision false) fun _ ↦
        Program.bind (uploadBody session script mode chunks).attempt fun outcome ↦
          Program.bind (ask (.release session)) fun _ ↦ Program.ofExcept outcome

/-- The cancel endpoint. -/
def cancelRequest (session : ℕ) : RawProgram Unit :=
  Program.bind (get session) fun _ ↦ attempt (ask (.cancel session))

/-- The close endpoint. -/
def closeRequest (session : ℕ) (expectedRevision : Option ℕ) : RawProgram Unit :=
  Program.bind (get session) fun _ ↦
    Program.bind (ask .readClosed) fun (closed : Bool) ↦
      attempt (ask (.closeSession session expectedRevision closed))

/-- `create`. -/
def create (key : Key) : RawProgram Unit :=
  Program.bind reap fun _ ↦
    Program.bind (attempt (ask (.admitKey key))) fun _ ↦
      Program.bind (ask (.connect key)) fun (connected : Except Raised Unit) ↦
        match connected with
        | .error error => Program.bind (ask (.discard key)) fun _ ↦ .raise error
        | .ok () =>
          Program.bind (ask (.register key)) fun (registered : Except Raised Unit) ↦
            Program.bind (ask (.discard key)) fun _ ↦ Program.ofExcept registered

/-- `close`, over the sessions that were registered. A session whose operation has started is closed
when it is released. -/
def closeEach : List ℕ → RawProgram Unit
  | [] => .done ()
  | session :: rest =>
    Program.bind (ask (.retire session)) fun (closed : Bool) ↦
      if closed then closeEach rest
      else
        Program.bind (ask (.acquireOperation session)) fun _ ↦
          Program.bind (ask (.closeHeld session)) fun _ ↦ closeEach rest

/-- `close`. -/
def close : RawProgram Unit :=
  Program.bind (ask .beginClose) fun sessions ↦
    Program.bind (closeEach sessions) fun _ ↦ ask .awaitOpening

end Schemii.RawSessions
