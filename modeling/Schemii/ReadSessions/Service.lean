import Schemii.Foundations.Interaction
import Schemii.ReadSessions.Registry

/-!
# Managed reads of the Console

The calls of `ConsoleService` that open, page, export and close retained read sessions, as programs
over one interface, `ReadCall`. A section under `_transient_results_lock` is one call and is one
function of `Registry`; calls of the metadata repository and of a read session are calls of their
own, and between any two calls the other threads may act.

* `run` claims an execution, makes room, opens its read session, stores its results and retains
  them, with its exception handler.
* `page` and `exportCsv` hold a lease while they fetch. The stream of an export is a generator: a
  consumer that asks for no chunk never starts it.
* `closeResult`, `cancel`, `close`, `reclaim` and `protect` are the rest.

`registrySemantics` says what each call answers and does. A clock is whatever it shows; the
repository may fail at every call, and a fetch may fail after the cursor has moved. Texts of errors,
limit events, histories, progress and the deadlines of database connections are left out, and so is
a gateway without read sessions.
-/

set_option autoImplicit false

namespace Schemii.ReadSessions

open Schemii.Foundations

/-- Why a call of the service raises. -/
inductive Problem
  | repository
  | connection
  | capacity
  | refused (refusal : Registry.Refusal)
  /-- The fetch of a page raised. -/
  | page (problem : FetchProblem)
  /-- A fetch of an export raised. -/
  | stream (problem : FetchProblem)
  deriving DecidableEq, Repr

/-- The statement indexes of the results that were stored, with the counts of their rows. -/
abbrev Summaries : Type := List (ℕ × Option ℕ)

/-- The calls of the service. -/
inductive ReadCall (E : Encoding)
  /-- `repository.claim`: it answers whether the execution is this run's. -/
  | claim (execution : ℕ)
  /-- Use the connection of the target: it answers whether the target is the recorded one. -/
  | resolve (execution : ℕ)
  /-- `repository.fail`. -/
  | storeFailure (execution : ℕ)
  /-- `_make_read_session_capacity`. -/
  | preflight (execution : ℕ)
  | openReadSession (execution : ℕ)
  /-- `repository.succeed`: it stores no result when the execution was cancelled. -/
  | succeed (execution : ℕ)
  /-- `_retain_results`. -/
  | retain (execution : ℕ) (summaries : Summaries)
  /-- `read_session.close()`. -/
  | closeReadSession (execution : ℕ)
  /-- Read the receipt of an execution and check its owner. -/
  | getReceipt (execution : ℕ)
  | claimPage (request : Registry.PageRequest)
  | fetchPage (result : ResultId) (offset pageSize : ℕ)
  | hasBufferedRows (result : ResultId)
  /-- The section of `page` that issues the next token. -/
  | respond (result : ResultId) (cursor : Option ℕ) (offset : ℕ) (rows : List E.Row)
      (hasMore : Bool)
  | markPendingClose (execution : ℕ)
  | releaseLease (result : ResultId)
  | startExport (owner : String) (workspace : Option String) (execution : ℕ) (result : ResultId)
  | fetchExport (result : ResultId) (offset pageSize : ℕ)
  /-- `repository.close_result`. -/
  | storeClosed (result : ResultId)
  | closeResult (result : ResultId)
  /-- `repository.request_cancel`. -/
  | requestCancel (execution : ℕ)
  /-- The section of `cancel` and of `_record_run_failure`: it answers whether the session is
  retained. -/
  | unprotect (execution : ℕ)
  /-- `read_session.cancel()`. -/
  | cancelReadSession (execution : ℕ)
  /-- The section of `close`: it answers the sessions to close. -/
  | clear
  | reclaim (identity : Identity) (globalCapacity : Bool)
  | protect (execution : ℕ)

section Calls

variable (E : Encoding)

/-- What the calls answer. -/
def ReadCall.Reply : ReadCall E → Type
  | .claim _ | .resolve _ => Except Problem Bool
  | .storeFailure _ | .preflight _ | .openReadSession _ | .retain _ _ | .getReceipt _
  | .storeClosed _ | .requestCancel _ => Except Problem Unit
  | .succeed _ => Except Problem Summaries
  | .claimPage _ => Except Registry.Refusal Registry.PageClaim
  | .fetchPage _ _ _ | .fetchExport _ _ _ => Except FetchProblem (List E.Row)
  | .hasBufferedRows _ | .unprotect _ | .reclaim _ _ => Bool
  | .respond _ _ _ _ _ => Option ℕ
  | .startExport _ _ _ _ => Except Registry.Refusal (ℕ × Option ℕ)
  | .clear => List ℕ
  | .closeReadSession _ | .markPendingClose _ | .releaseLease _ | .closeResult _
  | .cancelReadSession _ | .protect _ => Unit

/-- The interface of the service. -/
abbrev readInterface : Interface := ⟨ReadCall E, ReadCall.Reply E⟩

/-- A program of the service. -/
abbrev ReadProgram (α : Type) : Type := Program (readInterface E) Problem α

variable {E}

/-- Make a call. -/
def ask (request : ReadCall E) : ReadProgram E (request.Reply E) :=
  Program.ask (I := readInterface E) request

/-- Make a call of the repository that may raise. -/
def attempt {α : Type} (program : ReadProgram E (Except Problem α)) : ReadProgram E α :=
  Program.bind program fun outcome ↦
    match outcome with
    | .ok value => .done value
    | .error _ => .raise .repository

end Calls

section Programs

variable (E : Encoding)

/-! ### Running an execution -/

/-- `_record_run_failure`. -/
def recordRunFailure (execution : ℕ) : ReadProgram E Unit :=
  Program.bind (ask (.unprotect execution)) fun _ ↦
    Program.bind (ask (.storeFailure execution)) fun _ ↦ .done ()

/-- The exception handler of `run` with an open read session. -/
def abandonRun (execution : ℕ) : ReadProgram E Unit :=
  Program.bind (ask (.closeReadSession execution)) fun _ ↦ recordRunFailure E execution

/-- The part of `run` after its read session was opened. -/
def finishRun (execution : ℕ) : ReadProgram E Unit :=
  Program.bind (ask (.succeed execution)) fun (succeeded : Except Problem Summaries) ↦
    match succeeded with
    | .error _ => abandonRun E execution
    | .ok summaries =>
      Program.bind (ask (.retain execution summaries)) fun (retained : Except Problem Unit) ↦
        match retained with
        | .error _ => abandonRun E execution
        | .ok () => .done ()

/-- The part of `run` that opens the read session. -/
def openRun (execution : ℕ) : ReadProgram E Unit :=
  Program.bind (ask (.preflight execution)) fun (admitted : Except Problem Unit) ↦
    match admitted with
    | .error _ => recordRunFailure E execution
    | .ok () =>
      Program.bind (ask (.openReadSession execution)) fun (opened : Except Problem Unit) ↦
        match opened with
        | .error _ => recordRunFailure E execution
        | .ok () => finishRun E execution

/-- `run`. -/
def run (execution : ℕ) : ReadProgram E Unit :=
  Program.bind (ask (.claim execution)) fun (claimed : Except Problem Bool) ↦
    match claimed with
    | .error _ => recordRunFailure E execution
    | .ok false => .done ()
    | .ok true =>
      Program.bind (ask (.resolve execution)) fun (resolved : Except Problem Bool) ↦
        match resolved with
        | .error _ => recordRunFailure E execution
        | .ok false =>
          Program.bind (ask (.storeFailure execution)) fun (stored : Except Problem Unit) ↦
            match stored with
            | .error _ => recordRunFailure E execution
            | .ok () => .done ()
        | .ok true => openRun E execution

/-! ### Pages and exports -/

/-- Whether a page has a next one: a full page or buffered rows when the count is not known, or rows
up to the count. -/
def hasMore {E : Encoding} (claim : Registry.PageClaim) (rows : List E.Row) (buffered : Bool) :
    Bool :=
  match claim.rowCount with
  | none => decide (rows.length = claim.batchSize) || buffered
  | some count => decide (claim.offset + rows.length < count)

/-- The end of a page or an export whose fetch raised. -/
def abandonFetch (result : ResultId) (raised : FetchProblem → Problem) (problem : FetchProblem) :
    ReadProgram E Unit :=
  Program.bind (if problem.givesUp then ask (.markPendingClose result.execution) else .done ())
    fun _ ↦ Program.bind (ask (.releaseLease result)) fun _ ↦ .raise (raised problem)

/-- The part of `page` with the lease of its result. -/
def fetchLeased (request : Registry.PageRequest) (claim : Registry.PageClaim) : ReadProgram E Unit :=
  Program.bind (ask (.fetchPage request.result claim.offset claim.batchSize))
    fun (fetched : Except FetchProblem (List E.Row)) ↦
    match fetched with
    | .error problem => abandonFetch E request.result .page problem
    | .ok rows =>
      Program.bind (ask (.hasBufferedRows request.result)) fun (buffered : Bool) ↦
        Program.bind (ask (.respond request.result request.cursor claim.offset rows
          (hasMore claim rows buffered))) fun _ ↦
          Program.bind (ask (.releaseLease request.result)) fun _ ↦ .done ()

/-- `page`. -/
def page (request : Registry.PageRequest) : ReadProgram E Unit :=
  Program.bind (attempt (ask (.getReceipt request.execution))) fun _ ↦
    Program.bind (ask (.claimPage request))
      fun (claimed : Except Registry.Refusal Registry.PageClaim) ↦
      match claimed with
      | .error refusal => .raise (.refused refusal)
      | .ok claim => fetchLeased E request claim

/-- The chunks of an export after the first, as many as its consumer asks for. -/
def exportChunks (result : ResultId) (pageSize : ℕ) (rowCount : Option ℕ) :
    ℕ → ℕ → ReadProgram E (Except FetchProblem Unit)
  | 0, _ => .done (.ok ())
  | asked + 1, offset =>
    if rowCount.any fun count ↦ decide (count ≤ offset) then .done (.ok ())
    else
      Program.bind (ask (.fetchExport result offset pageSize))
        fun (fetched : Except FetchProblem (List E.Row)) ↦
        match fetched with
        | .error problem => .done (.error problem)
        | .ok rows =>
          if rows.isEmpty then .done (.ok ())
          else exportChunks result pageSize rowCount asked (offset + rows.length)

/-- The body of the stream of an export, up to where its consumer closes it. -/
def exportStream (result : ResultId) (pageSize : ℕ) (rowCount : Option ℕ) (asked : ℕ) :
    ReadProgram E Unit :=
  Program.bind (exportChunks E result pageSize rowCount asked 0) fun outcome ↦
    match outcome with
    | .error problem => abandonFetch E result .stream problem
    | .ok () => Program.bind (ask (.releaseLease result)) fun _ ↦ .done ()

/-- `export_csv` with its consumer, who asks for some chunks and closes the stream. A generator that
was not started runs none of its code when it is closed. -/
def exportCsv (owner : String) (workspace : Option String) (execution : ℕ) (result : ResultId)
    (asked : ℕ) : ReadProgram E Unit :=
  Program.bind (attempt (ask (.getReceipt execution))) fun _ ↦
    Program.bind (ask (.startExport owner workspace execution result))
      fun (started : Except Registry.Refusal (ℕ × Option ℕ)) ↦
      match started with
      | .error refusal => .raise (.refused refusal)
      | .ok (pageSize, rowCount) =>
        match asked with
        | 0 => .done ()
        | asked + 1 => exportStream E result pageSize rowCount asked

/-! ### The rest of the service -/

/-- `close_result`. -/
def closeResult (result : ResultId) : ReadProgram E Unit :=
  Program.bind (attempt (ask (.storeClosed result))) fun _ ↦ ask (.closeResult result)

/-- `cancel`. -/
def cancel (execution : ℕ) : ReadProgram E Unit :=
  Program.bind (attempt (ask (.requestCancel execution))) fun _ ↦
    Program.bind (ask (.unprotect execution)) fun (retained : Bool) ↦
      if retained then ask (.cancelReadSession execution) else .done ()

/-- Close some read sessions. -/
def closeEach : List ℕ → ReadProgram E Unit
  | [] => .done ()
  | execution :: rest => Program.bind (ask (.closeReadSession execution)) fun _ ↦ closeEach rest

/-- `close`. -/
def close : ReadProgram E Unit := Program.bind (ask .clear) fun sessions ↦ closeEach E sessions

/-- `_reclaim_read_session`, which the pool of connections calls. -/
def reclaim (identity : Identity) (globalCapacity : Bool) : ReadProgram E Unit :=
  Program.bind (ask (.reclaim identity globalCapacity)) fun _ ↦ .done ()

/-- The section of `reserve_read_target` that protects its execution. -/
def protect (execution : ℕ) : ReadProgram E Unit := ask (.protect execution)

/-- The programs of the service that may start. -/
inductive Starts : ReadProgram E Unit → Prop
  | run (execution : ℕ) : Starts (run E execution)
  | page (request : Registry.PageRequest) : Starts (page E request)
  | exportCsv (owner : String) (workspace : Option String) (execution : ℕ) (result : ResultId)
      (asked : ℕ) : Starts (exportCsv E owner workspace execution result asked)
  | closeResult (result : ResultId) : Starts (closeResult E result)
  | cancel (execution : ℕ) : Starts (cancel E execution)
  | close : Starts (close E)
  | reclaim (identity : Identity) (globalCapacity : Bool) : Starts (reclaim E identity globalCapacity)
  | protect (execution : ℕ) : Starts (protect E execution)

end Programs

/-! ### What the calls do -/

section Semantics

variable {E : Encoding}

/-- The rows of a read cursor, as the Console shows them. -/
def ReadCursor.source (reader : ReadCursor E) : List (Option E.Row) :=
  match reader.page.cursor with
  | none => reader.rows.map some
  | some selected => selected.map E.convert

/-- The count of the rows of a result, which is not known for a cursor. -/
def ReadCursor.rowCount (reader : ReadCursor E) : Option ℕ :=
  match reader.page.cursor with
  | none => some reader.rows.length
  | some _ => none

/-- A read cursor that was prepared and not read. -/
def ReadCursor.Prepared (reader : ReadCursor E) : Prop :=
  reader.page.position = 0 ∧ reader.page.pending = [] ∧ reader.exports = ⟨none, 0, []⟩

/-- The results of a read session. -/
def Connection.summaries (connection : Connection E) : Summaries :=
  connection.readers.entries.map fun entry ↦ (entry.1, entry.2.rowCount)

/-- The registry with a read session. -/
def Registry.writeConnection (registry : Registry E) (execution : ℕ) (connection : Connection E) :
    Registry E :=
  { registry with connections := registry.connections.insert execution connection }

/-- The registry with a read cursor of a read session. -/
def Registry.writeReader (registry : Registry E) (result : ResultId) (connection : Connection E)
    (reader : ReadCursor E) : Registry E :=
  registry.writeConnection result.execution
    { connection with readers := connection.readers.insert result.statement reader }

/-- A fetch of a read session, by what `_fetch_forward` computes. -/
inductive Fetches (fetch : ReadCursor E → Except FetchProblem (List E.Row × ReadCursor E))
    (move : ℕ → ReadCursor E → ReadCursor E) (result : ResultId) :
    Registry E → Except FetchProblem (List E.Row) → Registry E → Prop
  | unavailable {registry : Registry E}
      (hunavailable : ∀ connection, registry.connections.get? result.execution = some connection →
        connection.readers.get? result.statement = none ∨ connection.closed = true) :
      Fetches fetch move result registry (.error .unavailable) registry
  | cancelled {registry : Registry E} {connection : Connection E}
      (hconnection : registry.connections.get? result.execution = some connection)
      (hcancelled : connection.cancelled = true) :
      Fetches fetch move result registry (.error .cancelled) registry
  /-- PostgreSQL fails, after it has sent some rows. -/
  | failed {registry : Registry E} {connection : Connection E} {reader : ReadCursor E}
      (problem : FetchProblem) (sent : ℕ)
      (hproblem : problem = .query ∨ problem = .cancelled)
      (hconnection : registry.connections.get? result.execution = some connection)
      (hreader : connection.readers.get? result.statement = some reader)
      (hopen : connection.closed = false) :
      Fetches fetch move result registry (.error problem)
        (registry.writeReader result connection (move sent reader))
  /-- `_fetch_forward` raises; the session may be closed for it. -/
  | raised {registry : Registry E} {connection : Connection E} {reader : ReadCursor E}
      {problem : FetchProblem}
      (hconnection : registry.connections.get? result.execution = some connection)
      (hreader : connection.readers.get? result.statement = some reader)
      (hopen : connection.closed = false) (hfetch : fetch reader = .error problem) :
      Fetches fetch move result registry (.error problem)
        (if problem.closes then
          registry.closeConnections fun other ↦ decide (other = result.execution)
        else registry)
  | fetched {registry : Registry E} {connection : Connection E} {reader reader' : ReadCursor E}
      {rows : List E.Row}
      (hconnection : registry.connections.get? result.execution = some connection)
      (hreader : connection.readers.get? result.statement = some reader)
      (hopen : connection.closed = false) (hcancelled : connection.cancelled = false)
      (hfetch : fetch reader = .ok (rows, reader')) :
      Fetches fetch move result registry (.ok rows) (registry.writeReader result connection reader')

/-- The server-side cursor of the pages after some more rows were sent and lost. -/
def ReadCursor.movePage (sent : ℕ) (reader : ReadCursor E) : ReadCursor E :=
  { reader with page := { reader.page with cursor := reader.page.cursor.map (·.drop sent) } }

/-- The server-side cursor of the exports after some more rows were sent and lost. -/
def ReadCursor.moveExport (sent : ℕ) (reader : ReadCursor E) : ReadCursor E :=
  { reader with exports := { reader.openExport with
      cursor := reader.openExport.cursor.map (·.drop sent) } }

/-- The section of `page` that issues a token, unless the result is about to close. A result that was
cleared away meanwhile may get one too. -/
inductive Responds (result : ResultId) (cursor : Option ℕ) (offset : ℕ) (rows : List E.Row)
    (hasMore : Bool) : Registry E → Option ℕ → Registry E → Prop
  | last {registry : Registry E}
      (hlast : ∀ value, registry.transientResults.get? result = some value →
        (hasMore && !value.pendingClose) = false) :
      Responds result cursor offset rows hasMore registry none
        { registry with
          pager := Function.update registry.pager result none
          pages := ⟨result, cursor, offset, rows, none,
            (registry.transientResults.get? result).all (·.pendingClose)⟩ :: registry.pages }
  | next {registry : Registry E} (token expiresAt : ℕ) (hmore : hasMore = true)
      (hresult : ∀ value, registry.transientResults.get? result = some value →
        value.pendingClose = false ∧ expiresAt = value.expiresAt)
      (hfresh : token ∉ registry.issued) :
      Responds result cursor offset rows hasMore registry (some token)
        { registry with
          resultCursors := registry.resultCursors.insert token
            ⟨result, offset + rows.length, expiresAt⟩
          issued := token :: registry.issued
          pager := Function.update registry.pager result none
          pages := ⟨result, cursor, offset, rows, some token, false⟩ :: registry.pages }

/-- The preflights that no longer stand when a session of an identity was retained. -/
def Registry.overtake (records : ℕ → ExecutionRecord) (identity : Identity)
    (registry : Registry E) : Registry E :=
  { registry with standing := fun other ↦
      registry.standing other && decide ((records other).target ≠ identity) }

/-- `_retain_results` of a thread. -/
inductive Retains (settings : Settings) (records : ℕ → ExecutionRecord) (execution : ℕ)
    (summaries : Summaries) : Registry E → Except Problem Unit → Registry E → Prop
  | retained {registry : Registry E} (expiresAt now : ℕ)
      (hroom : (registry.retainResults settings (records execution) execution expiresAt summaries
        now).1 = true) :
      Retains settings records execution summaries registry (.ok ())
        ((registry.retainResults settings (records execution) execution expiresAt summaries now).2
          |>.overtake records (records execution).target)
  | refused {registry : Registry E} (expiresAt now : ℕ)
      (hfull : (registry.retainResults settings (records execution) execution expiresAt summaries
        now).1 = false) :
      Retains settings records execution summaries registry (.error .capacity)
        (registry.retainResults settings (records execution) execution expiresAt summaries now).2

/-- `_make_read_session_capacity` for an execution. -/
inductive Admits (settings : Settings) (records : ℕ → ExecutionRecord) (execution : ℕ) :
    Registry E → Except Problem Unit → Registry E → Prop
  | admitted {registry : Registry E} (now : ℕ)
      (hroom : (registry.makeReadSessionCapacity settings (records execution).target now).1 = true) :
      Admits settings records execution registry (.ok ())
        { (registry.makeReadSessionCapacity settings (records execution).target now).2 with
          standing := Function.update
            (registry.makeReadSessionCapacity settings (records execution).target now).2.standing
            execution true }
  | refused {registry : Registry E} (now : ℕ)
      (hfull : (registry.makeReadSessionCapacity settings (records execution).target now).1 =
        false) :
      Admits settings records execution registry (.error .capacity)
        (registry.makeReadSessionCapacity settings (records execution).target now).2

/-- `open_console_read_session`: every statement gets a read cursor. -/
inductive Opens (thread execution : ℕ) : Registry E → Except Problem Unit → Registry E → Prop
  | failed (registry : Registry E) (problem : Problem) :
      Opens thread execution registry (.error problem) registry
  | opened {registry : Registry E} (readers : Dictionary ℕ (ReadCursor E))
      (hstatements : readers.entries ≠ [])
      (hprepared : ∀ statement reader, readers.get? statement = some reader → reader.Prepared) :
      Opens thread execution registry (.ok ())
        { registry.writeConnection execution ⟨false, false, some thread, readers⟩ with
          sources := fun result ↦
            if result.execution = execution then
              ((readers.get? result.statement).map ReadCursor.source).getD []
            else registry.sources result }

/-- `repository.succeed`. -/
inductive Succeeds (execution : ℕ) (registry : Registry E) : Except Problem Summaries → Prop
  | failed (problem : Problem) : Succeeds execution registry (.error problem)
  | cancelled (hcancelled : registry.cancelRequested execution = true) :
      Succeeds execution registry (.ok [])
  | stored {connection : Connection E} (hcancelled : registry.cancelRequested execution = false)
      (hconnection : registry.connections.get? execution = some connection) :
      Succeeds execution registry (.ok connection.summaries)

/-- What the calls of a thread answer and do. -/
def registrySemantics (settings : Settings) (records : ℕ → ExecutionRecord) :
    Semantics (readInterface E) (Registry E) where
  perform := fun thread request before reply after ↦
    match request, reply with
    | .claim execution, reply =>
      (after = before ∧ reply ≠ .ok true) ∨
      (reply = .ok true ∧ before.claimedBy execution = none ∧
        after = { before with
          claimedBy := Function.update before.claimedBy execution (some thread) })
    | .resolve _, _ | .storeFailure _, _ | .getReceipt _, _ | .storeClosed _, _ => after = before
    | .preflight execution, reply => Admits settings records execution before reply after
    | .openReadSession execution, reply => Opens thread execution before reply after
    | .succeed execution, reply => after = before ∧ Succeeds execution before reply
    | .retain execution summaries, reply =>
      Retains settings records execution summaries before reply after
    | .closeReadSession execution, _ =>
      after = before.closeConnections fun other ↦ decide (other = execution)
    | .claimPage request, reply =>
      ∃ now, (reply, after) = before.claimPage settings thread request now
    | .fetchPage result offset pageSize, reply =>
      Fetches (fun reader ↦ reader.fetchPage settings.pageMemoryBytes offset pageSize)
        ReadCursor.movePage result before reply after
    | .hasBufferedRows result, reply => after = before ∧
        reply = ((before.connections.get? result.execution).bind fun connection ↦
          connection.readers.get? result.statement).any fun reader ↦ !reader.page.pending.isEmpty
    | .respond result cursor offset rows hasMore, reply =>
      Responds result cursor offset rows hasMore before reply after
    | .markPendingClose execution, _ => after = before.markPendingClose execution
    | .releaseLease result, _ => ∃ now, after = before.releaseLease thread result now
    | .startExport owner workspace execution result, reply =>
      ∃ now, (reply, after) = before.startExport thread owner workspace execution result now
    | .fetchExport result offset pageSize, reply =>
      Fetches (fun reader ↦ reader.fetchExport settings.pageMemoryBytes offset pageSize)
        ReadCursor.moveExport result before reply after
    | .closeResult result, _ => after = before.closeResult result
    | .requestCancel execution, reply =>
      (∃ problem, reply = .error problem ∧ after = before) ∨
      (reply = .ok () ∧ after = { before with
        cancelRequested := Function.update before.cancelRequested execution true })
    | .unprotect execution, reply => after = before.unprotect execution ∧
        reply = before.activeReadSessions.contains execution
    | .cancelReadSession execution, _ => after = match before.connections.get? execution with
        | some connection => before.writeConnection execution
            (if connection.closed then connection else { connection with cancelled := true })
        | none => before
    | .clear, reply => reply = before.activeReadSessions.keys ∧ after = before.clear thread
    | .reclaim identity globalCapacity, reply =>
      ∃ now, (reply, after) = before.reclaimReadSession identity globalCapacity now
    | .protect execution, _ => ∃ now later, after = before.protectResult settings execution now later
  environment := fun _ _ ↦ False

theorem perform_cancelReadSession {settings : Settings} {records : ℕ → ExecutionRecord}
    {thread execution : ℕ} {before after : Registry E} {reply : Unit}
    (h : (registrySemantics settings records).perform thread (.cancelReadSession execution) before
      reply after) :
    (∃ connection, before.connections.get? execution = some connection ∧
      after = before.writeConnection execution
        (if connection.closed then connection else { connection with cancelled := true })) ∨
      before.connections.get? execution = none ∧ after = before := by
  simp only [registrySemantics] at h
  split at h
  · next connection hconnection => exact .inl ⟨connection, hconnection, h⟩
  · next hnone => exact .inr ⟨hnone, h⟩

/-! ### A service that answers -/

/-- What a fetch answers when PostgreSQL does not fail. -/
def answerFetch (fetch : ReadCursor E → Except FetchProblem (List E.Row × ReadCursor E))
    (result : ResultId) (registry : Registry E) :
    Except FetchProblem (List E.Row) × Registry E :=
  match registry.connections.get? result.execution with
  | none => (.error .unavailable, registry)
  | some connection =>
    if connection.cancelled then (.error .cancelled, registry)
    else if connection.closed then (.error .unavailable, registry)
    else
      match connection.readers.get? result.statement with
      | none => (.error .unavailable, registry)
      | some reader =>
        match fetch reader with
        | .error problem => (.error problem, if problem.closes then
            registry.closeConnections fun other ↦ decide (other = result.execution) else registry)
        | .ok (rows, reader') => (.ok rows, registry.writeReader result connection reader')

/-- What the calls answer at one time when neither the repository nor PostgreSQL fails, with the read
cursors that each execution prepares. -/
def answerCall (settings : Settings) (records : ℕ → ExecutionRecord) (now : ℕ)
    (prepared : ℕ → Dictionary ℕ (ReadCursor E)) (thread : ℕ) (request : ReadCall E)
    (registry : Registry E) : request.Reply E × Registry E :=
  match request with
  | .claim execution =>
    if registry.claimedBy execution = none then
      (.ok true, { registry with
        claimedBy := Function.update registry.claimedBy execution (some thread) })
    else (.ok false, registry)
  | .resolve _ => (.ok true, registry)
  | .storeFailure _ | .getReceipt _ | .storeClosed _ => (.ok (), registry)
  | .preflight execution =>
    let made := registry.makeReadSessionCapacity settings (records execution).target now
    if made.1 then (.ok (), { made.2 with
      standing := Function.update made.2.standing execution true })
    else (.error .capacity, made.2)
  | .openReadSession execution =>
    (.ok (), { registry.writeConnection execution ⟨false, false, some thread, prepared execution⟩ with
      sources := fun result ↦
        if result.execution = execution then
          (((prepared execution).get? result.statement).map ReadCursor.source).getD []
        else registry.sources result })
  | .succeed execution =>
    if registry.cancelRequested execution then (.ok [], registry)
    else
      match registry.connections.get? execution with
      | some connection => (.ok connection.summaries, registry)
      | none => (.error .repository, registry)
  | .retain execution summaries =>
    let made := registry.retainResults settings (records execution) execution
      (now + settings.resultTtl) summaries now
    if made.1 then (.ok (), made.2.overtake records (records execution).target)
    else (.error .capacity, made.2)
  | .closeReadSession execution =>
    ((), registry.closeConnections fun other ↦ decide (other = execution))
  | .claimPage request => registry.claimPage settings thread request now
  | .fetchPage result offset pageSize =>
    answerFetch (fun reader ↦ reader.fetchPage settings.pageMemoryBytes offset pageSize) result
      registry
  | .hasBufferedRows result =>
    (((registry.connections.get? result.execution).bind fun connection ↦
      connection.readers.get? result.statement).any fun reader ↦ !reader.page.pending.isEmpty,
      registry)
  | .respond result cursor offset rows hasMore =>
    if hasMore && !((registry.transientResults.get? result).any (·.pendingClose)) then
      (some (registry.issued.sum + 1), { registry with
        resultCursors := registry.resultCursors.insert (registry.issued.sum + 1)
          ⟨result, offset + rows.length,
            ((registry.transientResults.get? result).map (·.expiresAt)).getD 0⟩
        issued := (registry.issued.sum + 1) :: registry.issued
        pager := Function.update registry.pager result none
        pages := ⟨result, cursor, offset, rows, some (registry.issued.sum + 1), false⟩ ::
          registry.pages })
    else
      (none, { registry with
        pager := Function.update registry.pager result none
        pages := ⟨result, cursor, offset, rows, none,
          (registry.transientResults.get? result).all (·.pendingClose)⟩ :: registry.pages })
  | .markPendingClose execution => ((), registry.markPendingClose execution)
  | .releaseLease result => ((), registry.releaseLease thread result now)
  | .startExport owner workspace execution result =>
    registry.startExport thread owner workspace execution result now
  | .fetchExport result offset pageSize =>
    answerFetch (fun reader ↦ reader.fetchExport settings.pageMemoryBytes offset pageSize) result
      registry
  | .closeResult result => ((), registry.closeResult result)
  | .requestCancel execution => (.ok (), { registry with
      cancelRequested := Function.update registry.cancelRequested execution true })
  | .unprotect execution =>
    (registry.activeReadSessions.contains execution, registry.unprotect execution)
  | .cancelReadSession execution =>
    ((), match registry.connections.get? execution with
      | some connection => registry.writeConnection execution
          (if connection.closed then connection else { connection with cancelled := true })
      | none => registry)
  | .clear => (registry.activeReadSessions.keys, registry.clear thread)
  | .reclaim identity globalCapacity => registry.reclaimReadSession identity globalCapacity now
  | .protect execution => ((), registry.protectResult settings execution now now)

theorem answerFetch_fetches
    (fetch : ReadCursor E → Except FetchProblem (List E.Row × ReadCursor E))
    (move : ℕ → ReadCursor E → ReadCursor E) (result : ResultId) (registry : Registry E) :
    Fetches fetch move result registry (answerFetch fetch result registry).1
      (answerFetch fetch result registry).2 := by
  unfold answerFetch
  split
  · next hnone =>
    refine .unavailable fun connection hconnection ↦ ?_
    rw [hnone] at hconnection
    cases hconnection
  · next connection hconnection =>
    have hothers : ∀ other, registry.connections.get? result.execution = some other →
        other = connection := fun other hother ↦ Option.some.inj (hother.symm.trans hconnection)
    split
    · next hcancelled => exact .cancelled hconnection hcancelled
    · next hcancelled =>
      split
      · next hclosed =>
        exact .unavailable fun other hother ↦ .inr (hothers other hother ▸ hclosed)
      · next hopen =>
        split
        · next hnone => exact .unavailable fun other hother ↦ .inl (hothers other hother ▸ hnone)
        · next reader hreader =>
          split
          · next problem hfetch => exact .raised hconnection hreader (by simpa using hopen) hfetch
          · next rows reader' hfetch =>
            exact .fetched hconnection hreader (by simpa using hopen) (by simpa using hcancelled)
              hfetch

/-- Assumes: every execution prepares read cursors, for one statement at least. The semantics allows
every answer. -/
theorem answerCall_performs (settings : Settings) (records : ℕ → ExecutionRecord) (now : ℕ)
    {prepared : ℕ → Dictionary ℕ (ReadCursor E)}
    (hstatements : ∀ execution, (prepared execution).entries ≠ [])
    (hprepared : ∀ execution statement reader,
      (prepared execution).get? statement = some reader → reader.Prepared)
    (thread : ℕ) (request : ReadCall E) (registry : Registry E) :
    (registrySemantics settings records).perform thread request registry
      (answerCall settings records now prepared thread request registry).1
      (answerCall settings records now prepared thread request registry).2 := by
  cases request with
  | claim execution =>
    by_cases hfree : registry.claimedBy execution = none
    · simp only [answerCall, if_pos hfree]
      exact .inr ⟨rfl, hfree, rfl⟩
    · simp only [answerCall, if_neg hfree]
      exact .inl ⟨rfl, fun (hsame : (Except.ok false : Except Problem Bool) = .ok true) ↦ by
        cases hsame⟩
  | resolve execution => rfl
  | storeFailure execution => rfl
  | getReceipt execution => rfl
  | storeClosed result => rfl
  | preflight execution =>
    simp only [answerCall]
    split
    · next hroom => exact .admitted now hroom
    · next hfull => exact .refused now (by simpa using hfull)
  | openReadSession execution =>
    exact .opened (prepared execution) (hstatements execution) (hprepared execution)
  | succeed execution =>
    simp only [answerCall]
    split
    · next hcancelled => exact ⟨rfl, .cancelled hcancelled⟩
    · next hcancelled =>
      split
      · next connection hconnection =>
        exact ⟨rfl, .stored (by simpa using hcancelled) hconnection⟩
      · exact ⟨rfl, .failed _⟩
  | retain execution summaries =>
    simp only [answerCall]
    split
    · next hroom => exact .retained _ now hroom
    · next hfull => exact .refused _ now (by simpa using hfull)
  | closeReadSession execution => rfl
  | claimPage request => exact ⟨now, rfl⟩
  | fetchPage result offset pageSize => exact answerFetch_fetches _ _ result registry
  | hasBufferedRows result => exact ⟨rfl, rfl⟩
  | respond result cursor offset rows hasMore =>
    simp only [answerCall]
    split
    · next hmore =>
      simp only [Bool.and_eq_true, Bool.not_eq_true'] at hmore
      refine .next _ _ hmore.1 (fun value hvalue ↦ ?_) fun hmem ↦ ?_
      · rw [hvalue] at hmore ⊢
        exact ⟨hmore.2, rfl⟩
      · have hle := List.le_sum_of_mem hmem
        omega
    · next hlast =>
      refine .last fun value hvalue ↦ ?_
      rw [hvalue] at hlast
      simpa using hlast
  | markPendingClose execution => rfl
  | releaseLease result => exact ⟨now, rfl⟩
  | startExport owner workspace execution result => exact ⟨now, rfl⟩
  | fetchExport result offset pageSize => exact answerFetch_fetches _ _ result registry
  | closeResult result => rfl
  | requestCancel execution => exact .inr ⟨rfl, rfl⟩
  | unprotect execution => exact ⟨rfl, rfl⟩
  | cancelReadSession execution => rfl
  | clear => exact ⟨rfl, rfl⟩
  | reclaim identity globalCapacity => exact ⟨now, rfl⟩
  | protect execution => exact ⟨now, now, rfl⟩

/-- Rows of one number. -/
def numberRows : Encoding := ⟨ℕ, ℕ, some, fun _ ↦ 1⟩

/-- Executions of one owner on one connection. -/
def sampleRecord : ExecutionRecord := ⟨"owner", none, ("connection", 1), 2⟩

/-- A statement that selects some numbers. -/
def sampleReaders (selected : List ℕ) : Dictionary ℕ (ReadCursor numberRows) :=
  Dictionary.empty.insert 0 ⟨[], ⟨some selected, 0, []⟩, ⟨none, 0, []⟩, some selected, none⟩

/-- The pool of a new service in which some programs have started. -/
def startedPool (programs : List (ReadProgram E Unit)) :
    Pool (readInterface E) Problem (Registry E) :=
  programs.foldl (fun pool program ↦ ⟨pool.world,
    Function.update pool.threads pool.spawned (some program), pool.spawned + 1⟩)
    (Pool.initial Registry.initial)

/-- Assumes: programs that may start. The pool in which they have started is reachable. -/
theorem startedPool_reachable {S : Semantics (readInterface E) (Registry E)}
    {starts : ReadProgram E Unit → Prop} (programs : List (ReadProgram E Unit))
    (hstarts : ∀ program ∈ programs, starts program) :
    Pool.Reachable S starts (· = Registry.initial) (startedPool programs) := by
  have hinitial : Pool.Reachable S starts (· = Registry.initial)
      (Pool.initial (Registry.initial : Registry E)) := ⟨_, rfl, .refl⟩
  unfold startedPool
  generalize Pool.initial (Registry.initial : Registry E) = pool at hinitial
  induction programs generalizing pool with
  | nil => exact hinitial
  | cons program rest ih =>
    exact ih (fun other hother ↦ hstarts other (List.mem_cons_of_mem _ hother)) _
      (hinitial.step (.spawn program (hstarts program List.mem_cons_self)))

/-- A pool that a schedule of calls reaches from some programs, at time 1 and with one statement that
selects the same numbers in every execution. -/
def samplePool (settings : Settings) (selected : List ℕ)
    (programs : List (ReadProgram numberRows Unit)) (schedule : List ℕ) :
    Pool (readInterface numberRows) Problem (Registry numberRows) :=
  (startedPool programs).follow (answerCall settings (fun _ ↦ sampleRecord) 1 fun _ ↦
    sampleReaders selected) schedule

/-- Assumes: programs that may start, and a schedule whose calls meet a condition. The pool that the
schedule reaches is reachable under the condition. -/
theorem samplePool_reachable {settings : Settings} {selected : List ℕ}
    {starts : ReadProgram numberRows Unit → Prop}
    {condition : ReadCall numberRows → Registry numberRows → Prop}
    {programs : List (ReadProgram numberRows Unit)} {schedule : List ℕ}
    (hstarts : ∀ program ∈ programs, starts program)
    (hfollows : (startedPool programs).Follows (answerCall settings (fun _ ↦ sampleRecord) 1 fun _ ↦
      sampleReaders selected) condition schedule) :
    Pool.Reachable ((registrySemantics settings fun _ ↦ sampleRecord).restrict condition) starts
      (· = Registry.initial) (samplePool settings selected programs schedule) := by
  refine Pool.Reachable.follow (answerCall_performs settings (fun _ ↦ sampleRecord) 1
    (fun execution ↦ by simp [sampleReaders, Dictionary.insert, Dictionary.insertEntries,
      Dictionary.empty]) fun execution statement reader hreader ↦ ?_)
    (startedPool_reachable programs hstarts) schedule hfollows
  simp only [sampleReaders, Dictionary.get?_insert, Dictionary.get?_empty] at hreader
  split at hreader
  · obtain rfl := Option.some.inj hreader
    exact ⟨rfl, rfl, rfl⟩
  · cases hreader

end Semantics

end Schemii.ReadSessions
