import Schemii.RawSessions.Service

/-!
# Leases of raw sessions

The registry of `RawSessionService` and what each section of the service does to it. The operation
lock of a session is a field with the thread that holds it; `claim` takes it without waiting, `close`
waits for it. A section that closes a session closes its connection and takes it out of the registry,
so the registered sessions are the ones that are not closed.

Three fields record what happened and are read by nothing: `claims` and `releases`, with the thread
and the session of each successful claim and of its release, and `misuse`, an entry for every use of
a connection by a thread that does not hold the lock of an open session, and for every release of a
lock by a thread that does not hold it. `closeReturned` says that `close` has returned.
-/

set_option autoImplicit false

namespace Schemii.RawSessions

open Schemii.Foundations

/-- The status of a session. -/
inductive SessionStatus
  | open
  | running
  | closed
  deriving DecidableEq, Repr

/-- A session: the operation lock is held by a thread or free, and the connection is open or
closed. -/
structure Session where
  key : Key
  status : SessionStatus
  operation : Option ℕ
  operationStarted : Bool
  cancelled : Bool
  connected : Bool
  used : ℕ
  revision : ℕ
  deriving DecidableEq, Repr

/-- A session that is opening: the thread that opens it, and whether its connection is open. -/
structure Opening where
  thread : ℕ
  connected : Bool
  deriving DecidableEq, Repr

/-- A use of a connection without its lease, or a release of a lease that is not held. -/
structure Misuse where
  thread : ℕ
  session : ℕ
  deriving DecidableEq, Repr

/-- The limits of the service. -/
structure Limits where
  maximum : ℕ
  perOwner : ℕ

/-- The registry. -/
structure Manager where
  sessions : Dictionary ℕ Session
  opening : Dictionary Key Opening
  closed : Bool
  released : ℕ → Bool
  claims : List (ℕ × ℕ)
  releases : List (ℕ × ℕ)
  misuse : List Misuse
  closeReturned : Bool

namespace Manager

/-- The registry of a new service. -/
def initial : Manager := ⟨.empty, .empty, false, fun _ ↦ false, [], [], [], false⟩

/-- The sessions in the registry. -/
def live (manager : Manager) : List ℕ :=
  (manager.sessions.entries.filter fun entry ↦ entry.2.status ≠ .closed).map Prod.fst

/-- Write a session. -/
def write (manager : Manager) (session : ℕ) (value : Session) : Manager :=
  { manager with sessions := manager.sessions.insert session value }

/-- Record a use of the connection of a session by a thread. -/
def use (manager : Manager) (thread session : ℕ) : Manager :=
  match manager.sessions.get? session with
  | some value =>
    if value.operation = some thread ∧ value.status ≠ .closed then manager
    else { manager with misuse := ⟨thread, session⟩ :: manager.misuse }
  | none => { manager with misuse := ⟨thread, session⟩ :: manager.misuse }

/-- Record that a lease of a thread ended. -/
def recordRelease (manager : Manager) (holder : Option ℕ) (session : ℕ) : Manager :=
  match holder with
  | some thread => { manager with releases := (thread, session) :: manager.releases }
  | none => manager

/-- `release`, at some time. -/
def release (manager : Manager) (thread session now : ℕ) : Manager :=
  match manager.sessions.get? session with
  | some value =>
    if value.status = .closed then manager
    else
      let released := (manager.write session { value with
        status := .open, used := now, revision := value.revision + 1, operation := none }).recordRelease
          value.operation session
      if value.operation = some thread then released
      else { released with misuse := ⟨thread, session⟩ :: released.misuse }
  | none => manager

/-- `_close_claimed`. -/
def closeClaimed (value : Session) : Session :=
  { value with connected := false, status := .closed }

/-- The sessions and openings of an owner. -/
def ownerCount (manager : Manager) (owner : String) : ℕ :=
  (manager.sessions.values.filter fun value ↦ value.status ≠ .closed ∧ value.key.1 = owner).length
    + (manager.opening.keys.filter fun key ↦ key.1 = owner).length

/-- Whether `create` admits a session. -/
def admits (limits : Limits) (manager : Manager) (key : Key) : Bool :=
  !manager.closed && decide (manager.live.length + manager.opening.size < limits.maximum)
    && decide (manager.ownerCount key.1 < limits.perOwner) && !manager.opening.contains key
    && !manager.sessions.values.any fun value ↦ value.status ≠ .closed ∧ value.key = key

end Manager

/-- `claim` by a thread. It is refused, also when the connection cannot be armed, or takes the lock of
a session that is not closed and has the expected revision. -/
inductive Claims (thread session : ℕ) (expectedRevision : Option ℕ) (reserved : Bool) :
    Manager → Except Raised Unit → Manager → Prop
  | refused (manager : Manager) (error : Raised) :
      Claims thread session expectedRevision reserved manager (.error error) manager
  | granted {manager : Manager} {value : Session} (now : ℕ)
      (hsession : manager.sessions.get? session = some value) (hstatus : value.status ≠ .closed)
      (hrevision : ∀ expected ∈ expectedRevision, expected = value.revision)
      (hfree : value.operation = none) :
      Claims thread session expectedRevision reserved manager (.ok ())
        { manager.write session { value with
            operation := some thread, cancelled := false, operationStarted := !reserved,
            status := .running, used := now, revision := value.revision + 1 } with
          claims := (thread, session) :: manager.claims }

/-- `start_reserved`. -/
inductive StartsReserved (session : ℕ) : Manager → Except Raised Unit → Manager → Prop
  | refused {manager : Manager} (error : Raised) :
      StartsReserved session manager (.error error) manager
  | started {manager : Manager} {value : Session}
      (hsession : manager.sessions.get? session = some value) (hopen : manager.closed = false)
      (hstatus : value.status ≠ .closed) (hcancelled : value.cancelled = false) :
      StartsReserved session manager (.ok ())
        (manager.write session { value with operationStarted := true })

/-- The section of `close_session`. The lock is taken and released in it. -/
inductive ClosesSession (thread session : ℕ) (expectedRevision : Option ℕ) (closed : Bool) :
    Manager → Except Raised Unit → Manager → Prop
  | already {manager : Manager} {value : Session}
      (hsession : manager.sessions.get? session = some value) (hstatus : value.status = .closed) :
      ClosesSession thread session expectedRevision closed manager (.ok ()) manager
  | refused (manager : Manager) (error : Raised) :
      ClosesSession thread session expectedRevision closed manager (.error error) manager
  | closes {manager : Manager} {value : Session} (now : ℕ)
      (hsession : manager.sessions.get? session = some value) (hstatus : value.status ≠ .closed)
      (hopen : closed = false)
      (hrevision : ∀ expected ∈ expectedRevision, expected = value.revision)
      (hfree : value.operation = none) :
      ClosesSession thread session expectedRevision closed manager (.ok ())
        { manager.write session (Manager.closeClaimed { value with
            cancelled := false, operationStarted := true, used := now,
            revision := value.revision + 1 }) with
          claims := (thread, session) :: manager.claims
          releases := (thread, session) :: manager.releases }

/-- The section of `reap` for one session. -/
def reapSection (idleSeconds session now : ℕ) (manager : Manager) : Manager :=
  match manager.sessions.get? session with
  | some value =>
    if value.status = .open ∧ idleSeconds ≤ now - value.used ∧ value.operation = none then
      manager.write session (Manager.closeClaimed value)
    else manager
  | none => manager

/-- The section of `close` that cancels a session, and retires a reservation that was not started. It
answers whether the session is closed. -/
def retireSection (session : ℕ) (manager : Manager) : Bool × Manager :=
  match manager.sessions.get? session with
  | some value =>
    if value.status = .closed then (true, manager)
    else if value.status = .running ∧ value.operationStarted = false then
      (true, (manager.write session (Manager.closeClaimed { value with
        cancelled := true, operation := none })).recordRelease value.operation session)
    else (false, manager.write session { value with cancelled := true })
  | none => (true, manager)

/-- The section of `close` that closes a session whose operation lock it holds, and releases it. -/
def closeHeldSection (thread session : ℕ) (manager : Manager) : Manager :=
  match manager.sessions.get? session with
  | some value =>
    let released := (manager.write session { Manager.closeClaimed value with
      operation := none }).recordRelease value.operation session
    if value.operation = some thread then released
    else { released with misuse := ⟨thread, session⟩ :: released.misuse }
  | none => manager

/-- The session that `create` registers. -/
def Session.new (key : Key) (now : ℕ) : Session := ⟨key, .open, none, false, false, true, now, 1⟩

/-- `register`: the connection is closed when the service is. -/
inductive Registers (thread : ℕ) (key : Key) : Manager → Except Raised Unit → Manager → Prop
  | refused {manager : Manager} (error : Raised) (hclosed : manager.closed = true) :
      Registers thread key manager (.error error)
        { manager with opening := manager.opening.insert key ⟨thread, false⟩ }
  | registered {manager : Manager} (session now : ℕ) (hclosed : manager.closed = false)
      (hfresh : manager.sessions.get? session = none) :
      Registers thread key manager (.ok ())
        { manager.write session (.new key now) with
          opening := manager.opening.insert key ⟨thread, false⟩ }

/-- `RAW_SESSION_IDLE_SECONDS`. -/
def rawSessionIdleSeconds : ℕ := 1800

/-- What the calls of a thread do to the registry. -/
def managerSemantics (limits : Limits) : Semantics rawInterface Manager where
  perform := fun thread request before reply after ↦
    match request, reply with
    | .lookup session, reply => after = before ∧ (reply = .ok () →
        ∃ value, before.sessions.get? session = some value ∧ value.status ≠ .closed)
    | .readClosed, reply => reply = before.closed ∧ after = before
    | .claim session expectedRevision reserved, reply =>
      Claims thread session expectedRevision reserved before reply after
    | .release session, _ => ∃ now, after = before.release thread session now
    | .startReserved session, reply => StartsReserved session before reply after
    | .cancel session, _ => after = match before.sessions.get? session with
        | some value => before.write session { value with cancelled := true }
        | none => before
    | .isCancelled session, reply => after = before ∧
        ∀ value, before.sessions.get? session = some value → reply = value.cancelled
    | .isAuthorized, _ | .recordHistory, _ | .enterCancellable, _ | .transactionStatus _, _
    | .ticket _, _ => after = before
    | .execute session _, _ | .rollback session, _ | .copy session, _ =>
      after = before.use thread session
    | .closeConnection session, _ => after = match before.sessions.get? session with
        | some value => (before.use thread session).write session { value with connected := false }
        | none => before.use thread session
    | .openDownload, _ =>
      after = { before with released := Function.update before.released thread false }
    | .finishDownload session, _ =>
      if before.released thread then after = before
      else ∃ now, after = { before.release thread session now with
        released := Function.update before.released thread true }
    | .closeSession session expectedRevision closed, reply =>
      ClosesSession thread session expectedRevision closed before reply after
    | .liveSessions, reply => reply = before.live ∧ after = before
    | .reap session, _ => ∃ now, after = reapSection rawSessionIdleSeconds session now before
    | .beginClose, reply => reply = before.live ∧ after = { before with closed := true }
    | .retire session, reply => (reply, after) = retireSection session before
    | .acquireOperation session, _ => ∃ value, before.sessions.get? session = some value ∧
        value.operation = none ∧
        after = { before.write session { value with operation := some thread } with
          claims := (thread, session) :: before.claims }
    | .closeHeld session, _ => after = closeHeldSection thread session before
    | .awaitOpening, _ =>
      before.opening.entries = [] ∧ after = { before with closeReturned := true }
    | .admitKey key, reply =>
      (∃ error, reply = .error error ∧ after = before) ∨
      (reply = .ok () ∧ before.admits limits key = true ∧
        after = { before with opening := before.opening.insert key ⟨thread, false⟩ })
    | .connect key, reply =>
      (∃ error, reply = .error error ∧ after = before) ∨
      (reply = .ok () ∧ after = { before with
        opening := before.opening.insert key ⟨thread, true⟩ })
    | .register key, reply => Registers thread key before reply after
    | .discard key, _ => after = { before with opening := before.opening.erase key }
  environment := fun _ _ ↦ False

/-- The programs of the service that may start. -/
inductive Starts : RawProgram Unit → Prop
  | createExecution (session : ℕ) (body : Body) :
      Starts (Program.bind (createExecution session body) fun _ ↦ .done ())
  | executeForAssistant (session : ℕ) (body : Body) :
      Starts (Program.bind (executeForAssistant session body) fun _ ↦ .done ())
  | download (session : ℕ) (script : Script) (mode : CommitMode) (asked : ℕ) :
      Starts (download session script mode asked)
  | upload (session : ℕ) (script : Script) (mode : CommitMode) (chunks : ℕ) :
      Starts (upload session script mode chunks)
  | cancel (session : ℕ) : Starts (cancelRequest session)
  | closeSession (session : ℕ) (expectedRevision : Option ℕ) :
      Starts (closeRequest session expectedRevision)
  | create (key : Key) : Starts (create key)
  | reap : Starts reap
  | close : Starts close

end Schemii.RawSessions
