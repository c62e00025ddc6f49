import Schemii.RawSessions.Lease

/-!
# The invariant of the leases

What holds of the registry of raw sessions in every state, and what a thread may rely on while the
others act. `LeaseInv` is the invariant: nothing was misused, a closed session has no connection,
every claim was released once or is held, and nothing is open when `close` has returned. `LeaseRely`
is what the others leave alone: a started operation keeps its lease, and a reservation keeps it
unless `close` retires it with its session.

* `neutral_keeps` and `uses_keeps`: reads, sections that close an idle session, and uses of a
  connection by the thread that works on it keep all of it.
* `claims_granted`, `startsReserved_started` and `release_frees`: how a lease is taken, started and
  let go.
-/

set_option autoImplicit false

namespace Schemii.RawSessions

open Schemii.Foundations

/-! ### The invariant -/

/-- How many leases of a session a thread holds. -/
def Manager.held (manager : Manager) (thread session : ℕ) : ℕ :=
  match manager.sessions.get? session with
  | some value => if value.operation = some thread then 1 else 0
  | none => 0

/-- The invariant of the registry. -/
structure LeaseInv (manager : Manager) : Prop where
  /-- Nothing was misused. -/
  misuse : manager.misuse = []
  /-- A closed session has no connection. -/
  closed : ∀ session value, manager.sessions.get? session = some value → value.status = .closed →
    value.connected = false
  /-- A running session has a holder. -/
  running : ∀ session value, manager.sessions.get? session = some value →
    value.status = .running → value.operation ≠ none
  /-- Every successful claim was released once, or is held. -/
  counts : ∀ thread session, manager.claims.count (thread, session) =
    manager.releases.count (thread, session) + manager.held thread session
  /-- When `close` has returned, no connection is open, and none is opening. -/
  returned : manager.closeReturned = true → manager.closed = true ∧
    (∀ session value, manager.sessions.get? session = some value → value.connected = false) ∧
    ∀ key, manager.opening.get? key = none

/-- What a thread may rely on in one session: a closed one stays closed, its lease stays with it
and as it is, unless it is a reservation that was not started and the session is closed. -/
structure SessionRely (thread : ℕ) (before after : Session) : Prop where
  closed : before.status = .closed → after.status = .closed
  others : before.operation ≠ some thread → after.operation ≠ some thread
  lease : before.operation = some thread →
    (after.operation = some thread ∧ after.status = before.status ∧
      after.operationStarted = before.operationStarted) ∨
    (before.status = .running ∧ before.operationStarted = false ∧ after.status = .closed ∧
      after.operation ≠ some thread)

/-- What a thread may rely on in the registry. -/
structure LeaseRely (thread : ℕ) (before after : Manager) : Prop where
  closed : before.closed = true → after.closed = true
  kept : ∀ session value, before.sessions.get? session = some value →
    ∃ value', after.sessions.get? session = some value' ∧ SessionRely thread value value'
  added : ∀ session value, after.sessions.get? session = some value →
    before.sessions.get? session = none → before.closed = false ∧ value.operation ≠ some thread
  released : after.released thread = before.released thread
  opening : ∀ key value, before.opening.get? key = some value → value.thread = thread →
    after.opening.get? key = some value

theorem SessionRely.refl (thread : ℕ) (value : Session) : SessionRely thread value value :=
  ⟨id, id, fun h ↦ .inl ⟨h, rfl, rfl⟩⟩

theorem SessionRely.trans {thread : ℕ} {first second third : Session}
    (h : SessionRely thread first second) (h' : SessionRely thread second third) :
    SessionRely thread first third where
  closed := fun hclosed ↦ h'.closed (h.closed hclosed)
  others := fun hothers ↦ h'.others (h.others hothers)
  lease := fun hlease ↦ by
    rcases h.lease hlease with ⟨hheld, hstatus, hstarted⟩ | ⟨hrunning, hreserved, hclosed, hlost⟩
    · rcases h'.lease hheld with ⟨hheld', hstatus', hstarted'⟩ | ⟨hrunning, hreserved, hrest⟩
      · exact .inl ⟨hheld', hstatus'.trans hstatus, hstarted'.trans hstarted⟩
      · exact .inr ⟨hstatus ▸ hrunning, hstarted ▸ hreserved, hrest⟩
    · exact .inr ⟨hrunning, hreserved, h'.closed hclosed, h'.others hlost⟩

theorem LeaseRely.refl (thread : ℕ) (manager : Manager) : LeaseRely thread manager manager where
  closed := id
  kept := fun _ value hvalue ↦ ⟨value, hvalue, .refl thread value⟩
  added := fun _ value hvalue hnone ↦ by
    rw [hnone] at hvalue
    cases hvalue
  released := rfl
  opening := fun _ _ hvalue _ ↦ hvalue

theorem LeaseRely.trans {thread : ℕ} {first second third : Manager}
    (h : LeaseRely thread first second) (h' : LeaseRely thread second third) :
    LeaseRely thread first third where
  closed := fun hclosed ↦ h'.closed (h.closed hclosed)
  kept := fun session value hvalue ↦ by
    obtain ⟨middle, hmiddle, hrely⟩ := h.kept session value hvalue
    obtain ⟨last, hlast, hrely'⟩ := h'.kept session middle hmiddle
    exact ⟨last, hlast, hrely.trans hrely'⟩
  added := fun session value hvalue hnone ↦ by
    cases hmiddle : second.sessions.get? session with
    | none =>
      obtain ⟨hopen, hfree⟩ := h'.added session value hvalue hmiddle
      refine ⟨?_, hfree⟩
      by_contra hclosed
      rw [h.closed (by simpa using hclosed)] at hopen
      cases hopen
    | some middle =>
      obtain ⟨hopen, hfree⟩ := h.added session middle hmiddle hnone
      obtain ⟨last, hlast, hrely⟩ := h'.kept session middle hmiddle
      obtain rfl := Option.some.inj (hvalue.symm.trans hlast)
      exact ⟨hopen, hrely.others hfree⟩
  released := h'.released.trans h.released
  opening := fun key value hvalue hthread ↦
    h'.opening key value (h.opening key value hvalue hthread) hthread

/-- The invariant and what the threads rely on. -/
def leaseGuarantee (limits : Limits) : RelyGuarantee (managerSemantics limits) where
  inv := LeaseInv
  rely := LeaseRely
  rely_refl := LeaseRely.refl
  rely_trans := fun _ _ _ _ ↦ LeaseRely.trans

/-! ### Facts about the leases of a thread -/

/-- A thread holds no lease. -/
def Free (thread : ℕ) (manager : Manager) : Prop :=
  ∀ session value, manager.sessions.get? session = some value → value.operation ≠ some thread

/-- A thread holds the lease of one session at most. -/
def FreeElsewhere (thread session : ℕ) (manager : Manager) : Prop :=
  ∀ other value, other ≠ session → manager.sessions.get? other = some value →
    value.operation ≠ some thread

/-- A thread holds the lease of a session and has started its operation. -/
def Working (thread session : ℕ) (manager : Manager) : Prop :=
  FreeElsewhere thread session manager ∧ ∃ value, manager.sessions.get? session = some value ∧
    value.operation = some thread ∧ value.status = .running ∧ value.operationStarted = true

/-- A thread holds a reservation of a session, or `close` retired it. -/
def Waiting (thread session : ℕ) (manager : Manager) : Prop :=
  FreeElsewhere thread session manager ∧ ∃ value, manager.sessions.get? session = some value ∧
    ((value.operation = some thread ∧ value.status = .running ∧ value.operationStarted = false) ∨
      (value.operation ≠ some thread ∧ value.status = .closed))

/-- A thread holds the operation lock of a session. -/
def Holding (thread session : ℕ) (manager : Manager) : Prop :=
  FreeElsewhere thread session manager ∧ ∃ value, manager.sessions.get? session = some value ∧
    value.operation = some thread ∧ value.status ≠ .running

section Facts

variable {thread session : ℕ} {before after : Manager} (hrely : LeaseRely thread before after)

include hrely in
theorem Free.stable (h : Free thread before) :
    Free thread after := by
  intro other value hvalue
  cases hbefore : before.sessions.get? other with
  | none => exact (hrely.added other value hvalue hbefore).2
  | some old =>
    obtain ⟨new, hnew, hsession⟩ := hrely.kept other old hbefore
    obtain rfl := Option.some.inj (hvalue.symm.trans hnew)
    exact hsession.others (h other old hbefore)

include hrely in
theorem FreeElsewhere.stable
    (h : FreeElsewhere thread session before) : FreeElsewhere thread session after := by
  intro other value hne hvalue
  cases hbefore : before.sessions.get? other with
  | none => exact (hrely.added other value hvalue hbefore).2
  | some old =>
    obtain ⟨new, hnew, hsession⟩ := hrely.kept other old hbefore
    obtain rfl := Option.some.inj (hvalue.symm.trans hnew)
    exact hsession.others (h other old hne hbefore)

include hrely in
theorem Working.stable (h : Working thread session before) : Working thread session after := by
  obtain ⟨helsewhere, value, hvalue, hheld, hrunning, hstarted⟩ := h
  obtain ⟨value', hvalue', hsession⟩ := hrely.kept session value hvalue
  refine ⟨helsewhere.stable hrely, value', hvalue', ?_⟩
  rcases hsession.lease hheld with ⟨hheld', hstatus, hstarted'⟩ | ⟨-, hreserved, -⟩
  · exact ⟨hheld', hstatus.trans hrunning, hstarted'.trans hstarted⟩
  · rw [hstarted] at hreserved
    cases hreserved

include hrely in
theorem Waiting.stable (h : Waiting thread session before) : Waiting thread session after := by
  obtain ⟨helsewhere, value, hvalue, hcases⟩ := h
  obtain ⟨value', hvalue', hsession⟩ := hrely.kept session value hvalue
  refine ⟨helsewhere.stable hrely, value', hvalue', ?_⟩
  rcases hcases with ⟨hheld, hrunning, hreserved⟩ | ⟨hlost, hclosed⟩
  · rcases hsession.lease hheld with ⟨hheld', hstatus, hstarted⟩ | ⟨-, -, hclosed, hlost⟩
    · exact .inl ⟨hheld', hstatus.trans hrunning, hstarted.trans hreserved⟩
    · exact .inr ⟨hlost, hclosed⟩
  · exact .inr ⟨hsession.others hlost, hsession.closed hclosed⟩

include hrely in
theorem Holding.stable (h : Holding thread session before) : Holding thread session after := by
  obtain ⟨helsewhere, value, hvalue, hheld, hstatus⟩ := h
  obtain ⟨value', hvalue', hsession⟩ := hrely.kept session value hvalue
  refine ⟨helsewhere.stable hrely, value', hvalue', ?_⟩
  rcases hsession.lease hheld with ⟨hheld', hsame, -⟩ | ⟨hrunning, -⟩
  · exact ⟨hheld', hsame ▸ hstatus⟩
  · exact absurd hrunning hstatus

end Facts

/-! ### Writing one session -/

section Writes

variable {before after : Manager} {session : ℕ} {value value' : Session}

/-- One session is written, and everything else that is read stays. -/
structure Writes (session : ℕ) (value' : Session) (before after : Manager) : Prop where
  sessions : after.sessions = before.sessions.insert session value'
  closed : after.closed = before.closed
  opening : after.opening = before.opening
  misuse : after.misuse = before.misuse
  closeReturned : after.closeReturned = before.closeReturned

/-- Every claim of a registry was released or is held. -/
def Balanced (manager : Manager) : Prop :=
  ∀ thread session, manager.claims.count (thread, session) =
    manager.releases.count (thread, session) + manager.held thread session

variable (h : Writes session value' before after)

include h in
theorem Writes.held (thread other : ℕ) :
    after.held thread other =
      if other = session then (if value'.operation = some thread then 1 else 0)
      else before.held thread other := by
  unfold Manager.held
  rw [h.sessions, Dictionary.get?_insert]
  by_cases hsame : other = session
  · simp [hsame]
  · simp [hsame]

include h in
theorem Writes.balanced_same (hvalue : before.sessions.get? session = some value)
    (hsame : value'.operation = value.operation) (hclaims : after.claims = before.claims)
    (hreleases : after.releases = before.releases) (hbalanced : Balanced before) :
    Balanced after := by
  intro thread other
  rw [h.held, hclaims, hreleases, hbalanced thread other]
  by_cases hother : other = session
  · subst hother
    simp [Manager.held, hvalue, hsame]
  · simp [hother]

include h in
theorem Writes.balanced_claim (hvalue : before.sessions.get? session = some value) {thread : ℕ}
    (hfree : value.operation = none) (htaken : value'.operation = some thread)
    (hclaims : after.claims = (thread, session) :: before.claims)
    (hreleases : after.releases = before.releases) (hbalanced : Balanced before) :
    Balanced after := by
  intro other target
  have hbefore := hbalanced other target
  rw [h.held, hclaims, hreleases, List.count_cons]
  by_cases htarget : target = session
  · subst htarget
    have hnone : before.held other target = 0 := by simp [Manager.held, hvalue, hfree]
    by_cases hother : other = thread
    · subst hother
      simp [htaken, hbefore, hnone]
    · have hne : thread ≠ other := fun hsame ↦ hother hsame.symm
      simp [htaken, hbefore, hnone, hne]
  · have hne : session ≠ target := fun hsame ↦ htarget hsame.symm
    simp [htarget, hbefore, hne]

include h in
/-- Assumes: the lock of one session is freed, and its release is recorded if it was held. -/
theorem Writes.balanced_release
    (hvalue : before.sessions.get? session = some value) (hfreed : value'.operation = none)
    (hclaims : after.claims = before.claims)
    (hreleases : after.releases = match value.operation with
      | some thread => (thread, session) :: before.releases
      | none => before.releases) (hbalanced : Balanced before) :
    Balanced after := by
  intro other target
  have hbefore := hbalanced other target
  rw [h.held, hclaims, hreleases]
  by_cases htarget : target = session
  · subst htarget
    cases hheld : value.operation with
    | none => simp [hbefore, Manager.held, hvalue, hheld, hfreed]
    | some thread =>
      by_cases hother : thread = other
      · subst hother
        simp [hbefore, Manager.held, hvalue, hheld, hfreed]
      · simp [hbefore, Manager.held, hvalue, hheld, hfreed, hother]
  · have hne : session ≠ target := fun hsame ↦ htarget hsame.symm
    cases value.operation with
    | none => simp [htarget, hbefore]
    | some thread => simp [htarget, hbefore, hne]

include h in
/-- Assumes: the invariant, and one session is written without opening its connection. The invariant
holds after it. -/
theorem Writes.inv (hvalue : before.sessions.get? session = some value)
    (hclosed : value'.status = .closed → value'.connected = false)
    (hrunning : value'.status = .running → value'.operation ≠ none)
    (hconnected : value.connected = false → value'.connected = false)
    (hbalanced : Balanced after) (hinv : LeaseInv before) : LeaseInv after where
  misuse := h.misuse.trans hinv.misuse
  running := fun other found hfound ↦ by
    rw [h.sessions, Dictionary.get?_insert] at hfound
    split at hfound
    · obtain rfl := Option.some.inj hfound
      exact hrunning
    · exact hinv.running other found hfound
  closed := fun other found hfound ↦ by
    rw [h.sessions, Dictionary.get?_insert] at hfound
    split at hfound
    · obtain rfl := Option.some.inj hfound
      exact hclosed
    · exact hinv.closed other found hfound
  counts := hbalanced
  returned := fun hreturned ↦ by
    obtain ⟨hflag, hall, hopening⟩ := hinv.returned (h.closeReturned ▸ hreturned)
    refine ⟨h.closed.trans hflag, fun other found hfound ↦ ?_, h.opening ▸ hopening⟩
    rw [h.sessions, Dictionary.get?_insert] at hfound
    split at hfound
    · obtain rfl := Option.some.inj hfound
      exact hconnected (hall session value hvalue)
    · exact hall other found hfound

include h in
/-- Assumes: one session is written as a thread may rely on, and what the thread released stays. -/
theorem Writes.rely (hvalue : before.sessions.get? session = some value) {thread : ℕ}
    (hsession : SessionRely thread value value')
    (hreleased : after.released thread = before.released thread) :
    LeaseRely thread before after where
  closed := fun hclosed ↦ h.closed.trans hclosed
  kept := fun other found hfound ↦ by
    rw [h.sessions, Dictionary.get?_insert]
    split
    · next hsame =>
      subst hsame
      obtain rfl := Option.some.inj (hvalue.symm.trans hfound)
      exact ⟨value', rfl, hsession⟩
    · exact ⟨found, hfound, .refl thread found⟩
  added := fun other found hfound hnone ↦ by
    rw [h.sessions, Dictionary.get?_insert] at hfound
    split at hfound
    · next hsame =>
      rw [hsame, hvalue] at hnone
      cases hnone
    · rw [hnone] at hfound
      cases hfound
  released := hreleased
  opening := fun key opening hopening _ ↦ h.opening ▸ hopening

include h in
/-- Assumes: one session is written, and a thread had no lease of another one. It has none. -/
theorem Writes.freeElsewhere {thread : ℕ}
    (helsewhere : FreeElsewhere thread session before) : FreeElsewhere thread session after := by
  intro other found hne hfound
  rw [h.sessions, Dictionary.get?_insert, if_neg hne] at hfound
  exact helsewhere other found hne hfound

include h in
theorem Writes.get :
    after.sessions.get? session = some value' := by
  rw [h.sessions, Dictionary.get?_insert, if_pos rfl]

end Writes

/-! ### Calls that touch no lease -/

/-- The calls that leave every lease as it is: reads, a cancellation, and sections that close a
session that no one holds. -/
def Neutral : RawCall → Prop
  | .lookup _ | .readClosed | .isCancelled _ | .isAuthorized | .recordHistory | .enterCancellable
  | .transactionStatus _ | .ticket _ | .cancel _ | .reap _ | .liveSessions
  | .closeSession _ _ _ => True
  | _ => False

/-- The calls of an operation that uses the connection of its session. -/
def Uses (session : ℕ) : RawCall → Prop
  | .isCancelled _ | .isAuthorized | .recordHistory | .transactionStatus _ => True
  | .execute target _ | .rollback target | .closeConnection target | .copy target =>
    target = session
  | _ => False

section Calls

variable {limits : Limits} {thread session : ℕ} {before after : Manager}

/-- A change that keeps the invariant and that every thread may rely on. -/
def Keeps (before after : Manager) : Prop :=
  LeaseInv after ∧ ∀ thread, LeaseRely thread before after

theorem Keeps.refl (hinv : LeaseInv before) : Keeps before before :=
  ⟨hinv, fun thread ↦ .refl thread before⟩

/-- Assumes: one session is written with the same lease, and its connection is not opened. -/
theorem Writes.keeps {value value' : Session} (h : Writes session value' before after)
    (hinv : LeaseInv before) (hvalue : before.sessions.get? session = some value)
    (hoperation : value'.operation = value.operation) (hstatus : value'.status = value.status)
    (hstarted : value'.operationStarted = value.operationStarted)
    (hconnected : value.connected = false → value'.connected = false)
    (hclaims : after.claims = before.claims) (hreleases : after.releases = before.releases)
    (hreleased : after.released = before.released) : Keeps before after := by
  refine ⟨h.inv hvalue ?_ ?_ hconnected (h.balanced_same hvalue hoperation hclaims hreleases
    hinv.counts) hinv, fun thread ↦ h.rely hvalue ?_ (by rw [hreleased])⟩
  · intro hclosed
    exact hconnected (hinv.closed session value hvalue (hstatus ▸ hclosed))
  · intro hrunning
    rw [hoperation]
    exact hinv.running session value hvalue (hstatus ▸ hrunning)
  · exact ⟨fun hclosed ↦ hstatus.trans hclosed, fun hfree ↦ hoperation ▸ hfree,
      fun hheld ↦ .inl ⟨hoperation.trans hheld, hstatus, hstarted⟩⟩

/-- Assumes: a session that no one holds is closed. Every thread may rely on the change. -/
theorem SessionRely.of_free {value value' : Session} (hfree : value.operation = none)
    (hfree' : value'.operation = none) (hclosed : value'.status = .closed) :
    SessionRely thread value value' where
  closed := fun _ ↦ hclosed
  others := fun _ ↦ by simp [hfree']
  lease := fun hheld ↦ by simp [hfree] at hheld

/-- A section of `reap` keeps the invariant and every lease. -/
theorem reapSection_keeps (idleSeconds now : ℕ) (hinv : LeaseInv before) :
    Keeps before (reapSection idleSeconds session now before) := by
  unfold reapSection
  cases hvalue : before.sessions.get? session with
  | none => exact .refl hinv
  | some value =>
    dsimp only
    split
    · next hidle =>
      obtain ⟨-, -, hfree⟩ := hidle
      have hwrites : Writes session (Manager.closeClaimed value) before
          (before.write session (Manager.closeClaimed value)) := ⟨rfl, rfl, rfl, rfl, rfl⟩
      exact ⟨hwrites.inv hvalue (fun _ ↦ rfl) (fun hrunning ↦ by cases hrunning) (fun _ ↦ rfl)
        (hwrites.balanced_same hvalue rfl rfl rfl hinv.counts) hinv,
        fun thread ↦ hwrites.rely hvalue (.of_free hfree hfree rfl) rfl⟩
    · exact .refl hinv

/-- A section of `close_session` keeps the invariant and every lease. -/
theorem closesSession_keeps {expectedRevision : Option ℕ} {closed : Bool}
    {reply : Except Raised Unit} (hinv : LeaseInv before)
    (h : ClosesSession thread session expectedRevision closed before reply after) :
    Keeps before after := by
  cases h with
  | already => exact .refl hinv
  | refused => exact .refl hinv
  | @closes value now hvalue hstatus hopen hrevision hfree =>
    set closing : Session := Manager.closeClaimed { value with
      cancelled := false, operationStarted := true, used := now,
      revision := value.revision + 1 } with hclosing
    have hwrites : Writes session closing before { before.write session closing with
        claims := (thread, session) :: before.claims
        releases := (thread, session) :: before.releases } := ⟨rfl, rfl, rfl, rfl, rfl⟩
    have hbalanced : Balanced { before.write session closing with
        claims := (thread, session) :: before.claims
        releases := (thread, session) :: before.releases } := by
      intro other target
      have hbefore := hinv.counts other target
      rw [hwrites.held]
      by_cases htarget : target = session
      · subst htarget
        simp [Manager.held, hvalue, hfree] at hbefore
        simp [hclosing, Manager.closeClaimed, hfree, hbefore, List.count_cons]
      · simp [htarget, hbefore, List.count_cons]
        omega
    exact ⟨hwrites.inv hvalue (fun _ ↦ rfl) (fun hrunning ↦ by cases hrunning) (fun _ ↦ rfl)
      hbalanced hinv,
      fun other ↦ hwrites.rely hvalue (.of_free hfree hfree rfl) rfl⟩

theorem neutral_keeps {request : RawCall} {reply : request.Reply} (hneutral : Neutral request)
    (hinv : LeaseInv before)
    (h : (managerSemantics limits).perform thread request before reply after) :
    Keeps before after := by
  cases request with
  | lookup target =>
    obtain ⟨rfl, -⟩ := h
    exact .refl hinv
  | readClosed =>
    obtain ⟨-, rfl⟩ := h
    exact .refl hinv
  | isCancelled target =>
    obtain ⟨rfl, -⟩ := h
    exact .refl hinv
  | liveSessions =>
    obtain ⟨-, rfl⟩ := h
    exact .refl hinv
  | isAuthorized =>
    obtain rfl : after = before := h
    exact .refl hinv
  | recordHistory =>
    obtain rfl : after = before := h
    exact .refl hinv
  | enterCancellable =>
    obtain rfl : after = before := h
    exact .refl hinv
  | transactionStatus target =>
    obtain rfl : after = before := h
    exact .refl hinv
  | ticket target =>
    obtain rfl : after = before := h
    exact .refl hinv
  | cancel target =>
    have hafter : after = match before.sessions.get? target with
      | some value => before.write target { value with cancelled := true }
      | none => before := h
    cases hvalue : before.sessions.get? target with
    | none =>
      rw [hvalue] at hafter
      obtain rfl := hafter
      exact .refl hinv
    | some value =>
      rw [hvalue] at hafter
      obtain rfl := hafter
      have hwrites : Writes target { value with cancelled := true } before
        (before.write target { value with cancelled := true }) := ⟨rfl, rfl, rfl, rfl, rfl⟩
      exact hwrites.keeps hinv hvalue rfl rfl rfl id rfl rfl rfl
  | reap target =>
    obtain ⟨now, rfl⟩ := h
    exact reapSection_keeps _ _ hinv
  | closeSession target expectedRevision closed => exact closesSession_keeps hinv h
  | _ => exact hneutral.elim

/-- Assumes: a thread that holds the lease of an open session. It may use the connection. -/
theorem use_of_working (h : Working thread session before) : before.use thread session = before := by
  obtain ⟨-, value, hvalue, hheld, hrunning, -⟩ := h
  simp [Manager.use, hvalue, hheld, hrunning]

theorem uses_keeps {request : RawCall} {reply : request.Reply} (huses : Uses session request)
    (hinv : LeaseInv before) (hworking : Working thread session before)
    (h : (managerSemantics limits).perform thread request before reply after) :
    Keeps before after := by
  cases request with
  | isCancelled target =>
    obtain ⟨rfl, -⟩ := h
    exact .refl hinv
  | isAuthorized =>
    obtain rfl : after = before := h
    exact .refl hinv
  | recordHistory =>
    obtain rfl : after = before := h
    exact .refl hinv
  | transactionStatus target =>
    obtain rfl : after = before := h
    exact .refl hinv
  | execute target script =>
    obtain rfl : target = session := huses
    obtain rfl : after = before.use thread target := h
    rw [use_of_working hworking]
    exact .refl hinv
  | rollback target =>
    obtain rfl : target = session := huses
    obtain rfl : after = before.use thread target := h
    rw [use_of_working hworking]
    exact .refl hinv
  | copy target =>
    obtain rfl : target = session := huses
    obtain rfl : after = before.use thread target := h
    rw [use_of_working hworking]
    exact .refl hinv
  | closeConnection target =>
    obtain rfl : target = session := huses
    have hafter : after = match before.sessions.get? target with
      | some value => (before.use thread target).write target { value with connected := false }
      | none => before.use thread target := h
    have huse := use_of_working hworking
    obtain ⟨-, value, hvalue, -⟩ := hworking
    rw [huse, hvalue] at hafter
    obtain rfl := hafter
    have hwrites : Writes target { value with connected := false } before
      (before.write target { value with connected := false }) := ⟨rfl, rfl, rfl, rfl, rfl⟩
    exact hwrites.keeps hinv hvalue rfl rfl rfl (fun _ ↦ rfl) rfl rfl rfl
  | _ => exact huses.elim

/-- Assumes: a thread without a lease that claims a session. The other threads may rely on it, and
the thread holds the lease then: started, or reserved. -/
theorem claims_granted {expectedRevision : Option ℕ} {reserved : Bool} (hinv : LeaseInv before)
    (hfree : Free thread before)
    (h : Claims thread session expectedRevision reserved before (.ok ()) after) :
    LeaseInv after ∧ (∀ other, other ≠ thread → LeaseRely other before after) ∧
      if reserved then Waiting thread session after else Working thread session after := by
  cases h with
  | @granted value now hvalue hstatus hrevision hunheld =>
    set claimed : Session := { value with
      operation := some thread, cancelled := false, operationStarted := !reserved,
      status := .running, used := now, revision := value.revision + 1 } with hclaimed
    have hwrites : Writes session claimed before { before.write session claimed with
        claims := (thread, session) :: before.claims } := ⟨rfl, rfl, rfl, rfl, rfl⟩
    refine ⟨hwrites.inv hvalue (fun hclosed ↦ by cases hclosed) (fun _ hnone ↦ by cases hnone) id
      (hwrites.balanced_claim hvalue hunheld rfl rfl rfl hinv.counts) hinv, ?_, ?_⟩
    · intro other hother
      refine hwrites.rely hvalue ⟨fun hclosed ↦ absurd hclosed hstatus, fun _ hheld ↦ ?_,
        fun hheld ↦ ?_⟩ rfl
      · exact hother (Option.some.inj hheld).symm
      · rw [hunheld] at hheld
        cases hheld
    · have helsewhere : FreeElsewhere thread session { before.write session claimed with
          claims := (thread, session) :: before.claims } :=
        hwrites.freeElsewhere fun target found _ hfound ↦ hfree target found hfound
      cases reserved with
      | true => exact ⟨helsewhere, claimed, hwrites.get, .inl ⟨rfl, rfl, rfl⟩⟩
      | false => exact ⟨helsewhere, claimed, hwrites.get, rfl, rfl, rfl⟩

/-- Assumes: a thread with a reservation that starts it. The other threads may rely on it, and the
thread works then. -/
theorem startsReserved_started (hinv : LeaseInv before) (hwaiting : Waiting thread session before)
    (h : StartsReserved session before (.ok ()) after) :
    LeaseInv after ∧ (∀ other, other ≠ thread → LeaseRely other before after) ∧
      Working thread session after := by
  cases h with
  | @started value hvalue hopen hstatus hcancelled =>
    obtain ⟨helsewhere, found, hfound, hcases⟩ := hwaiting
    obtain rfl := Option.some.inj (hvalue.symm.trans hfound)
    rcases hcases with ⟨hheld, hrunning, hreserved⟩ | ⟨-, hclosed⟩
    · have hwrites : Writes session { value with operationStarted := true } before
        (before.write session { value with operationStarted := true }) :=
        ⟨rfl, rfl, rfl, rfl, rfl⟩
      refine ⟨hwrites.inv hvalue (fun hclosed ↦ absurd hclosed hstatus)
        (hinv.running session value hvalue) id
        (hwrites.balanced_same hvalue rfl rfl rfl hinv.counts) hinv, ?_, ?_⟩
      · intro other hother
        refine hwrites.rely hvalue ⟨id, id, fun hheld' ↦ ?_⟩ rfl
        rw [hheld] at hheld'
        exact absurd (Option.some.inj hheld').symm hother
      · exact ⟨hwrites.freeElsewhere helsewhere, _, hwrites.get, hheld, hrunning, rfl⟩
    · exact absurd hclosed hstatus

/-- Assumes: a thread that holds the lease of a session, or whose reservation was retired. Its release
keeps the invariant, the other threads may rely on it, and the thread is free then. -/
theorem release_frees (now : ℕ) (hinv : LeaseInv before)
    (h : Working thread session before ∨ Waiting thread session before) :
    LeaseInv (before.release thread session now) ∧
      (∀ other, other ≠ thread → LeaseRely other before (before.release thread session now)) ∧
      Free thread (before.release thread session now) := by
  have hcases : FreeElsewhere thread session before ∧ ∃ value,
      before.sessions.get? session = some value ∧
      ((value.operation = some thread ∧ value.status = .running) ∨
        (value.operation ≠ some thread ∧ value.status = .closed)) := by
    rcases h with ⟨helsewhere, value, hvalue, hheld, hrunning, -⟩ |
      ⟨helsewhere, value, hvalue, ⟨hheld, hrunning, -⟩ | hretired⟩
    · exact ⟨helsewhere, value, hvalue, .inl ⟨hheld, hrunning⟩⟩
    · exact ⟨helsewhere, value, hvalue, .inl ⟨hheld, hrunning⟩⟩
    · exact ⟨helsewhere, value, hvalue, .inr hretired⟩
  obtain ⟨helsewhere, value, hvalue, ⟨hheld, hrunning⟩ | ⟨hlost, hclosed⟩⟩ := hcases
  · set freed : Session := { value with
      status := .open, used := now, revision := value.revision + 1, operation := none } with hfreed
    have hafter : before.release thread session now =
        { before.write session freed with releases := (thread, session) :: before.releases } := by
      simp [Manager.release, hvalue, hrunning, hheld, Manager.recordRelease, hfreed, Manager.write]
    rw [hafter]
    have hwrites : Writes session freed before { before.write session freed with
        releases := (thread, session) :: before.releases } := ⟨rfl, rfl, rfl, rfl, rfl⟩
    refine ⟨hwrites.inv hvalue (fun hclosed ↦ by cases hclosed)
      (fun hrunning ↦ by cases hrunning) id (hwrites.balanced_release hvalue rfl rfl
      (by rw [hheld]) hinv.counts) hinv, ?_, ?_⟩
    · intro other hother
      refine hwrites.rely hvalue ⟨fun hclosed ↦ ?_, fun _ hheld' ↦ (by cases hheld'),
        fun hheld' ↦ ?_⟩ rfl
      · rw [hrunning] at hclosed
        cases hclosed
      · rw [hheld] at hheld'
        exact absurd (Option.some.inj hheld').symm hother
    · intro target found hfound
      by_cases htarget : target = session
      · subst htarget
        obtain rfl := Option.some.inj (hwrites.get.symm.trans hfound)
        simp [hfreed]
      · exact hwrites.freeElsewhere helsewhere target found htarget hfound
  · have hafter : before.release thread session now = before := by
      simp [Manager.release, hvalue, hclosed]
    rw [hafter]
    refine ⟨hinv, fun other _ ↦ .refl other before, fun target found hfound ↦ ?_⟩
    by_cases htarget : target = session
    · subst htarget
      obtain rfl := Option.some.inj (hvalue.symm.trans hfound)
      exact hlost
    · exact helsewhere target found htarget hfound

end Calls

end Schemii.RawSessions
