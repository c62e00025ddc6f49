import Schemii.RawSessions.LeaseSafety

/-!
# Leases of raw sessions are safe

Every program of the service, in any interleaving with any number of others, uses a connection only
with the lease of its open session, and lets every lease go once. The programs are followed call by
call with the facts of `LeaseSafety`: a thread is `Free`, has a reservation (`Waiting`), or works on
one session (`Working`); a download, an opening and a shutdown have facts of their own
(`Downloading`, `Opens`, `Closing`).

* `secure_run`, `secure_download`, `secure_upload`, `secure_create` and `secure_close`: each program
  starts free and ends free, on every path.
* `raw_session_leases_safe`: the invariants of every reachable state.
-/

set_option autoImplicit false

namespace Schemii.RawSessions

open Schemii.Foundations

variable {before after : Manager} {manager : Manager} {allowed : RawCall → Prop}

/-! ### Programs -/

section Programs

variable {limits : Limits} {thread session : ℕ} {world : Manager}

/-- Safety of a program of the service. -/
abbrev Secure {α : Type} (limits : Limits) (thread : ℕ) (program : RawProgram α) (world : Manager)
    (post : Except Raised α → Manager → Prop) : Prop :=
  Safe (leaseGuarantee limits) thread program world post

variable {α : Type}

theorem secure_neutral {program : RawProgram α} {fact : Manager → Prop}
    (hstable : ∀ before after, LeaseRely thread before after → fact before → fact after)
    (hasks : program.Asks Neutral) (hfact : fact world) :
    Secure limits thread program world fun _ after ↦ fact after := by
  refine Safe.of_asks hstable (fun request before reply after hneutral hinv hbefore hperform ↦ ?_)
    hasks hfact
  obtain ⟨hkept, hrely⟩ := neutral_keeps hneutral hinv hperform
  exact ⟨⟨hkept, fun other _ ↦ hrely other⟩, hstable _ _ (hrely thread) hbefore⟩

/-- Assumes: a fact that a thread may rely on, and with which it works on a session. A program that uses
the connection of the session keeps it. -/
theorem secure_uses {program : RawProgram α} {fact : Manager → Prop}
    (hstable : ∀ before after, LeaseRely thread before after → fact before → fact after)
    (hworking : ∀ manager, fact manager → Working thread session manager)
    (hasks : program.Asks (Uses session)) (hfact : fact world) :
    Secure limits thread program world fun _ after ↦ fact after := by
  refine Safe.of_asks hstable (fun request before reply after huses hinv hbefore hperform ↦ ?_)
    hasks hfact
  obtain ⟨hkept, hrely⟩ := uses_keeps huses hinv (hworking before hbefore) hperform
  exact ⟨⟨hkept, fun other _ ↦ hrely other⟩, hstable _ _ (hrely thread) hbefore⟩

/-- Assumes: a thread that works on a session. A program that uses its connection and returns keeps it
so. -/
theorem secure_returns {program : RawProgram α}
    (hreturns : program.Returns (Uses session)) (hworking : Working thread session world) :
    Secure limits thread program world fun outcome after ↦
      (∃ value, outcome = .ok value) ∧ Working thread session after := by
  refine Safe.of_returns (fun _ _ ↦ Working.stable)
    (fun request before reply after huses hinv hbefore hperform ↦ ?_) hreturns hworking
  obtain ⟨hkept, hrely⟩ := uses_keeps huses hinv hbefore hperform
  exact ⟨⟨hkept, fun other _ ↦ hrely other⟩, hbefore.stable (hrely thread)⟩

/-- `reap` over some sessions makes neutral calls. -/
theorem reapEach_asks (sessions : List ℕ) : (reapEach sessions).Asks Neutral := by
  induction sessions with
  | nil => trivial
  | cons target rest ih => exact ⟨trivial, fun _ ↦ ih⟩

/-- `reap` makes neutral calls. -/
theorem reap_asks : reap.Asks Neutral := ⟨trivial, fun sessions ↦ reapEach_asks sessions⟩

theorem ask_asks {request : RawCall} (h : allowed request) :
    (ask request).Asks allowed :=
  ⟨h, fun _ ↦ trivial⟩

theorem ask_returns {request : RawCall} (h : allowed request) :
    (ask request).Returns allowed :=
  ⟨h, fun _ ↦ trivial⟩

theorem attempt_asks {program : RawProgram (Except Raised α)}
    (h : program.Asks allowed) : (attempt program).Asks allowed :=
  h.bind fun _ ↦ .ofExcept _

/-- `get` makes neutral calls. -/
theorem get_asks (session : ℕ) : (get session).Asks Neutral :=
  reap_asks.bind fun _ ↦ attempt_asks (ask_asks trivial)

/-- `validate_policy` reads the status of the connection. -/
theorem validatePolicy_asks (h : allowed (.transactionStatus session))
    (script : Script) (mode : CommitMode) : (validatePolicy session script mode).Asks allowed := by
  unfold validatePolicy
  split
  · trivial
  · exact (ask_asks h).bind fun _ ↦ .ofExcept _

/-! ### The calls of an operation -/

/-- Every call of a part of an execution is one of some calls, and what it raises is kept with the
receipt. -/
def RunningAsks (allowed : RawCall → Prop) {α : Type} (part : Running α) : Prop :=
  ∀ execution, (part execution).Returns allowed

section Running

variable {allowed : RawCall → Prop} {α β : Type}

theorem pure_asks (value : α) : RunningAsks allowed (pure value : Running α) := fun _ ↦ trivial

theorem modify_asks (f : Execution → Execution) : RunningAsks allowed (Running.modify f) :=
  fun _ ↦ trivial

theorem andThen_asks {first : Running α} {next : α → Running β} (h : RunningAsks allowed first)
    (hnext : ∀ value, RunningAsks allowed (next value)) :
    RunningAsks allowed (Running.andThen first next) := by
  intro execution
  refine (h execution).bind fun result ↦ ?_
  rcases result with ⟨kept, exception | value⟩
  · trivial
  · exact hnext value kept

theorem call_asks {request : RawCall} (h : allowed request) :
    RunningAsks allowed (Running.call request) :=
  fun _ ↦ (ask_returns h).bind fun _ ↦ trivial

theorem attempting_asks {program : RawProgram (Except Raised α)} (h : program.Returns allowed) :
    RunningAsks allowed (Running.attempting program) :=
  fun _ ↦ h.bind fun _ ↦ trivial

theorem ite_asks {P : Prop} [Decidable P] {first second : Running α}
    (h : RunningAsks allowed first) (h' : RunningAsks allowed second) :
    RunningAsks allowed (if P then first else second) := by
  split
  · exact h
  · exact h'

end Running

theorem stopped_asks (guarded : Bool) : RunningAsks (Uses session) (stopped session guarded) :=
  andThen_asks (call_asks trivial) fun (_ : Bool) ↦ ite_asks (pure_asks _)
    (ite_asks (andThen_asks (attempting_asks (ask_returns trivial)) fun _ ↦ pure_asks _) (pure_asks _))

variable (script : Script)

theorem execute_asks : RunningAsks (Uses session) (execute session script) :=
  ite_asks (pure_asks _) (andThen_asks (attempting_asks (ask_returns rfl)) fun _ ↦ pure_asks _)

theorem rollback_asks : RunningAsks (Uses session) (rollback session) :=
  attempting_asks (ask_returns rfl)

variable (mode : CommitMode)

/-- `prepare_policy` uses the connection of the session. -/
theorem preparePolicy_asks :
    RunningAsks (Uses session) (preparePolicy session script mode) := by
  refine andThen_asks (attempting_asks (validatePolicy_asks trivial script mode).attempt_returns) fun _ ↦ ?_
  have hbegins : RunningAsks (Uses session) (beginsTransaction session script mode) := by
    cases mode with
    | wholeRun => exact pure_asks _
    | manual => exact andThen_asks (call_asks trivial) fun _ ↦ pure_asks _
    | eachStatement => exact pure_asks _
  refine andThen_asks hbegins fun _ ↦ ite_asks ?_ (pure_asks _)
  exact andThen_asks (execute_asks _) fun _ ↦ ite_asks (fun _ ↦ trivial) (pure_asks _)

/-- The loop of `run` uses the connection of the session. -/
theorem runStatements_asks (guarded : Bool) (scripts : List Script) :
    RunningAsks (Uses session) (runStatements session mode guarded scripts) := by
  induction scripts with
  | nil => exact pure_asks _
  | cons script rest ih =>
    refine andThen_asks (stopped_asks guarded) fun _ ↦ ite_asks (modify_asks _) ?_
    refine andThen_asks (ite_asks (preparePolicy_asks _ _) (pure_asks _)) fun _ ↦ ?_
    refine andThen_asks (execute_asks script) fun _ ↦ andThen_asks (modify_asks _) fun _ ↦ ?_
    exact andThen_asks (fun _ ↦ trivial) fun _ ↦ ite_asks (pure_asks _) ih

theorem endWholeRun_asks : RunningAsks (Uses session) (endWholeRun session) := by
  refine andThen_asks (fun _ ↦ trivial) fun _ ↦ ite_asks rollback_asks ?_
  refine andThen_asks (execute_asks _) fun _ ↦ ite_asks ?_ (pure_asks _)
  refine andThen_asks (modify_asks _) fun _ ↦ andThen_asks (call_asks trivial) fun _ ↦ ?_
  exact ite_asks rollback_asks (pure_asks _)

/-- The body of `run` uses the connection of the session. -/
theorem runBody_asks (body : Body) (guarded : Bool) :
    RunningAsks (Uses session) (runBody session body guarded) := by
  refine andThen_asks (attempting_asks (ask_returns trivial)) fun _ ↦
    andThen_asks (stopped_asks guarded) fun _ ↦ ite_asks (modify_asks _) ?_
  refine andThen_asks (ite_asks (preparePolicy_asks _ _) (pure_asks _)) fun _ ↦ ?_
  refine andThen_asks (attempting_asks trivial) fun scripts ↦ ?_
  refine andThen_asks (runStatements_asks _ _ scripts) fun _ ↦ ?_
  refine andThen_asks (stopped_asks guarded) fun _ ↦ andThen_asks (modify_asks _) fun _ ↦ ?_
  exact andThen_asks (ite_asks endWholeRun_asks (pure_asks _)) fun _ ↦ modify_asks _

/-- The exception handler of `run` uses the connection of the session. -/
theorem handleException_asks (body : Body) (execution : Execution) (error : Raised) :
    (handleException session body execution error).Returns (Uses session) := by
  refine Program.Returns.bind (ask_returns trivial) fun flag ↦ ?_
  dsimp only
  split
  · refine Program.Returns.bind (ask_returns trivial) fun status ↦ ?_
    split
    · refine Program.Returns.bind (ask_returns rfl) fun outcome ↦ ?_
      cases outcome with
      | ok _ => trivial
      | error _ => exact Program.Returns.bind (ask_returns rfl) fun _ ↦ trivial
    · trivial
  · trivial

theorem authorizeTicket_asks : authorizeTicket.Asks (Uses session) := by
  refine Program.Asks.bind (ask_asks trivial) fun authorized ↦ ?_
  rcases authorized with error | _ | _
  · trivial
  · trivial
  · trivial

theorem copy_asks : (copy session).Asks (Uses session) := attempt_asks (ask_asks rfl)

theorem prepareCopy_asks :
    (prepareCopy session script mode).Asks (Uses session) :=
  (preparePolicy_asks script _ Execution.new).asks.bind fun _ ↦ .ofExcept _

theorem streamChunks_asks (asked : ℕ) : (streamChunks session asked).Asks (Uses session) := by
  induction asked with
  | zero => trivial
  | succ asked ih =>
    refine copy_asks.bind fun more ↦ ?_
    split
    · exact authorizeTicket_asks.bind fun _ ↦ ih
    · trivial

theorem uploadChunks_asks (chunks : ℕ) : (uploadChunks session chunks).Asks (Uses session) := by
  induction chunks with
  | zero => exact authorizeTicket_asks
  | succ chunks ih => exact authorizeTicket_asks.bind fun _ ↦ copy_asks.bind fun _ ↦ ih

theorem uploadBody_asks (chunks : ℕ) :
    (uploadBody session script mode chunks).Asks (Uses session) := by
  refine (prepareCopy_asks script mode).bind fun _ ↦ copy_asks.bind fun _ ↦
    (uploadChunks_asks chunks).attempt.bind fun outcome ↦ ?_
  cases outcome with
  | ok _ => exact copy_asks.bind fun _ ↦ trivial
  | error error =>
    refine Program.Asks.bind (copy_asks.attempt.bind fun left ↦ ?_) fun _ ↦ trivial
    cases left with
    | ok _ => trivial
    | error _ => exact ask_asks rfl

/-! ### Programs that hold a lease -/

variable {post : Except Raised α → Manager → Prop}

theorem secure_release {next : RawProgram α}
    (h : Working thread session world ∨ Waiting thread session world)
    (hnext : ∀ after, Free thread after → Secure limits thread next after post) :
    Secure limits thread (Program.bind (ask (.release session)) fun _ ↦ next) world post := by
  intro before hrely hinv _ after hperform
  obtain ⟨now, rfl⟩ := hperform
  obtain ⟨hkept, hothers, hfree⟩ := release_frees now hinv (h.imp (·.stable hrely) (·.stable hrely))
  exact ⟨⟨hkept, hothers⟩, hnext _ hfree⟩

/-- Assumes: a free thread. `claim` leaves it free or with the lease of the session. -/
theorem secure_claim (expectedRevision : Option ℕ) (reserved : Bool) (hfree : Free thread world) :
    Secure limits thread (claim session expectedRevision reserved) world fun outcome after ↦
      match outcome with
      | .ok _ => if reserved then Waiting thread session after else Working thread session after
      | .error _ => Free thread after := by
  intro before hrely hinv closed after hperform
  obtain ⟨-, rfl⟩ := hperform
  have hkept : Free thread after := hfree.stable hrely
  refine ⟨⟨hinv, fun other _ ↦ .refl other after⟩, ?_⟩
  cases closed with
  | true => exact hkept
  | false =>
    intro claiming hrely' hinv' reply claimed hclaims
    cases reply with
    | error error =>
      cases hclaims with
      | refused => exact ⟨⟨hinv', fun other _ ↦ .refl other claiming⟩, hkept.stable hrely'⟩
    | ok _ =>
      obtain ⟨hinv'', hothers, hleased⟩ := claims_granted hinv' (hkept.stable hrely') hclaims
      exact ⟨⟨hinv'', hothers⟩, hleased⟩

/-- Assumes: a thread with a reservation, and a fact about it that it may rely on. Starting the
operation keeps the reservation, or the thread works then. -/
theorem secure_startReserved {next : Except Raised Unit → RawProgram α} {flag : Bool}
    (h : Waiting thread session world ∧ world.released thread = flag)
    (herror : ∀ error after, Waiting thread session after → after.released thread = flag →
      Secure limits thread (next (.error error)) after post)
    (hok : ∀ after, Working thread session after → after.released thread = flag →
      Secure limits thread (next (.ok ())) after post) :
    Secure limits thread (Program.bind (ask (.startReserved session)) next) world post := by
  intro before hrely hinv reply after hperform
  have hwaiting : Waiting thread session before := h.1.stable hrely
  have hflag : before.released thread = flag := hrely.released.trans h.2
  cases reply with
  | error error =>
    cases hperform with
    | refused =>
      exact ⟨⟨hinv, fun other _ ↦ .refl other before⟩, herror error before hwaiting hflag⟩
  | ok _ =>
    obtain ⟨hkept, hothers, hworking⟩ := startsReserved_started hinv hwaiting hperform
    have hsame : after.released = before.released := by
      cases hperform
      rfl
    exact ⟨⟨hkept, hothers⟩, hok after hworking (by rw [hsame, hflag])⟩

/-- Assumes: a thread that works on a session. The rest of `run` ends with its lease released. -/
theorem secure_runStarted (body : Body) (guarded : Bool) (h : Working thread session world) :
    Secure limits thread (runStarted session body guarded) world fun _ after ↦
      Free thread after := by
  refine Safe.bind ((secure_returns (runBody_asks body guarded _) h).mono fun ended after hended ↦ ?_)
  obtain ⟨⟨⟨execution, outcome⟩, rfl⟩, hworking⟩ := hended
  refine Safe.bind ((?_ : Secure limits thread _ after fun outcome after ↦
    (∃ value, outcome = .ok value) ∧ Working thread session after).mono fun ended after hended ↦ ?_)
  · cases outcome with
    | ok _ => exact ⟨⟨execution, rfl⟩, hworking⟩
    | error error => exact secure_returns (handleException_asks body execution error) hworking
  obtain ⟨⟨execution, rfl⟩, hworking⟩ := hended
  exact secure_release (.inl hworking) fun _ hfree ↦ hfree

/-- Assumes: a thread with a reservation. `run` ends with its lease released. -/
theorem secure_run (body : Body) (guarded : Bool) (h : Waiting thread session world) :
    Secure limits thread (run session body guarded) world fun _ after ↦ Free thread after :=
  secure_startReserved ⟨h, rfl⟩
    (fun _ _ hwaiting _ ↦ secure_release (.inr hwaiting) fun _ hfree ↦ hfree)
    fun _ hworking _ ↦ secure_runStarted body guarded hworking

/-- Assumes: a free thread. A program of neutral calls, and then one that starts free, end free. -/
theorem secure_then {α β : Type} {program : RawProgram α} {next : α → RawProgram β}
    (hasks : program.Asks Neutral) (hfree : Free thread world)
    (hnext : ∀ value after, Free thread after →
      Secure limits thread (next value) after fun _ after ↦ Free thread after) :
    Secure limits thread (Program.bind program next) world fun _ after ↦ Free thread after := by
  refine Safe.bind ((secure_neutral (fun _ _ ↦ Free.stable) hasks hfree).mono
    fun outcome after hkept ↦ ?_)
  cases outcome with
  | error error => exact hkept
  | ok value => exact hnext value after hkept

/-- Assumes: a free thread. A claim, and then a program that ends free with the lease, end free. -/
theorem secure_claim_then {next : Unit → RawProgram α} (expectedRevision : Option ℕ)
    (reserved : Bool) (hfree : Free thread world)
    (hnext : ∀ after,
      (if reserved then Waiting thread session after else Working thread session after) →
        Secure limits thread (next ()) after fun _ after ↦ Free thread after) :
    Secure limits thread (Program.bind (claim session expectedRevision reserved) next) world
      fun _ after ↦ Free thread after := by
  refine Safe.bind ((secure_claim expectedRevision reserved hfree).mono fun outcome after hpost ↦ ?_)
  cases outcome with
  | error error => exact hpost
  | ok _ => exact hnext after hpost

theorem secure_createExecution (body : Body) (hfree : Free thread world) :
    Secure limits thread (createExecution session body) world fun _ after ↦ Free thread after := by
  refine secure_then (get_asks session) hfree fun _ _ hfree ↦ ?_
  refine secure_then (validatePolicy_asks trivial _ _) hfree fun _ _ hfree ↦ ?_
  exact secure_claim_then _ true hfree fun _ hwaiting ↦ secure_run body false hwaiting

/-- Assumes: a free thread. An execution for an assistant ends with every lease released, also when it
never ran. -/
theorem secure_executeForAssistant (body : Body) (hfree : Free thread world) :
    Secure limits thread (executeForAssistant session body) world fun _ after ↦
      Free thread after := by
  refine secure_then (get_asks session) hfree fun _ _ hfree ↦ ?_
  refine secure_then (validatePolicy_asks trivial _ _) hfree fun _ _ hfree ↦ ?_
  refine secure_claim_then _ true hfree fun _ hwaiting ↦ ?_
  intro before hrely hinv entered after hperform
  obtain rfl : after = before := hperform
  have hkept : Waiting thread session after := Waiting.stable hrely hwaiting
  refine ⟨⟨hinv, fun other _ ↦ .refl other after⟩, ?_⟩
  cases entered with
  | error error => exact secure_release (.inr hkept) fun _ hfree ↦ hfree
  | ok _ => exact secure_run body true hkept

theorem secure_upload (chunks : ℕ)
    (hfree : Free thread world) :
    Secure limits thread (upload session script mode chunks) world fun _ after ↦
      Free thread after := by
  refine secure_then (get_asks session) hfree fun _ _ hfree ↦ ?_
  refine secure_then (attempt_asks (ask_asks trivial)) hfree fun _ _ hfree ↦ ?_
  refine secure_claim_then _ false hfree fun _ hworking ↦ ?_
  refine Safe.bind (Safe.mono (secure_returns (uploadBody_asks script mode chunks).attempt_returns
    hworking) fun ended after hended ↦ ?_)
  obtain ⟨⟨outcome, rfl⟩, hworking⟩ := hended
  refine secure_release (.inl hworking) fun _ hfree ↦ ?_
  cases outcome with
  | error error => exact hfree
  | ok _ => exact hfree

/-! ### Downloads -/

/-- A download of a thread: it has the lease of a session and did not release it, or it did. -/
def Downloading (thread session : ℕ) (manager : Manager) : Prop :=
  (manager.released thread = false ∧
    (Working thread session manager ∨ Waiting thread session manager)) ∨
  (manager.released thread = true ∧ Free thread manager)

theorem Downloading.stable (hrely : LeaseRely thread before after)
    (h : Downloading thread session before) : Downloading thread session after := by
  rcases h with ⟨hflag, hleased⟩ | ⟨hflag, hfree⟩
  · exact .inl ⟨hrely.released.trans hflag, hleased.imp (·.stable hrely) (·.stable hrely)⟩
  · exact .inr ⟨hrely.released.trans hflag, hfree.stable hrely⟩

theorem LeaseInv.of_released (h : LeaseInv manager) (released : ℕ → Bool) :
    LeaseInv { manager with released := released } :=
  ⟨h.misuse, h.closed, h.running, h.counts, h.returned⟩

/-- Assumes: a change that the other threads may rely on. They may rely on it also when the download
of the thread is marked. -/
theorem LeaseRely.of_released {other : ℕ} (flag : Bool)
    (hother : other ≠ thread) (h : LeaseRely other before after) :
    LeaseRely other before
      { after with released := Function.update before.released thread flag } :=
  ⟨h.closed, h.kept, h.added, by simp [Function.update_of_ne hother], h.opening⟩

/-- `CopyDownload.finish` releases the lease of a download once. -/
theorem secure_finishDownload {next : Unit → RawProgram α} (h : Downloading thread session world)
    (hnext : ∀ after, Downloading thread session after → Free thread after →
      Secure limits thread (next ()) after post) :
    Secure limits thread (Program.bind (ask (.finishDownload session)) next) world post := by
  intro before hrely hinv reply after hperform
  have hperform : if before.released thread then after = before
      else ∃ now, after = { before.release thread session now with
        released := Function.update before.released thread true } := hperform
  rcases h.stable hrely with ⟨hflag, hleased⟩ | ⟨hflag, hfree⟩
  · rw [hflag] at hperform
    obtain ⟨now, rfl⟩ := hperform
    obtain ⟨hkept, hothers, hfree⟩ := release_frees now hinv hleased
    refine ⟨⟨hkept.of_released _, fun other hother ↦ ?_⟩, hnext _ (.inr ⟨?_, hfree⟩) hfree⟩
    · exact (hothers other hother).of_released true hother
    · exact Function.update_self _ _ _
  · rw [hflag] at hperform
    obtain rfl := hperform
    exact ⟨⟨hinv, fun other _ ↦ .refl other after⟩, hnext _ (.inr ⟨hflag, hfree⟩) hfree⟩

theorem secure_stream (asked : ℕ)
    (h : Waiting thread session world ∧ world.released thread = false) :
    Secure limits thread (stream session script mode asked).attempt world fun outcome after ↦
      (∃ value, outcome = .ok value) ∧ Downloading thread session after := by
  refine Safe.attempt (Safe.mono (?_ : Secure limits thread _ world fun _ after ↦
    Downloading thread session after) fun outcome after hdownloading ↦
      ⟨⟨outcome, rfl⟩, hdownloading⟩)
  refine Safe.bind (secure_startReserved h (fun error after hwaiting hflag ↦ ?_)
    fun after hworking hflag ↦ ?_)
  · exact .inl ⟨hflag, .inr hwaiting⟩
  · have hasks : (Program.bind authorizeTicket fun _ ↦ Program.bind (prepareCopy session script mode)
        fun _ ↦ streamChunks session asked).Asks (Uses session) :=
      authorizeTicket_asks.bind fun _ ↦ (prepareCopy_asks script mode).bind fun _ ↦
        streamChunks_asks asked
    have hstable : ∀ before after, LeaseRely thread before after →
        Working thread session before ∧ before.released thread = false →
          Working thread session after ∧ after.released thread = false :=
      fun _ _ hrely hfact ↦ ⟨hfact.1.stable hrely, hrely.released.trans hfact.2⟩
    exact (secure_uses hstable (fun _ ↦ And.left) hasks ⟨hworking, hflag⟩).mono
      fun _ _ hfact ↦ .inl ⟨hfact.2, .inl hfact.1⟩

/-- Assumes: a download that holds its reservation. Whatever its consumer asks for, the lease is
released. -/
theorem secure_consume (asked : ℕ)
    (h : Waiting thread session world ∧ world.released thread = false) :
    Secure limits thread (consume session script mode asked) world fun _ after ↦
      Free thread after := by
  unfold consume
  by_cases hasked : asked = 0
  · rw [if_pos hasked]
    exact secure_finishDownload (.inl ⟨h.2, .inr h.1⟩) fun _ _ hfree ↦ hfree
  · rw [if_neg hasked]
    refine Safe.bind (Safe.bind ((secure_stream script mode asked h).mono
      fun ended after hended ↦ ?_))
    obtain ⟨⟨outcome, rfl⟩, hdownloading⟩ := hended
    exact secure_finishDownload hdownloading fun _ hdownloading _ ↦
      secure_finishDownload hdownloading fun _ _ hfree ↦ hfree

/-- Assumes: a free thread. A download ends with every lease released, also when no chunk is asked
for. -/
theorem secure_download (asked : ℕ)
    (hfree : Free thread world) :
    Secure limits thread (download session script mode asked) world fun _ after ↦
      Free thread after := by
  refine secure_then (get_asks session) hfree fun _ _ hfree ↦ ?_
  refine secure_then (attempt_asks (ask_asks trivial)) hfree fun _ _ hfree ↦ ?_
  refine secure_claim_then _ true hfree fun _ hwaiting ↦ ?_
  intro before hrely hinv _ after hperform
  obtain rfl : after = { before with
    released := Function.update before.released thread false } := hperform
  have hkept : Waiting thread session before := Waiting.stable hrely hwaiting
  refine ⟨⟨hinv.of_released _, fun other hother ↦ ?_⟩,
    secure_consume script mode asked ⟨hkept, Function.update_self _ _ _⟩⟩
  exact (LeaseRely.refl other before).of_released false hother

/-! ### Opening sessions -/

/-- A free thread that opens a session. -/
def Opens (thread : ℕ) (key : Key) (manager : Manager) : Prop :=
  Free thread manager ∧ ∃ connected, manager.opening.get? key = some ⟨thread, connected⟩

variable {key : Key}

theorem Opens.stable (hrely : LeaseRely thread before after)
    (h : Opens thread key before) : Opens thread key after := by
  obtain ⟨hfree, connected, hopening⟩ := h
  exact ⟨hfree.stable hrely, connected, hrely.opening key _ hopening rfl⟩

variable {before : Manager}

/-- Assumes: the openings change where no other thread opens a session, and `close` has not returned.
The invariant holds, and the other threads may rely on it. -/
theorem opening_guarantees {opening : Dictionary Key Opening}
    (hinv : LeaseInv before) (hreturned : before.closeReturned = false)
    (hkept : ∀ other key value, other ≠ thread → value.thread = other →
      before.opening.get? key = some value → opening.get? key = some value) :
    (leaseGuarantee limits).Guarantees thread before { before with opening := opening } := by
  refine ⟨⟨hinv.misuse, hinv.closed, hinv.running, hinv.counts, fun htrue ↦ ?_⟩,
    fun other hother ↦ ?_⟩
  · rw [show before.closeReturned = true from htrue] at hreturned
    cases hreturned
  · have hrefl := LeaseRely.refl other before
    exact ⟨hrefl.closed, hrefl.kept, hrefl.added, rfl,
      fun key value hvalue hthread ↦ hkept other key value hother hthread hvalue⟩

/-- Assumes: a thread opens a session under a key. No other thread opens one under it. -/
theorem Opens.other {key key' : Key} {value : Opening} {other : ℕ}
    (h : Opens thread key manager) (hother : other ≠ thread) (hthread : value.thread = other)
    (hvalue : manager.opening.get? key' = some value) : key' ≠ key := by
  rintro rfl
  obtain ⟨-, connected, hopening⟩ := h
  obtain rfl := Option.some.inj (hvalue.symm.trans hopening)
  exact hother hthread.symm

/-- Assumes: a thread opens a session. `close` has not returned. -/
theorem Opens.not_returned (h : Opens thread key manager)
    (hinv : LeaseInv manager) : manager.closeReturned = false := by
  obtain ⟨-, connected, hopening⟩ := h
  by_contra hreturned
  obtain ⟨-, -, hnone⟩ := hinv.returned (by simpa using hreturned)
  rw [hnone key] at hopening
  cases hopening

/-- Assumes: a thread opens a session. Marking its connection keeps the invariant and what the others
rely on. -/
theorem Opens.mark (h : Opens thread key before) (hinv : LeaseInv before) (connected : Bool) :
    (leaseGuarantee limits).Guarantees thread before
        { before with opening := before.opening.insert key ⟨thread, connected⟩ } ∧
      Opens thread key { before with opening := before.opening.insert key ⟨thread, connected⟩ } := by
  refine ⟨opening_guarantees hinv (h.not_returned hinv) fun other key' value hother hthread hvalue ↦ ?_,
    h.1, connected, by simp [Dictionary.get?_insert]⟩
  rw [Dictionary.get?_insert, if_neg (h.other hother hthread hvalue)]
  exact hvalue

theorem secure_discard {next : RawProgram α} (h : Opens thread key world)
    (hnext : ∀ after, Free thread after → Secure limits thread next after post) :
    Secure limits thread (Program.bind (ask (.discard key)) fun _ ↦ next) world post := by
  intro before hrely hinv _ after hperform
  obtain rfl : after = { before with opening := before.opening.erase key } := hperform
  have hopens : Opens thread key before := h.stable hrely
  refine ⟨opening_guarantees hinv (hopens.not_returned hinv)
    fun other key' value hother hthread hvalue ↦ ?_, hnext _ hopens.1⟩
  rw [Dictionary.get?_erase, if_neg (hopens.other hother hthread hvalue)]
  exact hvalue

/-- Assumes: the service is not closed. A new session under a fresh number keeps the invariant, and
every thread may rely on it. -/
theorem new_keeps {now : ℕ} (hinv : LeaseInv before)
    (hclosed : before.closed = false) (hfresh : before.sessions.get? session = none) :
    Keeps before (before.write session (.new key now)) := by
  refine ⟨⟨hinv.misuse, fun other value hvalue ↦ ?_, fun other value hvalue ↦ ?_,
    fun other target ↦ ?_, fun hreturned ↦ ?_⟩, fun other ↦ ⟨id, fun target value hvalue ↦ ?_,
    fun target value hvalue hnone ↦ ?_, rfl, fun _ _ hvalue _ ↦ hvalue⟩⟩
  · rw [Manager.write, Dictionary.get?_insert] at hvalue
    split at hvalue
    · obtain rfl := Option.some.inj hvalue
      intro hstatus
      cases hstatus
    · exact hinv.closed other value hvalue
  · rw [Manager.write, Dictionary.get?_insert] at hvalue
    split at hvalue
    · obtain rfl := Option.some.inj hvalue
      intro hstatus
      cases hstatus
    · exact hinv.running other value hvalue
  · have hbefore := hinv.counts other target
    have hheld : (before.write session (.new key now)).held other target =
        before.held other target := by
      by_cases htarget : target = session
      · subst htarget
        simp [Manager.held, Manager.write, hfresh, Session.new]
      · simp [Manager.held, Manager.write, htarget]
    rw [hheld]
    exact hbefore
  · rw [(hinv.returned hreturned).1] at hclosed
    cases hclosed
  · have hne : target ≠ session := by
      rintro rfl
      rw [hfresh] at hvalue
      cases hvalue
    refine ⟨value, ?_, .refl other value⟩
    rw [Manager.write, Dictionary.get?_insert, if_neg hne]
    exact hvalue
  · rw [Manager.write, Dictionary.get?_insert] at hvalue
    split at hvalue
    · obtain rfl := Option.some.inj hvalue
      exact ⟨hclosed, fun hheld ↦ by cases hheld⟩
    · rw [hnone] at hvalue
      cases hvalue

/-- Assumes: a thread opens a session. Registering it keeps the invariant, what the others rely on, and
the opening. -/
theorem registers_guarantees {reply : Except Raised Unit}
    (hinv : LeaseInv before) (hopens : Opens thread key before)
    (h : Registers thread key before reply after) :
    (leaseGuarantee limits).Guarantees thread before after ∧ Opens thread key after := by
  cases h with
  | refused error hclosed => exact hopens.mark hinv false
  | registered session now hclosed hfresh =>
    obtain ⟨hnew, hrely⟩ : Keeps before (before.write session (.new key now)) :=
      new_keeps hinv hclosed hfresh
    obtain ⟨⟨hmarked, hothers⟩, hmine⟩ : (leaseGuarantee limits).Guarantees thread
        (before.write session (.new key now)) { before.write session (.new key now) with
          opening := before.opening.insert key ⟨thread, false⟩ } ∧ _ :=
      (hopens.stable (hrely thread)).mark hnew false
    exact ⟨⟨hmarked, fun other hother ↦ (hrely other).trans (hothers other hother)⟩, hmine⟩

/-- Assumes: a thread opens a session. The rest of `create` ends free. -/
theorem secure_opened (h : Opens thread key world) :
    Secure limits thread
      (Program.bind (ask (.register key)) fun (registered : Except Raised Unit) ↦
        Program.bind (ask (.discard key)) fun _ ↦ Program.ofExcept registered) world
      fun _ after ↦ Free thread after := by
  intro before hrely hinv registered after hperform
  obtain ⟨hguarantees, hopens⟩ := registers_guarantees hinv (h.stable hrely) hperform
  refine ⟨hguarantees, secure_discard hopens fun _ hfree ↦ ?_⟩
  cases registered with
  | error error => exact hfree
  | ok _ => exact hfree

/-- Assumes: `create` admits a session. The thread opens it. -/
theorem admitted_guarantees (hinv : LeaseInv before)
    (hfree : Free thread before) (hadmits : before.admits limits key = true) :
    (leaseGuarantee limits).Guarantees thread before
        { before with opening := before.opening.insert key ⟨thread, false⟩ } ∧
      Opens thread key { before with opening := before.opening.insert key ⟨thread, false⟩ } := by
  simp only [Manager.admits, Bool.and_eq_true, Bool.not_eq_true', decide_eq_true_eq] at hadmits
  obtain ⟨⟨⟨⟨hopen, -⟩, -⟩, hkey⟩, -⟩ := hadmits
  have hreturned : before.closeReturned = false := by
    by_contra hreturned
    rw [(hinv.returned (by simpa using hreturned)).1] at hopen
    cases hopen
  refine ⟨opening_guarantees hinv hreturned fun other key' value hother hthread hvalue ↦ ?_,
    hfree, false, by simp [Dictionary.get?_insert]⟩
  have hne : key' ≠ key := by
    rintro rfl
    rw [Dictionary.contains_iff.2 ⟨value, hvalue⟩] at hkey
    cases hkey
  rw [Dictionary.get?_insert, if_neg hne]
  exact hvalue

/-- Assumes: a free thread. `create` ends free. -/
theorem secure_create (key : Key) (hfree : Free thread world) :
    Secure limits thread (create key) world fun _ after ↦ Free thread after := by
  refine secure_then reap_asks hfree fun _ opened hfree ↦ ?_
  intro before hrely hinv admitted after hperform
  have hbefore : Free thread before := Free.stable hrely hfree
  rcases hperform with ⟨error, rfl, rfl⟩ | ⟨rfl, hadmits, rfl⟩
  · exact ⟨⟨hinv, fun other _ ↦ .refl other after⟩, hbefore⟩
  · obtain ⟨hguarantees, hopens⟩ := admitted_guarantees hinv hbefore hadmits
    refine ⟨hguarantees, ?_⟩
    intro connecting hrely' hinv' connected opened hconnect
    have hopens' := hopens.stable hrely'
    rcases hconnect with ⟨error, rfl, rfl⟩ | ⟨rfl, rfl⟩
    · exact ⟨⟨hinv', fun other _ ↦ .refl other opened⟩,
        secure_discard hopens' fun _ hfree ↦ hfree⟩
    · obtain ⟨hmarked, hconnected⟩ := hopens'.mark hinv' true
      exact ⟨hmarked, secure_opened hconnected⟩

/-! ### Shutting down -/

/-- A free thread that shuts the service down, with the sessions it has not closed. -/
def Closing (thread : ℕ) (remaining : List ℕ) (manager : Manager) : Prop :=
  Free thread manager ∧ manager.closed = true ∧
    ∀ session value, manager.sessions.get? session = some value → value.status ≠ .closed →
      session ∈ remaining

/-- No session is added to a service that is closed, and a closed session stays closed. -/
theorem Closing.stable {remaining : List ℕ}
    (hrely : LeaseRely thread before after) (h : Closing thread remaining before) :
    Closing thread remaining after := by
  obtain ⟨hfree, hclosed, hall⟩ := h
  refine ⟨hfree.stable hrely, hrely.closed hclosed, fun session value hvalue hstatus ↦ ?_⟩
  cases hbefore : before.sessions.get? session with
  | none =>
    rw [(hrely.added session value hvalue hbefore).1] at hclosed
    cases hclosed
  | some old =>
    obtain ⟨new, hnew, hsession⟩ := hrely.kept session old hbefore
    obtain rfl := Option.some.inj (hvalue.symm.trans hnew)
    exact hall session old hbefore fun hold ↦ hstatus (hsession.closed hold)

theorem write_recordRelease (manager : Manager) (holder : Option ℕ) (value : Session) :
    Writes session value manager ((manager.write session value).recordRelease holder session) ∧
      ((manager.write session value).recordRelease holder session).claims = manager.claims ∧
      ((manager.write session value).recordRelease holder session).released = manager.released ∧
      ((manager.write session value).recordRelease holder session).releases =
        match holder with
        | some thread => (thread, session) :: manager.releases
        | none => manager.releases := by
  cases holder with
  | none => exact ⟨⟨rfl, rfl, rfl, rfl, rfl⟩, rfl, rfl, rfl⟩
  | some thread => exact ⟨⟨rfl, rfl, rfl, rfl, rfl⟩, rfl, rfl, rfl⟩

variable {rest : List ℕ}

/-- Assumes: one of the remaining sessions is written, and closed. It remains no longer. -/
theorem Closing.written {value : Session}
    (h : Closing thread (session :: rest) before) (hwrites : Writes session value before after)
    (hstatus : value.status = .closed) (hfreed : value.operation ≠ some thread) :
    Closing thread rest after := by
  obtain ⟨hfree, hclosed, hall⟩ := h
  refine ⟨fun other found hfound ↦ ?_, hwrites.closed.trans hclosed, fun other found hfound hopen ↦ ?_⟩
  · rw [hwrites.sessions, Dictionary.get?_insert] at hfound
    split at hfound
    · obtain rfl := Option.some.inj hfound
      exact hfreed
    · exact hfree other found hfound
  · rw [hwrites.sessions, Dictionary.get?_insert] at hfound
    split at hfound
    · obtain rfl := Option.some.inj hfound
      exact absurd hstatus hopen
    · next hne =>
      exact (List.mem_cons.1 (hall other found hfound hopen)).resolve_left hne

/-- Assumes: a remaining session is closed already, or is not registered. It remains no longer. -/
theorem Closing.skip (h : Closing thread (session :: rest) manager)
    (hclosed : ∀ value, manager.sessions.get? session = some value → value.status = .closed) :
    Closing thread rest manager := by
  obtain ⟨hfree, hflag, hall⟩ := h
  refine ⟨hfree, hflag, fun other value hvalue hopen ↦ ?_⟩
  rcases List.mem_cons.1 (hall other value hvalue hopen) with rfl | hrest
  · exact absurd (hclosed value hvalue) hopen
  · exact hrest

/-- The section of `close` that retires a reservation that was not started, or cancels the session. -/
theorem retireSection_keeps (hinv : LeaseInv before)
    (hclosing : Closing thread (session :: rest) before) :
    Keeps before (retireSection session before).2 ∧
      Closing thread (if (retireSection session before).1 then rest else session :: rest)
        (retireSection session before).2 := by
  cases hvalue : before.sessions.get? session with
  | none =>
    simp only [retireSection, hvalue, if_true]
    exact ⟨.refl hinv, hclosing.skip fun value hsome ↦ by rw [hvalue] at hsome; cases hsome⟩
  | some value =>
    by_cases hclosed : value.status = .closed
    · simp only [retireSection, hvalue, hclosed, if_true]
      refine ⟨.refl hinv, hclosing.skip fun found hfound ↦ ?_⟩
      obtain rfl := Option.some.inj (hvalue.symm.trans hfound)
      exact hclosed
    · by_cases hreserved : value.status = .running ∧ value.operationStarted = false
      · simp only [retireSection, hvalue, if_neg hclosed, if_pos hreserved, if_true]
        obtain ⟨hwrites, hclaims, hreleased, hreleases⟩ := @write_recordRelease session
          before value.operation (Manager.closeClaimed { value with
            cancelled := true, operation := none })
        refine ⟨⟨hwrites.inv hvalue (fun _ ↦ rfl) (fun hrunning ↦ by cases hrunning) (fun _ ↦ rfl)
          (hwrites.balanced_release hvalue rfl hclaims hreleases hinv.counts) hinv,
          fun other ↦ hwrites.rely hvalue ⟨fun _ ↦ rfl, fun _ hheld ↦ (by cases hheld), fun _ ↦ ?_⟩
            (by rw [hreleased])⟩, hclosing.written hwrites rfl fun hheld ↦ by cases hheld⟩
        exact .inr ⟨hreserved.1, hreserved.2, rfl, fun hheld ↦ by cases hheld⟩
      · simp only [retireSection, hvalue, if_neg hclosed, if_neg hreserved]
        have hwrites : Writes session { value with cancelled := true } before
          (before.write session { value with cancelled := true }) := ⟨rfl, rfl, rfl, rfl, rfl⟩
        have hkeeps := hwrites.keeps hinv hvalue rfl rfl rfl id rfl rfl rfl
        exact ⟨hkeeps, hclosing.stable (hkeeps.2 thread)⟩

/-- A thread that shuts the service down, and holds the operation lock of a session. -/
def ClosingHeld (thread session : ℕ) (rest : List ℕ) (manager : Manager) : Prop :=
  Holding thread session manager ∧ manager.closed = true ∧
    ∀ other value, manager.sessions.get? other = some value → value.status ≠ .closed →
      other ∈ session :: rest

theorem ClosingHeld.stable
    (hrely : LeaseRely thread before after) (h : ClosingHeld thread session rest before) :
    ClosingHeld thread session rest after := by
  obtain ⟨hholding, hclosed, hall⟩ := h
  refine ⟨hholding.stable hrely, hrely.closed hclosed, fun other value hvalue hstatus ↦ ?_⟩
  cases hbefore : before.sessions.get? other with
  | none =>
    rw [(hrely.added other value hvalue hbefore).1] at hclosed
    cases hclosed
  | some old =>
    obtain ⟨new, hnew, hsession⟩ := hrely.kept other old hbefore
    obtain rfl := Option.some.inj (hvalue.symm.trans hnew)
    exact hall other old hbefore fun hold ↦ hstatus (hsession.closed hold)

/-- Assumes: a thread shuts the service down. Taking the free operation lock of a session keeps the
invariant and what the others rely on. -/
theorem acquire_guarantees {value : Session}
    (hinv : LeaseInv before) (hclosing : Closing thread (session :: rest) before)
    (hvalue : before.sessions.get? session = some value) (hunheld : value.operation = none) :
    (leaseGuarantee limits).Guarantees thread before
        { before.write session { value with operation := some thread } with
          claims := (thread, session) :: before.claims } ∧
      ClosingHeld thread session rest
        { before.write session { value with operation := some thread } with
          claims := (thread, session) :: before.claims } := by
  obtain ⟨hfree, hflag, hall⟩ := hclosing
  have hidle : value.status ≠ .running := fun hrunning ↦
    hinv.running session value hvalue hrunning hunheld
  have hwrites : Writes session { value with operation := some thread } before
      { before.write session { value with operation := some thread } with
        claims := (thread, session) :: before.claims } := ⟨rfl, rfl, rfl, rfl, rfl⟩
  refine ⟨⟨hwrites.inv hvalue (hinv.closed session value hvalue) (fun _ hnone ↦ by cases hnone) id
    (hwrites.balanced_claim hvalue hunheld rfl rfl rfl hinv.counts) hinv, fun other hother ↦ ?_⟩,
    ⟨hwrites.freeElsewhere fun target found _ hfound ↦ hfree target found hfound, _, hwrites.get,
      rfl, hidle⟩, hflag, fun other found hfound hopen ↦ ?_⟩
  · refine hwrites.rely hvalue ⟨id, fun _ hheld ↦ hother (Option.some.inj hheld).symm,
      fun hheld ↦ ?_⟩ rfl
    rw [hunheld] at hheld
    cases hheld
  · rw [hwrites.sessions, Dictionary.get?_insert] at hfound
    split at hfound
    · next hsame => exact hsame ▸ List.mem_cons_self
    · exact hall other found hfound hopen

/-- Assumes: a thread shuts the service down and holds the operation lock of a session. Closing the
session and freeing the lock keep the invariant and what the others rely on. -/
theorem closeHeldSection_guarantees (hinv : LeaseInv before)
    (h : ClosingHeld thread session rest before) :
    (leaseGuarantee limits).Guarantees thread before (closeHeldSection thread session before) ∧
      Closing thread rest (closeHeldSection thread session before) := by
  obtain ⟨⟨helsewhere, value, hvalue, hheld, hidle⟩, hflag, hall⟩ := h
  obtain ⟨hwrites, hclaims, hreleased, hreleases⟩ := @write_recordRelease session before
    value.operation { Manager.closeClaimed value with operation := none }
  have hafter : closeHeldSection thread session before =
      (before.write session { Manager.closeClaimed value with operation := none }).recordRelease
        value.operation session := by
    simp [closeHeldSection, hvalue, hheld]
  rw [hafter]
  refine ⟨⟨hwrites.inv hvalue (fun _ ↦ rfl) (fun hrunning ↦ by cases hrunning) (fun _ ↦ rfl)
    (hwrites.balanced_release hvalue rfl hclaims hreleases hinv.counts) hinv, fun other hother ↦ ?_⟩,
    fun other found hfound ↦ ?_, hwrites.closed.trans hflag, fun other found hfound hopen ↦ ?_⟩
  · refine hwrites.rely hvalue ⟨fun _ ↦ rfl, fun _ hheld' ↦ (by cases hheld'), fun hheld' ↦ ?_⟩
      (by rw [hreleased])
    rw [hheld] at hheld'
    exact absurd (Option.some.inj hheld').symm hother
  · by_cases hsame : other = session
    · subst hsame
      obtain rfl := Option.some.inj (hwrites.get.symm.trans hfound)
      simp
    · exact hwrites.freeElsewhere helsewhere other found hsame hfound
  · rw [hwrites.sessions, Dictionary.get?_insert] at hfound
    split at hfound
    · obtain rfl := Option.some.inj hfound
      exact absurd rfl hopen
    · next hne => exact (List.mem_cons.1 (hall other found hfound hopen)).resolve_left hne

/-- `close` leaves no session that it saw open. -/
theorem secure_closeEach (sessions : List ℕ) (h : Closing thread sessions world) :
    Secure limits thread (closeEach sessions) world fun outcome after ↦
      (∃ value, outcome = .ok value) ∧ Closing thread [] after := by
  induction sessions generalizing world with
  | nil => exact ⟨⟨(), rfl⟩, h⟩
  | cons session rest ih =>
    intro before hrely hinv retired after hperform
    have hperform : (retired, after) = retireSection session before := hperform
    obtain ⟨⟨hkept, hothers⟩, hclosing⟩ := retireSection_keeps hinv (h.stable hrely)
    rw [← hperform] at hkept hothers hclosing
    refine ⟨⟨hkept, fun other _ ↦ hothers other⟩, ?_⟩
    cases retired with
    | true => exact ih hclosing
    | false =>
      intro waiting hrely' hinv' _ acquired hacquire
      obtain ⟨value, hvalue, hunheld, rfl⟩ := hacquire
      obtain ⟨hguarantees, hheld⟩ := acquire_guarantees hinv' (Closing.stable hrely' hclosing)
        hvalue hunheld
      refine ⟨hguarantees, ?_⟩
      intro holding hrely'' hinv'' _ closed hclose
      obtain rfl : closed = closeHeldSection thread session holding := hclose
      obtain ⟨hguarantees', hrest⟩ := closeHeldSection_guarantees hinv'' (hheld.stable hrely'')
      exact ⟨hguarantees', ih hrest⟩

theorem mem_live {value : Session}
    (hvalue : manager.sessions.get? session = some value) (hopen : value.status ≠ .closed) :
    session ∈ manager.live := by
  have hentry : (session, value) ∈ manager.sessions.entries := Dictionary.mem_entries.2 hvalue
  exact List.mem_map.2 ⟨(session, value), List.mem_filter.2 ⟨hentry, by simpa using hopen⟩, rfl⟩

/-- Assumes: a free thread. `close` ends free, and when it returns no connection is open. -/
theorem secure_close (hfree : Free thread world) :
    Secure limits thread close world fun _ after ↦ Free thread after := by
  intro before hrely hinv sessions after hperform
  obtain ⟨rfl, rfl⟩ := hperform
  have hbefore : Free thread before := hfree.stable hrely
  refine ⟨⟨⟨hinv.misuse, hinv.closed, hinv.running, hinv.counts, fun hreturned ↦
    ⟨rfl, (hinv.returned hreturned).2⟩⟩, fun other _ ↦ ?_⟩, ?_⟩
  · have hrefl := LeaseRely.refl other before
    exact ⟨fun _ ↦ rfl, hrefl.kept, hrefl.added, rfl, hrefl.opening⟩
  · have hclosing : Closing thread before.live { before with closed := true } :=
      ⟨hbefore, rfl, fun session value hvalue hopen ↦ mem_live hvalue hopen⟩
    have hclosed : Secure limits thread (closeEach before.live) { before with closed := true } _ :=
      secure_closeEach before.live hclosing
    change Secure limits thread (Program.bind (closeEach before.live) fun _ ↦ ask .awaitOpening) _ _
    refine Safe.bind (hclosed.mono fun ended after hended ↦ ?_)
    obtain ⟨⟨_, rfl⟩, hclosing'⟩ := hended
    intro waiting hrely' hinv' _ last hawait
    obtain ⟨hnone, rfl⟩ := hawait
    obtain ⟨hlast, hflag, hall⟩ := hclosing'.stable hrely'
    refine ⟨⟨⟨hinv'.misuse, hinv'.closed, hinv'.running, hinv'.counts, fun _ ↦ ⟨hflag, ?_, ?_⟩⟩,
      fun other _ ↦ ?_⟩, hlast⟩
    · intro session value hvalue
      refine hinv'.closed session value hvalue ?_
      by_contra hopen
      cases hall session value hvalue hopen
    · intro key
      cases hopening : waiting.opening.get? key with
      | none => rfl
      | some value =>
        have hentry := Dictionary.mem_entries.2 hopening
        rw [hnone] at hentry
        cases hentry
    · have hrefl := LeaseRely.refl other waiting
      exact ⟨hrefl.closed, hrefl.kept, hrefl.added, rfl, hrefl.opening⟩

end Programs

/-! ### Every run -/

section Runs

variable {limits : Limits}

/-- Every program of the service that may start is safe for a free thread, which is free when it
ends. -/
theorem secure_starts {program : RawProgram Unit} (hstarts : Starts program) (thread : ℕ)
    (world : Manager) (hfree : Free thread world) :
    Secure limits thread program world fun _ after ↦ Free thread after := by
  cases hstarts with
  | createExecution session body =>
    refine Safe.bind ((secure_createExecution body hfree).mono fun outcome after hended ↦ ?_)
    cases outcome with
    | error error => exact hended
    | ok _ => exact hended
  | executeForAssistant session body =>
    refine Safe.bind ((secure_executeForAssistant body hfree).mono fun outcome after hended ↦ ?_)
    cases outcome with
    | error error => exact hended
    | ok _ => exact hended
  | download session script mode asked => exact secure_download script mode asked hfree
  | upload session script mode chunks => exact secure_upload script mode chunks hfree
  | cancel session =>
    exact secure_neutral (fun _ _ ↦ Free.stable)
      ((get_asks session).bind fun _ ↦ attempt_asks (ask_asks trivial)) hfree
  | closeSession session expectedRevision =>
    exact secure_neutral (fun _ _ ↦ Free.stable) ((get_asks session).bind fun _ ↦
      (ask_asks trivial).bind fun _ ↦ attempt_asks (ask_asks trivial)) hfree
  | create key => exact secure_create key hfree
  | reap => exact secure_neutral (fun _ _ ↦ Free.stable) reap_asks hfree
  | close => exact secure_close hfree

theorem leaseInv_initial : LeaseInv Manager.initial where
  misuse := rfl
  closed := fun _ _ hvalue ↦ by cases hvalue
  running := fun _ _ hvalue ↦ by cases hvalue
  counts := fun _ _ ↦ rfl
  returned := fun hreturned ↦ by cases hreturned

theorem reachable_leased {pool : Pool rawInterface Raised Manager}
    (hreach : Pool.Reachable (managerSemantics limits) Starts (· = Manager.initial) pool) :
    (leaseGuarantee limits).Guarded Free (fun thread _ after ↦ Free thread after) pool := by
  refine RelyGuarantee.reachable_guarded ?_ ?_ (fun _ _ _ ↦ Free.stable) ?_ ?_ hreach
  · rintro world rfl
    exact leaseInv_initial
  · rintro world rfl thread session value hvalue
    cases hvalue
  · exact fun program hstarts thread world _ hfree ↦ secure_starts hstarts thread world hfree
  · exact fun _ _ _ henvironment ↦ henvironment.elim

/-- The session whose connection a call uses. -/
def RawCall.usedSession : RawCall → Option ℕ
  | .execute session _ | .rollback session | .closeConnection session | .copy session =>
    some session
  | _ => none

/-- Assumes: every call of a thread leaves nothing misused. A thread that is about to use a connection
holds the lease of its session, which is not closed. -/
theorem used_session_leased {thread session : ℕ} {request : RawCall} {world : Manager}
    (hused : request.usedSession = some session) (hclean : ∀ reply after,
      (managerSemantics limits).perform thread request world reply after → after.misuse = []) :
    ∃ value, world.sessions.get? session = some value ∧ value.operation = some thread ∧
      value.status ≠ .closed := by
  have huse : (world.use thread session).misuse = [] := by
    cases request with
    | execute target script =>
      obtain rfl := Option.some.inj hused
      exact hclean (.error (apiProblem "")) _ rfl
    | rollback target =>
      obtain rfl := Option.some.inj hused
      exact hclean (.ok ()) _ rfl
    | copy target =>
      obtain rfl := Option.some.inj hused
      exact hclean (.ok true) _ rfl
    | closeConnection target =>
      obtain rfl := Option.some.inj hused
      have hafter := hclean () _ rfl
      split at hafter
      · exact hafter
      · exact hafter
    | _ => cases hused
  unfold Manager.use at huse
  split at huse
  · next value hvalue =>
    split at huse
    · next hheld => exact ⟨value, hvalue, hheld⟩
    · cases huse
  · cases huse

/-- The safety of the leases in one state of the service. -/
structure LeasesSafe (limits : Limits) (pool : Pool rawInterface Raised Manager) : Prop where
  /-- A thread that is about to use a connection has the lock of its session, which is not closed. -/
  leased : ∀ thread request next session, pool.threads thread = some (.call request next) →
    RawCall.usedSession request = some session → ∃ value,
      pool.world.sessions.get? session = some value ∧ value.operation = some thread ∧
      value.status ≠ .closed
  /-- No connection was used, and no lock released, without it. -/
  unmisused : pool.world.misuse = []
  /-- Every claim of a thread was released once, unless the thread holds the lock. -/
  released : ∀ thread session, pool.world.claims.count (thread, session) =
    pool.world.releases.count (thread, session) + pool.world.held thread session
  /-- A thread that ended, with a value or an exception, has released every claim once. -/
  ended : ∀ thread program, pool.threads thread = some program →
    (program = .done () ∨ ∃ error, program = .raise error) → ∀ session,
      pool.world.claims.count (thread, session) = pool.world.releases.count (thread, session)
  /-- `reap` leaves a session alone whose lock is held. -/
  reaped : ∀ thread session reply after,
    (managerSemantics limits).perform thread (.reap session) pool.world reply after →
      ∀ other value, pool.world.sessions.get? other = some value → value.operation ≠ none →
        after.sessions.get? other = some value
  /-- When `close` has returned, no connection is open and none is opening. -/
  shut : pool.world.closeReturned = true →
    (∀ session value, pool.world.sessions.get? session = some value → value.connected = false) ∧
    ∀ key, pool.world.opening.get? key = none

/-- A section of `reap` leaves a session alone whose lock is held. -/
theorem reapSection_held {idleSeconds session now other : ℕ} {value : Session}
    (hvalue : manager.sessions.get? other = some value) (hheld : value.operation ≠ none) :
    (reapSection idleSeconds session now manager).sessions.get? other = some value := by
  unfold reapSection
  split
  · next found hfound =>
    split
    · next hidle =>
      have hne : other ≠ session := by
        rintro rfl
        obtain rfl := Option.some.inj (hvalue.symm.trans hfound)
        exact hheld hidle.2.2
      rw [Manager.write, Dictionary.get?_insert, if_neg hne]
      exact hvalue
    · exact hvalue
  · exact hvalue

theorem Free.held {thread : ℕ} (h : Free thread manager) (session : ℕ) :
    manager.held thread session = 0 := by
  unfold Manager.held
  split
  · next value hvalue => exact if_neg (h session value hvalue)
  · rfl

/-- A pool in which a new service was shut down. -/
def shutPool : Pool rawInterface Raised Manager :=
  ⟨{ Manager.initial with closed := true, closeReturned := true },
    Function.update (Function.update (Function.update (fun _ ↦ none) 0 (some close)) 0
      (some (Program.bind (closeEach []) fun _ ↦ ask .awaitOpening))) 0 (some (.done ())), 1⟩

/-- What a run does not take back in the registry. -/
structure OnlyCloses (before after : Manager) : Prop where
  /-- A closed session is not opened again. -/
  closed : ∀ session value, before.sessions.get? session = some value → value.status = .closed →
    ∃ value', after.sessions.get? session = some value' ∧ value'.status = .closed ∧
      value'.connected = false
  /-- Once the service is closed, no session is added. -/
  shut : before.closed = true → after.closed = true ∧
    ∀ session, before.sessions.get? session = none → after.sessions.get? session = none

end Runs

end Schemii.RawSessions
