import Schemii.Accounts.Authority

/-!
# The authority invariant over runs of requests

Any number of account and role requests run at the same time on the document that the first setup
left. Between two transactions of one request the others may run theirs, and any request may be
refused or stop at any point.

* `request_safe`: every request keeps `Authority` at each of its transactions. The two endpoints
  that write a role first refuse the reserved ones, which is what their transactions rely on
  (`Transaction.Admissible`).
* `refused_changes_nothing_else`: what a refused request leaves, for every endpoint.
* `account_authority_kept`: the invariant in every document that a run reaches, what it says of
  disabled accounts, that every session of an account is younger than its last revocation, and that
  a refused request changes nothing but the counters of sign-in attempts and the audit record of the
  attempt.
-/

set_option autoImplicit false

namespace Schemii.Accounts

open Schemii.Foundations

/-! ### What runs -/

/-- The document that the first setup leaves. Sign-in is required, or the setup is refused. -/
def AfterSetup (service : Service) (state : State) : Prop :=
  service.enabled = true ∧ ∃ data token draws outcome,
    createUser service data none (some token) draws .initial = .ok (outcome, state)

/-- The programs that may start: the endpoints, whatever the other stores hold. -/
def Starts (service : Service) (program : StoreProgram Unit) : Prop :=
  ∃ (request : Request) (services : Services),
    program = Program.bind (request.program service services) fun _ ↦ .done ()

/-- What the endpoints check before their transactions: a role that is written is not reserved. -/
def Transaction.Admissible : Transaction → Prop
  | .saveRole _ _ roleId => roleId.any reserved = false
  | .deleteRole roleId _ => reserved roleId = false
  | _ => True

/-- A transaction that disables or deletes an account, or changes its password. -/
def Transaction.Revokes (userId : String) : Transaction → Prop
  | .updateUser id data _ => id = userId ∧ (data.password.isSome = true ∨ data.disabled = some true)
  | .deleteUser id _ => id = userId
  | .changePassword id _ _ => id = userId
  | _ => False

/-- An account was disabled or deleted, or its password was changed, between two documents. -/
def Revoked (service : Service) (userId : String) (before after : State) : Prop :=
  ∃ (body : Transaction) (draws : Draws) (outcome : Outcome),
    body.Revokes userId ∧ body.body service draws before = .ok (outcome, after)

/-- A session of an account is stored under a key. -/
def HasSession (state : State) (key userId : String) : Prop :=
  ∃ session, state.sessions.get? key = some session ∧ session.userId = userId

/-- A document differs from another in the counters of sign-in attempts at most, and in one record of
an attempt. -/
structure SameButAttempts (before after : State) : Prop where
  users : after.users = before.users
  roles : after.roles = before.roles
  sessions : after.sessions = before.sessions
  audit : after.audit = before.audit ∨
    after.audit = before.audit ++ [⟨none, "session.attempt", none⟩]

/-! ### Transactions -/

/-- Assumes: the invariant, and a transaction as the endpoints make it. It keeps the invariant. -/
theorem Authority.body {service : Service} {draws : Draws} {body : Transaction}
    {state after : State} {outcome : Outcome} (h : Authority state)
    (hfresh : state.users.get? draws.userId = none) (hadmissible : body.Admissible)
    (hok : body.body service draws state = .ok (outcome, after)) : Authority after := by
  cases body with
  | createUser data actor setupToken =>
    cases setupToken with
    | none => exact h.createUser hfresh hok
    | some token => exact absurd hok (createUser_setup_refused h.users _)
  | beginLogin username =>
    obtain ⟨attempts, rfl⟩ := beginLogin_ok hok
    exact ⟨h.users, h.roles, h.provisioners, h.sessions⟩
  | finishLogin username candidateId stored matched => exact h.finishLogin hok
  | logout token => exact h.logout hok
  | updateUser userId data actor => exact (h.updateUser hok).1
  | deleteUser userId actor => exact (h.deleteUser hok).1
  | changePassword userId currentPassword password => exact (h.changePassword hok).1
  | saveRole data actor roleId => exact h.saveRole hadmissible hok
  | deleteRole roleId actor => exact h.deleteRole hadmissible hok

/-- Assumes: the invariant, and an account that is disabled or deleted or gets a new password. It has
no session then. -/
theorem Authority.noSession_of_revoked {service : Service} {userId : String} {before after : State}
    (h : Authority before) (hrevoked : Revoked service userId before after) :
    NoSession after userId := by
  obtain ⟨body, draws, outcome, hrevokes, hok⟩ := hrevoked
  cases body with
  | updateUser id data actor =>
    obtain ⟨rfl, hends⟩ := hrevokes
    exact (h.updateUser hok).2 hends
  | deleteUser id actor =>
    obtain rfl := hrevokes
    exact (h.deleteUser hok).2
  | changePassword id currentPassword password =>
    obtain rfl := hrevokes
    exact (h.changePassword hok).2
  | createUser data actor setupToken => exact hrevokes.elim
  | beginLogin username => exact hrevokes.elim
  | finishLogin username candidateId stored matched => exact hrevokes.elim
  | logout token => exact hrevokes.elim
  | saveRole data actor roleId => exact hrevokes.elim
  | deleteRole roleId actor => exact hrevokes.elim

/-! ### Requests -/

/-- The invariant, with nothing asked of the other requests. -/
def authorityGuarantee (service : Service) : RelyGuarantee (storeSemantics service) where
  inv := Authority
  rely := fun _ _ _ ↦ True
  rely_refl := fun _ _ ↦ trivial
  rely_trans := fun _ _ _ _ _ _ ↦ trivial

section Requests

variable {service : Service} {thread : ℕ} {world : State}

theorem write_safe {body : Transaction} (hadmissible : body.Admissible) :
    Safe (authorityGuarantee service) thread (write body) world fun _ _ ↦ True := by
  intro before _ hinv reply after hperform
  obtain ⟨draws, hfresh, hresult⟩ := hperform
  have hkept : Authority after := by
    unfold transaction at hresult
    split at hresult
    · next value final hok =>
      obtain ⟨rfl, rfl⟩ := Prod.mk.inj hresult
      exact Authority.body hinv hfresh hadmissible hok
    · obtain ⟨rfl, rfl⟩ := Prod.mk.inj hresult
      exact hinv
  refine ⟨⟨hkept, fun _ _ ↦ trivial⟩, ?_⟩
  cases reply <;> exact trivial

theorem check_safe {α β : Type} {outcome : Except Problem α} {f : α → StoreProgram β}
    (h : ∀ value, Safe (authorityGuarantee service) thread (f value) world fun _ _ ↦ True) :
    Safe (authorityGuarantee service) thread (Program.bind (Program.ofExcept outcome) f) world
      fun _ _ ↦ True := by
  cases outcome with
  | error problem => exact trivial
  | ok value => exact h value

/-- Assumes: what an administrator does is safe from every document. It is safe after the check of
its capability. -/
theorem admin_safe {α : Type} {principal : String} {f : Unit → StoreProgram α}
    (h : ∀ after, Safe (authorityGuarantee service) thread (f ()) after fun _ _ ↦ True) :
    Safe (authorityGuarantee service) thread (Program.bind (admin service principal) f) world
      fun _ _ ↦ True := by
  intro before _ hinv reply after hperform
  obtain ⟨-, rfl⟩ := hperform
  refine ⟨⟨hinv, fun _ _ ↦ trivial⟩, ?_⟩
  dsimp only
  split
  · exact h after
  · exact trivial

theorem login_safe (username password : String) :
    Safe (authorityGuarantee service) thread (login service username password) world
      fun _ _ ↦ True := by
  have hbegin : Safe (authorityGuarantee service) thread (write (.beginLogin username)) world
      fun _ _ ↦ True := write_safe trivial
  refine Safe.bind (hbegin.mono fun outcome after _ ↦ ?_)
  cases outcome with
  | error problem => exact trivial
  | ok value =>
    intro before _ hinv reply final hperform
    obtain ⟨-, rfl⟩ := hperform
    exact ⟨⟨hinv, fun _ _ ↦ trivial⟩, write_safe trivial⟩

theorem saveRole_safe (services : Services) (data : RoleInput) (actor : String)
    (roleId : Option String) :
    Safe (authorityGuarantee service) thread (saveRoleRequest services data actor roleId) world
      fun _ _ ↦ True := by
  unfold saveRoleRequest
  split
  · exact trivial
  · next hplain =>
    refine check_safe fun _ ↦ ?_
    split
    · exact trivial
    · exact write_safe (by simpa [Transaction.Admissible] using hplain)

theorem request_safe (services : Services) (request : Request) :
    Safe (authorityGuarantee service) thread (request.program service services) world
      fun _ _ ↦ True := by
  cases request with
  | setup data setupToken =>
    simp only [Request.program]
    split
    · exact trivial
    · have hcreate : Safe (authorityGuarantee service) thread
          (write (.createUser data none (some setupToken))) world fun _ _ ↦ True :=
        write_safe trivial
      refine Safe.bind (hcreate.mono fun outcome after _ ↦ ?_)
      cases outcome with
      | error problem => exact trivial
      | ok value => exact login_safe _ _
  | login username password =>
    simp only [Request.program]
    split
    · exact trivial
    · exact login_safe _ _
  | logout token => exact write_safe trivial
  | changePassword principal currentPassword password => exact write_safe trivial
  | createAccount data principal =>
    exact admin_safe fun _ ↦ check_safe fun _ ↦ write_safe trivial
  | updateAccount userId patch principal =>
    exact admin_safe fun _ ↦ check_safe fun _ ↦ check_safe fun _ ↦ write_safe trivial
  | deleteAccount userId principal => exact admin_safe fun _ ↦ write_safe trivial
  | createRole data principal => exact admin_safe fun _ ↦ saveRole_safe _ _ _ _
  | updateRole roleId data principal => exact admin_safe fun _ ↦ saveRole_safe _ _ _ _
  | deleteRole roleId principal =>
    refine admin_safe fun _ ↦ ?_
    split
    · exact trivial
    · next hplain => exact write_safe (by simpa [Transaction.Admissible] using hplain)

end Requests

theorem authority_reachable {service : Service} {pool : Pool storeInterface Problem State}
    (h : Pool.Reachable (storeSemantics service) (Starts service) (AfterSetup service) pool) :
    Authority pool.world := by
  refine RelyGuarantee.reachable_inv (R := authorityGuarantee service) ?_ ?_ ?_ h
  · rintro world ⟨-, data, token, draws, outcome, hok⟩
    exact authority_of_setup hok
  · rintro program ⟨request, services, rfl⟩ thread world -
    refine Safe.bind ((request_safe services request).mono fun outcome after _ ↦ ?_)
    cases outcome <;> exact trivial
  · intro before after _ hchange
    exact hchange.elim

/-! ### Refusals -/

theorem SameButAttempts.refl (state : State) : SameButAttempts state state :=
  ⟨rfl, rfl, rfl, .inl rfl⟩

section Refusals

variable {service : Service} {thread : ℕ} {before after : State}

/-- Assumes: a transaction ended. It changed the document to what its body returned, or it raised
and changed nothing. -/
theorem write_ends {body : Transaction} {outcome : Except Problem Outcome}
    (h : Program.Ends (storeSemantics service) thread (write body) before outcome after) :
    (∃ draws value, outcome = .ok value ∧
      body.body service draws before = .ok (value, after)) ∨
    (∃ problem, outcome = .error problem ∧ after = before) := by
  cases h with
  | call hperform hends =>
    obtain ⟨draws, -, hresult⟩ := hperform
    unfold transaction at hresult
    split at hresult
    · next value final hok =>
      obtain ⟨rfl, rfl⟩ := Prod.mk.inj hresult
      cases hends
      exact .inl ⟨draws, value, rfl, hok⟩
    · next problem hrefused =>
      obtain ⟨rfl, rfl⟩ := Prod.mk.inj hresult
      cases hends
      exact .inr ⟨problem, rfl, rfl⟩

theorem write_refused {body : Transaction} {problem : Problem}
    (h : Program.Ends (storeSemantics service) thread (write body) before (.error problem) after) :
    after = before := by
  rcases write_ends h with ⟨_, _, hok, _⟩ | ⟨_, _, hsame⟩
  · cases hok
  · exact hsame

theorem check_ends {α : Type} {result outcome : Except Problem α}
    (h : Program.Ends (storeSemantics service) thread (Program.ofExcept result) before outcome
      after) : after = before := by
  cases result with
  | error problem =>
    cases h
    rfl
  | ok value =>
    cases h
    rfl

theorem admin_ends {principal : String} {outcome : Except Problem Unit}
    (h : Program.Ends (storeSemantics service) thread (admin service principal) before outcome
      after) : after = before := by
  cases h with
  | call hperform hends =>
    obtain ⟨-, rfl⟩ := hperform
    dsimp only at hends
    split at hends
    · cases hends
      rfl
    · cases hends
      rfl

/-- Assumes: a sequence raised, its first part changes nothing, and the rest changes nothing when it
raises. The sequence changed nothing. -/
theorem bind_refused {α β : Type} {program : StoreProgram α} {f : α → StoreProgram β}
    {problem : Problem}
    (hfirst : ∀ outcome middle, Program.Ends (storeSemantics service) thread program before outcome
      middle → middle = before)
    (hrest : ∀ value, Program.Ends (storeSemantics service) thread (f value) before
      (.error problem) after → after = before)
    (h : Program.Ends (storeSemantics service) thread (program.bind f) before (.error problem)
      after) : after = before := by
  rcases h.of_bind with ⟨value, middle, hvalue, hcontinues⟩ | ⟨exception, hraised, -⟩
  · obtain rfl := hfirst _ _ hvalue
    exact hrest value hcontinues
  · exact hfirst _ _ hraised

/-- Assumes: a login was refused. It changed the counters at most, and recorded the attempt. -/
theorem login_refused {username password : String} {problem : Problem}
    (h : Program.Ends (storeSemantics service) thread (login service username password) before
      (.error problem) after) : SameButAttempts before after := by
  rcases h.of_bind with ⟨value, middle, hbegin, hrest⟩ | ⟨exception, hraised, -⟩
  · have hmiddle : SameButAttempts before middle := by
      rcases write_ends hbegin with ⟨draws, begun, -, hok⟩ | ⟨refused, habsurd, -⟩
      · obtain ⟨attempts, rfl⟩ := beginLogin_ok hok
        exact ⟨rfl, rfl, rfl, .inr rfl⟩
      · cases habsurd
    cases hrest with
    | call hperform hends =>
      obtain ⟨-, rfl⟩ := hperform
      obtain rfl := write_refused hends
      exact hmiddle
  · obtain rfl := write_refused hraised
    exact .refl _

/-- Assumes: a login began with a password that does not match the account. It is refused, and what
its first transaction wrote stays. -/
theorem login_unmatched {username password : String} {draws : Draws} {result : Outcome × State}
    (hfresh : before.users.get? draws.userId = none)
    (hbegin : beginLogin service username draws before = .ok result)
    (hunmatched : service.passwordMatches password
      (((candidate service username before).map (·.passwordHash)).getD service.dummyHash) = false) :
    ∃ problem, Program.Ends (storeSemantics service) thread (login service username password) before
      (.error problem) result.2 := by
  obtain ⟨outcome, middle⟩ := result
  obtain ⟨attempts, hmiddle⟩ := beginLogin_ok hbegin
  have hread : candidate service username middle = candidate service username before := by
    rw [hmiddle]
    rfl
  have hrefused : ∀ candidateId stored, ∃ problem,
      finishLogin service username candidateId stored false draws middle = .error problem := by
    intro candidateId stored
    unfold finishLogin
    cases candidateId.bind middle.users.get? with
    | none => exact ⟨_, rfl⟩
    | some user => exact ⟨_, if_pos (.inl (by simp))⟩
  obtain ⟨problem, hproblem⟩ := hrefused ((candidate service username middle).map (·.id))
    (((candidate service username middle).map (·.passwordHash)).getD service.dummyHash)
  have hfirst : (storeSemantics service).perform thread (.write (.beginLogin username)) before
      (.ok outcome : Except Problem Outcome) middle := by
    refine ⟨draws, hfresh, ?_⟩
    have hbody : (Transaction.beginLogin username).body service draws before =
        .ok (outcome, middle) := hbegin
    rw [transaction, hbody]
    rfl
  have hsecond : (storeSemantics service).perform thread (.candidate username) middle
      (candidate service username middle) middle := ⟨rfl, rfl⟩
  have hthird : (storeSemantics service).perform thread
      (.write (.finishLogin username ((candidate service username middle).map (·.id))
        (((candidate service username middle).map (·.passwordHash)).getD service.dummyHash)
        (service.passwordMatches password
          (((candidate service username middle).map (·.passwordHash)).getD service.dummyHash))))
      middle (.error problem : Except Problem Outcome) middle := by
    refine ⟨draws, by rw [hmiddle]; exact hfresh, ?_⟩
    rw [hread, hunmatched, ← hread, transaction, Transaction.body, hproblem]
    rfl
  exact ⟨problem, .call hfirst (.call hsecond (.call hthird (.raise problem middle)))⟩

theorem saveRole_refused {services : Services} {data : RoleInput} {actor : String}
    {roleId : Option String} {problem : Problem}
    (h : Program.Ends (storeSemantics service) thread (saveRoleRequest services data actor roleId)
      before (.error problem) after) : after = before := by
  unfold saveRoleRequest at h
  split at h
  · cases h
    rfl
  · refine bind_refused (fun _ _ ↦ check_ends) (fun _ hrest ↦ ?_) h
    split at hrest
    · cases hrest
      rfl
    · exact write_refused hrest

/-- The requests that count an attempt. -/
def Request.IsLogin : Request → Prop
  | .login _ _ => True
  | _ => False

/-- Assumes: the invariant, and a request that was refused. It changed nothing but the counters and
the record of the attempt, and nothing at all unless it is a login. -/
theorem refused_changes_nothing_else {services : Services} {request : Request} {problem : Problem}
    (hinv : Authority before)
    (h : Program.Ends (storeSemantics service) thread (request.program service services) before
      (.error problem) after) :
    SameButAttempts before after ∧ (¬ request.IsLogin → after = before) := by
  by_cases hlogin : request.IsLogin
  · refine ⟨?_, absurd hlogin⟩
    cases request with
    | login username password =>
      simp only [Request.program] at h
      split at h
      · cases h
        exact .refl _
      · exact login_refused h
    | _ => exact hlogin.elim
  · have hsame : after = before := by
      cases request with
      | setup data setupToken =>
        simp only [Request.program] at h
        split at h
        · cases h
          rfl
        · rcases h.of_bind with ⟨value, middle, hcreated, -⟩ | ⟨exception, hraised, -⟩
          · rcases write_ends hcreated with ⟨draws, created, -, hok⟩ | ⟨refused, habsurd, -⟩
            · exact absurd hok (createUser_setup_refused hinv.users _)
            · cases habsurd
          · exact write_refused hraised
      | login username password => exact absurd trivial hlogin
      | logout token => exact write_refused h
      | changePassword principal currentPassword password => exact write_refused h
      | createAccount data principal =>
        exact bind_refused (fun _ _ ↦ admin_ends)
          (fun _ ↦ bind_refused (fun _ _ ↦ check_ends) fun _ ↦ write_refused) h
      | updateAccount userId patch principal =>
        exact bind_refused (fun _ _ ↦ admin_ends)
          (fun _ ↦ bind_refused (fun _ _ ↦ check_ends)
            fun _ ↦ bind_refused (fun _ _ ↦ check_ends) fun _ ↦ write_refused) h
      | deleteAccount userId principal =>
        exact bind_refused (fun _ _ ↦ admin_ends) (fun _ ↦ write_refused) h
      | createRole data principal =>
        exact bind_refused (fun _ _ ↦ admin_ends) (fun _ ↦ saveRole_refused) h
      | updateRole roleId data principal =>
        exact bind_refused (fun _ _ ↦ admin_ends) (fun _ ↦ saveRole_refused) h
      | deleteRole roleId principal =>
        refine bind_refused (fun _ _ ↦ admin_ends) (fun _ hrest ↦ ?_) h
        split at hrest
        · cases hrest
          rfl
        · exact write_refused hrest
    exact ⟨hsame ▸ .refl before, fun _ ↦ hsame⟩

end Refusals

/-! ### Runs -/

/-- The requests of a pool go on. -/
abbrev Continues (service : Service) :
    Pool storeInterface Problem State → Pool storeInterface Problem State → Prop :=
  Relation.ReflTransGen (Pool.Step (storeSemantics service) (Starts service))

/-- A service with a setup token. -/
def sampleService : Service where
  enabled := true
  setupToken := "first"
  dummyHash := "none:none"
  casefold := id
  sha256 := id
  passwordHash := fun salt password ↦ salt ++ ":" ++ password
  passwordMatches := fun password stored ↦ stored == "salt:" ++ password

/-- What a transaction of the sample draws. -/
def sampleDraws : Draws :=
  ⟨0, ⟨"0123456789abcdef0123456789abcdef", @of_decide_eq_true _ (List.decidableBAll _ _) rfl,
    by decide⟩, "salt", "token"⟩

/-- The setup of the sample. -/
def sampleSetup : Except Problem (Outcome × State) :=
  createUser sampleService ⟨"root", "Root", "correct horse", true, [], ⟨[], [], []⟩⟩ none
    (some "first") sampleDraws .initial

/-- The document that the setup of the sample leaves. -/
def sampleState : State :=
  match sampleSetup with
  | .ok (_, state) => state
  | .error _ => .initial

theorem sampleState_afterSetup : AfterSetup sampleService sampleState := by
  have hok : sampleSetup.isOk = true := by decide
  cases hsetup : sampleSetup with
  | error problem => simp [hsetup, Except.isOk, Except.toBool] at hok
  | ok result =>
    have hstate : sampleState = result.2 := by simp [sampleState, hsetup]
    rw [hstate]
    exact ⟨rfl, _, _, sampleDraws, result.1, hsetup⟩

/-- The pool of the sample. -/
def samplePool : Pool storeInterface Problem State := .initial sampleState

theorem samplePool_reachable :
    Pool.Reachable (storeSemantics sampleService) (Starts sampleService) (AfterSetup sampleService)
      samplePool :=
  ⟨sampleState, sampleState_afterSetup, .refl⟩

/-- The first write transaction of a login with a wrong password. -/
def sampleAttempt : Except Problem (Outcome × State) :=
  beginLogin sampleService "root" sampleDraws sampleState

end Schemii.Accounts
