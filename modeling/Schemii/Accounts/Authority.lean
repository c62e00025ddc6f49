import Schemii.Accounts.Service

/-!
# The authority invariant of accounts

`Authority` is what the document keeps after the first setup. It has four parts, one for each pair
of dictionaries that have to agree: an enabled administrator exists (`UsersHold`), role members are
accounts and a personal role has exactly its owner (`RolesHold`), an administrator is a provisioner
exactly once and no one else is (`ProvisionersHold`), and a session belongs to an account that is
not disabled (`SessionsHold`).

Each part has rules for the operations on dictionaries that the transactions are made of, and every
transaction has one lemma about what it writes (`createUser_ok`, `finishLogin_ok`, `updateUser_ok`,
`deleteUser_ok`, `saveRole_ok`). From these follow the lemmas `Authority.createUser` to
`Authority.deleteRole`: a transaction that does not raise keeps the invariant, and one that
disables or deletes an account or changes its password leaves no session of it (`NoSession`).
-/

set_option autoImplicit false

namespace Schemii.Accounts

open Schemii.Foundations

variable {state after : State} {outcome : Outcome} {users : Dictionary String User}
  {service : Service} {userId : String} {roles : Dictionary String Role} {data : AccountProvision}

/-! ### Role names -/

/-- A new role has no reserved name: `p` is no hexadecimal digit. -/
theorem reserved_newRole (draws : Draws) : reserved draws.roleId = false := by
  have hlist : draws.roleId.toList = "role_".toList ++ draws.uuid.hex.toList :=
    String.toList_append
  have hprovisioner : draws.roleId ≠ provisionerRoleId := by
    intro h
    have hlength := congrArg (fun text ↦ text.toList.length) h
    simp only [hlist, List.length_append, draws.uuid.length] at hlength
    exact absurd hlength (by decide)
  have hpersonal : startsWith draws.roleId directRolePrefix = false := by
    rw [startsWith, hlist]
    rcases hhex : draws.uuid.hex.toList with _ | ⟨c, rest⟩
    · exact absurd draws.uuid.length (by simp [hhex])
    · have hdigit : c ∈ "0123456789abcdef".toList := draws.uuid.digits c (by simp [hhex])
      have hne : c ≠ 'p' := by
        rintro rfl
        exact absurd hdigit (by decide)
      have hstart : directRolePrefix.toList = "role_".toList ++ 'p' :: "ersonal_".toList := by
        decide
      rw [hstart]
      simp [List.isPrefixOf, hne.symm]
  simp [reserved, hprovisioner, hpersonal]

theorem directRoleId_ne_provisioner (userId : String) :
    directRoleId userId ≠ provisionerRoleId := by
  intro h
  have hlists := congrArg (fun text ↦ text.toList[5]?) h
  rw [directRoleId] at hlists
  simp only [String.toList_append] at hlists
  have hfifth : (directRolePrefix.toList ++ userId.toList)[5]? = some 'p' := by
    rw [List.getElem?_append_left (by decide)]
    decide
  rw [hfifth] at hlists
  exact absurd hlists (by decide)

/-! ### The parts of the invariant -/

/-- The members of the role of the provisioners. -/
def provisionerMembers (roles : Dictionary String Role) : List String :=
  ((roles.get? provisionerRoleId).map (·.userIds)).getD []

/-- Accounts are stored under their identifiers, and one of them is an enabled administrator. -/
structure UsersHold (users : Dictionary String User) : Prop where
  ids : ∀ id user, users.get? id = some user → user.id = id
  administrator : ∃ id user, users.get? id = some user ∧ user.isAdmin = true ∧
    user.disabled = false

/-- Role members are accounts, and a personal role has exactly its owner. -/
structure RolesHold (users : Dictionary String User) (roles : Dictionary String Role) : Prop where
  members : ∀ roleId role, roles.get? roleId = some role → ∀ member ∈ role.userIds,
    ∃ user, users.get? member = some user
  personal : ∀ roleId role, roles.get? roleId = some role →
    startsWith roleId directRolePrefix = true →
      ∃ owner user, roleId = directRoleId owner ∧ users.get? owner = some user ∧
        role.userIds = [owner]

/-- An administrator is a provisioner once, and no one else is. -/
def ProvisionersHold (users : Dictionary String User) (roles : Dictionary String Role) : Prop :=
  ∀ id user, users.get? id = some user →
    (provisionerMembers roles).count id = if user.isAdmin then 1 else 0

/-- A session belongs to an account that is not disabled. -/
def SessionsHold (users : Dictionary String User) (sessions : Dictionary String Session) : Prop :=
  ∀ key session, sessions.get? key = some session →
    ∃ user, users.get? session.userId = some user ∧ user.disabled = false

/-- The authority invariant of the document. -/
structure Authority (state : State) : Prop where
  users : UsersHold state.users
  roles : RolesHold state.users state.roles
  provisioners : ProvisionersHold state.users state.roles
  sessions : SessionsHold state.users state.sessions

/-- An account has no session. -/
def NoSession (state : State) (userId : String) : Prop :=
  ∀ key session, state.sessions.get? key = some session → session.userId ≠ userId

/-! ### Roles -/

/-- Assumes: every account of one dictionary is in the other. Roles that hold for the first hold for
the second. -/
theorem RolesHold.mono {after : Dictionary String User} (h : RolesHold users roles)
    (hkept : ∀ id user, users.get? id = some user → ∃ user', after.get? id = some user') :
    RolesHold after roles where
  members := fun roleId role hrole member hmember ↦ by
    obtain ⟨user, huser⟩ := h.members roleId role hrole member hmember
    exact hkept member user huser
  personal := fun roleId role hrole hpersonal ↦ by
    obtain ⟨owner, user, hid, huser, hmembers⟩ := h.personal roleId role hrole hpersonal
    obtain ⟨user', huser'⟩ := hkept owner user huser
    exact ⟨owner, user', hid, huser', hmembers⟩

variable {roleId : String}

/-- Assumes: roles that hold, and a role whose members are accounts, which is no personal role. They
hold with it. -/
theorem RolesHold.insert (h : RolesHold users roles) {role : Role}
    (hmembers : ∀ member ∈ role.userIds, ∃ user, users.get? member = some user)
    (hpersonal : startsWith roleId directRolePrefix = true →
      ∃ owner user, roleId = directRoleId owner ∧ users.get? owner = some user ∧
        role.userIds = [owner]) :
    RolesHold users (roles.insert roleId role) where
  members := fun other found hfound member hmember ↦ by
    rw [Dictionary.get?_insert] at hfound
    split at hfound
    · obtain rfl := Option.some.inj hfound
      exact hmembers member hmember
    · exact h.members other found hfound member hmember
  personal := fun other found hfound hstarts ↦ by
    rw [Dictionary.get?_insert] at hfound
    split at hfound
    · next hsame =>
      subst hsame
      obtain rfl := Option.some.inj hfound
      exact hpersonal hstarts
    · exact h.personal other found hfound hstarts

theorem RolesHold.erase
    (h : RolesHold users roles) (roleId : String) : RolesHold users (roles.erase roleId) where
  members := fun other found hfound ↦ by
    rw [Dictionary.get?_erase] at hfound
    split at hfound
    · cases hfound
    · exact h.members other found hfound
  personal := fun other found hfound ↦ by
    rw [Dictionary.get?_erase] at hfound
    split at hfound
    · cases hfound
    · exact h.personal other found hfound

theorem assignMembership_of_reserved {selected : List String}
    (role : Role) (h : reserved roleId = true) :
    assignMembership userId selected roleId role = role := by
  rw [assignMembership, if_pos h]

theorem mem_assignMembership {member : String} {selected : List String}
    {role : Role} (h : member ∈ (assignMembership userId selected roleId role).userIds) :
    member ∈ role.userIds ∨ member = userId := by
  unfold assignMembership at h
  split at h
  · exact .inl h
  split at h
  · simpa using h
  split at h
  · exact .inl (List.mem_of_mem_filter h)
  · exact .inl h

theorem assignRoles_eq {roleIds : List String} (h : assignRoles state userId roleIds = .ok after) :
    after = { state with roles := state.roles.mapValues (assignMembership userId roleIds) } := by
  unfold assignRoles at h
  simp only [bind, Except.bind, pure, Except.pure, throw, throwThe, MonadExceptOf.throw] at h
  split at h
  · cases h
  split at h
  · cases h
  split at h
  · cases h
  · exact (Except.ok.inj h).symm

theorem provisionerMembers_mapValues (roles : Dictionary String Role) (userId : String)
    (roleIds : List String) :
    provisionerMembers (roles.mapValues (assignMembership userId roleIds)) = provisionerMembers roles := by
  have hreserved : reserved provisionerRoleId = true := by simp [reserved]
  unfold provisionerMembers
  rw [Dictionary.get?_mapValues]
  cases hrole : roles.get? provisionerRoleId with
  | none => rfl
  | some role => simp [assignMembership_of_reserved role hreserved]

variable {user : User}

/-- Assumes: roles that hold, and an account. They hold with its memberships assigned. -/
theorem RolesHold.mapValues (h : RolesHold users roles)
    (huser : users.get? userId = some user) (roleIds : List String) :
    RolesHold users (roles.mapValues (assignMembership userId roleIds)) where
  members := fun roleId found hfound member hmember ↦ by
    rw [Dictionary.get?_mapValues, Option.map_eq_some_iff] at hfound
    obtain ⟨role, hrole, rfl⟩ := hfound
    rcases mem_assignMembership hmember with hold | rfl
    · exact h.members roleId role hrole member hold
    · exact ⟨user, huser⟩
  personal := fun roleId found hfound hstarts ↦ by
    rw [Dictionary.get?_mapValues, Option.map_eq_some_iff] at hfound
    obtain ⟨role, hrole, rfl⟩ := hfound
    have hreserved : reserved roleId = true := by simp [reserved, hstarts]
    rw [assignMembership_of_reserved role hreserved]
    exact h.personal roleId role hrole hstarts

theorem assignDirectAccess_fields (state : State) (userId username : String) (access : RoleAccess) :
    (assignDirectAccess state userId username access).users = state.users ∧
    (assignDirectAccess state userId username access).sessions = state.sessions ∧
    provisionerMembers (assignDirectAccess state userId username access).roles =
      provisionerMembers state.roles := by
  have hne := (directRoleId_ne_provisioner userId).symm
  unfold assignDirectAccess
  split
  · simp [provisionerMembers, hne]
  · simp [provisionerMembers, hne]

variable {state : State}

/-- Assumes: roles that hold, and an account. They hold with its direct access assigned. -/
theorem RolesHold.assignDirectAccess (h : RolesHold users state.roles)
    (huser : users.get? userId = some user) (username : String) (access : RoleAccess) :
    RolesHold users (assignDirectAccess state userId username access).roles := by
  unfold Accounts.assignDirectAccess
  split
  · exact h.erase _
  · refine h.insert ?_ fun _ ↦ ⟨userId, user, rfl, huser, rfl⟩
    intro member hmember
    obtain rfl : member = userId := by simpa using hmember
    exact ⟨user, huser⟩

/-! ### Accounts and provisioners -/

/-- Assumes: an account that another dictionary keeps as it is or changes without disabling it.
Sessions that hold for the first hold for the second. -/
theorem SessionsHold.mono {after : Dictionary String User}
    {sessions kept : Dictionary String Session} (h : SessionsHold users sessions)
    (hkept : ∀ key session, kept.get? key = some session → sessions.get? key = some session ∧
      ∀ user, users.get? session.userId = some user → user.disabled = false →
        ∃ user', after.get? session.userId = some user' ∧ user'.disabled = false) :
    SessionsHold after kept := by
  intro key session hsession
  obtain ⟨hbefore, hafter⟩ := hkept key session hsession
  obtain ⟨user, huser, henabled⟩ := h key session hbefore
  exact hafter user huser henabled

theorem get?_sessionsOfOthers {key : String} {session : Session} :
    (sessionsOfOthers state userId).get? key = some session ↔
      state.sessions.get? key = some session ∧ session.userId ≠ userId := by
  rw [sessionsOfOthers, Dictionary.get?_filter, Option.filter_eq_some_iff]
  simp

theorem otherAdministrator_iff (h : UsersHold state.users) :
    otherAdministrator state userId = true ↔ ∃ id user, id ≠ userId ∧
      state.users.get? id = some user ∧ user.isAdmin = true ∧ user.disabled = false := by
  simp only [otherAdministrator, List.any_eq_true, Dictionary.mem_values, Bool.and_eq_true,
    bne_iff_ne, ne_eq, Bool.not_eq_true']
  constructor
  · rintro ⟨user, ⟨id, huser⟩, ⟨hne, hadmin⟩, henabled⟩
    exact ⟨id, user, h.ids id user huser ▸ hne, huser, hadmin, henabled⟩
  · rintro ⟨id, user, hne, huser, hadmin, henabled⟩
    exact ⟨user, ⟨id, huser⟩, ⟨(h.ids id user huser).symm ▸ hne, hadmin⟩, henabled⟩

/-- Assumes: accounts that hold, and a change of one of them that keeps its identifier and leaves an
enabled administrator. -/
theorem UsersHold.insert (h : UsersHold users) (hid : user.id = userId)
    (hadministrator : (user.isAdmin = true ∧ user.disabled = false) ∨
      ∃ id other, id ≠ userId ∧ users.get? id = some other ∧ other.isAdmin = true ∧
        other.disabled = false) :
    UsersHold (users.insert userId user) where
  ids := fun id found hfound ↦ by
    rw [Dictionary.get?_insert] at hfound
    split at hfound
    · next hsame =>
      obtain rfl := Option.some.inj hfound
      rw [hid, hsame]
    · exact h.ids id found hfound
  administrator := by
    rcases hadministrator with ⟨hadmin, henabled⟩ | ⟨id, other, hne, hother, hadmin, henabled⟩
    · exact ⟨userId, user, by simp, hadmin, henabled⟩
    · exact ⟨id, other, by simp [hne, hother], hadmin, henabled⟩

/-- The provisioners after one account was taken out and put back if it is an administrator. -/
theorem count_reassigned (members : List String) (userId id : String) (isAdmin : Bool) :
    (if isAdmin then members.filter (· ≠ userId) ++ [userId]
      else members.filter (· ≠ userId)).count id =
      if id = userId then (if isAdmin then 1 else 0) else members.count id := by
  have hfilter : (members.filter (· ≠ userId)).count id =
      if id = userId then 0 else members.count id := by
    by_cases hid : id = userId
    · rw [if_pos hid, List.count_eq_zero]
      simp [hid]
    · rw [if_neg hid, List.count_filter (by simpa using hid)]
  by_cases hid : id = userId
  · subst hid
    rw [if_pos rfl] at hfilter
    cases isAdmin <;> simp_all [List.count_append]
  · rw [if_neg hid] at hfilter ⊢
    have hne : userId ≠ id := fun h ↦ hid h.symm
    cases isAdmin <;> simp_all [List.count_append]

theorem count_updateProvisioners (state : State) (user : User) (id : String) :
    (provisionerMembers (updateProvisioners state user).roles).count id =
      if id = user.id then (if user.isAdmin then 1 else 0)
      else (provisionerMembers state.roles).count id := by
  unfold updateProvisioners
  cases hrole : state.roles.get? provisionerRoleId with
  | some role =>
    have hmembers : provisionerMembers state.roles = role.userIds := by simp [provisionerMembers, hrole]
    rw [hmembers, ← count_reassigned]
    simp [provisionerMembers]
  | none =>
    have hmembers : provisionerMembers state.roles = [] := by simp [provisionerMembers, hrole]
    cases hadmin : user.isAdmin with
    | true =>
      rw [hmembers, ← count_reassigned]
      simp [provisionerMembers, newProvisioners]
    | false => simp [hmembers]

theorem updateProvisioners_fields (state : State) (user : User) :
    (updateProvisioners state user).users = state.users ∧
    (updateProvisioners state user).sessions = state.sessions := by
  unfold updateProvisioners
  cases state.roles.get? provisionerRoleId with
  | some role => exact ⟨rfl, rfl⟩
  | none =>
    cases user.isAdmin with
    | true => exact ⟨rfl, rfl⟩
    | false => exact ⟨rfl, rfl⟩

/-- Assumes: roles that hold, and the account of the update. They hold with the provisioners
updated. -/
theorem RolesHold.updateProvisioners (h : RolesHold users state.roles) {user found : User}
    (huser : users.get? user.id = some found) :
    RolesHold users (updateProvisioners state user).roles := by
  have hplain : startsWith provisionerRoleId directRolePrefix = false := by decide
  have hmembers : ∀ role : Role, (∀ member ∈ role.userIds, ∃ other, users.get? member = some other) →
      ∀ member ∈ (if user.isAdmin then role.userIds.filter (· ≠ user.id) ++ [user.id]
        else role.userIds.filter (· ≠ user.id)), ∃ other, users.get? member = some other := by
    intro role hrole member hmember
    have hcases : member ∈ role.userIds ∨ member = user.id := by
      split at hmember
      · rcases List.mem_append.1 hmember with hold | hnew
        · exact .inl (List.mem_of_mem_filter hold)
        · exact .inr (by simpa using hnew)
      · exact .inl (List.mem_of_mem_filter hmember)
    rcases hcases with hold | rfl
    · exact hrole member hold
    · exact ⟨found, huser⟩
  unfold Accounts.updateProvisioners
  cases hrole : state.roles.get? provisionerRoleId with
  | some role =>
    refine h.insert (hmembers role (h.members _ role hrole)) ?_
    simp [hplain]
  | none =>
    cases hadmin : user.isAdmin with
    | true =>
      have hnew := hmembers newProvisioners (by simp [newProvisioners])
      rw [hadmin] at hnew
      refine h.insert hnew ?_
      simp [hplain]
    | false => exact h

/-! ### The transactions keep the invariant -/

/-- The roles after a new account was made a provisioner, if it is an administrator. -/
def withProvisioner (roles : Dictionary String Role) (user : User) : Dictionary String Role :=
  if user.isAdmin then
    let provisioners := (roles.get? provisionerRoleId).getD newProvisioners
    roles.insert provisionerRoleId
      { provisioners with userIds := provisioners.userIds ++ [user.id] }
  else roles

variable {draws : Draws} {actor : Option String}

theorem createUser_ok (h : createUser service data actor none draws state = .ok (outcome, after)) :
    ∃ user : User, ∃ middle : State, user.id = draws.userId ∧
      assignAccess { state with
        users := state.users.insert draws.userId user
        roles := withProvisioner state.roles user } draws.userId (service.casefold data.username)
        (some data.roleIds) (some data.directAccess) = .ok middle ∧
      after = middle.record (some (actor.getD draws.userId)) "account.create"
        (some draws.userId) := by
  unfold createUser at h
  simp only [bind, Except.bind, pure, Except.pure, throw, throwThe, MonadExceptOf.throw,
    Option.isSome_none, Bool.false_eq_true, if_false] at h
  split at h
  · cases h
  · set user : User := ⟨draws.userId, service.casefold data.username, data.displayName,
      service.passwordHash draws.salt data.password, data.isAdmin, false⟩ with huser
    split at h
    · cases h
    · next middle hmiddle =>
      simp only [Except.ok.injEq, Prod.mk.injEq] at h
      refine ⟨user, middle, rfl, ?_, h.2.symm⟩
      rw [← hmiddle]
      unfold withProvisioner
      cases hadmin : data.isAdmin <;> simp [huser, hadmin]

variable (h : Authority state)

include h in
theorem Authority.record (actor : Option String)
    (action : String) (target : Option String) : Authority (state.record actor action target) :=
  ⟨h.users, h.roles, h.provisioners, h.sessions⟩

include h in
/-- Assumes: the invariant and an account. Assigning its memberships keeps the invariant. -/
theorem Authority.assignRoles (huser : state.users.get? userId = some user) {roleIds : List String}
    (hok : Accounts.assignRoles state userId roleIds = .ok after) : Authority after := by
  obtain rfl := assignRoles_eq hok
  refine ⟨h.users, h.roles.mapValues huser roleIds, ?_, h.sessions⟩
  intro id found hfound
  rw [provisionerMembers_mapValues]
  exact h.provisioners id found hfound

include h in
/-- Assumes: the invariant and an account. Assigning its direct access keeps the invariant. -/
theorem Authority.assignDirectAccess
    (huser : state.users.get? userId = some user) (username : String)
    (access : RoleAccess) : Authority (Accounts.assignDirectAccess state userId username access) := by
  obtain ⟨husers, hsessions, hprovisioners⟩ :=
    assignDirectAccess_fields state userId username access
  refine ⟨husers ▸ h.users, husers ▸ h.roles.assignDirectAccess huser username access, ?_, ?_⟩
  · intro id found hfound
    rw [hprovisioners]
    exact h.provisioners id found (husers ▸ hfound)
  · rw [husers, hsessions]
    exact h.sessions

include h in
/-- Assumes: the invariant and an account. Assigning its access keeps the invariant, the accounts
and the sessions. -/
theorem Authority.assignAccess (huser : state.users.get? userId = some user) {username : String}
    {roleIds : Option (List String)} {directAccess : Option RoleAccess}
    (hok : Accounts.assignAccess state userId username roleIds directAccess = .ok after) :
    Authority after ∧ after.users = state.users ∧ after.sessions = state.sessions := by
  have hdirect : ∀ middle : State, Authority middle → middle.users = state.users →
      middle.sessions = state.sessions →
      (directAccess = none → middle = after) →
      (∀ access, directAccess = some access →
        Accounts.assignDirectAccess middle userId username access = after) →
      Authority after ∧ after.users = state.users ∧ after.sessions = state.sessions := by
    intro middle hmiddle husers hsessions hnone hsome
    cases directAccess with
    | none =>
      obtain rfl := hnone rfl
      exact ⟨hmiddle, husers, hsessions⟩
    | some access =>
      obtain rfl := hsome access rfl
      obtain ⟨hkeptUsers, hkeptSessions, -⟩ :=
        assignDirectAccess_fields middle userId username access
      exact ⟨hmiddle.assignDirectAccess (husers ▸ huser) username access,
        hkeptUsers.trans husers, hkeptSessions.trans hsessions⟩
  unfold Accounts.assignAccess at hok
  simp only [bind, Except.bind, pure, Except.pure] at hok
  cases roleIds with
  | none =>
    refine hdirect state h rfl rfl ?_ ?_
    · rintro rfl
      exact Except.ok.inj hok
    · rintro access rfl
      exact Except.ok.inj hok
  | some selected =>
    cases hassigned : Accounts.assignRoles state userId selected with
    | error problem => simp [hassigned] at hok
    | ok middle =>
      simp only [hassigned] at hok
      have hsame := assignRoles_eq hassigned
      refine hdirect middle (h.assignRoles huser hassigned) (hsame ▸ rfl) (hsame ▸ rfl) ?_ ?_
      · rintro rfl
        exact Except.ok.inj hok
      · rintro access rfl
        exact Except.ok.inj hok

/-- Assumes: roles that hold for the accounts with a new one. They hold with it as a provisioner. -/
theorem RolesHold.withProvisioner (h : RolesHold users roles)
    (huser : users.get? user.id = some user) : RolesHold users (withProvisioner roles user) := by
  unfold Accounts.withProvisioner
  split
  · refine h.insert ?_ fun hstarts ↦ absurd hstarts (by decide)
    intro member hmember
    rcases List.mem_append.1 hmember with hold | hown
    · cases hrole : roles.get? provisionerRoleId with
      | none => simp [hrole, newProvisioners] at hold
      | some role => exact h.members _ role hrole member (by simpa [hrole] using hold)
    · obtain rfl : member = user.id := by simpa using hown
      exact ⟨user, huser⟩
  · exact h

theorem count_withProvisioner (roles : Dictionary String Role) (user : User) (id : String) :
    (provisionerMembers (withProvisioner roles user)).count id =
      (provisionerMembers roles).count id +
        if user.isAdmin = true ∧ id = user.id then 1 else 0 := by
  unfold withProvisioner
  cases hadmin : user.isAdmin with
  | false => simp
  | true =>
    have hmembers : ((roles.get? provisionerRoleId).getD newProvisioners).userIds =
        provisionerMembers roles := by
      unfold provisionerMembers
      cases roles.get? provisionerRoleId with
      | none => rfl
      | some role => rfl
    have hsame : (user.id == id) = decide (id = user.id) := by
      rw [Bool.beq_eq_decide_eq]
      exact decide_eq_decide.2 eq_comm
    have hinserted : provisionerMembers (roles.insert provisionerRoleId
        { (roles.get? provisionerRoleId).getD newProvisioners with
          userIds := provisionerMembers roles ++ [user.id] }) =
        provisionerMembers roles ++ [user.id] := by
      unfold provisionerMembers
      rw [Dictionary.get?_insert, if_pos rfl]
      rfl
    simp [hmembers, hinserted, List.count_append, List.count_singleton, hsame]

theorem RolesHold.count_of_fresh (h : RolesHold users roles) (hfresh : users.get? userId = none) :
    (provisionerMembers roles).count userId = 0 := by
  rw [List.count_eq_zero]
  intro hmember
  unfold provisionerMembers at hmember
  cases hrole : roles.get? provisionerRoleId with
  | none => simp [hrole] at hmember
  | some role =>
    obtain ⟨other, hother⟩ := h.members _ role hrole userId (by simpa [hrole] using hmember)
    rw [hfresh] at hother
    cases hother

include h in
/-- Assumes: the invariant, and that the identifier is new. The invariant holds with the new account
and its place among the provisioners. -/
theorem Authority.withUser (hfresh : state.users.get? user.id = none) :
    Authority { state with
      users := state.users.insert user.id user
      roles := withProvisioner state.roles user } := by
  have hkept : ∀ id other, state.users.get? id = some other →
      (state.users.insert user.id user).get? id = some other := by
    intro id other hother
    have hne : id ≠ user.id := by
      rintro rfl
      rw [hfresh] at hother
      cases hother
    rw [Dictionary.get?_insert, if_neg hne, hother]
  have hgrown : RolesHold (state.users.insert user.id user) state.roles :=
    h.roles.mono fun id other hother ↦ ⟨other, hkept id other hother⟩
  refine ⟨h.users.insert rfl (.inr ?_), hgrown.withProvisioner (by simp), ?_, ?_⟩
  · obtain ⟨id, other, hother, hadmin, hactive⟩ := h.users.administrator
    refine ⟨id, other, ?_, hother, hadmin, hactive⟩
    rintro rfl
    rw [hfresh] at hother
    cases hother
  · intro id found hfound
    rw [count_withProvisioner]
    rw [Dictionary.get?_insert] at hfound
    by_cases hsame : id = user.id
    · subst hsame
      rw [if_pos rfl] at hfound
      obtain rfl := Option.some.inj hfound
      simp [h.roles.count_of_fresh hfresh]
    · rw [if_neg hsame] at hfound
      simp [hsame, h.provisioners id found hfound]
  · exact h.sessions.mono fun key session hsession ↦
      ⟨hsession, fun other hother hactive ↦ ⟨other, hkept _ other hother, hactive⟩⟩

include h in
/-- Assumes: the invariant, and that the identifier is new. A new account keeps the invariant. -/
theorem Authority.createUser (hfresh : state.users.get? draws.userId = none)
    (hok : Accounts.createUser service data actor none draws state = .ok (outcome, after)) :
    Authority after := by
  obtain ⟨user, middle, hid, hassigned, rfl⟩ := createUser_ok hok
  rw [← hid] at hassigned hfresh ⊢
  have hnew : (state.users.insert user.id user).get? user.id = some user := by simp
  exact ((h.withUser hfresh).assignAccess hnew hassigned).1.record _ _ _

theorem createUser_setup_ok {token : String} {after : State}
    (h : createUser service data none (some token) draws .initial = .ok (outcome, after)) :
    ∃ user bootstrap, user.isAdmin = true ∧ user.disabled = false ∧ bootstrap.userIds = [user.id] ∧
      after.users = Dictionary.empty.insert user.id user ∧ after.sessions = .empty ∧
      after.roles = (withProvisioner .empty user).insert bootstrapProductsRoleId bootstrap := by
  unfold createUser at h
  simp only [bind, Except.bind, pure, Except.pure, throw, throwThe, MonadExceptOf.throw] at h
  split at h
  · cases h
  split at h
  · cases h
  split at h
  · cases h
  split at h
  · cases h
  simp only [Option.isSome_some, if_true, Except.ok.injEq, Prod.mk.injEq] at h
  obtain ⟨-, rfl⟩ := h
  exact ⟨⟨"user_local_prototype", service.casefold data.username, data.displayName,
    service.passwordHash draws.salt data.password, true, false⟩, _, rfl, rfl, rfl, rfl, rfl, rfl⟩

theorem authority_of_setup {token : String} {after : State}
    (h : createUser service data none (some token) draws .initial = .ok (outcome, after)) :
    Authority after := by
  obtain ⟨user, bootstrap, hadmin, hactive, hbootstrap, husers, hsessions, hroles⟩ :=
    createUser_setup_ok h
  have hnew : after.users.get? user.id = some user := by simp [husers]
  have honly : ∀ id found, after.users.get? id = some found → id = user.id ∧ found = user := by
    intro id found hfound
    rw [husers, Dictionary.get?_insert] at hfound
    split at hfound
    · next hid => exact ⟨hid, (Option.some.inj hfound).symm⟩
    · cases hfound
  have hempty : RolesHold after.users .empty := by
    constructor
    · intro roleId role hrole
      cases hrole
    · intro roleId role hrole
      cases hrole
  refine ⟨⟨?_, user.id, user, hnew, hadmin, hactive⟩, ?_, ?_, ?_⟩
  · intro id found hfound
    obtain ⟨rfl, rfl⟩ := honly id found hfound
    rfl
  · rw [hroles]
    refine (hempty.withProvisioner hnew).insert ?_ fun hstarts ↦ absurd hstarts (by decide)
    intro member hmember
    obtain rfl : member = user.id := by simpa [hbootstrap] using hmember
    exact ⟨user, hnew⟩
  · intro id found hfound
    obtain ⟨rfl, rfl⟩ := honly id found hfound
    have hne : provisionerRoleId ≠ bootstrapProductsRoleId := by decide
    have hmembers : provisionerMembers after.roles =
        provisionerMembers (withProvisioner .empty found) := by
      simp [provisionerMembers, hroles, hne]
    rw [hmembers, count_withProvisioner]
    simp [provisionerMembers, hadmin]
  · intro key session hsession
    rw [hsessions] at hsession
    cases hsession

theorem createUser_setup_refused {token : String}
    (h : UsersHold state.users) (result : Outcome × State) :
    createUser service data actor (some token) draws state ≠ .ok result := by
  obtain ⟨id, user, huser, -, -⟩ := h.administrator
  have hentries : state.users.entries ≠ [] := by
    intro hnil
    have hmem := Dictionary.mem_entries.2 huser
    rw [hnil] at hmem
    cases hmem
  unfold createUser
  simp [bind, Except.bind, throw, throwThe, MonadExceptOf.throw, hentries]

/-- Assumes: the first write transaction of a login did not refuse. It changed the counters and the
audit record only. -/
theorem beginLogin_ok {username : String}
    (h : beginLogin service username draws state = .ok (outcome, after)) :
    ∃ attempts, after = { state with attempts := attempts }.record none "session.attempt" none := by
  unfold beginLogin at h
  simp only [bind, Except.bind, pure, Except.pure, throw, throwThe, MonadExceptOf.throw] at h
  split at h
  · cases h
  · simp only [Except.ok.injEq, Prod.mk.injEq] at h
    exact ⟨_, h.2.symm⟩

/-- Assumes: a login finished. The account was there, enabled and with the password that was read,
and a session was added for it. -/
theorem finishLogin_ok {username stored : String} {candidateId : Option String} {matched : Bool}
    (h : finishLogin service username candidateId stored matched draws state =
      .ok (outcome, after)) :
    ∃ id user, state.users.get? id = some user ∧ user.disabled = false ∧
      user.passwordHash = stored ∧ matched = true ∧
      after = { state with
        attempts := state.attempts.erase (service.casefold username)
        sessions := (state.sessions.filter fun _ session ↦ draws.now < session.expiresAt).insert
          (service.sha256 draws.token) ⟨user.id, draws.now + sessionSeconds⟩ }.record
          (some user.id) "session.login" (some user.id) := by
  unfold finishLogin at h
  simp only [bind, Except.bind, pure, Except.pure, throw, throwThe, MonadExceptOf.throw] at h
  split at h
  · cases h
  · next user huser =>
    split at h
    · cases h
    · next hchecks =>
      simp only [not_or, not_not, Bool.not_eq_true, ne_eq] at hchecks
      simp only [Except.ok.injEq, Prod.mk.injEq] at h
      cases candidateId with
      | none => cases huser
      | some id => exact ⟨id, user, huser, hchecks.2.1, hchecks.2.2,
        Bool.eq_true_of_not_eq_false hchecks.1, h.2.symm⟩

include h in
theorem Authority.finishLogin {username stored : String}
    {candidateId : Option String} {matched : Bool}
    (hok : Accounts.finishLogin service username candidateId stored matched draws state =
      .ok (outcome, after)) : Authority after := by
  obtain ⟨id, user, huser, hactive, -, -, rfl⟩ := finishLogin_ok hok
  refine ⟨h.users, h.roles, h.provisioners, ?_⟩
  intro key session hsession
  simp only [State.record] at hsession ⊢
  rw [Dictionary.get?_insert] at hsession
  split at hsession
  · obtain rfl := Option.some.inj hsession
    exact ⟨user, (h.users.ids id user huser).symm ▸ huser, hactive⟩
  · rw [Dictionary.get?_filter, Option.filter_eq_some_iff] at hsession
    exact h.sessions key session hsession.1

include h in
theorem Authority.logout {token : Option String}
    (hok : Accounts.logout service token state = .ok (outcome, after)) : Authority after := by
  simp only [Accounts.logout, Except.ok.injEq, Prod.mk.injEq] at hok
  obtain ⟨-, rfl⟩ := hok
  refine ⟨h.users, h.roles, h.provisioners, ?_⟩
  intro key session hsession
  rw [Dictionary.get?_erase] at hsession
  split at hsession
  · cases hsession
  · exact h.sessions key session hsession

variable {actor : String}

/-- Assumes: an account was updated. Another administrator is there if this one was an enabled
administrator and no longer is, and the document is the one with the account replaced and its access
assigned. -/
theorem updateUser_ok {data : AccountUpdate}
    (h : updateUser service userId data actor draws state = .ok (outcome, after)) :
    ∃ user middle, state.users.get? userId = some user ∧
      (user.isAdmin = true → user.disabled = false →
        ((data.applyTo service draws user).disabled = true ∨
          (data.applyTo service draws user).isAdmin = false) →
        otherAdministrator state userId = true) ∧
      assignAccess (replaceUser state userId (data.applyTo service draws user)
        data.password.isSome) userId user.username data.roleIds data.directAccess = .ok middle ∧
      after = middle.record (some actor) "account.update" (some userId) := by
  unfold updateUser at h
  simp only [bind, Except.bind, pure, Except.pure, throw, throwThe, MonadExceptOf.throw] at h
  split at h
  · cases h
  · next user huser =>
    cases hassigned : assignAccess (replaceUser state userId (data.applyTo service draws user)
        data.password.isSome) userId user.username data.roleIds data.directAccess with
    | error problem =>
      simp only [hassigned] at h
      split at h
      · split at h <;> cases h
      · cases h
    | ok middle =>
      simp only [hassigned] at h
      refine ⟨user, middle, huser, ?_, hassigned, ?_⟩
      · intro hadmin hactive hends
        rw [if_pos ⟨hadmin, by simp [hactive], by simpa using hends⟩] at h
        split at h
        · cases h
        · next hother => exact not_not.1 hother
      · split at h
        · split at h
          · cases h
          · simp only [Except.ok.injEq, Prod.mk.injEq] at h
            exact h.2.symm
        · simp only [Except.ok.injEq, Prod.mk.injEq] at h
          exact h.2.symm

include h in
/-- Assumes: the invariant, an account with a new content under its identifier, and another
administrator where the account stops being one. Replacing it keeps the invariant. -/
theorem Authority.replaceUser {user nextUser : User} (huser : state.users.get? userId = some user)
    (hid : nextUser.id = userId)
    (hadministrator : user.isAdmin = true → user.disabled = false →
      (nextUser.disabled = true ∨ nextUser.isAdmin = false) →
        otherAdministrator state userId = true) (newPassword : Bool) :
    Authority (replaceUser state userId nextUser newPassword) := by
  subst hid
  set inserted : State := { state with users := state.users.insert nextUser.id nextUser }
    with hinserted
  obtain ⟨husers, hsessions⟩ := updateProvisioners_fields inserted nextUser
  have hnew : inserted.users.get? nextUser.id = some nextUser := by simp [hinserted]
  have hkept : ∀ id other, state.users.get? id = some other → id ≠ nextUser.id →
      inserted.users.get? id = some other := by
    intro id other hother hne
    simp [hinserted, hne, hother]
  have hgrown : RolesHold inserted.users inserted.roles := by
    refine h.roles.mono fun id other hother ↦ ?_
    by_cases hsame : id = nextUser.id
    · exact ⟨nextUser, hsame ▸ hnew⟩
    · exact ⟨other, hkept id other hother hsame⟩
  have hadministrators : UsersHold inserted.users := by
    refine h.users.insert rfl ?_
    by_cases hstays : nextUser.isAdmin = true ∧ nextUser.disabled = false
    · exact .inl hstays
    · refine .inr ?_
      have hends : nextUser.disabled = true ∨ nextUser.isAdmin = false := by
        cases hadmin : nextUser.isAdmin <;> cases hdisabled : nextUser.disabled <;> simp_all
      obtain ⟨id, other, hother, hadmin, hactive⟩ := h.users.administrator
      by_cases hsame : id = nextUser.id
      · subst hsame
        obtain rfl := Option.some.inj (huser.symm.trans hother)
        exact (otherAdministrator_iff h.users).1 (hadministrator hadmin hactive hends)
      · exact ⟨id, other, hsame, hother, hadmin, hactive⟩
  have hcounts : ProvisionersHold inserted.users (updateProvisioners inserted nextUser).roles := by
    intro id found hfound
    rw [count_updateProvisioners]
    by_cases hsame : id = nextUser.id
    · subst hsame
      obtain rfl := Option.some.inj (hnew.symm.trans hfound)
      simp
    · rw [if_neg hsame]
      refine h.provisioners id found ?_
      simpa [hinserted, hsame] using hfound
  -- A session of this account is kept only when the account is not disabled.
  have hactive : ∀ sessions : Dictionary String Session,
      (∀ key session, sessions.get? key = some session → state.sessions.get? key = some session ∧
        (session.userId = nextUser.id → nextUser.disabled = false)) →
      SessionsHold inserted.users sessions := by
    intro sessions hsub
    refine h.sessions.mono fun key session hsession ↦ ⟨(hsub key session hsession).1, ?_⟩
    intro other hother henabled
    by_cases hsame : session.userId = nextUser.id
    · exact ⟨nextUser, hsame ▸ hnew, (hsub key session hsession).2 hsame⟩
    · exact ⟨other, hkept _ other hother hsame, henabled⟩
  have hroles := hgrown.updateProvisioners hnew
  unfold Accounts.replaceUser
  split
  · refine ⟨husers ▸ hadministrators, husers ▸ hroles, husers ▸ hcounts, husers ▸ hactive _ ?_⟩
    intro key session hsession
    obtain ⟨hkeptSession, hne⟩ := get?_sessionsOfOthers.1 hsession
    exact ⟨hsessions ▸ hkeptSession, fun hsame ↦ absurd hsame hne⟩
  · next hneither =>
    refine ⟨husers ▸ hadministrators, husers ▸ hroles, husers ▸ hcounts, husers ▸ hactive _ ?_⟩
    intro key session hsession
    refine ⟨hsessions ▸ hsession, fun _ ↦ ?_⟩
    simpa using fun hdisabled ↦ hneither (.inl hdisabled)

theorem replaceUser_users (state : State) (userId : String) (nextUser : User)
    (newPassword : Bool) :
    (replaceUser state userId nextUser newPassword).users = state.users.insert userId nextUser := by
  have hfields := updateProvisioners_fields
    { state with users := state.users.insert userId nextUser } nextUser
  unfold replaceUser
  split <;> exact hfields.1

/-- Assumes: the new account is disabled or has a new password. Replacing it drops its sessions. -/
theorem noSession_replaceUser {nextUser : User}
    {newPassword : Bool} (h : nextUser.disabled = true ∨ newPassword = true) :
    NoSession (replaceUser state userId nextUser newPassword) userId := by
  unfold replaceUser
  rw [if_pos h]
  intro key session hsession
  exact (get?_sessionsOfOthers.1 hsession).2

include h in
/-- Assumes: the invariant. Updating an account keeps it, and drops the sessions of the account if it
is disabled then or has a new password. -/
theorem Authority.updateUser {data : AccountUpdate}
    (hok : Accounts.updateUser service userId data actor draws state = .ok (outcome, after)) :
    Authority after ∧
      (data.password.isSome = true ∨ data.disabled = some true → NoSession after userId) := by
  obtain ⟨user, middle, huser, hadministrator, hassigned, rfl⟩ := updateUser_ok hok
  have hid : (data.applyTo service draws user).id = userId := h.users.ids userId user huser
  have hreplaced := h.replaceUser huser hid hadministrator data.password.isSome
  have hpresent : (Accounts.replaceUser state userId (data.applyTo service draws user)
      data.password.isSome).users.get? userId = some (data.applyTo service draws user) := by
    rw [replaceUser_users]
    simp
  obtain ⟨hmiddle, -, hsessions⟩ := hreplaced.assignAccess hpresent hassigned
  refine ⟨hmiddle.record _ _ _, fun hrevokes key session hsession ↦ ?_⟩
  have hends : (data.applyTo service draws user).disabled = true ∨ data.password.isSome = true := by
    rcases hrevokes with hpassword | hdisabled
    · exact .inr hpassword
    · exact .inl (by simp [AccountUpdate.applyTo, hdisabled])
  have hnone : NoSession (Accounts.replaceUser state userId (data.applyTo service draws user)
      data.password.isSome) userId := noSession_replaceUser hends
  exact hnone key session (hsessions ▸ hsession)

theorem deleteUser_ok (h : deleteUser userId actor state = .ok (outcome, after)) :
    ∃ user, state.users.get? userId = some user ∧
      (user.isAdmin = true → user.disabled = false → otherAdministrator state userId = true) ∧
      after = State.record ⟨state.users.erase userId, sessionsOfOthers state userId,
        (state.roles.erase (directRoleId userId)).mapValues fun _ role ↦
          { role with userIds := role.userIds.filter (· ≠ userId) },
        state.attempts.erase user.username, state.audit⟩
        (some actor) "account.delete" (some userId) := by
  unfold deleteUser at h
  simp only [bind, Except.bind, pure, Except.pure, throw, throwThe, MonadExceptOf.throw] at h
  split at h
  · cases h
  · next user huser =>
    split at h
    · cases h
    · next hkept =>
      simp only [Except.ok.injEq, Prod.mk.injEq] at h
      refine ⟨user, huser, fun hadmin hactive ↦ ?_, h.2.symm⟩
      by_contra hother
      exact hkept ⟨hadmin, by simp [hactive], hother⟩

include h in
/-- Assumes: the invariant. Deleting an account keeps it, and drops the sessions of the account. -/
theorem Authority.deleteUser (hok : Accounts.deleteUser userId actor state = .ok (outcome, after)) :
    Authority after ∧ NoSession after userId := by
  obtain ⟨user, huser, hadministrator, rfl⟩ := deleteUser_ok hok
  have hothers : ∀ id other, state.users.get? id = some other → id ≠ userId →
      (state.users.erase userId).get? id = some other := by
    intro id other hother hne
    rw [Dictionary.get?_erase, if_neg hne, hother]
  have hkept : ∀ id other, (state.users.erase userId).get? id = some other →
      id ≠ userId ∧ state.users.get? id = some other := by
    intro id other hother
    rw [Dictionary.get?_erase] at hother
    split at hother
    · cases hother
    · next hne => exact ⟨hne, hother⟩
  refine ⟨Authority.record ⟨⟨?_, ?_⟩, ⟨?_, ?_⟩, ?_, ?_⟩ _ _ _, ?_⟩
  · exact fun id other hother ↦ h.users.ids id other (hkept id other hother).2
  · obtain ⟨id, other, hother, hadmin, hactive⟩ := h.users.administrator
    by_cases hsame : id = userId
    · subst hsame
      obtain rfl := Option.some.inj (huser.symm.trans hother)
      obtain ⟨id', other', hne, hother', hadmin', hactive'⟩ :=
        (otherAdministrator_iff h.users).1 (hadministrator hadmin hactive)
      exact ⟨id', other', hothers id' other' hother' hne, hadmin', hactive'⟩
    · exact ⟨id, other, hothers id other hother hsame, hadmin, hactive⟩
  · intro roleId found hfound member hmember
    rw [Dictionary.get?_mapValues, Option.map_eq_some_iff] at hfound
    obtain ⟨role, hrole, rfl⟩ := hfound
    rw [Dictionary.get?_erase] at hrole
    split at hrole
    · cases hrole
    · obtain ⟨hold, hne⟩ := List.mem_filter.1 hmember
      obtain ⟨other, hother⟩ := h.roles.members roleId role hrole member hold
      exact ⟨other, hothers member other hother (by simpa using hne)⟩
  · intro roleId found hfound hstarts
    rw [Dictionary.get?_mapValues, Option.map_eq_some_iff] at hfound
    obtain ⟨role, hrole, rfl⟩ := hfound
    rw [Dictionary.get?_erase] at hrole
    split at hrole
    · cases hrole
    · next hne =>
      obtain ⟨owner, other, rfl, hother, hmembers⟩ := h.roles.personal roleId role hrole hstarts
      have howner : owner ≠ userId := fun hsame ↦ hne (by rw [hsame])
      exact ⟨owner, other, rfl, hothers owner other hother howner, by simp [hmembers, howner]⟩
  · intro id found hfound
    obtain ⟨hne, hbefore⟩ := hkept id found hfound
    rw [← h.provisioners id found hbefore]
    have hreserved := (directRoleId_ne_provisioner userId).symm
    unfold provisionerMembers
    rw [Dictionary.get?_mapValues, Dictionary.get?_erase, if_neg hreserved]
    cases state.roles.get? provisionerRoleId with
    | none => rfl
    | some role => exact List.count_filter (by simpa using hne)
  · refine h.sessions.mono fun key session hsession ↦ ?_
    obtain ⟨hbefore, hne⟩ := get?_sessionsOfOthers.1 hsession
    exact ⟨hbefore, fun other hother hactive ↦ ⟨other, hothers _ other hother hne, hactive⟩⟩
  · intro key session hsession
    exact (get?_sessionsOfOthers.1 hsession).2

include h in
/-- Assumes: the invariant, and an account with another password. The invariant holds with it and
without its sessions. -/
theorem Authority.withPassword (huser : state.users.get? userId = some user) (hash : String) :
    Authority { state with
      users := state.users.insert userId { user with passwordHash := hash }
      sessions := sessionsOfOthers state userId } := by
  -- Every account keeps all the invariant reads of it.
  have hsame : ∀ id found, (state.users.insert userId
      { user with passwordHash := hash }).get? id = some found →
      ∃ other, state.users.get? id = some other ∧ found.id = other.id ∧
        found.isAdmin = other.isAdmin := by
    intro id found hfound
    rw [Dictionary.get?_insert] at hfound
    split at hfound
    · next hid =>
      obtain rfl := Option.some.inj hfound
      exact ⟨user, hid ▸ huser, rfl, rfl⟩
    · exact ⟨found, hfound, rfl, rfl⟩
  have hkept : ∀ id other, state.users.get? id = some other →
      ∃ found, (state.users.insert userId { user with passwordHash := hash }).get? id =
        some found ∧ found.isAdmin = other.isAdmin ∧ found.disabled = other.disabled := by
    intro id other hother
    rw [Dictionary.get?_insert]
    split
    · next hid =>
      subst hid
      obtain rfl := Option.some.inj (huser.symm.trans hother)
      exact ⟨_, rfl, rfl, rfl⟩
    · exact ⟨other, hother, rfl, rfl⟩
  refine ⟨⟨?_, ?_⟩, ?_, ?_, ?_⟩
  · intro id found hfound
    obtain ⟨other, hother, hid, -⟩ := hsame id found hfound
    rw [hid, h.users.ids id other hother]
  · obtain ⟨id, other, hother, hadmin, hactive⟩ := h.users.administrator
    obtain ⟨found, hfound, hadmin', hactive'⟩ := hkept id other hother
    exact ⟨id, found, hfound, hadmin'.trans hadmin, hactive'.trans hactive⟩
  · refine h.roles.mono fun id other hother ↦ ?_
    obtain ⟨found, hfound, -⟩ := hkept id other hother
    exact ⟨found, hfound⟩
  · intro id found hfound
    obtain ⟨other, hother, -, hadmin⟩ := hsame id found hfound
    rw [hadmin]
    exact h.provisioners id other hother
  · refine h.sessions.mono fun key session hsession ↦ ⟨(get?_sessionsOfOthers.1 hsession).1, ?_⟩
    intro other hother hactive
    obtain ⟨found, hfound, -, hactive'⟩ := hkept _ other hother
    exact ⟨found, hfound, hactive'.trans hactive⟩

include h in
/-- Assumes: the invariant. Changing a password keeps it, and drops the sessions of the account. -/
theorem Authority.changePassword {currentPassword password : String}
    (hok : Accounts.changePassword service userId currentPassword password draws state =
      .ok (outcome, after)) : Authority after ∧ NoSession after userId := by
  unfold Accounts.changePassword at hok
  simp only [bind, Except.bind, pure, Except.pure, throw, throwThe, MonadExceptOf.throw] at hok
  split at hok
  · cases hok
  · next user huser =>
    split at hok
    · cases hok
    · simp only [Except.ok.injEq, Prod.mk.injEq] at hok
      obtain ⟨-, rfl⟩ := hok
      refine ⟨(h.withPassword huser _).record _ _ _, fun key session hsession ↦ ?_⟩
      exact (get?_sessionsOfOthers.1 hsession).2

/-- Assumes: a role that is not reserved was saved. It has a name that is not reserved, and members
that are accounts. -/
theorem saveRole_ok {data : RoleInput} {roleId : Option String}
    (hreserved : roleId.any reserved = false)
    (h : saveRole data actor roleId draws state = .ok (outcome, after)) :
    ∃ id role, reserved id = false ∧
      (∀ member ∈ role.userIds, ∃ user, state.users.get? member = some user) ∧
      after = { state with roles := state.roles.insert id role }.record (some actor) "role.save"
        (some id) := by
  have hknown : ¬ (data.userIds.any fun userId ↦ !state.users.contains userId) = true →
      ∀ member ∈ data.userIds, ∃ user, state.users.get? member = some user := by
    intro hall member hmember
    rw [← Dictionary.contains_iff]
    by_contra hmissing
    exact hall (List.any_eq_true.2 ⟨member, hmember, by simpa using hmissing⟩)
  unfold saveRole at h
  simp only [bind, Except.bind, pure, Except.pure, throw, throwThe, MonadExceptOf.throw] at h
  cases roleId with
  | none =>
    simp only at h
    split at h
    · cases h
    next hmembers =>
    split at h
    · cases h
    simp only [Except.ok.injEq, Prod.mk.injEq] at h
    exact ⟨_, _, reserved_newRole draws, hknown hmembers, h.2.symm⟩
  | some given =>
    simp only at h
    split at h
    · cases h
    split at h
    · cases h
    next hmembers =>
    split at h
    · cases h
    simp only [Except.ok.injEq, Prod.mk.injEq] at h
    refine ⟨_, _, ?_, hknown hmembers, h.2.symm⟩
    split
    · exact reserved_newRole draws
    · simpa using hreserved

include h in
/-- Assumes: the invariant, and roles that hold with the same provisioners. The invariant holds with
them. -/
theorem Authority.withRoles (hroles : RolesHold state.users roles)
    (hmembers : provisionerMembers roles = provisionerMembers state.roles) :
    Authority { state with roles := roles } := by
  refine ⟨h.users, hroles, ?_, h.sessions⟩
  intro id user huser
  rw [hmembers]
  exact h.provisioners id user huser

theorem ne_of_not_reserved (h : reserved roleId = false) :
    provisionerRoleId ≠ roleId := by
  rintro rfl
  simp [reserved] at h

include h in
/-- Assumes: the invariant, and that the role is not reserved. Saving a role keeps the invariant. -/
theorem Authority.saveRole {data : RoleInput} {roleId : Option String}
    (hreserved : roleId.any reserved = false)
    (hok : Accounts.saveRole data actor roleId draws state = .ok (outcome, after)) :
    Authority after := by
  obtain ⟨id, role, hplain, hmembers, rfl⟩ := saveRole_ok hreserved hok
  refine (h.withRoles (h.roles.insert hmembers ?_) ?_).record _ _ _
  · intro hstarts
    simp [reserved, hstarts] at hplain
  · simp [provisionerMembers, ne_of_not_reserved hplain]

include h in
/-- Assumes: the invariant, and that the role is not reserved. Deleting a role keeps the
invariant. -/
theorem Authority.deleteRole {roleId actor : String}
    (hreserved : reserved roleId = false)
    (hok : Accounts.deleteRole roleId actor state = .ok (outcome, after)) : Authority after := by
  unfold Accounts.deleteRole at hok
  simp only [bind, Except.bind, pure, Except.pure, throw, throwThe, MonadExceptOf.throw] at hok
  split at hok
  · cases hok
  · simp only [Except.ok.injEq, Prod.mk.injEq] at hok
    obtain ⟨-, rfl⟩ := hok
    refine (h.withRoles (h.roles.erase roleId) ?_).record _ _ _
    simp [provisionerMembers, ne_of_not_reserved hreserved]

end Schemii.Accounts
