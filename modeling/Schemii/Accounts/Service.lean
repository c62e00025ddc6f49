import Mathlib.Tactic
import Schemii.Foundations.Dictionary
import Schemii.Foundations.Interaction

/-!
# Accounts, roles and sessions

The account service of `common/auth/service.py` with the administrator endpoints of
`common/auth/routes.py`, over the document of `common/auth/store.py`.

* `State` is the document: accounts, sessions, roles with their members and grants, counters of
  sign-in attempts, and the audit record. `transaction` runs a body on a copy and keeps the copy
  only if the body does not raise.
* `Transaction` lists the write transactions. The body of each one is a function under the source's
  name: `createUser`, `beginLogin` and `finishLogin` (the two write transactions of `login`),
  `logout`, `updateUser`, `deleteUser`, `changePassword`, `saveRole`, `deleteRole`. They share
  `assignRoles` and `assignDirectAccess`.
* `Request` lists the endpoints. `Request.program` is what each one does: checks without the store,
  reads, and write transactions, between which other requests may run.

The clock, new identifiers, salts and tokens are read inside the transactions (`Draws`). `Service`
holds what does not change: the configured setup token, whether sign-in is required, and the
functions of the Python library that the service applies to names, tokens and passwords. The stores
of connections, dashboards and models are read by `validateAccess` only (`Services`). Bodies are
those that the request models accept or more: their length limits and patterns only refuse requests.
Cookies and response headers are left out, and so are the sorted reads of grants.
-/

set_option autoImplicit false

namespace Schemii.Accounts

open Schemii.Foundations

/-! ### Names -/

/-- `uuid4().hex`: thirty-two hexadecimal digits. -/
structure Uuid where
  hex : String
  digits : ∀ c ∈ hex.toList, c ∈ "0123456789abcdef".toList
  length : hex.toList.length = 32

/-- `str.startswith`. -/
def startsWith (text start : String) : Bool := start.toList.isPrefixOf text.toList

/-- `PROVISIONER_ROLE_ID`. -/
def provisionerRoleId : String := "role_application_provisioners"

/-- `BOOTSTRAP_PRODUCTS_ROLE_ID`. -/
def bootstrapProductsRoleId : String := "role_bootstrap_products"

/-- `DIRECT_ROLE_PREFIX`. -/
def directRolePrefix : String := "role_personal_"

/-- `direct_role_id`. -/
def directRoleId (userId : String) : String := directRolePrefix ++ userId

/-- The roles that only the service itself edits. -/
def reserved (roleId : String) : Bool :=
  roleId == provisionerRoleId || startsWith roleId directRolePrefix

/-! ### The document -/

/-- What a role can be given: the products, and authoring in Schemer. -/
inductive Access
  | schemii
  | schemoo
  | schemer
  | schemerAuthor
  deriving DecidableEq, Repr

/-- A capability: one that a role can be given, or `accounts:provision`. -/
inductive Capability
  | access (access : Access)
  | provision
  deriving DecidableEq, Repr

/-- The text of a capability. -/
def Capability.text : Capability → String
  | .access .schemii => "schemii:access"
  | .access .schemoo => "schemoo:access"
  | .access .schemer => "schemer:access"
  | .access .schemerAuthor => "schemer:author"
  | .provision => "accounts:provision"

/-- `ConnectionGrant`. -/
structure ConnectionGrant where
  connectionId : String
  ownerId : String
  allowAuthoring : Bool
  deriving DecidableEq, Repr

/-- `DashboardGrant`. -/
structure DashboardGrant where
  dashboardId : String
  ownerId : String
  connectionId : String
  connectionOwnerId : String
  canExport : Bool
  canDrill : Bool
  deriving DecidableEq, Repr

/-- `RoleAccess`. -/
structure RoleAccess where
  capabilities : List Access
  connections : List ConnectionGrant
  dashboards : List DashboardGrant
  deriving DecidableEq, Repr

/-- An account. -/
structure User where
  id : String
  username : String
  displayName : String
  passwordHash : String
  isAdmin : Bool
  disabled : Bool
  deriving DecidableEq, Repr

/-- `public_user`. -/
structure PublicUser where
  id : String
  username : String
  displayName : String
  isAdmin : Bool
  disabled : Bool
  deriving DecidableEq, Repr

/-- The part of an account that is shown. -/
def User.publicUser (user : User) : PublicUser :=
  ⟨user.id, user.username, user.displayName, user.isAdmin, user.disabled⟩

/-- A role with its members. -/
structure Role where
  id : String
  name : String
  capabilities : List Capability
  userIds : List String
  connections : List ConnectionGrant
  dashboards : List DashboardGrant
  deriving DecidableEq, Repr

/-- A session, stored under the hash of its token. -/
structure Session where
  userId : String
  expiresAt : ℚ
  deriving DecidableEq

/-- The counter of sign-in attempts of a name. -/
structure Attempt where
  attempts : ℕ
  expiresAt : ℚ
  deriving DecidableEq

/-- An entry of the audit record. -/
structure AuditEntry where
  actor : Option String
  action : String
  target : Option String
  deriving DecidableEq, Repr

/-- The document of the store. -/
@[ext]
structure State where
  users : Dictionary String User
  sessions : Dictionary String Session
  roles : Dictionary String Role
  attempts : Dictionary String Attempt
  audit : List AuditEntry

/-- The document of a new store. -/
def State.initial : State := ⟨.empty, .empty, .empty, .empty, []⟩

/-- Append an entry to the audit record. -/
def State.record (state : State) (actor : Option String) (action : String)
    (target : Option String) : State :=
  { state with audit := state.audit ++ [⟨actor, action, target⟩] }

/-- A refusal: an `HTTPException`, or an `ApiProblem` with its code, or a `TypeError`. -/
structure Problem where
  status : ℕ
  code : Option String
  detail : String
  deriving DecidableEq, Repr

/-- `HTTPException`. -/
def httpException (status : ℕ) (detail : String) : Problem := ⟨status, none, detail⟩

/-- `AuthStore.transaction`: the body works on a copy, which is kept only if it does not raise. -/
def transaction {α : Type} (body : State → Except Problem (α × State)) (state : State) :
    Except Problem α × State :=
  match body state with
  | .ok (value, after) => (.ok value, after)
  | .error problem => (.error problem, state)

/-! ### The service -/

/-- What the service is configured with, and the library functions it applies to texts. -/
structure Service where
  enabled : Bool
  setupToken : String
  dummyHash : String
  /-- `str.casefold`. -/
  casefold : String → String
  /-- `hashlib.sha256(token.encode()).hexdigest()`. -/
  sha256 : String → String
  /-- `password_hash`, with the salt it draws. -/
  passwordHash : String → String → String
  /-- `password_matches`. -/
  passwordMatches : String → String → Bool

/-- What a transaction draws: the time, an identifier, a salt and a token. -/
structure Draws where
  now : ℚ
  uuid : Uuid
  salt : String
  token : String

/-- `'user_' + uuid4().hex`. -/
def Draws.userId (draws : Draws) : String := "user_" ++ draws.uuid.hex

/-- `'role_' + uuid4().hex`. -/
def Draws.roleId (draws : Draws) : String := "role_" ++ draws.uuid.hex

/-- `hmac.compare_digest`, which refuses texts outside ASCII. -/
def compareDigest (a b : String) : Except Problem Bool :=
  if a.toList.all (·.val < 128) && b.toList.all (·.val < 128) then .ok (a == b)
  else .error ⟨500, none, "comparing strings with non-ASCII characters is not supported"⟩

/-- What a transaction returns. -/
inductive Outcome
  | nothing
  | account (user : PublicUser)
  | session (token : String) (user : PublicUser)
  | role (role : Role)
  deriving DecidableEq

/-- The role of the provisioners before it has members. -/
def newProvisioners : Role :=
  ⟨provisionerRoleId, "Application provisioners", [.provision], [], [], []⟩

/-- `assign_direct_access`. -/
def assignDirectAccess (state : State) (userId username : String) (access : RoleAccess) : State :=
  let roleId := directRoleId userId
  if access.capabilities.isEmpty && access.connections.isEmpty && access.dashboards.isEmpty then
    { state with roles := state.roles.erase roleId }
  else
    { state with
      roles := state.roles.insert roleId
        ⟨roleId, "Direct access: " ++ username, access.capabilities.map .access, [userId],
          access.connections, access.dashboards⟩ }

/-- Whether `assign_roles` would add a member to a role that is full. -/
def wouldOverflow (userId : String) (selected : List String) (roleId : String) (role : Role) :
    Bool :=
  !reserved roleId && selected.contains roleId && !role.userIds.contains userId
    && decide (1000 ≤ role.userIds.length)

/-- What `assign_roles` makes of one role. -/
def assignMembership (userId : String) (selected : List String) (roleId : String) (role : Role) :
    Role :=
  if reserved roleId then role
  else if selected.contains roleId && !role.userIds.contains userId then
    { role with userIds := role.userIds ++ [userId] }
  else if !selected.contains roleId && role.userIds.contains userId then
    { role with userIds := role.userIds.filter (· ≠ userId) }
  else role

/-- `assign_roles`. The first role in order that is full raises, and what was done to the roles
before it is dropped with the transaction. -/
def assignRoles (state : State) (userId : String) (roleIds : List String) :
    Except Problem State := do
  if ¬ roleIds.Nodup ∨ roleIds.contains provisionerRoleId
      ∨ roleIds.any (startsWith · directRolePrefix) then
    throw (httpException 422 "Invalid role selection")
  if roleIds.any fun roleId ↦ !state.roles.contains roleId then
    throw (httpException 422 "Unknown role")
  match state.roles.entries.find? fun entry ↦ wouldOverflow userId roleIds entry.1 entry.2 with
  | some entry =>
    throw (httpException 409 ("Role “" ++ entry.2.name ++ "” already has 1000 members"))
  | none => return { state with roles := state.roles.mapValues (assignMembership userId roleIds) }

/-- The memberships and the direct access of an account, where they are given. -/
def assignAccess (state : State) (userId username : String) (roleIds : Option (List String))
    (directAccess : Option RoleAccess) : Except Problem State := do
  let state ←
    match roleIds with
    | some roleIds => assignRoles state userId roleIds
    | none => pure state
  match directAccess with
  | some access => return assignDirectAccess state userId username access
  | none => return state

/-- The body of a new account: `Setup` without its token, or `AccountProvision`. -/
structure AccountProvision where
  username : String
  displayName : String
  password : String
  isAdmin : Bool
  roleIds : List String
  directAccess : RoleAccess

/-- `create_user`. -/
def createUser (service : Service) (data : AccountProvision) (actor setupToken : Option String)
    (draws : Draws) (state : State) : Except Problem (Outcome × State) := do
  let hashed := service.passwordHash draws.salt data.password
  match setupToken with
  | none => pure ()
  | some token =>
    if state.users.entries ≠ [] ∨ service.setupToken = "" then
      throw (httpException 403 "Account setup is unavailable or token is invalid")
    if ¬ (← compareDigest token service.setupToken) then
      throw (httpException 403 "Account setup is unavailable or token is invalid")
  let username := service.casefold data.username
  if state.users.values.any (·.username == username) then
    throw (httpException 409 "Username already exists")
  let userId := if setupToken.isSome then "user_local_prototype" else draws.userId
  let user : User := ⟨userId, username, data.displayName, hashed,
    if setupToken.isSome then true else data.isAdmin, false⟩
  let state := { state with users := state.users.insert userId user }
  let state :=
    if user.isAdmin then
      let provisioners := (state.roles.get? provisionerRoleId).getD newProvisioners
      { state with
        roles := state.roles.insert provisionerRoleId
          { provisioners with userIds := provisioners.userIds ++ [userId] } }
    else state
  let state ←
    if setupToken.isSome then
      pure { state with
        roles := state.roles.insert bootstrapProductsRoleId
          ⟨bootstrapProductsRoleId, "Bootstrap product access",
            [.access .schemii, .access .schemoo, .access .schemer, .access .schemerAuthor],
            [userId], [], []⟩ }
    else assignAccess state userId username (some data.roleIds) (some data.directAccess)
  return (.account user.publicUser,
    state.record (some (actor.getD userId)) "account.create" (some userId))

/-- The first write transaction of `login`: it counts the attempt. -/
def beginLogin (service : Service) (username : String) (draws : Draws) (state : State) :
    Except Problem (Outcome × State) := do
  let username := service.casefold username
  let attempts := state.attempts.filter fun _ attempt ↦ draws.now < attempt.expiresAt
  let attempt := (attempts.get? username).getD ⟨0, draws.now + 900⟩
  if attempt.attempts ≥ 10 then
    throw ⟨429, some "sign_in_rate_limited", "Too many sign-in attempts. Try again in 15 minutes."⟩
  let state := { state with
    attempts := attempts.insert username { attempt with attempts := attempt.attempts + 1 } }
  return (.nothing, state.record none "session.attempt" none)

/-- The account that `login` reads between its write transactions. -/
def candidate (service : Service) (username : String) (state : State) : Option User :=
  state.users.values.find? fun user ↦
    user.username == service.casefold (service.casefold username)

/-- `SESSION_SECONDS`. -/
def sessionSeconds : ℚ := 12 * 60 * 60

/-- The second write transaction of `login`: with what was read, and whether the password matched
it, the account is looked up again and a session is added. -/
def finishLogin (service : Service) (username : String) (candidateId : Option String)
    (stored : String) (matched : Bool) (draws : Draws) (state : State) :
    Except Problem (Outcome × State) := do
  let username := service.casefold username
  let refusal : Problem := ⟨401, some "invalid_credentials",
    "Incorrect username or password. Check both fields and try again."⟩
  match candidateId.bind state.users.get? with
  | none => throw refusal
  | some user =>
    if ¬ matched ∨ user.disabled ∨ user.passwordHash ≠ stored then
      throw refusal
    let sessions := state.sessions.filter fun _ session ↦ draws.now < session.expiresAt
    let state := { state with
      attempts := state.attempts.erase username
      sessions := sessions.insert (service.sha256 draws.token)
        ⟨user.id, draws.now + sessionSeconds⟩ }
    return (.session draws.token user.publicUser,
      state.record (some user.id) "session.login" (some user.id))

/-- `logout`. -/
def logout (service : Service) (token : Option String) (state : State) :
    Except Problem (Outcome × State) :=
  .ok (.nothing,
    { state with sessions := state.sessions.erase (service.sha256 (token.getD "")) })

/-- Whether another account is an enabled administrator. -/
def otherAdministrator (state : State) (userId : String) : Bool :=
  state.users.values.any fun user ↦ user.id != userId && user.isAdmin && !user.disabled

/-- The sessions of the other accounts. -/
def sessionsOfOthers (state : State) (userId : String) : Dictionary String Session :=
  state.sessions.filter fun _ session ↦ session.userId != userId

/-- The set fields of `AccountUpdate`. -/
structure AccountUpdate where
  displayName : Option String
  password : Option String
  isAdmin : Option Bool
  disabled : Option Bool
  roleIds : Option (List String)
  directAccess : Option RoleAccess

/-- The account with the set fields of an update. -/
def AccountUpdate.applyTo (service : Service) (data : AccountUpdate) (draws : Draws)
    (user : User) : User :=
  { user with
    displayName := data.displayName.getD user.displayName
    passwordHash := (data.password.map (service.passwordHash draws.salt)).getD user.passwordHash
    isAdmin := data.isAdmin.getD user.isAdmin
    disabled := data.disabled.getD user.disabled }

/-- The provisioners after an account was updated. -/
def updateProvisioners (state : State) (user : User) : State :=
  let provisioners :=
    match state.roles.get? provisionerRoleId with
    | some role => some role
    | none => if user.isAdmin then some newProvisioners else none
  match provisioners with
  | none => state
  | some role =>
    let others := role.userIds.filter (· ≠ user.id)
    { state with
      roles := state.roles.insert provisionerRoleId
        { role with userIds := if user.isAdmin then others ++ [user.id] else others } }

/-- The account, the provisioners and the sessions after an account was updated. -/
def replaceUser (state : State) (userId : String) (nextUser : User) (newPassword : Bool) : State :=
  let state := updateProvisioners { state with users := state.users.insert userId nextUser } nextUser
  if nextUser.disabled ∨ newPassword then
    { state with sessions := sessionsOfOthers state userId }
  else state

/-- `update_user`. -/
def updateUser (service : Service) (userId : String) (data : AccountUpdate) (actor : String)
    (draws : Draws) (state : State) : Except Problem (Outcome × State) := do
  match state.users.get? userId with
  | none => throw (httpException 404 "Account not found")
  | some user =>
    let nextUser := data.applyTo service draws user
    if user.isAdmin ∧ ¬ user.disabled ∧ (nextUser.disabled ∨ ¬ nextUser.isAdmin) then
      if ¬ otherAdministrator state userId then
        throw (httpException 409 "Keep at least one active administrator")
    let state := replaceUser state userId nextUser data.password.isSome
    let state ← assignAccess state userId user.username data.roleIds data.directAccess
    return (.account nextUser.publicUser,
      state.record (some actor) "account.update" (some userId))

/-- `delete_user`. -/
def deleteUser (userId actor : String) (state : State) : Except Problem (Outcome × State) := do
  match state.users.get? userId with
  | none => throw (httpException 404 "Account not found")
  | some user =>
    if user.isAdmin ∧ ¬ user.disabled ∧ ¬ otherAdministrator state userId then
      throw (httpException 409 "Keep at least one active administrator")
    let roles := state.roles.erase (directRoleId userId)
    let state : State :=
      { users := state.users.erase userId
        sessions := sessionsOfOthers state userId
        roles := roles.mapValues fun _ role ↦
          { role with userIds := role.userIds.filter (· ≠ userId) }
        attempts := state.attempts.erase user.username
        audit := state.audit }
    return (.nothing, state.record (some actor) "account.delete" (some userId))

/-- `change_password`. -/
def changePassword (service : Service) (userId currentPassword password : String) (draws : Draws)
    (state : State) : Except Problem (Outcome × State) := do
  match state.users.get? userId with
  | none => throw (httpException 403 "Current password is incorrect")
  | some user =>
    if ¬ service.passwordMatches currentPassword user.passwordHash then
      throw (httpException 403 "Current password is incorrect")
    let state := { state with
      users := state.users.insert userId
        { user with passwordHash := service.passwordHash draws.salt password }
      sessions := sessionsOfOthers state userId }
    return (.nothing, state.record (some userId) "account.password" (some userId))

/-- `RoleInput`. -/
structure RoleInput where
  access : RoleAccess
  name : String
  userIds : List String

/-- The write transaction of `save_role`: a new role, or one that is there. -/
def saveRole (data : RoleInput) (actor : String) (roleId : Option String) (draws : Draws)
    (state : State) : Except Problem (Outcome × State) := do
  if let some id := roleId then
    if ¬ state.roles.contains id then
      throw (httpException 404 "Role not found")
  if data.userIds.any fun userId ↦ !state.users.contains userId then
    throw (httpException 422 "Unknown role member")
  if state.roles.values.any fun role ↦ some role.id != roleId && role.name == data.name then
    throw (httpException 409 "Role name already exists")
  let id := match roleId with
    | some given => if given = "" then draws.roleId else given
    | none => draws.roleId
  let role : Role := ⟨id, data.name, data.access.capabilities.map .access, data.userIds,
    data.access.connections, data.access.dashboards⟩
  let state := { state with roles := state.roles.insert id role }
  return (.role role, state.record (some actor) "role.save" (some id))

/-- The write transaction of `delete_role`. -/
def deleteRole (roleId actor : String) (state : State) : Except Problem (Outcome × State) := do
  if ¬ state.roles.contains roleId then
    throw (httpException 404 "Role not found")
  let state := { state with roles := state.roles.erase roleId }
  return (.nothing, state.record (some actor) "role.delete" (some roleId))

/-! ### Reads -/

/-- `sorted` of a set of capabilities. -/
def sortedCapabilities (capabilities : List Capability) : List Capability :=
  capabilities.dedup.mergeSort fun a b ↦ decide (a.text ≤ b.text)

/-- `user`: an account that is not disabled. -/
def activeUser (state : State) (userId : String) : Option PublicUser :=
  match state.users.get? userId with
  | some user => if user.disabled then none else some user.publicUser
  | none => none

/-- `capabilities`. -/
def capabilities (service : Service) (state : State) (userId : String) : List Capability :=
  if ¬ service.enabled then
    sortedCapabilities [.access .schemii, .access .schemoo, .access .schemer,
      .access .schemerAuthor, .provision]
  else if (activeUser state userId).isNone then []
  else sortedCapabilities
    ((state.roles.values.filter (·.userIds.contains userId)).flatMap (·.capabilities))

/-- `is_admin`. -/
def isAdministrator (service : Service) (state : State) (userId : String) : Bool :=
  !service.enabled || (capabilities service state userId).contains .provision

/-! ### Checks before the transactions -/

/-- A connection, as far as `validate_access` reads it. -/
structure Profile where
  ownedBySchemii : Bool
  host : String
  port : ℕ
  database : String

/-- A model, as far as `validate_access` reads it. -/
structure Model where
  connectionOwnerId : Option String
  connectionId : String

/-- The stores that `validate_access` reads, by owner and identifier. -/
structure Services where
  connectionOwnerId : String
  connection : String → String → Except Problem Profile
  dashboardModelId : String → String → Except Problem String
  model : String → String → Except Problem Model

/-- The checks of `validate_access` that read no store. -/
def validateGrants (access : RoleAccess) : Except Problem Unit := do
  if ¬ access.capabilities.Nodup then
    throw (httpException 422 "Duplicate capabilities")
  if access.capabilities.contains .schemerAuthor ∧ ¬ access.capabilities.contains .schemer then
    throw (httpException 422 "Schemer authoring requires Schemer access in the same role")
  if ¬ (access.connections.map (·.connectionId)).Nodup then
    throw (httpException 422 "Duplicate grants")
  if ¬ (access.dashboards.map (·.dashboardId)).Nodup then
    throw (httpException 422 "Duplicate grants")
  for grant in access.dashboards do
    if ¬ access.capabilities.contains .schemer then
      throw (httpException 422 "Shared dashboards require Schemer access in the same role")
    if ¬ access.connections.any fun connection ↦
        connection.connectionId == grant.connectionId
          && connection.ownerId == grant.connectionOwnerId then
      throw (httpException 422 "Each dashboard requires its database connection in the same role")
  if access.connections.any (·.allowAuthoring)
      ∧ ¬ [Access.schemii, .schemoo, .schemerAuthor].any access.capabilities.contains then
    throw (httpException 422 ("Using a managed connection in product tools requires Schemii, "
      ++ "Schemoo, or Schemer editing access in the same role"))

/-- `validate_access`. -/
def validateAccess (services : Services) (access : RoleAccess) : Except Problem Unit := do
  validateGrants access
  for grant in access.connections do
    if grant.ownerId ≠ services.connectionOwnerId then
      throw (httpException 422 "Only Schemii-owned connections can be shared through roles")
    let profile ← services.connection grant.ownerId grant.connectionId
    if ¬ profile.ownedBySchemii then
      throw (httpException 422 "Only Schemii-owned connections can be shared through roles")
  for grant in access.dashboards do
    let modelId ← services.dashboardModelId grant.ownerId grant.dashboardId
    let model ← services.model grant.ownerId modelId
    -- `connection_owner_id or owner_id`: an empty owner counts as none.
    let sourceOwner := (model.connectionOwnerId.filter (· ≠ "")).getD grant.ownerId
    let source ← services.connection sourceOwner model.connectionId
    let target ← services.connection grant.connectionOwnerId grant.connectionId
    if source.host ≠ target.host ∨ source.port ≠ target.port
        ∨ source.database ≠ target.database then
      throw (httpException 422 "Report access must use the same database target as its model")

/-- The body of an account update. A field is unset, null or set. -/
structure AccountPatch where
  displayName : Option (Option String)
  password : Option (Option String)
  isAdmin : Option (Option Bool)
  disabled : Option (Option Bool)
  roleIds : Option (Option (List String))
  directAccess : Option (Option RoleAccess)

/-- The set fields, unless one of them is null. -/
def AccountPatch.update (patch : AccountPatch) : Except Problem AccountUpdate :=
  if patch.displayName = some none ∨ patch.password = some none ∨ patch.isAdmin = some none
      ∨ patch.disabled = some none ∨ patch.roleIds = some none ∨ patch.directAccess = some none then
    .error (httpException 422 "Account fields cannot be null")
  else
    .ok ⟨patch.displayName.join, patch.password.join, patch.isAdmin.join, patch.disabled.join,
      patch.roleIds.join, patch.directAccess.join⟩

/-! ### Requests -/

/-- The write transactions. -/
inductive Transaction
  | createUser (data : AccountProvision) (actor setupToken : Option String)
  | beginLogin (username : String)
  | finishLogin (username : String) (candidateId : Option String) (stored : String)
      (matched : Bool)
  | logout (token : Option String)
  | updateUser (userId : String) (data : AccountUpdate) (actor : String)
  | deleteUser (userId actor : String)
  | changePassword (userId currentPassword password : String)
  | saveRole (data : RoleInput) (actor : String) (roleId : Option String)
  | deleteRole (roleId actor : String)

/-- The body of a write transaction. -/
def Transaction.body (service : Service) (draws : Draws) :
    Transaction → State → Except Problem (Outcome × State)
  | .createUser data actor setupToken => Accounts.createUser service data actor setupToken draws
  | .beginLogin username => Accounts.beginLogin service username draws
  | .finishLogin username candidateId stored matched =>
    Accounts.finishLogin service username candidateId stored matched draws
  | .logout token => Accounts.logout service token
  | .updateUser userId data actor => Accounts.updateUser service userId data actor draws
  | .deleteUser userId actor => Accounts.deleteUser userId actor
  | .changePassword userId currentPassword password =>
    Accounts.changePassword service userId currentPassword password draws
  | .saveRole data actor roleId => Accounts.saveRole data actor roleId draws
  | .deleteRole roleId actor => Accounts.deleteRole roleId actor

/-- The calls of a request to the store: reads and write transactions. -/
inductive StoreCall
  | capabilities (userId : String)
  | candidate (username : String)
  | write (transaction : Transaction)

/-- What the calls answer. -/
def StoreCall.Reply : StoreCall → Type
  | .capabilities _ => List Capability
  | .candidate _ => Option User
  | .write _ => Except Problem Outcome

/-- The store of accounts, as requests see it. -/
def storeInterface : Interface := ⟨StoreCall, StoreCall.Reply⟩

/-- What the calls do to the document. A new identifier is not the one of an account. -/
def storeSemantics (service : Service) : Semantics storeInterface State where
  perform := fun _ request before reply after ↦
    match request, reply with
    | .capabilities userId, reply =>
      reply = Accounts.capabilities service before userId ∧ after = before
    | .candidate username, reply =>
      reply = Accounts.candidate service username before ∧ after = before
    | .write body, reply =>
      ∃ draws : Draws, before.users.get? draws.userId = none ∧
        (reply, after) = transaction (body.body service draws) before
  environment := fun _ _ ↦ False

/-- A program over the store of accounts. -/
abbrev StoreProgram (α : Type) : Type := Program storeInterface Problem α

/-- Run a write transaction and raise its refusal. -/
def write (body : Transaction) : StoreProgram Outcome :=
  Program.bind (Program.ask (I := storeInterface) (.write body)) Program.ofExcept

/-- The accounts endpoints. The identity of the caller comes from its session. -/
inductive Request
  | setup (data : AccountProvision) (setupToken : String)
  | login (username password : String)
  | logout (token : Option String)
  | changePassword (principal currentPassword password : String)
  | createAccount (data : AccountProvision) (principal : String)
  | updateAccount (userId : String) (patch : AccountPatch) (principal : String)
  | deleteAccount (userId principal : String)
  | createRole (data : RoleInput) (principal : String)
  | updateRole (roleId : String) (data : RoleInput) (principal : String)
  | deleteRole (roleId principal : String)

/-- The `admin` dependency of the administrator endpoints. -/
def admin (service : Service) (principal : String) : StoreProgram Unit :=
  .call (.capabilities principal) fun (held : List Capability) ↦
    if service.enabled ∧ Capability.provision ∈ held then .done ()
    else .raise (httpException 403 "Administrator access required")

/-- `login`. -/
def login (service : Service) (username password : String) : StoreProgram Outcome :=
  Program.bind (write (.beginLogin username)) fun _ ↦
    .call (.candidate username) fun (found : Option User) ↦
      let stored := (found.map (·.passwordHash)).getD service.dummyHash
      write (.finishLogin username (found.map (·.id)) stored
        (service.passwordMatches password stored))

/-- `save_role`. -/
def saveRoleRequest (services : Services) (data : RoleInput) (actor : String)
    (roleId : Option String) : StoreProgram Outcome :=
  if roleId.any reserved then
    .raise (httpException 403 "Reserved application role cannot be edited")
  else
    Program.bind (Program.ofExcept (validateAccess services data.access)) fun _ ↦
      if ¬ data.userIds.Nodup then .raise (httpException 422 "Duplicate role members")
      else write (.saveRole data actor roleId)

/-- What an endpoint does. -/
def Request.program (service : Service) (services : Services) : Request → StoreProgram Outcome
  | .setup data setupToken =>
    if ¬ service.enabled then .raise (httpException 403 "Authentication is disabled")
    else
      Program.bind (write (.createUser data none (some setupToken))) fun _ ↦
        Accounts.login service data.username data.password
  | .login username password =>
    if ¬ service.enabled then .raise (httpException 403 "Authentication is disabled")
    else Accounts.login service username password
  | .logout token => write (.logout token)
  | .changePassword principal currentPassword password =>
    write (.changePassword principal currentPassword password)
  | .createAccount data principal =>
    Program.bind (admin service principal) fun _ ↦
      Program.bind (Program.ofExcept (validateAccess services data.directAccess)) fun _ ↦
        write (.createUser data (some principal) none)
  | .updateAccount userId patch principal =>
    Program.bind (admin service principal) fun _ ↦
      Program.bind (Program.ofExcept patch.update) fun data ↦
        Program.bind (Program.ofExcept (data.directAccess.elim (.ok ()) (validateAccess services)))
          fun _ ↦ write (.updateUser userId data principal)
  | .deleteAccount userId principal =>
    Program.bind (admin service principal) fun _ ↦ write (.deleteUser userId principal)
  | .createRole data principal =>
    Program.bind (admin service principal) fun _ ↦ saveRoleRequest services data principal none
  | .updateRole roleId data principal =>
    Program.bind (admin service principal) fun _ ↦
      saveRoleRequest services data principal (some roleId)
  | .deleteRole roleId principal =>
    Program.bind (admin service principal) fun _ ↦
      if reserved roleId then
        .raise (httpException 403 "Reserved application role cannot be deleted")
      else write (.deleteRole roleId principal)

end Schemii.Accounts
