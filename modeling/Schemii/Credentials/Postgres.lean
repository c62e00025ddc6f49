import Schemii.Credentials.Memory
import Schemii.Foundations.Interaction

/-!
# The credential store in PostgreSQL

`PostgresAiCredentialStore` as programs that make statements on shared tables. Every operation works
on the rows of one owner, and locks the activity row of the owner first. So the rows of an owner are a
working copy of the transaction that locked them, which a commit publishes; the statements are those of
the source. A statement on the rows of an owner that its transaction did not lock may leave anything.

A call may raise an exception of any class, before its effect or after it, a connection may end at any
moment, and time passes between the statements. The field `history` records what happened to the
credentials of each owner, as far as it was committed, and is read by nothing.

* `credentialSemantics`: what the statements do.
* `StorePrograms`: the operations of the store.
-/

set_option autoImplicit false

namespace Schemii.Credentials

open Schemii.Foundations

variable {E : Encryption}

/-! ### The tables -/

/-- A row of `metadata.ai_credential_activity`. No time is `-infinity`. -/
structure ActivityRow where
  lastActive : Option ℕ
  expired : Bool
  deriving DecidableEq, Repr

/-- The rows of an owner. -/
structure OwnerTables (E : Encryption) where
  rows : Dictionary String (Row E)
  activity : Option ActivityRow

/-- No rows. -/
def OwnerTables.absent : OwnerTables E := ⟨Dictionary.empty, .none⟩

/-- A statement on the rows of an owner, after its activity row was locked. -/
inductive Statement (E : Encryption)
  | expireRecords
  | markExpired
  | touchActivity
  | findRecord (id : String)
  | countRecords
  | upsertRecord (id : String) (provider : Provider)
  | updateRecord (id : String) (provider : Provider) (credential : E.Credential)
      (sealed : E.Encrypted) (generation : ℕ) (advance : Bool)
  | readRecord (id : String)
  | listRecords
  | clearRecord (id : String)
  | advanceRecord (id : String) (generation : ℕ)

/-- What a statement returns. -/
def Statement.Result : Statement E → Type
  | .expireRecords | .markExpired | .touchActivity | .clearRecord _ => Unit
  | .findRecord _ | .updateRecord _ _ _ _ _ _ | .advanceRecord _ _ => Bool
  | .countRecords => ℕ
  | .upsertRecord _ _ => Metadata
  | .readRecord _ => Option (Row E × E.Encrypted)
  | .listRecords => List Metadata

/-- The rows with one of them replaced. -/
def OwnerTables.put (tables : OwnerTables E) (id : String) (row : Row E) : OwnerTables E :=
  { tables with rows := tables.rows.insert id row }

/-- What a statement returns, the rows after it, and what happened to the credentials. `checked` is
when the activity was looked at. -/
def Statement.run (owner : String) (checked now : ℕ) (tables : OwnerTables E) :
    (statement : Statement E) → statement.Result × OwnerTables E × List (Event E)
  | .expireRecords =>
    ((), { tables with rows := tables.rows.mapValues fun _ row ↦ row.cleared }, [])
  | .markExpired =>
    ((), { tables with activity := tables.activity.map fun row ↦ { row with expired := true } },
      [.expired checked])
  | .touchActivity =>
    ((), { tables with activity := tables.activity.map fun _ ↦ ⟨some now, false⟩ }, [.touched now])
  | .findRecord id => ((tables.rows.get? id).isSome, tables, [])
  | .countRecords => (tables.rows.size, tables, [])
  | .upsertRecord id provider =>
    match tables.rows.get? id with
    | none => ((Row.first provider : Row E).metadata id, tables.put id (Row.first provider),
        [.begun id provider false])
    | some row => ((row.relogin provider).metadata id, tables.put id (row.relogin provider),
        [.begun id provider (decide (row.provider ≠ provider))])
  | .updateRecord id provider credential sealed generation advance =>
    match tables.rows.get? id with
    | none => (false, tables, [])
    | some row =>
      if row.provider = provider ∧ row.generation = generation then
        (true, tables.put id (row.saved sealed advance),
          [.saved id provider credential generation advance checked])
      else (false, tables, [])
  | .readRecord id =>
    match tables.rows.get? id with
    | none => (none, tables, [])
    | some row =>
      match row.ciphertext with
      | none => (none, tables, [])
      | some sealed =>
        (some (row, sealed), tables,
          ((E.decrypt owner id row.provider sealed).map fun credential ↦ Event.got id credential).toList)
  | .listRecords =>
    (((tables.rows.entries.filter fun entry ↦ entry.2.ciphertext.isSome).mergeSort
      fun first second ↦ decide (first.1 ≤ second.1)).map fun entry ↦ entry.2.metadata entry.1,
      tables, [])
  | .clearRecord id =>
    match tables.rows.get? id with
    | none => ((), tables, [])
    | some row => ((), tables.put id row.cleared, [.deleted id])
  | .advanceRecord id generation =>
    match tables.rows.get? id with
    | none => (false, tables, [])
    | some row =>
      if row.generation = generation then
        (true, tables.put id { row with generation := row.generation + 1 }, [.fenced id generation])
      else (false, tables, [])

/-! ### The programs -/

/-- The calls of the store. -/
inductive StoreCall (E : Encryption)
  /-- `connection_factory`. -/
  | connect
  /-- Insert the activity row of an owner unless it exists. -/
  | insertActivity (owner : String)
  /-- Lock the activity row and read whether the credentials are marked expired and whether the owner
  is inactive. -/
  | selectActivity (owner : String)
  /-- Lock the activity row. -/
  | lockActivity (owner : String)
  /-- A statement on the rows of an owner. -/
  | execute (owner : String) (statement : Statement E)
  /-- The owners that may have to be expired. -/
  | inactiveOwners
  /-- The number of credentials of an owner. -/
  | countConnected (owner : String)
  | commit
  | rollback
  | close

/-- What the calls answer. -/
def StoreCall.Reply : StoreCall E → Type
  | .selectActivity _ => Except StoreError (Bool × Bool)
  | .execute _ statement => Except StoreError statement.Result
  | .inactiveOwners => Except StoreError (List String)
  | .countConnected _ => Except StoreError ℕ
  | .connect | .insertActivity _ | .lockActivity _ | .commit | .rollback | .close =>
    Except StoreError Unit

/-- The interface of the store. -/
def storeInterface (E : Encryption) : Interface := ⟨StoreCall E, StoreCall.Reply⟩

/-- A program of the store. -/
abbrev StoreProgram (E : Encryption) (α : Type) := Program (storeInterface E) StoreError α

/-- The outcome of a call, without what it returns. -/
def StoreCall.outcome : (request : StoreCall E) → request.Reply → Except StoreError Unit
  | .selectActivity _, reply => Except.map (fun _ ↦ ()) reply
  | .execute _ _, reply => Except.map (fun _ ↦ ()) reply
  | .inactiveOwners, reply => Except.map (fun _ ↦ ()) reply
  | .countConnected _, reply => Except.map (fun _ ↦ ()) reply
  | .connect, reply | .insertActivity _, reply | .lockActivity _, reply | .commit, reply
  | .rollback, reply | .close, reply => reply

/-- A call whose exception is raised. -/
def send (request : StoreCall E) : StoreProgram E Unit :=
  .call (I := storeInterface E) request fun reply ↦ Program.ofExcept (request.outcome reply)

/-- A statement on the rows of an owner. -/
def execute (owner : String) (statement : Statement E) : StoreProgram E statement.Result :=
  .call (I := storeInterface E) (.execute owner statement)
    fun (reply : Except StoreError statement.Result) ↦ Program.ofExcept reply

/-- What `_transaction` makes of an exception. -/
def reported : StoreError → StoreError
  | .value message => .value message
  | .interruption => .interruption
  | .cipher | .unavailable _ | .failure =>
    .unavailable "AI credential storage is temporarily unavailable"

/-- What `_transaction` does with an exception: it rolls back unless it is not an `Exception`. -/
def recover (error : StoreError) : StoreProgram E Unit :=
  if error = .interruption then .done () else send .rollback

/-- `_transaction`. -/
def transaction {α : Type} (body : StoreProgram E α) : StoreProgram E α :=
  Program.bind (send .connect).attempt fun
    | .error error => .raise (reported error)
    | .ok () =>
      Program.bind
        (Program.attempt (Program.bind body fun value ↦ Program.bind (send .commit) fun _ ↦
          .done value)) fun
        | .ok value => Program.bind (send .close) fun _ ↦ .done value
        | .error error =>
          Program.bind (Program.attempt (recover error)) fun
            | .ok () => Program.bind (send .close) fun _ ↦ .raise (reported error)
            | .error another => Program.bind (send .close) fun _ ↦ .raise another

section Operations

variable (settings : StoreSettings)

/-- `_owner_activity`. -/
def ownerActivity (owner : String) (touch : Bool) : StoreProgram E Bool :=
  Program.bind (send (.insertActivity owner)) fun _ ↦
    .call (I := storeInterface E) (.selectActivity owner)
      fun (reply : Except StoreError (Bool × Bool)) ↦
        Program.bind (Program.ofExcept reply) fun activity ↦
          let inactive := settings.expiration.enabled && activity.2
          Program.bind
            (if inactive && !activity.1 then
              Program.bind (execute owner .expireRecords) fun _ ↦ execute owner .markExpired
            else .done ()) fun _ ↦
            Program.bind (if touch then execute owner .touchActivity else .done ()) fun _ ↦
              .done inactive

/-- `touch_activity`. -/
def touchActivity (owner : String) : StoreProgram E Bool :=
  transaction (ownerActivity settings owner true)

/-- The transaction of `expire_inactive` for one owner. -/
def expireOne (owner : String) : StoreProgram E ℕ :=
  transaction
    (Program.bind (send (.lockActivity owner)) fun _ ↦
      .call (I := storeInterface E) (.countConnected owner) fun (reply : Except StoreError ℕ) ↦
        Program.bind (Program.ofExcept reply) fun connected ↦
          Program.bind (ownerActivity settings owner false) fun inactive ↦
            .done (if inactive then connected else 0))

/-- The loop of `expire_inactive`. -/
def expireEach : List String → ℕ → StoreProgram E ℕ
  | [], count => .done count
  | owner :: rest, count =>
    Program.bind (expireOne settings owner) fun expired ↦ expireEach rest (count + expired)

/-- `expire_inactive`. -/
def expireInactive : StoreProgram E ℕ :=
  if !settings.expiration.enabled then .done 0
  else
    Program.bind
      (transaction (.call (I := storeInterface E) .inactiveOwners
        fun (reply : Except StoreError (List String)) ↦ Program.ofExcept reply)) fun owners ↦
      expireEach settings owners 0

/-- `begin_login`. -/
def beginLogin (owner id providerId : String) : StoreProgram E Metadata :=
  Program.bind (Program.ofExcept (validateProvider owner id providerId)) fun provider ↦
    transaction
      (Program.bind (ownerActivity settings owner true) fun _ ↦
        Program.bind (execute owner (.findRecord id)) fun (found : Bool) ↦
          Program.bind
            (if found then .done ()
            else
              Program.bind (execute owner .countRecords) fun (count : ℕ) ↦
                if settings.maximumRecords ≤ count then
                  .raise (.value "Maximum AI credential records reached")
                else .done ()) fun _ ↦
            execute owner (.upsertRecord id provider))

/-- `save`. -/
def save (owner id providerId : String) (credential : E.Credential) (nonce expectedGeneration : ℕ)
    (advanceGeneration : Bool) : StoreProgram E Bool :=
  Program.bind (Program.ofExcept (validateProvider owner id providerId)) fun provider ↦
    Program.bind (Program.ofExcept (sealCredential nonce owner id provider credential)) fun sealed ↦
      transaction
        (Program.bind (ownerActivity settings owner false) fun inactive ↦
          if inactive then .done false
          else execute owner
            (.updateRecord id provider credential sealed expectedGeneration advanceGeneration))

/-- `get`. -/
def get (owner id : String) : StoreProgram E (Option (Metadata × E.Credential)) :=
  Program.bind (Program.ofExcept (validate owner id)) fun _ ↦
    transaction
      (Program.bind (ownerActivity settings owner false) fun _ ↦
        Program.bind (execute owner (.readRecord id)) fun (row : Option (Row E × E.Encrypted)) ↦
          match row with
          | none => .done none
          | some (row, sealed) =>
            Program.bind (Program.ofExcept (openCredential owner id row sealed)) fun answer ↦
              .done (some answer))

/-- `list`. -/
def list (owner : String) : StoreProgram E (List Metadata) :=
  transaction
    (Program.bind (ownerActivity settings owner false) fun _ ↦ execute owner .listRecords)

/-- `delete`. -/
def delete (owner id : String) : StoreProgram E Unit :=
  Program.bind (Program.ofExcept (validate owner id)) fun _ ↦
    transaction
      (Program.bind (ownerActivity settings owner false) fun _ ↦ execute owner (.clearRecord id))

/-- `fence_login`. -/
def fenceLogin (owner id : String) (expectedGeneration : ℕ) : StoreProgram E Bool :=
  Program.bind (Program.ofExcept (validate owner id)) fun _ ↦
    transaction
      (Program.bind (ownerActivity settings owner false) fun _ ↦
        execute owner (.advanceRecord id expectedGeneration))

end Operations

/-- An operation whose result is dropped. -/
def discard {α : Type} (program : StoreProgram E α) : StoreProgram E Unit :=
  Program.bind program fun _ ↦ .done ()

/-- The operations of the store. -/
inductive StorePrograms (settings : StoreSettings) : StoreProgram E Unit → Prop
  | touchActivity (owner : String) : StorePrograms settings (discard (touchActivity settings owner))
  | expireInactive : StorePrograms settings (discard (expireInactive settings))
  | beginLogin (owner id providerId : String) :
      StorePrograms settings (discard (beginLogin settings owner id providerId))
  | save (owner id providerId : String) (credential : E.Credential) (nonce expectedGeneration : ℕ)
      (advanceGeneration : Bool) :
      StorePrograms settings (discard (save settings owner id providerId credential nonce
        expectedGeneration advanceGeneration))
  | get (owner id : String) : StorePrograms settings (discard (get settings owner id))
  | list (owner : String) : StorePrograms settings (discard (list settings owner))
  | delete (owner id : String) : StorePrograms settings (discard (delete settings owner id))
  | fenceLogin (owner id : String) (expectedGeneration : ℕ) :
      StorePrograms settings (discard (fenceLogin settings owner id expectedGeneration))

/-! ### The database -/

/-- A transaction: the owner whose activity row it locked, when it looked at the activity, its working
copy of the rows of the owner, and what happened to the credentials. -/
structure Transaction (E : Encryption) where
  owner : Option String
  checked : ℕ
  working : OwnerTables E
  events : List (Event E)

/-- A transaction that did nothing. -/
def Transaction.idle : Transaction E := ⟨none, 0, OwnerTables.absent, []⟩

/-- The clock, the rows, what happened to the credentials, and the transactions of the processes. -/
structure StoreWorld (E : Encryption) where
  clock : ℕ
  tables : String → OwnerTables E
  history : String → List (Event E)
  transactions : ℕ → Option (Transaction E)

/-- A store without records. -/
def StoreWorld.initial : StoreWorld E := ⟨0, fun _ ↦ OwnerTables.absent, fun _ ↦ [], fun _ ↦ none⟩

namespace StoreWorld

/-- The world after a transaction changed. -/
def setTransaction (world : StoreWorld E) (thread : ℕ) (change : Option (Transaction E)) :
    StoreWorld E :=
  { world with transactions := Function.update world.transactions thread change }

/-- No other transaction has locked the activity row of an owner. -/
def Free (world : StoreWorld E) (thread : ℕ) (owner : String) : Prop :=
  ∀ other, other ≠ thread → ∀ current, world.transactions other = some current →
    current.owner ≠ some owner

/-- The rows of an owner as a transaction sees them. -/
def sees (world : StoreWorld E) (current : Transaction E) (owner : String) : OwnerTables E :=
  if current.owner = some owner then current.working else world.tables owner

/-- A transaction that has locked the activity row of an owner. -/
def locked (world : StoreWorld E) (current : Transaction E) (owner : String) : Transaction E :=
  { current with owner := some owner, working := world.sees current owner }

/-- The world after a commit. -/
def commit (world : StoreWorld E) (thread : ℕ) (current : Transaction E) : StoreWorld E :=
  match current.owner with
  | none => world.setTransaction thread (some Transaction.idle)
  | some owner =>
    { world.setTransaction thread (some Transaction.idle) with
      tables := Function.update world.tables owner current.working
      history := Function.update world.history owner (world.history owner ++ current.events) }

end StoreWorld

/-- Whether an activity is too long ago. -/
def ActivityRow.inactive (settings : StoreSettings) (row : ActivityRow) (now : ℕ) : Bool :=
  match row.lastActive with
  | none => true
  | some last => decide (last + settings.expiration.inactivity ≤ now)

/-- What a call does in an open connection, and what it returns. -/
inductive Executes (settings : StoreSettings) (thread : ℕ) (before : StoreWorld E)
    (current : Transaction E) : (request : StoreCall E) → request.Reply → StoreWorld E → Prop
  | activityThere (owner : String) (hrow : (before.sees current owner).activity.isSome) :
      Executes settings thread before current (.insertActivity owner) (.ok ()) before
  | activityInserted (owner : String) (hfree : before.Free thread owner)
      (hunlocked : current.owner = none ∨ current.owner = some owner)
      (hrow : (before.sees current owner).activity = none) :
      Executes settings thread before current (.insertActivity owner) (.ok ())
        (before.setTransaction thread (some
          { before.locked current owner with
            working := { before.sees current owner with activity := some ⟨none, false⟩ } }))
  | activitySelected (owner : String) {row : ActivityRow} (hfree : before.Free thread owner)
      (hunlocked : current.owner = none ∨ current.owner = some owner)
      (hrow : (before.sees current owner).activity = some row) :
      Executes settings thread before current (.selectActivity owner)
        (.ok (row.expired, row.inactive settings before.clock))
        (before.setTransaction thread (some
          { before.locked current owner with checked := before.clock }))
  | activityLocked (owner : String) (hfree : before.Free thread owner)
      (hunlocked : current.owner = none ∨ current.owner = some owner)
      (hrow : (before.sees current owner).activity.isSome) :
      Executes settings thread before current (.lockActivity owner) (.ok ())
        (before.setTransaction thread (some (before.locked current owner)))
  | activityMissing (owner : String) (hrow : (before.sees current owner).activity = none) :
      Executes settings thread before current (.lockActivity owner) (.ok ()) before
  | executed (owner : String) (statement : Statement E) (howner : current.owner = some owner) :
      Executes settings thread before current (.execute owner statement)
        (.ok (statement.run owner current.checked before.clock current.working).1)
        (before.setTransaction thread (some
          { current with
            working := (statement.run owner current.checked before.clock current.working).2.1
            events := current.events ++
              (statement.run owner current.checked before.clock current.working).2.2 }))
  | unlocked (owner : String) (statement : Statement E) (result : statement.Result)
      (after : StoreWorld E) (howner : current.owner ≠ some owner) :
      Executes settings thread before current (.execute owner statement) (.ok result) after
  | inactiveOwners (owners : List String)
      (howners : ∀ owner ∈ owners, ∃ row, (before.tables owner).activity = some row ∧
        row.expired = false ∧ row.inactive settings before.clock = true)
      (hlimit : owners.length ≤ 1000) :
      Executes settings thread before current .inactiveOwners (.ok owners) before
  | countConnected (owner : String) :
      Executes settings thread before current (.countConnected owner)
        (.ok ((before.sees current owner).rows.values.filter
          fun row ↦ row.ciphertext.isSome).length) before
  | committed :
      Executes settings thread before current .commit (.ok ()) (before.commit thread current)
  | rolledBack :
      Executes settings thread before current .rollback (.ok ())
        (before.setTransaction thread (some Transaction.idle))

/-- The exception of a call. -/
def StoreCall.raises (error : StoreError) : (request : StoreCall E) → request.Reply
  | .selectActivity _ => Except.error error
  | .execute _ _ => Except.error error
  | .inactiveOwners => Except.error error
  | .countConnected _ => Except.error error
  | .connect | .insertActivity _ | .lockActivity _ | .commit | .rollback | .close =>
    Except.error error

/-- What a call answers and does. An exception comes before the effect of the call or after it. -/
inductive Performs (settings : StoreSettings) (thread : ℕ) (before : StoreWorld E) :
    (request : StoreCall E) → request.Reply → StoreWorld E → Prop
  | connected : Performs settings thread before .connect (Except.ok ())
      (before.setTransaction thread (some Transaction.idle))
  | closed : Performs settings thread before .close (Except.ok ())
      (before.setTransaction thread none)
  | closedRaising (error : StoreError) : Performs settings thread before .close
      (Except.error error) (before.setTransaction thread none)
  | answered {request : StoreCall E} {reply : request.Reply} {current : Transaction E}
      {after : StoreWorld E} (hcurrent : before.transactions thread = some current)
      (hexecutes : Executes settings thread before current request reply after) :
      Performs settings thread before request reply after
  | answeredRaising {request : StoreCall E} {reply : request.Reply} {current : Transaction E}
      {after : StoreWorld E} (error : StoreError)
      (hcurrent : before.transactions thread = some current)
      (hexecutes : Executes settings thread before current request reply after) :
      Performs settings thread before request (request.raises error) after
  | raised (request : StoreCall E) (error : StoreError) :
      Performs settings thread before request (request.raises error) before

/-- The database. Time passes, and a connection may end at any moment. -/
def credentialSemantics (settings : StoreSettings) : Semantics (storeInterface E) (StoreWorld E) where
  perform := fun thread request before reply after ↦
    Performs settings thread before request reply after
  environment := fun before after ↦
    (∃ clock, before.clock ≤ clock ∧ after = { before with clock := clock }) ∨
      ∃ thread, after = before.setTransaction thread none

end Schemii.Credentials
