import Schemii.Foundations.Interaction

/-!
# The migrator of the metadata schema

`MetadataMigrator.migrate` as a program over a database that other processes migrate at the same
time. A process has one connection. What it wrote and did not commit is a list of writes of its
session; a commit applies them to the database, a rollback drops them, and a session that ends drops
them too. The advisory lock of the migrator belongs to a session and not to a transaction.

A call may raise an exception of any class, before it took effect or after, or with its transaction
aborted, and a connection may end at any moment. So an exception between two statements is an
exception of the statement before, after its effect, or of the statement after, before its effect.

* `validatedMigrations`, `validateApplied`: what a list of migrations and a recorded history have to
  be.
* `migrate`: the program, with its clean-up.
* `databaseSemantics`: what PostgreSQL does.
-/

set_option autoImplicit false

namespace Schemii.Metadata

open Schemii.Foundations

/-! ### Migrations -/

/-- A row of `metadata.schema_migrations`. -/
structure Record where
  version : ℕ
  name : String
  checksum : String
  deriving DecidableEq, Repr

/-- A migration of the metadata schema. -/
structure Migration where
  version : ℕ
  name : String
  checksum : String
  sql : String
  deriving DecidableEq, Repr

/-- The row that records a migration. -/
def Migration.record (migration : Migration) : Record :=
  ⟨migration.version, migration.name, migration.checksum⟩

/-- What a process raises. `MetadataMigrationError` and every other failure are of the class
`Exception`; an interruption, such as `KeyboardInterrupt`, is not. -/
inductive Raised
  | migrationError (message : String)
  | failure
  | interruption
  deriving DecidableEq, Repr

/-- Whether an exception is of the class `Exception`. -/
def Raised.isException : Raised → Bool
  | .migrationError _ | .failure => true
  | .interruption => false

/-- `_validated_migrations`. -/
def validatedMigrations (migrations : List Migration) : Except Raised (List Migration) :=
  let ordered := migrations.mergeSort fun first second ↦ decide (first.version ≤ second.version)
  if ordered = [] then
    .error (.migrationError "metadata migration composition must not be empty")
  else if ¬ (ordered.map Migration.version).Nodup then
    .error (.migrationError "metadata migration versions must be unique")
  else if ¬ (ordered.map Migration.name).Nodup then
    .error (.migrationError "metadata migration names must be unique")
  else if ordered.map Migration.version ≠ List.range' 1 ordered.length then
    .error (.migrationError
      "metadata migrations must form one contiguous history beginning at version 1")
  else .ok ordered

/-- The loop of `_validate_applied`, over the rows from an index on and the migrations that stand
there. -/
def validateRows : ℕ → List Record → List Migration → Except Raised (List ℕ)
  | _, [], _ => .ok []
  | index, row :: rows, migrations =>
    if row.version ≠ index + 1 then
      .error (.migrationError "metadata migration history is not a contiguous prefix")
    else
      match migrations with
      | [] => .error .failure
      | migration :: rest =>
        if (row.name, row.checksum) ≠ (migration.name, migration.checksum) then
          .error (.migrationError "an applied metadata migration does not match this application")
        else (validateRows (index + 1) rows rest).map fun applied ↦ row.version :: applied

/-- `_validate_applied`. -/
def validateApplied (migrations : List Migration) (rows : List Record) : Except Raised (List ℕ) :=
  if migrations.length < rows.length then
    .error (.migrationError "metadata schema is newer than this application")
  else validateRows 0 rows migrations

/-! ### Statements -/

/-- The statements of the migrator. -/
inductive Statement
  | advisoryLock
  | createSchema
  | createTable
  | selectRecords
  | migration (migration : Migration)
  | insertRecord (record : Record)
  | advisoryUnlock
  deriving DecidableEq, Repr

/-- What a statement returns. -/
def Statement.Result : Statement → Type
  | .selectRecords => List Record
  | .advisoryLock | .createSchema | .createTable | .migration _ | .insertRecord _
  | .advisoryUnlock => Unit

/-- The calls of a process. `connect` is `connection_factory`, and keeps a note of the migrations it is
made for. -/
inductive MigratorCall
  | connect (migrations : List Migration)
  | execute (statement : Statement)
  | commit
  | rollback
  | close
  deriving DecidableEq, Repr

/-- What the calls answer. -/
def MigratorCall.Reply : MigratorCall → Type
  | .execute statement => Except Raised statement.Result
  | .connect _ | .commit | .rollback | .close => Except Raised Unit

/-- The interface of the migrator. -/
def migratorInterface : Interface := ⟨MigratorCall, MigratorCall.Reply⟩

/-- A program of the migrator. -/
abbrev MigratorProgram (α : Type) := Program migratorInterface Raised α

/-- The outcome of a call, without what it returns. -/
def MigratorCall.outcome : (request : MigratorCall) → request.Reply → Except Raised Unit
  | .execute _, reply => Except.map (fun _ ↦ ()) reply
  | .connect _, reply | .commit, reply | .rollback, reply | .close, reply => reply

/-- A call whose exception is raised. -/
def send (request : MigratorCall) : MigratorProgram Unit :=
  .call (I := migratorInterface) request fun reply ↦ Program.ofExcept (request.outcome reply)

/-- The rows of `schema_migrations`. -/
def fetchRecords : MigratorProgram (List Record) :=
  .call (I := migratorInterface) (.execute .selectRecords)
    fun (reply : Except Raised (List Record)) ↦ Program.ofExcept reply

/-! ### The program -/

section Handlers

variable {α : Type}

/-- `try: … finally: …`. An exception of the clean-up takes the place of the outcome. -/
def tryFinally (body : MigratorProgram α) (cleanup : MigratorProgram Unit) : MigratorProgram α :=
  Program.bind body.attempt fun outcome ↦ Program.bind cleanup fun _ ↦ Program.ofExcept outcome

/-- `try: … except Exception: …`. -/
def tryExcept (body : MigratorProgram α) (handler : Raised → MigratorProgram α) :
    MigratorProgram α :=
  Program.bind body.attempt fun
    | .ok value => .done value
    | .error raised => if raised.isException then handler raised else .raise raised

end Handlers

/-- The loop over the migrations. -/
def applyMigrations (applied : List ℕ) : List Migration → MigratorProgram Unit
  | [] => .done ()
  | migration :: rest =>
    if migration.version ∈ applied then applyMigrations applied rest
    else
      Program.bind (send (.execute (.migration migration))) fun _ ↦
        Program.bind (send (.execute (.insertRecord migration.record))) fun _ ↦
          Program.bind (send .commit) fun _ ↦ applyMigrations applied rest

/-- What the migrator does while it holds the lock. -/
def migrateLocked (migrations : List Migration) : MigratorProgram Unit :=
  Program.bind (send (.execute .createSchema)) fun _ ↦
    Program.bind (send (.execute .createTable)) fun _ ↦
      Program.bind (send .commit) fun _ ↦
        Program.bind fetchRecords fun rows ↦
          Program.bind (Program.ofExcept (validateApplied migrations rows)) fun applied ↦
            applyMigrations applied migrations

/-- The clean-up that releases the lock. -/
def releaseLock : MigratorProgram Unit :=
  tryExcept (Program.bind (send (.execute .advisoryUnlock)) fun _ ↦ send .commit)
    fun _ ↦ send .rollback

/-- The body of `migrate`, with a connection. -/
def migrateConnected (migrations : List Migration) : MigratorProgram Unit :=
  Program.bind (send (.execute .advisoryLock)) fun _ ↦
    tryFinally
      (tryExcept (migrateLocked migrations) fun raised ↦
        Program.bind (send .rollback) fun _ ↦ .raise raised)
      releaseLock

/-- What `migrate` makes of an exception. -/
def reportedError : Raised → Raised
  | .migrationError message => .migrationError message
  | .failure | .interruption => .migrationError "metadata migration failed"

/-- `migrate`. -/
def migrate (migrations : List Migration) : MigratorProgram ℕ :=
  Program.bind (send (.connect migrations)) fun _ ↦
    Program.bind
      (tryFinally
        (tryExcept (migrateConnected migrations) fun raised ↦
          Program.bind (send .rollback) fun _ ↦ .raise (reportedError raised))
        (send .close))
      fun _ ↦ .done migrations.length

/-! ### The database -/

/-- The metadata database. `effects` are the migrations whose SQL has taken effect, in order and as
often as it did. -/
@[ext]
structure Database where
  schema : Bool
  table : Bool
  records : List Record
  effects : List Migration
  deriving DecidableEq, Repr

/-- What a transaction writes. -/
inductive Write
  | createSchema
  | createTable
  | effect (migration : Migration)
  | record (record : Record)
  deriving DecidableEq, Repr

/-- The database after a write. -/
def Database.write (database : Database) : Write → Database
  | .createSchema => { database with schema := true }
  | .createTable => { database with table := true }
  | .effect migration => { database with effects := database.effects ++ [migration] }
  | .record record => { database with records := database.records ++ [record] }

/-- The session of a connection: the migrations of its process, what its transaction wrote, and whether
the transaction is aborted. -/
structure Session where
  migrations : List Migration
  pending : List Write
  failed : Bool
  deriving DecidableEq, Repr

/-- The database, the sessions of the processes, and the session that holds the advisory lock. -/
structure World where
  database : Database
  sessions : ℕ → Option Session
  holder : Option ℕ

/-- A database in which nothing was migrated. -/
def Database.empty : Database := ⟨false, false, [], []⟩

/-- Nothing has connected. -/
def World.initial : World := ⟨Database.empty, fun _ ↦ none, none⟩

/-- The database as a transaction sees it. -/
def Session.sees (session : Session) (database : Database) : Database :=
  session.pending.foldl Database.write database

/-- The rows that a transaction inserted. -/
def Session.records (session : Session) : List Record :=
  session.pending.filterMap fun
    | .record record => some record
    | .createSchema | .createTable | .effect _ => none

/-- The migrations whose SQL a transaction executed. -/
def Session.effects (session : Session) : List Migration :=
  session.pending.filterMap fun
    | .effect migration => some migration
    | .createSchema | .createTable | .record _ => none

/-- The world after the session of a process changed. -/
def World.setSession (world : World) (thread : ℕ) (session : Session) : World :=
  { world with sessions := Function.update world.sessions thread (some session) }

/-- The world after a write of a transaction. -/
def World.append (world : World) (thread : ℕ) (session : Session) (write : Write) : World :=
  world.setSession thread { session with pending := session.pending ++ [write] }

/-- The world after a transaction was aborted. -/
def World.abort (world : World) (thread : ℕ) (session : Session) : World :=
  world.setSession thread { session with pending := [], failed := true }

/-- The world after a rollback. -/
def World.rollBack (world : World) (thread : ℕ) (session : Session) : World :=
  world.setSession thread { session with pending := [], failed := false }

/-- The world after a commit. The commit of an aborted transaction is a rollback. -/
def World.commit (world : World) (thread : ℕ) (session : Session) : World :=
  if session.failed then world.rollBack thread session
  else { world.rollBack thread session with database := session.sees world.database }

/-- The world after the session of a process has ended. -/
def World.endSession (world : World) (thread : ℕ) : World where
  database := world.database
  sessions := Function.update world.sessions thread none
  holder := if world.holder = some thread then none else world.holder

/-- The checks of `schema_migrations` on a row. -/
def Record.Admissible (record : Record) : Prop :=
  0 < record.version ∧ record.checksum.toList.length = 64 ∧
    ∀ char ∈ record.checksum.toList, char ∈ "0123456789abcdef".toList

instance (record : Record) : Decidable record.Admissible :=
  haveI : Decidable (∀ char ∈ record.checksum.toList, char ∈ "0123456789abcdef".toList) :=
    List.decidableBAll _ _
  inferInstanceAs (Decidable (_ ∧ _ ∧ _))

/-- Two rows do not break the primary key or the uniqueness of names. -/
def Record.Distinct (first second : Record) : Prop :=
  first.version ≠ second.version ∧ first.name ≠ second.name

instance (first second : Record) : Decidable (first.Distinct second) :=
  inferInstanceAs (Decidable (_ ∧ _))

/-- What a statement does in a transaction that is not aborted. An insertion waits for the
transactions that inserted a row with the same key. -/
inductive Executes (thread : ℕ) (session : Session) (before : World) :
    (statement : Statement) → statement.Result → World → Prop
  | advisoryLock (hfree : before.holder = none ∨ before.holder = some thread) :
      Executes thread session before .advisoryLock () { before with holder := some thread }
  | createSchema :
      Executes thread session before .createSchema () (before.append thread session .createSchema)
  | createTable (hschema : (session.sees before.database).schema = true) :
      Executes thread session before .createTable () (before.append thread session .createTable)
  | selectRecords (htable : (session.sees before.database).table = true) :
      Executes thread session before .selectRecords
        ((session.sees before.database).records.mergeSort
          fun first second ↦ decide (first.version ≤ second.version)) before
  | migration (migration : Migration) :
      Executes thread session before (.migration migration) ()
        (before.append thread session (.effect migration))
  | insertRecord (record : Record) (htable : (session.sees before.database).table = true)
      (hadmissible : record.Admissible)
      (hdistinct : ∀ row ∈ (session.sees before.database).records, record.Distinct row)
      (hwaits : ∀ other, other ≠ thread → ∀ rival, before.sessions other = some rival →
        ∀ row ∈ rival.records, record.Distinct row) :
      Executes thread session before (.insertRecord record) ()
        (before.append thread session (.record record))
  | advisoryUnlock :
      Executes thread session before .advisoryUnlock ()
        { before with holder := if before.holder = some thread then none else before.holder }

/-- What a call answers and does. An exception may come before the effect of the call, after it, or
with the transaction aborted. A connection that was closed raises exceptions. -/
inductive Performs (thread : ℕ) (before : World) :
    (request : MigratorCall) → request.Reply → World → Prop
  | connected (migrations : List Migration) :
      Performs thread before (.connect migrations) (.ok ())
        (before.setSession thread ⟨migrations, [], false⟩)
  | notConnected (migrations : List Migration) (raised : Raised) :
      Performs thread before (.connect migrations) (.error raised) before
  | executed {statement : Statement} {session : Session} {result : statement.Result} {after : World}
      (hsession : before.sessions thread = some session) (hopen : session.failed = false)
      (hexecutes : Executes thread session before statement result after) :
      Performs thread before (.execute statement) (.ok result) after
  | executedRaising {statement : Statement} {session : Session} {result : statement.Result}
      {after : World} (raised : Raised) (hsession : before.sessions thread = some session)
      (hopen : session.failed = false)
      (hexecutes : Executes thread session before statement result after) :
      Performs thread before (.execute statement) (.error raised) after
  | aborted {statement : Statement} {session : Session} (raised : Raised)
      (hsession : before.sessions thread = some session) :
      Performs thread before (.execute statement) (.error raised) (before.abort thread session)
  | notExecuted (statement : Statement) (raised : Raised) :
      Performs thread before (.execute statement) (.error raised) before
  | committed {session : Session} (hsession : before.sessions thread = some session) :
      Performs thread before .commit (.ok ()) (before.commit thread session)
  | committedRaising {session : Session} (raised : Raised)
      (hsession : before.sessions thread = some session) :
      Performs thread before .commit (.error raised) (before.commit thread session)
  | notCommitted (raised : Raised) : Performs thread before .commit (.error raised) before
  | rolledBack {session : Session} (hsession : before.sessions thread = some session) :
      Performs thread before .rollback (.ok ()) (before.rollBack thread session)
  | rolledBackRaising {session : Session} (raised : Raised)
      (hsession : before.sessions thread = some session) :
      Performs thread before .rollback (.error raised) (before.rollBack thread session)
  | notRolledBack (raised : Raised) : Performs thread before .rollback (.error raised) before
  | closed : Performs thread before .close (.ok ()) (before.endSession thread)
  | closedRaising (raised : Raised) :
      Performs thread before .close (.error raised) (before.endSession thread)
  | notClosed (raised : Raised) : Performs thread before .close (.error raised) before

/-- The database and its connections. The session of a process may end at any moment, as that of a
process that crashed does. -/
def databaseSemantics : Semantics migratorInterface World where
  perform := fun thread request before reply after ↦ Performs thread before request reply after
  environment := fun before after ↦ ∃ thread, after = before.endSession thread

/-- The processes: each migrates with a list that `_validated_migrations` accepted. -/
def Starts (program : MigratorProgram Unit) : Prop :=
  ∃ given migrations, validatedMigrations given = .ok migrations ∧
    program = Program.bind (migrate migrations) fun _ ↦ .done ()

end Schemii.Metadata
