import Schemii.Metadata.Migrator

/-!
# The history of the metadata schema

The migrations whose SQL has taken effect are the recorded ones. The primary key of
`schema_migrations` decides between two processes that migrate at the same time: a process that reads
the history inserts the row after the rows it read, and it succeeds only while these are all the rows
there are. The advisory lock is not needed for that, and it is released before the last commit of a
process that was interrupted.

A process that is interrupted after the SQL of a migration and before its row is inserted commits the
SQL alone: its clean-up releases the lock and commits, and only an `Exception` is rolled back. So the
runs are those in which this does not happen (`Sheltered`).

* `HistoryInv`: what holds of the database and of the rows that are not committed.
* `safe_migrate`: a process keeps it.
* `metadata_history_exact`: the history is exact in every run.
* `interrupted_migration_unrecorded`: a run in which it is not.
-/

set_option autoImplicit false

namespace Schemii.Metadata

open Schemii.Foundations

variable {session : Session} {known : List Record} {request : MigratorCall} {database : Database}

/-! ### What a transaction writes -/

theorem sees_records (session : Session) (database : Database) :
    (session.sees database).records = database.records ++ session.records := by
  obtain ⟨migrations, pending, failed⟩ := session
  simp only [Session.sees, Session.records]
  induction pending generalizing database with
  | nil => simp
  | cons write rest ih =>
    rw [List.foldl_cons, ih]
    cases write <;> simp [Database.write]

theorem sees_effects (session : Session) (database : Database) :
    (session.sees database).effects = database.effects ++ session.effects := by
  obtain ⟨migrations, pending, failed⟩ := session
  simp only [Session.sees, Session.effects]
  induction pending generalizing database with
  | nil => simp
  | cons write rest ih =>
    rw [List.foldl_cons, ih]
    cases write <;> simp [Database.write]

theorem sees_prepared (session : Session) :
    (database.schema = true → (session.sees database).schema = true) ∧
      (database.table = true → (session.sees database).table = true) := by
  obtain ⟨migrations, pending, failed⟩ := session
  simp only [Session.sees]
  induction pending generalizing database with
  | nil => exact ⟨id, id⟩
  | cons write rest ih =>
    rw [List.foldl_cons]
    refine ⟨fun hschema ↦ ih.1 ?_, fun htable ↦ ih.2 ?_⟩
    · cases write <;> simp [Database.write, hschema]
    · cases write <;> simp [Database.write, htable]

/-! ### The invariant -/

/-- The migrations whose SQL has taken effect are the recorded ones, in the order of their versions,
which count from one. -/
structure Exact (database : Database) : Prop where
  recorded : database.effects.map Migration.record = database.records
  ordered : database.records.map Record.version = List.range' 1 database.records.length
  prepared : database.records ≠ [] → database.schema = true ∧ database.table = true

/-- The row of a session follows the rows of the database in the list of its process. -/
structure Follows (database : Database) (migrations : List Migration) (record : Record) : Prop where
  listed : database.records ++ [record] <+: migrations.map Migration.record
  version : record.version = database.records.length + 1
  prepared : database.schema = true ∧ database.table = true

/-- The history is exact, and at most one session has a row that is not committed, which is the next
one. -/
structure HistoryInv (world : World) : Prop where
  exact : Exact world.database
  pending : ∀ thread session, world.sessions thread = some session → ∀ record ∈ session.records,
    Follows world.database session.migrations record
  few : ∀ thread session, world.sessions thread = some session → session.records.length ≤ 1
  lone : ∀ first second one other, first ≠ second → world.sessions first = some one →
    world.sessions second = some other → one.records = [] ∨ other.records = []

/-- What the others do: the session of a process stays, or ends, and the history grows. -/
structure HistoryRely (thread : ℕ) (before after : World) : Prop where
  session : after.sessions thread = before.sessions thread ∨ after.sessions thread = none
  records : before.database.records <+: after.database.records
  schema : before.database.schema = true → after.database.schema = true
  table : before.database.table = true → after.database.table = true

/-- A session of a process has SQL of a migration that it did not record. -/
def Exposed (thread : ℕ) (world : World) : Prop :=
  ∃ session, world.sessions thread = some session ∧ session.records.length < session.effects.length

/-- While the SQL of a migration was executed and not recorded, no exception arrives that is not an
`Exception`, and none keeps a rollback from being carried out. -/
def Sheltered (thread : ℕ) (request : MigratorCall) (reply : request.Reply) (after : World) : Prop :=
  ∀ raised, request.outcome reply = .error raised → Exposed thread after →
    raised.isException = true ∧ request ≠ .rollback

/-- The database and its connections, in runs whose steps are all sheltered. -/
def shelteredSemantics : Semantics migratorInterface World where
  perform := fun thread request before reply after ↦
    Performs thread before request reply after ∧ Sheltered thread request reply after
  environment := databaseSemantics.environment

/-- The invariant of the history, and what processes rely on. -/
def history : RelyGuarantee shelteredSemantics where
  inv := HistoryInv
  rely := HistoryRely
  rely_refl := fun _ _ ↦ ⟨.inl rfl, List.prefix_rfl, id, id⟩
  rely_trans := fun thread first second third hfirst hsecond ↦ by
    refine ⟨?_, hfirst.records.trans hsecond.records, hsecond.schema ∘ hfirst.schema,
      hsecond.table ∘ hfirst.table⟩
    rcases hsecond.session with hsame | hended
    · rw [hsame]
      exact hfirst.session
    · exact .inr hended

/-! ### Changes of one session -/

section Sessions

variable {before : World} {thread : ℕ}

theorem rely_setSession (before : World) (session : Session) {other : ℕ} (hother : other ≠ thread) :
    HistoryRely other before (before.setSession thread session) :=
  ⟨.inl (Function.update_of_ne hother _ _), List.prefix_rfl, id, id⟩

/-- Assumes: a session with no row, or with the rows it had. The invariant holds after the change. -/
theorem inv_setSession (hinv : HistoryInv before)
    (hsession : session.records = [] ∨ ∃ old, before.sessions thread = some old ∧
      session.migrations = old.migrations ∧ session.records = old.records) :
    HistoryInv (before.setSession thread session) := by
  have hcases : ∀ other found, (before.setSession thread session).sessions other = some found →
      found.records = [] ∨ ∃ old, before.sessions other = some old ∧
        found.migrations = old.migrations ∧ found.records = old.records := by
    intro other found hfound
    by_cases hsame : other = thread
    · subst hsame
      obtain rfl : session = found := by simpa [World.setSession] using hfound
      exact hsession
    · rw [World.setSession] at hfound
      simp only [Function.update_of_ne hsame] at hfound
      exact .inr ⟨found, hfound, rfl, rfl⟩
  refine ⟨hinv.exact, fun other found hfound record hmem ↦ ?_, fun other found hfound ↦ ?_,
    fun first second one other hne hone hother ↦ ?_⟩
  · rcases hcases other found hfound with hnone | ⟨old, hold, hmigrations, hrecords⟩
    · rw [hnone] at hmem
      cases hmem
    · rw [hrecords] at hmem
      rw [hmigrations]
      exact hinv.pending other old hold record hmem
  · rcases hcases other found hfound with hnone | ⟨old, hold, -, hrecords⟩
    · simp [hnone]
    · rw [hrecords]
      exact hinv.few other old hold
  · rcases hcases first one hone with hnone | ⟨old, hold, -, hrecords⟩
    · exact .inl hnone
    rcases hcases second other hother with hnone | ⟨rival, hrival, -, hrows⟩
    · exact .inr hnone
    rw [hrecords, hrows]
    exact hinv.lone first second old rival hne hold hrival

theorem inv_endSession (hinv : HistoryInv before) (thread : ℕ) :
    HistoryInv (before.endSession thread) := by
  have hkept : ∀ other found, (before.endSession thread).sessions other = some found →
      before.sessions other = some found := by
    intro other found hfound
    by_cases hsame : other = thread
    · subst hsame
      simp [World.endSession] at hfound
    · simpa [World.endSession, Function.update_of_ne hsame] using hfound
  exact ⟨hinv.exact, fun other found hfound ↦ hinv.pending other found (hkept other found hfound),
    fun other found hfound ↦ hinv.few other found (hkept other found hfound),
    fun first second one other hne hone hother ↦
      hinv.lone first second one other hne (hkept _ _ hone) (hkept _ _ hother)⟩

theorem rely_endSession (before : World) (thread other : ℕ) :
    HistoryRely other before (before.endSession thread) := by
  refine ⟨?_, List.prefix_rfl, id, id⟩
  by_cases hsame : other = thread
  · subst hsame
    exact .inr (by simp [World.endSession])
  · exact .inl (by simp [World.endSession, Function.update_of_ne hsame])

end Sessions

/-! ### Commits and insertions -/

section Writes

variable {before after : World} {thread : ℕ} {session : Session}

/-- The session of a process, if it has one, recorded all the SQL it executed. -/
def Settled (thread : ℕ) (world : World) : Prop :=
  ∀ session, world.sessions thread = some session →
    session.effects.map Migration.record = session.records

/-- The session of a process, if it has one, has a list of writes that are not committed, in a
transaction that is not aborted. -/
def Holding (thread : ℕ) (migrations : List Migration) (pending : List Write) (world : World) :
    Prop :=
  ∀ session, world.sessions thread = some session →
    session.migrations = migrations ∧ session.pending = pending ∧ session.failed = false

/-- The rows that a process knows are a beginning of the history and of its list. -/
structure Known (migrations : List Migration) (known : List Record) (world : World) : Prop where
  recorded : known <+: world.database.records
  listed : known <+: migrations.map Migration.record
  prepared : world.database.schema = true ∧ world.database.table = true

theorem Settled.stable (h : Settled thread before) (hrely : HistoryRely thread before after) :
    Settled thread after := by
  intro session hsession
  rcases hrely.session with hsame | hended
  · exact h session (hsame ▸ hsession)
  · rw [hended] at hsession
    cases hsession

variable {migrations : List Migration}

theorem Holding.stable {pending : List Write}
    (h : Holding thread migrations pending before) (hrely : HistoryRely thread before after) :
    Holding thread migrations pending after := by
  intro session hsession
  rcases hrely.session with hsame | hended
  · exact h session (hsame ▸ hsession)
  · rw [hended] at hsession
    cases hsession

theorem Known.stable (h : Known migrations known before) (hrely : HistoryRely thread before after) :
    Known migrations known after :=
  ⟨h.recorded.trans hrely.records, h.listed, hrely.schema h.prepared.1, hrely.table h.prepared.2⟩

theorem Exact.version_at (h : Exact database) {index : ℕ} {record : Record}
    (hat : database.records[index]? = some record) : record.version = index + 1 := by
  have hversion : (database.records.map Record.version)[index]? = some record.version := by
    rw [List.getElem?_map, hat, Option.map_some]
  have hlength : index < database.records.length := (List.getElem?_eq_some_iff.1 hat).1
  rw [h.ordered, List.getElem?_range' hlength, Option.some.injEq] at hversion
  omega

/-- The database after the commit of a settled transaction is exact. Assumes: the transaction is not
aborted. -/
theorem exact_sees (hinv : HistoryInv before) (hsession : before.sessions thread = some session)
    (hsettled : session.effects.map Migration.record = session.records) :
    Exact (session.sees before.database) := by
  have hexact := hinv.exact
  refine ⟨?_, ?_, fun hsome ↦ ?_⟩
  · rw [sees_effects, sees_records, List.map_append, hexact.recorded, hsettled]
  · rw [sees_records]
    match hrecords : session.records with
    | [] => simpa using hexact.ordered
    | [record] =>
      have hversion := (hinv.pending thread session hsession record (by simp [hrecords])).version
      rw [List.map_append, hexact.ordered, List.length_append, List.length_singleton,
        List.range'_concat]
      simp [hversion, Nat.add_comm]
    | first :: second :: rest =>
      have hfew := hinv.few thread session hsession
      rw [hrecords] at hfew
      simp at hfew
  · have hprepared : before.database.schema = true ∧ before.database.table = true := by
      by_cases hnone : before.database.records = []
      · rw [sees_records, hnone, List.nil_append] at hsome
        obtain ⟨record, hmem⟩ := List.exists_mem_of_ne_nil _ hsome
        exact (hinv.pending thread session hsession record hmem).prepared
      · exact hexact.prepared hnone
    exact ⟨(sees_prepared session).1 hprepared.1, (sees_prepared session).2 hprepared.2⟩

/-- Assumes: a commit of a settled session. The invariant holds, and the others can rely on what they
rely on. -/
theorem guarantees_commit (hinv : HistoryInv before)
    (hsession : before.sessions thread = some session) (hsettled : Settled thread before) :
    history.Guarantees thread before (before.commit thread session) := by
  have hrolled : HistoryInv (before.rollBack thread session) :=
    inv_setSession hinv (.inl rfl)
  unfold World.commit
  split
  · exact ⟨hrolled, fun other hother ↦ rely_setSession before _ hother⟩
  have hexact := exact_sees hinv hsession (hsettled session hsession)
  have hgrows : before.database.records <+: (session.sees before.database).records := by
    rw [sees_records]
    exact List.prefix_append _ _
  refine ⟨⟨hexact, fun other found hfound record hmem ↦ ?_, hrolled.few, hrolled.lone⟩,
    fun other hother ↦ ?_⟩
  · -- A session with a row that is not committed is the only one, so this one had none.
    have hother : other ≠ thread := by
      rintro rfl
      obtain rfl : { session with pending := [], failed := false } = found := by
        simpa [World.rollBack, World.setSession] using hfound
      cases hmem
    have hold : before.sessions other = some found := by
      simpa [World.rollBack, World.setSession, Function.update_of_ne hother] using hfound
    have hnone : session.records = [] := by
      rcases hinv.lone other thread found session hother hold hsession with hnone | hnone
      · rw [hnone] at hmem
        cases hmem
      · exact hnone
    have hrecords : (session.sees before.database).records = before.database.records := by
      rw [sees_records, hnone, List.append_nil]
    have hfollows := hinv.pending other found hold record hmem
    refine ⟨?_, ?_, (sees_prepared session).1 hfollows.prepared.1,
      (sees_prepared session).2 hfollows.prepared.2⟩
    · simpa only [hrecords] using hfollows.listed
    · simpa only [hrecords] using hfollows.version
  · exact ⟨.inl (Function.update_of_ne hother _ _), hgrows, (sees_prepared session).1,
      (sees_prepared session).2⟩

/-- A process that knows the rows before its own inserts the next row. Assumes: the insertion did not
find a row with its key. -/
theorem follows_of_known {record : Record}
    (hinv : HistoryInv before) (hknown : Known migrations known before)
    (hnext : known ++ [record] <+: migrations.map Migration.record)
    (hversion : record.version = known.length + 1)
    (hdistinct : ∀ row ∈ before.database.records, record.Distinct row) :
    Follows before.database migrations record := by
  have hsame : before.database.records = known := by
    obtain ⟨rest, hrest⟩ := hknown.recorded
    cases rest with
    | nil => rw [← hrest, List.append_nil]
    | cons row more =>
      have hat : before.database.records[known.length]? = some row := by
        rw [← hrest]
        simp
      exact absurd (hversion.trans (hinv.exact.version_at hat).symm)
        (hdistinct row (List.mem_of_getElem? hat)).1
  rw [← hsame] at hnext hversion
  exact ⟨hnext, hversion, hknown.prepared⟩

/-- Assumes: an insertion of the next row by a session without rows. The invariant holds, and the
others can rely on what they rely on. -/
theorem guarantees_insert {record : Record} (hinv : HistoryInv before)
    (hsession : before.sessions thread = some session) (hnone : session.records = [])
    (hfollows : Follows before.database session.migrations record)
    (hwaits : ∀ other, other ≠ thread → ∀ rival, before.sessions other = some rival →
      ∀ row ∈ rival.records, record.Distinct row) :
    history.Guarantees thread before (before.append thread session (.record record)) := by
  have hrecords : Session.records { session with pending := session.pending ++ [.record record] } =
      [record] := by
    have hpending : Session.records { session with pending := session.pending ++ [.record record] } =
        session.records ++ [record] := by simp [Session.records]
    rw [hpending, hnone, List.nil_append]
  have hothers : ∀ other rival, other ≠ thread → before.sessions other = some rival →
      rival.records = [] := by
    intro other rival hother hrival
    rw [List.eq_nil_iff_forall_not_mem]
    intro row hmem
    exact (hwaits other hother rival hrival row hmem).1
      (hfollows.version.trans (hinv.pending other rival hrival row hmem).version.symm)
  have hcases : ∀ other found,
      (before.append thread session (.record record)).sessions other = some found →
      (other = thread ∧ found = { session with pending := session.pending ++ [.record record] }) ∨
        other ≠ thread ∧ before.sessions other = some found := by
    intro other found hfound
    by_cases hsame : other = thread
    · subst hsame
      exact .inl ⟨rfl, by simpa [World.append, World.setSession] using hfound.symm⟩
    · exact .inr ⟨hsame, by
        simpa [World.append, World.setSession, Function.update_of_ne hsame] using hfound⟩
  refine ⟨⟨hinv.exact, fun other found hfound row hmem ↦ ?_, fun other found hfound ↦ ?_,
    fun first second one other hne hone hother ↦ ?_⟩, fun other hother ↦
      rely_setSession before _ hother⟩
  · rcases hcases other found hfound with ⟨rfl, rfl⟩ | ⟨-, hold⟩
    · rw [hrecords, List.mem_singleton] at hmem
      subst hmem
      exact hfollows
    · exact hinv.pending other found hold row hmem
  · rcases hcases other found hfound with ⟨rfl, rfl⟩ | ⟨-, hold⟩
    · simp [hrecords]
    · exact hinv.few other found hold
  · rcases hcases first one hone with ⟨rfl, rfl⟩ | ⟨hfirst, hold⟩
    · rcases hcases second other hother with ⟨rfl, -⟩ | ⟨hsecond, hrival⟩
      · exact absurd rfl hne
      · exact .inr (hothers second other hsecond hrival)
    · exact .inl (hothers first one hfirst hold)

end Writes

/-! ### The calls of a process -/

section Calls

variable {before after world : World} {thread : ℕ} {session : Session}
  {migrations : List Migration} {pending : List Write}

/-- Writes that are recorded, or the SQL of one migration that is not. -/
def LooseWrites (pending : List Write) : Prop :=
  (Session.effects ⟨[], pending, false⟩).map Migration.record = Session.records ⟨[], pending, false⟩ ∨
    Session.records ⟨[], pending, false⟩ = [] ∧ (Session.effects ⟨[], pending, false⟩).length = 1

/-- The session of a process, if it has one, has at most the SQL of one migration that it did not
record. -/
def Loose (thread : ℕ) (world : World) : Prop :=
  ∀ session, world.sessions thread = some session → LooseWrites session.pending

/-- How the part of `migrate` ends that holds the lock: everything is recorded, unless it raised an
`Exception`. -/
def Ended (thread : ℕ) (outcome : Except Raised Unit) (world : World) : Prop :=
  match outcome with
  | .ok () => Settled thread world
  | .error raised => Loose thread world ∧ (raised.isException = false → Settled thread world)

theorem Settled.loose (h : Settled thread world) : Loose thread world :=
  fun session hsession ↦ .inl (h session hsession)

theorem Loose.settled (h : Loose thread world) (hhidden : ¬ Exposed thread world) :
    Settled thread world := by
  intro session hsession
  rcases h session hsession with hsettled | ⟨hnone, hone⟩
  · exact hsettled
  · refine absurd ⟨session, hsession, ?_⟩ hhidden
    have hrecords : session.records = [] := hnone
    have heffects : session.effects.length = 1 := hone
    rw [hrecords, heffects]
    exact Nat.one_pos

/-- A call that raised an exception with a loose session. Assumes: the step is sheltered. -/
theorem ended_error {reply : request.Reply} {raised : Raised}
    (hreply : request.outcome reply = .error raised) (hloose : Loose thread after)
    (hsheltered : Sheltered thread request reply after) : Ended thread (.error raised) after := by
  refine ⟨hloose, fun hinterruption ↦ hloose.settled fun hexposed ↦ ?_⟩
  have hexception := (hsheltered raised hreply hexposed).1
  rw [hinterruption] at hexception
  cases hexception

theorem setSession_self (world : World) (thread : ℕ) (session : Session) :
    (world.setSession thread session).sessions thread = some session :=
  Function.update_self _ _ _

theorem settled_setSession (world : World) (thread : ℕ)
    (hnone : session.pending = []) : Settled thread (world.setSession thread session) := by
  intro found hfound
  rw [setSession_self, Option.some.injEq] at hfound
  subst hfound
  simp [Session.effects, Session.records, hnone]

theorem settled_endSession (world : World) (thread : ℕ) : Settled thread (world.endSession thread) := by
  intro found hfound
  simp [World.endSession] at hfound

theorem settled_commit (world : World) (thread : ℕ) (session : Session) :
    Settled thread (world.commit thread session) := by
  unfold World.commit
  split
  · exact settled_setSession world thread rfl
  · exact settled_setSession world thread rfl

/-- Assumes: every effect of a call keeps the invariant and what the others rely on, and brings about
the end condition. The call is safe. -/
theorem safe_send {post : Except Raised Unit → World → Prop}
    (h : ∀ before, HistoryRely thread world before → HistoryInv before → ∀ reply after,
      Performs thread before request reply after → Sheltered thread request reply after →
        history.Guarantees thread before after ∧ post (request.outcome reply) after) :
    Safe history thread (send request) world post := by
  intro before hrely hinv reply after hperform
  obtain ⟨hguarantees, hpost⟩ := h before hrely hinv reply after hperform.1 hperform.2
  refine ⟨hguarantees, ?_⟩
  change Safe history thread (Program.ofExcept (request.outcome reply)) after post
  cases houtcome : request.outcome reply with
  | ok value =>
    rw [houtcome] at hpost
    exact hpost
  | error raised =>
    rw [houtcome] at hpost
    exact hpost

/-- The calls before and after the part that holds the lock. -/
def Tidies : MigratorCall → Prop
  | .execute .advisoryLock | .execute .advisoryUnlock | .commit | .rollback | .close => True
  | .execute .createSchema | .execute .createTable | .execute .selectRecords
  | .execute (.migration _) | .execute (.insertRecord _) | .connect _ => False

theorem guarantees_setSession (hinv : HistoryInv before)
    (hsession : session.records = [] ∨ ∃ old, before.sessions thread = some old ∧
      session.migrations = old.migrations ∧ session.records = old.records) :
    history.Guarantees thread before (before.setSession thread session) :=
  ⟨inv_setSession hinv hsession, fun _ hother ↦ rely_setSession before session hother⟩

theorem guarantees_same (hinv : HistoryInv before) : history.Guarantees thread before before :=
  ⟨hinv, fun other _ ↦ history.rely_refl other before⟩

/-- Assumes: a settled process. The calls before and after the part that holds the lock keep it
settled. -/
theorem settled_call {reply : request.Reply} (htidies : Tidies request)
    (hinv : HistoryInv before) (hsettled : Settled thread before)
    (hperforms : Performs thread before request reply after) :
    history.Guarantees thread before after ∧ Settled thread after := by
  cases hperforms with
  | connected migrations => exact htidies.elim
  | notConnected migrations raised => exact htidies.elim
  | executed hsession hopen hexecutes | executedRaising raised hsession hopen hexecutes =>
    cases hexecutes with
    | advisoryLock hfree => exact ⟨⟨⟨hinv.exact, hinv.pending, hinv.few, hinv.lone⟩,
        fun other _ ↦ ⟨.inl rfl, List.prefix_rfl, id, id⟩⟩, hsettled⟩
    | advisoryUnlock => exact ⟨⟨⟨hinv.exact, hinv.pending, hinv.few, hinv.lone⟩,
        fun other _ ↦ ⟨.inl rfl, List.prefix_rfl, id, id⟩⟩, hsettled⟩
    | createSchema => exact htidies.elim
    | createTable hschema => exact htidies.elim
    | selectRecords htable => exact htidies.elim
    | migration migration => exact htidies.elim
    | insertRecord record htable hadmissible hdistinct hwaits => exact htidies.elim
  | aborted raised hsession =>
    exact ⟨guarantees_setSession hinv (.inl rfl), settled_setSession before thread rfl⟩
  | notExecuted statement raised => exact ⟨guarantees_same hinv, hsettled⟩
  | committed hsession | committedRaising raised hsession =>
    exact ⟨guarantees_commit hinv hsession hsettled, settled_commit before thread _⟩
  | notCommitted raised => exact ⟨guarantees_same hinv, hsettled⟩
  | rolledBack hsession | rolledBackRaising raised hsession =>
    exact ⟨guarantees_setSession hinv (.inl rfl), settled_setSession before thread rfl⟩
  | notRolledBack raised => exact ⟨guarantees_same hinv, hsettled⟩
  | closed | closedRaising raised =>
    exact ⟨⟨inv_endSession hinv thread, fun other _ ↦ rely_endSession before thread other⟩,
      settled_endSession before thread⟩
  | notClosed raised => exact ⟨guarantees_same hinv, hsettled⟩

/-- A program that makes only the calls before and after the part that holds the lock keeps a process
settled. -/
theorem safe_tidies {α : Type} {program : MigratorProgram α} (htidies : program.Asks Tidies)
    (hsettled : Settled thread world) :
    Safe history thread program world fun _ after ↦ Settled thread after :=
  Safe.of_asks (fun _ _ hrely hfact ↦ hfact.stable hrely)
    (fun _ _ _ _ hallowed hinv hfact hperform ↦ settled_call hallowed hinv hfact hperform.1)
    htidies hsettled

end Calls

/-! ### The part that holds the lock -/

section Locked

variable {world : World} {thread : ℕ} {migrations : List Migration} {pending : List Write}

theorem Holding.loose (h : Holding thread migrations pending world) (hloose : LooseWrites pending) :
    Loose thread world := by
  intro session hsession
  rw [(h session hsession).2.1]
  exact hloose

theorem Holding.settled (h : Holding thread migrations [] world) : Settled thread world := by
  intro session hsession
  simp [Session.effects, Session.records, (h session hsession).2.1]

theorem holding_append {before : World} (h : Holding thread migrations pending before)
    (hsession : before.sessions thread = some session) (write : Write) :
    Holding thread migrations (pending ++ [write]) (before.append thread session write) := by
  intro found hfound
  rw [World.append, setSession_self, Option.some.injEq] at hfound
  subst hfound
  obtain ⟨hmigrations, hpending, hfailed⟩ := h session hsession
  exact ⟨hmigrations, by rw [hpending], hfailed⟩

/-- A statement that writes something other than a row. Assumes: a process with given writes, loose
before and after the statement. -/
theorem safe_write {statement : Statement} {write : Write}
    (hexecutes : ∀ session before result after, Executes thread session before statement result after →
      after = before.append thread session write)
    (hwrite : ∀ record, write ≠ .record record) (hold : Holding thread migrations pending world)
    (hbefore : LooseWrites pending) (hafter : LooseWrites (pending ++ [write]))
    {known : World → Prop}
    (hknown : ∀ before after, HistoryRely thread before after → known before → known after)
    (hdatabase : ∀ before session, known before → known (World.setSession before thread session))
    (hworld : known world) :
    Safe history thread (send (.execute statement)) world fun outcome after ↦
      match outcome with
      | .ok () => known after ∧ Holding thread migrations (pending ++ [write]) after
      | .error raised => Ended thread (.error raised) after := by
  refine safe_send fun before hrely hinv reply after hperforms hsheltered ↦ ?_
  have hheld := hold.stable hrely
  have hkept := hknown _ _ hrely hworld
  have hgrows : ∀ session, before.sessions thread = some session →
      history.Guarantees thread before (before.append thread session write) := by
    intro session hsession
    refine guarantees_setSession hinv (.inr ⟨session, hsession, rfl, ?_⟩)
    cases write with
    | record record => exact absurd rfl (hwrite record)
    | createSchema | createTable | effect migration => simp [Session.records]
  cases hperforms with
  | executed hsession hopen hruns =>
    obtain rfl := hexecutes _ _ _ _ hruns
    exact ⟨hgrows _ hsession, hdatabase _ _ hkept, holding_append hheld hsession write⟩
  | executedRaising raised hsession hopen hruns =>
    obtain rfl := hexecutes _ _ _ _ hruns
    exact ⟨hgrows _ hsession,
      ended_error rfl ((holding_append hheld hsession write).loose hafter) hsheltered⟩
  | aborted raised hsession =>
    exact ⟨guarantees_setSession hinv (.inl rfl),
      ended_error rfl (settled_setSession before thread rfl).loose hsheltered⟩
  | notExecuted statement raised =>
    exact ⟨guarantees_same hinv, ended_error rfl (hheld.loose hbefore) hsheltered⟩

/-- A commit. Assumes: a process with given writes, which are all recorded, and the end condition after
the commit. -/
theorem safe_commit {post : Except Raised Unit → World → Prop}
    (hold : Holding thread migrations pending world)
    (hsettled : ∀ before, Holding thread migrations pending before → Settled thread before)
    (hok : ∀ before session, HistoryRely thread world before → HistoryInv before →
      before.sessions thread = some session → session.migrations = migrations →
      session.pending = pending → session.failed = false →
        post (.ok ()) (before.commit thread session))
    (herror : ∀ raised after, Settled thread after → post (.error raised) after) :
    Safe history thread (send .commit) world post := by
  refine safe_send fun before hrely hinv reply after hperforms hsheltered ↦ ?_
  have hheld := hold.stable hrely
  have hrecorded := hsettled before hheld
  cases hperforms with
  | committed hsession =>
    obtain ⟨hmigrations, hpending, hfailed⟩ := hheld _ hsession
    exact ⟨guarantees_commit hinv hsession hrecorded,
      hok before _ hrely hinv hsession hmigrations hpending hfailed⟩
  | committedRaising raised hsession =>
    exact ⟨guarantees_commit hinv hsession hrecorded, herror raised _ (settled_commit before thread _)⟩
  | notCommitted raised => exact ⟨guarantees_same hinv, herror raised _ hrecorded⟩

/-- The insertion of the row of a migration. Assumes: the process executed its SQL, and knows the rows
before it. -/
theorem safe_insertRecord {migration : Migration}
    (hold : Holding thread migrations [.effect migration] world)
    (hknown : Known migrations known world)
    (hnext : known ++ [migration.record] <+: migrations.map Migration.record)
    (hversion : migration.version = known.length + 1) :
    Safe history thread (send (.execute (.insertRecord migration.record))) world
      fun outcome after ↦
        match outcome with
        | .ok () => Holding thread migrations [.effect migration, .record migration.record] after
        | .error raised => Ended thread (.error raised) after := by
  refine safe_send fun before hrely hinv reply after hperforms hsheltered ↦ ?_
  have hheld := hold.stable hrely
  have hkept := hknown.stable hrely
  have hunrecorded : LooseWrites [.effect migration] := .inr ⟨rfl, rfl⟩
  have hrecorded : LooseWrites [.effect migration, .record migration.record] := .inl rfl
  have hinserts : ∀ {session after}, before.sessions thread = some session →
      Executes thread session before (.insertRecord migration.record) () after →
      after = before.append thread session (.record migration.record) ∧
        history.Guarantees thread before after := by
    intro session after hsession hexecutes
    cases hexecutes with
    | insertRecord record htable hadmissible hdistinct hwaits =>
      obtain ⟨hmigrations, hpending, -⟩ := hheld session hsession
      have hnone : session.records = [] := by simp [Session.records, hpending]
      have hfollows := follows_of_known hinv hkept hnext hversion fun row hmem ↦ hdistinct row (by
        rw [sees_records]
        exact List.mem_append_left _ hmem)
      exact ⟨rfl, guarantees_insert hinv hsession hnone (hmigrations ▸ hfollows) hwaits⟩
  cases hperforms with
  | executed hsession hopen hexecutes =>
    obtain ⟨rfl, hguarantees⟩ := hinserts hsession hexecutes
    exact ⟨hguarantees, holding_append hheld hsession _⟩
  | executedRaising raised hsession hopen hexecutes =>
    obtain ⟨rfl, hguarantees⟩ := hinserts hsession hexecutes
    exact ⟨hguarantees,
      ended_error rfl ((holding_append hheld hsession _).loose hrecorded) hsheltered⟩
  | aborted raised hsession =>
    exact ⟨guarantees_setSession hinv (.inl rfl),
      ended_error rfl (settled_setSession before thread rfl).loose hsheltered⟩
  | notExecuted statement raised =>
    exact ⟨guarantees_same hinv, ended_error rfl (hheld.loose hunrecorded) hsheltered⟩

end Locked

/-! ### The loop over the migrations -/

section Loop

variable {world : World} {thread : ℕ} {migrations : List Migration}

/-- Assumes: rows that a process accepts at an index of its list, whose versions count from there. The
rows begin the list, and their versions are the accepted ones. -/
theorem validateRows_ok {index : ℕ} {rows : List Record} {rest : List Migration} {applied : List ℕ}
    (hversions : rest.map Migration.version = List.range' (index + 1) rest.length)
    (h : validateRows index rows rest = .ok applied) :
    rows <+: rest.map Migration.record ∧ applied = List.range' (index + 1) rows.length := by
  induction rows generalizing index rest applied with
  | nil =>
    cases h
    exact ⟨List.nil_prefix, rfl⟩
  | cons row rows ih =>
    unfold validateRows at h
    split_ifs at h with hversion
    cases rest with
    | nil => cases h
    | cons migration rest =>
      simp only at h
      split_ifs at h with hmatches
      rw [List.map_cons, List.length_cons, List.range'_succ, List.cons.injEq] at hversions
      cases hrest : validateRows (index + 1) rows rest with
      | error raised =>
        rw [hrest] at h
        cases h
      | ok later =>
        rw [hrest] at h
        obtain rfl : row.version :: later = applied := by simpa [Except.map] using h
        obtain ⟨hbegins, rfl⟩ := ih hversions.2 hrest
        have hrow : row = migration.record := by
          obtain ⟨rowVersion, name, checksum⟩ := row
          simp only [ne_eq, not_not, Prod.mk.injEq] at hversion hmatches
          rw [Migration.record, hversions.1, hversion, hmatches.1, hmatches.2]
        refine ⟨?_, ?_⟩
        · rw [hrow, List.map_cons]
          exact List.cons_prefix_cons.2 ⟨rfl, hbegins⟩
        · rw [List.length_cons, List.range'_succ, not_not.1 hversion]

/-- Assumes: a history that a process accepts. It begins the list of the process, and its versions are
the applied ones. -/
theorem validateApplied_ok {rows : List Record} {applied : List ℕ}
    (hversions : migrations.map Migration.version = List.range' 1 migrations.length)
    (h : validateApplied migrations rows = .ok applied) :
    rows <+: migrations.map Migration.record ∧ applied = List.range' 1 rows.length := by
  unfold validateApplied at h
  split_ifs at h
  exact validateRows_ok (by simpa using hversions) h

theorem versions_validated {given : List Migration} (h : validatedMigrations given = .ok migrations) :
    migrations.map Migration.version = List.range' 1 migrations.length := by
  unfold validatedMigrations at h
  simp only at h
  split_ifs at h with hempty hversions hnames hcontiguous
  cases h
  exact not_not.1 hcontiguous

theorem Known.setSession (h : Known migrations known world)
    (session : Session) : Known migrations known (world.setSession thread session) :=
  ⟨h.recorded, h.listed, h.prepared⟩

/-- The loop over the migrations that are left. Assumes: the process knows the history it read and what
it migrated since, and wrote nothing that is not committed. -/
theorem safe_applyMigrations {count : ℕ} {rest : List Migration}
    (hversions : migrations.map Migration.version = List.range' 1 migrations.length)
    {first : List Migration} (hsplit : migrations = first ++ rest)
    (hlength : known.length = max count first.length) (hknown : Known migrations known world)
    (hold : Holding thread migrations [] world) :
    Safe history thread (applyMigrations (List.range' 1 count) rest) world (Ended thread) := by
  induction rest generalizing first known world with
  | nil => exact hold.settled
  | cons migration rest ih =>
    have hversion : migration.version = first.length + 1 := by
      have hat : (migrations.map Migration.version)[first.length]? = some migration.version := by
        rw [hsplit]
        simp
      have hbound : first.length < migrations.length := by
        rw [hsplit]
        simp
      rw [hversions, List.getElem?_range' hbound, Option.some.injEq] at hat
      omega
    have hmore : migrations = (first ++ [migration]) ++ rest := by simpa using hsplit
    unfold applyMigrations
    split
    · next happlied =>
      refine ih hmore ?_ hknown hold
      have hcount : first.length + 1 ≤ count := by
        rw [hversion, List.mem_range'_1] at happlied
        omega
      rw [hlength, List.length_append, List.length_singleton, max_eq_left hcount,
        max_eq_left (by omega)]
    · next hunapplied =>
      have hcount : count ≤ first.length := by
        rw [hversion, List.mem_range'_1] at hunapplied
        omega
      have hfirst : known.length = first.length := hlength.trans (max_eq_right hcount)
      have hnext : known ++ [migration.record] <+: migrations.map Migration.record := by
        have hsame : known = first.map Migration.record := by
          have hbegins := hknown.listed
          rw [hsplit, List.map_append] at hbegins
          exact (List.prefix_of_prefix_length_le hbegins (List.prefix_append _ _)
            (by simp [hfirst])).eq_of_length (by simp [hfirst])
        refine ⟨rest.map Migration.record, ?_⟩
        rw [hsame, hsplit]
        simp
      have hwrites : ∀ session before result after,
          Executes thread session before (.migration migration) result after →
          after = before.append thread session (.effect migration) := by
        intro session before result after hexecutes
        cases hexecutes
        rfl
      refine Safe.bind ((safe_write hwrites (fun _ ↦ Write.noConfusion) hold (.inl rfl)
        (.inr ⟨rfl, rfl⟩) (fun _ _ hrely hbefore ↦ Known.stable hbefore hrely)
        (fun _ _ hbefore ↦ Known.setSession hbefore _) hknown).mono fun outcome after hpost ↦ ?_)
      rcases outcome with raised | ⟨⟩
      · exact hpost
      obtain ⟨hknownAfter, hheld⟩ := hpost
      refine Safe.bind ((safe_insertRecord hheld hknownAfter hnext (by omega)).mono
        fun outcome after hpost ↦ ?_)
      rcases outcome with raised | ⟨⟩
      · exact hpost
      refine Safe.bind (safe_commit hpost (fun before hboth session hsession ↦ ?_)
        (fun before session hrely hinv hsession hmigrations hpending hfailed ↦ ?_)
        (fun raised after hsettled ↦ ⟨hsettled.loose, fun _ ↦ hsettled⟩))
      · simp [Session.effects, Session.records, (hboth session hsession).2.1]
      · have hrecords : session.records = [migration.record] := by
          simp [Session.records, hpending]
        have hfollows := hinv.pending thread session hsession migration.record (by simp [hrecords])
        have hcommit : before.commit thread session =
            { before.rollBack thread session with database := session.sees before.database } := by
          rw [World.commit, if_neg (by simp [hfailed])]
        have hplace : before.database.records.length = first.length := by
          have hnumber : migration.version = before.database.records.length + 1 := hfollows.version
          omega
        have hlonger : (before.database.records ++ [migration.record]).length =
            max count (first ++ [migration]).length := by
          simp only [List.length_append, List.length_singleton, hplace]
          omega
        have hknownMore : Known migrations (before.database.records ++ [migration.record])
            (before.commit thread session) := by
          rw [hcommit]
          refine ⟨?_, hmigrations ▸ hfollows.listed, (sees_prepared session).1 hfollows.prepared.1,
            (sees_prepared session).2 hfollows.prepared.2⟩
          rw [sees_records, hrecords]
        refine ih hmore hlonger hknownMore ?_
        · rw [hcommit]
          intro found hfound
          obtain rfl : { session with pending := [], failed := false } = found := by
            simpa [World.rollBack, World.setSession] using hfound
          exact ⟨hmigrations, rfl, rfl⟩

end Loop

/-! ### A process -/

section Process

variable {world : World} {thread : ℕ} {migrations : List Migration}

theorem rows_eq (hexact : Exact database) (hpending : session.pending = []) :
    ((session.sees database).records.mergeSort
      fun first second ↦ decide (first.version ≤ second.version)) = database.records := by
  have hrecords : (session.sees database).records = database.records := by
    simp [Session.sees, hpending]
  rw [hrecords]
  apply List.mergeSort_of_pairwise
  have hsorted : (database.records.map Record.version).Pairwise (· ≤ ·) := by
    rw [hexact.ordered]
    exact List.pairwise_le_range'
  rw [List.pairwise_map] at hsorted
  exact hsorted.imp fun hle ↦ by simpa using hle

/-- The part that holds the lock. Assumes: the process wrote nothing that is not committed. -/
theorem safe_migrateLocked
    (hversions : migrations.map Migration.version = List.range' 1 migrations.length)
    (hold : Holding thread migrations [] world) :
    Safe history thread (migrateLocked migrations) world (Ended thread) := by
  have hschema : ∀ session before result after,
      Executes thread session before .createSchema result after →
      after = before.append thread session .createSchema := by
    intro session before result after hexecutes
    cases hexecutes
    rfl
  have htable : ∀ session before result after,
      Executes thread session before .createTable result after →
      after = before.append thread session .createTable := by
    intro session before result after hexecutes
    cases hexecutes
    rfl
  refine Safe.bind ((safe_write hschema (fun _ ↦ Write.noConfusion) hold (.inl rfl) (.inl rfl)
    (fun _ _ _ _ ↦ trivial) (fun _ _ _ ↦ trivial) (trivial : (fun _ ↦ True) world)).mono
      fun outcome after hpost ↦ ?_)
  rcases outcome with raised | ⟨⟩
  · exact hpost
  refine Safe.bind ((safe_write htable (fun _ ↦ Write.noConfusion) hpost.2 (.inl rfl) (.inl rfl)
    (fun _ _ _ _ ↦ trivial) (fun _ _ _ ↦ trivial) (trivial : (fun _ ↦ True) after)).mono
      fun outcome after hpost ↦ ?_)
  rcases outcome with raised | ⟨⟩
  · exact hpost
  refine Safe.bind (safe_commit hpost.2 (fun before hboth session hsession ↦ ?_)
    (fun before session hrely hinv hsession hmigrations hpending hfailed ↦ ?_)
    (fun raised after hsettled ↦ ⟨hsettled.loose, fun _ ↦ hsettled⟩))
  · simp [Session.effects, Session.records, (hboth session hsession).2.1]
  have hcommit : before.commit thread session =
      { before.rollBack thread session with database := session.sees before.database } := by
    rw [World.commit, if_neg (by simp [hfailed])]
  have hprepared : (before.commit thread session).database.schema = true ∧
      (before.commit thread session).database.table = true := by
    rw [hcommit]
    simp [Session.sees, hpending, Database.write]
  have hempty : Holding thread migrations [] (before.commit thread session) := by
    rw [hcommit]
    intro found hfound
    obtain rfl : { session with pending := [], failed := false } = found := by
      simpa [World.rollBack, World.setSession] using hfound
    exact ⟨hmigrations, rfl, rfl⟩
  generalize before.commit thread session = committed at hprepared hempty
  refine Safe.bind fun middle hmiddle hinvMiddle reply after hperform ↦ ?_
  have hheld := hempty.stable hmiddle
  obtain ⟨hperforms, hsheltered⟩ := hperform
  cases hperforms with
  | @executed _ reader _ _ hreader hopen hexecutes =>
    cases hexecutes with
    | selectRecords htable =>
      refine ⟨guarantees_same hinvMiddle, ?_⟩
      have hrows := rows_eq hinvMiddle.exact (hheld reader hreader).2.1
      rw [hrows]
      change Safe history thread (Program.bind (Program.ofExcept (validateApplied migrations
        middle.database.records)) _) middle _
      cases happlied : validateApplied migrations middle.database.records with
      | error raised => exact ⟨hheld.settled.loose, fun _ ↦ hheld.settled⟩
      | ok applied =>
        obtain ⟨hbegins, rfl⟩ := validateApplied_ok hversions happlied
        exact safe_applyMigrations hversions (List.nil_append _).symm (by simp)
          ⟨List.prefix_rfl, hbegins, hmiddle.schema hprepared.1, hmiddle.table hprepared.2⟩ hheld
  | executedRaising raised hsession hopen hexecutes =>
    cases hexecutes with
    | selectRecords htable =>
      exact ⟨guarantees_same hinvMiddle, ended_error rfl hheld.settled.loose hsheltered⟩
  | aborted raised hsession =>
    exact ⟨guarantees_setSession hinvMiddle (.inl rfl),
      ended_error rfl (settled_setSession middle thread rfl).loose hsheltered⟩
  | notExecuted statement raised =>
    exact ⟨guarantees_same hinvMiddle, ended_error rfl hheld.settled.loose hsheltered⟩

/-- The rollback after an exception. Assumes: at most the SQL of one migration is not recorded. -/
theorem safe_rollback (hloose : Loose thread world) :
    Safe history thread (send .rollback) world fun _ after ↦ Settled thread after := by
  refine safe_send fun before hrely hinv reply after hperforms hsheltered ↦ ?_
  have hstill : Loose thread before := by
    intro session hsession
    rcases hrely.session with hsame | hended
    · exact hloose session (hsame ▸ hsession)
    · rw [hended] at hsession
      cases hsession
  cases hperforms with
  | rolledBack hsession =>
    exact ⟨guarantees_setSession hinv (.inl rfl), settled_setSession before thread rfl⟩
  | rolledBackRaising raised hsession =>
    exact ⟨guarantees_setSession hinv (.inl rfl), settled_setSession before thread rfl⟩
  | notRolledBack raised =>
    refine ⟨guarantees_same hinv, hstill.settled fun hexposed ↦ ?_⟩
    exact (hsheltered raised rfl hexposed).2 rfl

/-- A body with a clean-up. Assumes: the body leaves the process settled, and the clean-up makes only
the calls around the part that holds the lock. -/
theorem safe_tryFinally {body cleanup : MigratorProgram Unit}
    (hbody : Safe history thread body world fun _ after ↦ Settled thread after)
    (hcleanup : cleanup.Asks Tidies) :
    Safe history thread (tryFinally body cleanup) world fun _ after ↦ Settled thread after := by
  refine Safe.bind (Safe.attempt (hbody.mono fun outcome after hsettled ↦ ?_))
  exact safe_tidies (hcleanup.bind fun _ ↦ Program.Asks.ofExcept outcome) hsettled

theorem asks_send (request : MigratorCall) (htidies : Tidies request) :
    (send request).Asks Tidies :=
  ⟨htidies, fun _ ↦ Program.Asks.ofExcept _⟩

theorem asks_releaseLock : releaseLock.Asks Tidies := by
  refine Program.Asks.bind (Program.Asks.attempt ((asks_send (.execute .advisoryUnlock) trivial).bind
    fun _ ↦ asks_send .commit trivial)) fun outcome ↦ ?_
  cases outcome with
  | ok value => trivial
  | error raised =>
    simp only
    split
    · exact asks_send .rollback trivial
    · trivial

theorem safe_advisoryLock (hold : Holding thread migrations [] world) :
    Safe history thread (send (.execute .advisoryLock)) world fun outcome after ↦
      Settled thread after ∧ (outcome = .ok () → Holding thread migrations [] after) := by
  refine safe_send fun before hrely hinv reply after hperforms hsheltered ↦ ?_
  have hheld := hold.stable hrely
  obtain ⟨hguarantees, hsettled⟩ := settled_call (show Tidies (.execute .advisoryLock) from trivial)
    hinv hheld.settled hperforms
  refine ⟨hguarantees, hsettled, fun hok ↦ ?_⟩
  cases hperforms with
  | executed hsession hopen hexecutes =>
    cases hexecutes with
    | advisoryLock hfree => exact hheld
  | executedRaising raised hsession hopen hexecutes => cases hok
  | aborted raised hsession => cases hok
  | notExecuted statement raised => cases hok

/-- What `migrate` does with a connection. Assumes: the process wrote nothing that is not committed. -/
theorem safe_migrateConnected
    (hversions : migrations.map Migration.version = List.range' 1 migrations.length)
    (hold : Holding thread migrations [] world) :
    Safe history thread (migrateConnected migrations) world fun _ after ↦ Settled thread after := by
  refine Safe.bind ((safe_advisoryLock hold).mono fun outcome locked hlocked ↦ ?_)
  rcases outcome with raised | ⟨⟩
  · exact hlocked.1
  refine safe_tryFinally ?_ asks_releaseLock
  refine Safe.bind (Safe.attempt ((safe_migrateLocked hversions (hlocked.2 rfl)).mono
    fun outcome after hended ↦ ?_))
  rcases outcome with raised | ⟨⟩
  · -- Only an exception of the class `Exception` is rolled back.
    change Safe history thread (if raised.isException then _ else _) after _
    split
    · refine Safe.bind ((safe_rollback hended.1).mono fun outcome rolled hsettled ↦ ?_)
      cases outcome with
      | error another => exact hsettled
      | ok value => exact hsettled
    · next hinterruption => exact hended.2 (by simpa using hinterruption)
  · exact hended

/-- `migrate` keeps the invariant. Assumes: a list whose versions count from one. -/
theorem safe_migrate
    (hversions : migrations.map Migration.version = List.range' 1 migrations.length) :
    Safe history thread (migrate migrations) world fun _ _ ↦ True := by
  have hconnects : Safe history thread (send (.connect migrations)) world fun outcome after ↦
      outcome = .ok () → Holding thread migrations [] after := by
    refine safe_send fun before hrely hinv reply after hperforms hsheltered ↦ ?_
    cases hperforms with
    | connected migrations =>
      refine ⟨guarantees_setSession hinv (.inl rfl), fun _ session hsession ↦ ?_⟩
      rw [setSession_self, Option.some.injEq] at hsession
      subst hsession
      exact ⟨rfl, rfl, rfl⟩
    | notConnected migrations raised => exact ⟨guarantees_same hinv, fun hok ↦ by cases hok⟩
  refine Safe.bind (hconnects.mono fun outcome connected hconnected ↦ ?_)
  rcases outcome with raised | ⟨⟩
  · trivial
  refine Safe.bind ((safe_tryFinally ?_ (asks_send .close trivial)).mono fun outcome after _ ↦ ?_)
  · refine Safe.bind (Safe.attempt ((safe_migrateConnected hversions (hconnected rfl)).mono
      fun outcome after hsettled ↦ ?_))
    rcases outcome with raised | ⟨⟩
    · change Safe history thread (if raised.isException then _ else _) after _
      split
      · exact safe_tidies ((asks_send .rollback trivial).bind fun _ ↦ trivial) hsettled
      · exact hsettled
    · exact hsettled
  · cases outcome <;> trivial

end Process

/-! ### Every run -/

theorem historyInv_initial : HistoryInv World.initial where
  exact := ⟨rfl, rfl, fun hsome ↦ absurd rfl hsome⟩
  pending := fun _ _ hsession ↦ by cases hsession
  few := fun _ _ hsession ↦ by cases hsession
  lone := fun _ _ _ _ _ hone ↦ by cases hone

theorem historyInv_reachable {pool : Pool migratorInterface Raised World}
    (hreach : Pool.Reachable shelteredSemantics Starts (· = World.initial) pool) :
    HistoryInv pool.world := by
  refine RelyGuarantee.reachable_inv (R := history) ?_ ?_ ?_ hreach
  · rintro world rfl
    exact historyInv_initial
  · rintro program ⟨given, migrations, hvalidated, rfl⟩ thread world hinv
    exact Safe.bind ((safe_migrate (versions_validated hvalidated)).mono fun outcome after _ ↦ by
      cases outcome <;> trivial)
  · rintro before after hinv ⟨thread, rfl⟩
    exact ⟨inv_endSession hinv thread, fun other ↦ rely_endSession before thread other⟩

variable {thread : ℕ}

/-- Assumes: an exact history before a commit and after it. The commit changed nothing, or it was made
for a list that the history begins. -/
theorem commit_unchanged {before : World}
    (hinv : HistoryInv before) (hsession : before.sessions thread = some session)
    (hafter : Exact (before.commit thread session).database) :
    (before.commit thread session).database = before.database ∨
      before.database.records <+: session.migrations.map Migration.record := by
  by_cases hfailed : session.failed = true
  · left
    rw [World.commit, if_pos hfailed]
    rfl
  cases hrecords : session.records with
  | cons record rest =>
    right
    have hfollows := hinv.pending thread session hsession record (by simp [hrecords])
    exact (List.prefix_append _ _).trans hfollows.listed
  | nil =>
    by_cases hnone : before.database.records = []
    · right
      rw [hnone]
      exact List.nil_prefix
    left
    rw [World.commit, if_neg hfailed] at hafter ⊢
    change session.sees before.database = before.database
    have hsame : (session.sees before.database).records = before.database.records := by
      rw [sees_records, hrecords, List.append_nil]
    have heffects : (session.sees before.database).effects = before.database.effects := by
      have hmapped : ((session.sees before.database).effects).map Migration.record =
          before.database.records := hafter.recorded.trans hsame
      have hlength := congrArg List.length hmapped
      rw [← hinv.exact.recorded, List.length_map, List.length_map, sees_effects,
        List.length_append] at hlength
      have hnothing : session.effects = [] := List.eq_nil_of_length_eq_zero (by omega)
      rw [sees_effects, hnothing, List.append_nil]
    obtain ⟨hschema, htable⟩ := hinv.exact.prepared hnone
    refine Database.ext ?_ ?_ hsame heffects
    · rw [hschema, (sees_prepared session).1 hschema]
    · rw [htable, (sees_prepared session).2 htable]

/-- Assumes: a call between two states with the invariant. The database is as it was, or the call was
made for a list that the history begins. -/
theorem unchanged_or_listed {before after : World}
    {reply : request.Reply} (hbefore : HistoryInv before) (hafter : HistoryInv after)
    (hperforms : Performs thread before request reply after) :
    after.database = before.database ∨ ∃ session, before.sessions thread = some session ∧
      before.database.records <+: session.migrations.map Migration.record := by
  cases hperforms with
  | executed hsession hopen hexecutes | executedRaising raised hsession hopen hexecutes =>
    cases hexecutes <;> exact .inl rfl
  | committed hsession | committedRaising raised hsession =>
    exact (commit_unchanged hbefore hsession hafter.exact).imp id fun hlisted ↦
      ⟨_, hsession, hlisted⟩
  | connected migrations => exact .inl rfl
  | notConnected migrations raised => exact .inl rfl
  | aborted raised hsession => exact .inl rfl
  | notExecuted statement raised => exact .inl rfl
  | notCommitted raised => exact .inl rfl
  | rolledBack hsession => exact .inl rfl
  | rolledBackRaising raised hsession => exact .inl rfl
  | notRolledBack raised => exact .inl rfl
  | closed => exact .inl rfl
  | closedRaising raised => exact .inl rfl
  | notClosed raised => exact .inl rfl

theorem Exact.nodup (h : Exact database) : database.effects.Nodup := by
  have hversions : (database.effects.map fun migration ↦ migration.record.version).Nodup := by
    have hmapped : database.effects.map (fun migration ↦ migration.record.version) =
        database.records.map Record.version := by
      rw [← h.recorded, List.map_map]
      rfl
    rw [hmapped, h.ordered]
    exact List.nodup_range'
  exact hversions.of_map

/-- The history of the metadata schema in one state: it is exact, no migration has taken effect twice,
and no call changes the database that a process makes whose list disagrees with the recorded history
or is shorter. -/
structure ExactHistory (pool : Pool migratorInterface Raised World) : Prop where
  exact : Exact pool.world.database
  once : pool.world.database.effects.Nodup
  refused : ∀ thread request next reply after,
    pool.threads thread = some (.call request next) →
    shelteredSemantics.perform thread request pool.world reply after →
    (∀ session, pool.world.sessions thread = some session →
      ¬ pool.world.database.records <+: session.migrations.map Migration.record) →
    after.database = pool.world.database

/-- Metadata schema history is exact. Assumes: a state that some interleaving of processes reaches,
each with its own list of migrations, with exceptions and crashes anywhere, except that none of them
keeps a process that executed the SQL of a migration and did not record it from rolling it back. -/
theorem metadata_history_exact (pool : Pool migratorInterface Raised World)
    (hreach : Pool.Reachable shelteredSemantics Starts (· = World.initial) pool) :
    ExactHistory pool := by
  have hinv := historyInv_reachable hreach
  refine ⟨hinv.exact, hinv.exact.nodup, fun thread request next reply after hthread hperform hlist ↦ ?_⟩
  have hafter := historyInv_reachable (hreach.step (.act thread request next reply after hthread
    hperform))
  rcases unchanged_or_listed hinv hafter hperform.1 with hsame | ⟨session, hsession, hlisted⟩
  · exact hsame
  · exact absurd hlisted (hlist session hsession)

/-! ### Two runs -/

/-- A list of one migration. -/
def sampleMigration : Migration :=
  ⟨1, "0001_metadata.sql", "".pushn 'a' 64, "CREATE TABLE metadata.settings ()"⟩

/-- The answers of a database to the statements of its only process. The insertion of a row may be
interrupted. -/
def sampleStatement (interrupted : Bool) (thread : ℕ) (session : Session) (world : World) :
    (statement : Statement) → Except Raised statement.Result × World
  | .advisoryLock => (.ok (), { world with holder := some thread })
  | .createSchema => (.ok (), world.append thread session .createSchema)
  | .createTable => (.ok (), world.append thread session .createTable)
  | .selectRecords =>
    (.ok ((session.sees world.database).records.mergeSort
      fun first second ↦ decide (first.version ≤ second.version)), world)
  | .migration migration => (.ok (), world.append thread session (.effect migration))
  | .insertRecord record =>
    if interrupted then (.error .interruption, world)
    else (.ok (), world.append thread session (.record record))
  | .advisoryUnlock =>
    (.ok (), { world with holder := if world.holder = some thread then none else world.holder })

/-- What a statement needs. -/
def Ready (thread : ℕ) (session : Session) (world : World) : Statement → Prop
  | .advisoryLock => world.holder = none ∨ world.holder = some thread
  | .createTable => (session.sees world.database).schema = true
  | .selectRecords => (session.sees world.database).table = true
  | .insertRecord record => (session.sees world.database).table = true ∧ record.Admissible ∧
      ∀ row ∈ (session.sees world.database).records, record.Distinct row
  | .createSchema | .migration _ | .advisoryUnlock => True

instance (thread : ℕ) (session : Session) (world : World) :
    (statement : Statement) → Decidable (Ready thread session world statement)
  | .advisoryLock => inferInstanceAs (Decidable (_ ∨ _))
  | .createTable => inferInstanceAs (Decidable (_ = true))
  | .selectRecords => inferInstanceAs (Decidable (_ = true))
  | .insertRecord _ => inferInstanceAs (Decidable (_ ∧ _ ∧ _))
  | .createSchema | .migration _ | .advisoryUnlock => .isTrue trivial

/-- The answers of a database to the statements of its only process, whether its session is ready for
them or not. -/
def sampleExecute (interrupted : Bool) (thread : ℕ) (session : Session) (world : World)
    (statement : Statement) : Except Raised statement.Result × World :=
  if session.failed = false ∧ Ready thread session world statement then
    sampleStatement interrupted thread session world statement
  else (.error .failure, world)

/-- The answers of a database to its only process. -/
def sampleAnswer (interrupted : Bool) (thread : ℕ) (request : MigratorCall) (world : World) :
    request.Reply × World :=
  match request with
  | .connect migrations => (.ok (), world.setSession thread ⟨migrations, [], false⟩)
  | .execute statement =>
    match world.sessions thread with
    | none => (.error .failure, world)
    | some session => sampleExecute interrupted thread session world statement
  | .commit =>
    match world.sessions thread with
    | none => (.error .failure, world)
    | some session => (.ok (), world.commit thread session)
  | .rollback =>
    match world.sessions thread with
    | none => (.error .failure, world)
    | some session => (.ok (), world.rollBack thread session)
  | .close => (.ok (), world.endSession thread)

/-- No other process is connected. -/
def Alone (thread : ℕ) (world : World) : Prop :=
  ∀ other, other ≠ thread → world.sessions other = none

variable {interrupted : Bool}

/-- Assumes: a process without others. The answer to a statement is one of the database, and the
process stays without others. -/
theorem sampleExecute_performs {world : World}
    (halone : Alone thread world) (hsession : world.sessions thread = some session)
    (statement : Statement) :
    Performs thread world (.execute statement)
        (sampleExecute interrupted thread session world statement).1
        (sampleExecute interrupted thread session world statement).2 ∧
      Alone thread (sampleExecute interrupted thread session world statement).2 := by
  unfold sampleExecute
  split
  swap
  · exact ⟨.notExecuted _ _, halone⟩
  next hready =>
  obtain ⟨hopen, hready⟩ := hready
  have hgrown : ∀ write, Alone thread (world.append thread session write) :=
    fun write other hother ↦ (Function.update_of_ne hother _ _).trans (halone other hother)
  cases statement with
  | advisoryLock => exact ⟨.executed hsession hopen (.advisoryLock hready), halone⟩
  | createSchema => exact ⟨.executed hsession hopen .createSchema, hgrown _⟩
  | createTable => exact ⟨.executed hsession hopen (.createTable hready), hgrown _⟩
  | selectRecords => exact ⟨.executed hsession hopen (.selectRecords hready), halone⟩
  | migration migration => exact ⟨.executed hsession hopen (.migration migration), hgrown _⟩
  | insertRecord record =>
    cases interrupted with
    | true => exact ⟨.notExecuted _ .interruption, halone⟩
    | false =>
      refine ⟨.executed hsession hopen (.insertRecord record hready.1 hready.2.1 hready.2.2
        fun other hother rival hrival ↦ ?_), hgrown _⟩
      rw [halone other hother] at hrival
      cases hrival
  | advisoryUnlock => exact ⟨.executed hsession hopen .advisoryUnlock, halone⟩

/-- Assumes: a process without others. The answers are those of the database, and the process stays
without others. -/
theorem sampleAnswer_performs {world : World}
    (halone : Alone thread world) (request : MigratorCall) :
    Performs thread world request (sampleAnswer interrupted thread request world).1
        (sampleAnswer interrupted thread request world).2 ∧
      Alone thread (sampleAnswer interrupted thread request world).2 := by
  have hset : ∀ session, Alone thread (world.setSession thread session) :=
    fun session other hother ↦ (Function.update_of_ne hother _ _).trans (halone other hother)
  cases request with
  | connect migrations => exact ⟨.connected _, hset _⟩
  | close => exact ⟨.closed, fun other hother ↦ (Function.update_of_ne hother _ _).trans
      (halone other hother)⟩
  | execute statement =>
    cases hsession : world.sessions thread with
    | none =>
      simp only [sampleAnswer, hsession]
      exact ⟨.notExecuted _ _, halone⟩
    | some session =>
      simp only [sampleAnswer, hsession]
      exact sampleExecute_performs halone hsession statement
  | commit =>
    cases hsession : world.sessions thread with
    | none =>
      simp only [sampleAnswer, hsession]
      exact ⟨.notCommitted _, halone⟩
    | some session =>
      simp only [sampleAnswer, hsession]
      refine ⟨.committed hsession, ?_⟩
      simp only [World.commit]
      split
      · exact hset _
      · exact hset _
  | rollback =>
    cases hsession : world.sessions thread with
    | none =>
      simp only [sampleAnswer, hsession]
      exact ⟨.notRolledBack _, halone⟩
    | some session =>
      simp only [sampleAnswer, hsession]
      exact ⟨.rolledBack hsession, hset _⟩

theorem sampleAnswer_sheltered (thread : ℕ) (world : World) (request : MigratorCall) :
    Sheltered thread request (sampleAnswer false thread request world).1
      (sampleAnswer false thread request world).2 := by
  have hfailure : ∀ raised, raised = Raised.failure → request ≠ .rollback →
      raised.isException = true ∧ request ≠ .rollback := by
    rintro raised rfl hrequest
    exact ⟨rfl, hrequest⟩
  intro raised hraised hexposed
  cases request with
  | connect migrations => cases hraised
  | close => cases hraised
  | execute statement =>
    cases hsession : world.sessions thread with
    | none =>
      simp only [sampleAnswer, hsession] at hraised
      cases hraised
      exact hfailure _ rfl MigratorCall.noConfusion
    | some session =>
      simp only [sampleAnswer, hsession, sampleExecute] at hraised
      split at hraised
      · cases statement <;> cases hraised
      · cases hraised
        exact hfailure _ rfl MigratorCall.noConfusion
  | commit =>
    cases hsession : world.sessions thread with
    | none =>
      simp only [sampleAnswer, hsession] at hraised
      cases hraised
      exact hfailure _ rfl MigratorCall.noConfusion
    | some session =>
      simp only [sampleAnswer, hsession] at hraised
      cases hraised
  | rollback =>
    cases hsession : world.sessions thread with
    | none =>
      obtain ⟨session, hfound, -⟩ := hexposed
      simp only [sampleAnswer, hsession] at hfound
      cases hfound
    | some session =>
      simp only [sampleAnswer, hsession] at hraised
      cases hraised

/-- A process that migrates, after a number of its calls. -/
def samplePool (interrupted : Bool) : ℕ → Pool migratorInterface Raised World
  | 0 => ⟨World.initial, Function.update (fun _ ↦ none) 0
      (some (Program.bind (migrate [sampleMigration]) fun _ ↦ .done ())), 1⟩
  | steps + 1 => (samplePool interrupted steps).advance (sampleAnswer interrupted) 0

/-- Assumes: a semantics with the answers of the sample. The sample is one of its runs. -/
theorem samplePool_reachable {S : Semantics migratorInterface World}
    (hanswer : ∀ request world, Alone 0 world → S.perform 0 request world
      (sampleAnswer interrupted 0 request world).1 (sampleAnswer interrupted 0 request world).2)
    (steps : ℕ) :
    Pool.Reachable S Starts (· = World.initial) (samplePool interrupted steps) ∧
      Alone 0 (samplePool interrupted steps).world := by
  induction steps with
  | zero =>
    refine ⟨⟨_, rfl, .single (.spawn _ ⟨[sampleMigration], [sampleMigration], ?_, rfl⟩)⟩,
      fun other _ ↦ rfl⟩
    decide +kernel
  | succ steps ih =>
    obtain ⟨hreach, halone⟩ := ih
    unfold samplePool Pool.advance
    split
    · next request next hthread =>
      exact ⟨hreach.step (.act 0 request next _ _ hthread (hanswer request _ halone)),
        (sampleAnswer_performs halone request).2⟩
    · exact ⟨hreach, halone⟩

/-- A process that runs to its end records the migration. -/
theorem migrated_history_exact : ExactHistory (samplePool false 12) ∧
    (samplePool false 12).world.database.effects = [sampleMigration] ∧
    (samplePool false 12).world.database.records = [sampleMigration.record] := by
  have hreach : Pool.Reachable shelteredSemantics Starts (· = World.initial) (samplePool false 12) :=
    (samplePool_reachable (fun request world halone ↦
      And.intro (sampleAnswer_performs halone request).1 (sampleAnswer_sheltered 0 world request))
      12).1
  exact ⟨metadata_history_exact _ hreach, by decide +kernel, by decide +kernel⟩

/-- A process that is interrupted between the SQL of a migration and its row commits the SQL. -/
theorem interrupted_migration_unrecorded : ∃ pool : Pool migratorInterface Raised World,
    Pool.Reachable databaseSemantics Starts (· = World.initial) pool ∧
      pool.world.database.effects = [sampleMigration] ∧ pool.world.database.records = [] ∧
      ¬ Exact pool.world.database := by
  refine ⟨samplePool true 11, (samplePool_reachable (fun request world halone ↦
    (sampleAnswer_performs halone request).1) 11).1, by decide +kernel, by decide +kernel,
    fun hexact ↦ ?_⟩
  have hrecorded := hexact.recorded
  revert hrecorded
  decide +kernel

end Schemii.Metadata
