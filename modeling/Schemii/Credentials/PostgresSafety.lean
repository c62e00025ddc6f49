import Schemii.Credentials.Postgres

/-!
# Transactions of the credential store

A transaction of `PostgresAiCredentialStore` that locked the activity row of an owner works on rows
that nobody else changes. What it did to them is a sequence of events, and its commit adds these events
to what happened before.

* `CredentialInv`: the rows of an owner are what the committed events make of nothing, and no activity
  row is locked twice.
* `InTransaction`: what a process knows of its transaction.
* `postgres_runs`: every interleaving keeps the invariant.
* `credential_generations_fence`: the law of credentials, for both stores.
-/

set_option autoImplicit false

namespace Schemii.Credentials

open Schemii.Foundations

variable {E : Encryption}
variable {tables : OwnerTables E} {current : Transaction E} {checked bound : ℕ} {row : ActivityRow}
  {request : StoreCall E}

/-! ### What processes rely on -/

/-- The credentials of an owner in the rows. -/
def OwnerTables.ownerState (tables : OwnerTables E) : OwnerState E :=
  ⟨fun id ↦ tables.rows.get? id, tables.activity.bind ActivityRow.lastActive,
    match tables.activity with
    | none => false
    | some row => row.expired⟩

/-- The rows of every owner are what the committed events make of nothing, and no two transactions have
locked one activity row. -/
structure CredentialInv (settings : StoreSettings) (world : StoreWorld E) : Prop where
  runs : ∀ owner, ∃ latest, latest ≤ world.clock ∧
    Runs settings.expiration owner OwnerState.unknown 0 (world.history owner)
      (world.tables owner).ownerState latest
  exclusive : ∀ first second one other owner, first ≠ second →
    world.transactions first = some one → world.transactions second = some other →
      one.owner = some owner → other.owner ≠ some owner

/-- What the others do: a transaction stays as it is or ends with its connection, and while it lasts
nobody changes the rows it locked. Time does not go back. -/
structure CredentialRely (thread : ℕ) (before after : StoreWorld E) : Prop where
  transaction : after.transactions thread = before.transactions thread ∨
    after.transactions thread = none
  locked : ∀ current owner, after.transactions thread = some current → current.owner = some owner →
    after.tables owner = before.tables owner ∧ after.history owner = before.history owner
  clock : before.clock ≤ after.clock

/-- The invariant of the store, and what its processes rely on. -/
def credentials (settings : StoreSettings) :
    RelyGuarantee (credentialSemantics settings : Semantics (storeInterface E) (StoreWorld E)) where
  inv := CredentialInv settings
  rely := CredentialRely
  rely_refl := fun _ _ ↦ ⟨.inl rfl, fun _ _ _ _ ↦ ⟨rfl, rfl⟩, le_rfl⟩
  rely_trans := fun thread first second third hfirst hsecond ↦ by
    refine ⟨?_, fun current owner hcurrent howner ↦ ?_, hfirst.clock.trans hsecond.clock⟩
    · rcases hsecond.transaction with hsame | hended
      · rw [hsame]
        exact hfirst.transaction
      · exact .inr hended
    · have hmiddle : second.transactions thread = some current := by
        rcases hsecond.transaction with hsame | hended
        · rw [← hsame]
          exact hcurrent
        · rw [hended] at hcurrent
          cases hcurrent
      obtain ⟨htables, hhistory⟩ := hsecond.locked current owner hcurrent howner
      obtain ⟨htablesFirst, hhistoryFirst⟩ := hfirst.locked current owner hmiddle howner
      exact ⟨htables.trans htablesFirst, hhistory.trans hhistoryFirst⟩

variable {settings : StoreSettings} {before after world : StoreWorld E} {thread : ℕ} {owner : String}

/-! ### Changes of one transaction -/

theorem setTransaction_of_ne (world : StoreWorld E) (change : Option (Transaction E)) {other : ℕ}
    (hother : other ≠ thread) :
    (world.setTransaction thread change).transactions other = world.transactions other :=
  Function.update_of_ne hother _ _

theorem setTransaction_self (world : StoreWorld E) (thread : ℕ) (change : Option (Transaction E)) :
    (world.setTransaction thread change).transactions thread = change :=
  Function.update_self _ _ _

/-- Assumes: a transaction that locks no more than it had locked, or a row that is free. The invariant
holds and the others can rely on what they rely on. -/
theorem guarantees_setTransaction (hinv : CredentialInv settings before)
    {change : Option (Transaction E)}
    (hlocks : ∀ current locked, change = some current → current.owner = some locked →
      before.Free thread locked) :
    (credentials settings).Guarantees thread before (before.setTransaction thread change) := by
  refine ⟨⟨hinv.runs, fun first second one other locked hne hone hother howner hsame ↦ ?_⟩,
    fun other hother ↦ ⟨.inl (setTransaction_of_ne before change hother),
      fun _ _ _ _ ↦ ⟨rfl, rfl⟩, le_rfl⟩⟩
  by_cases hfirst : first = thread
  · subst hfirst
    rw [setTransaction_self] at hone
    rw [setTransaction_of_ne before change (Ne.symm hne)] at hother
    exact hlocks one locked hone howner second (Ne.symm hne) other hother hsame
  · rw [setTransaction_of_ne before change hfirst] at hone
    by_cases hsecond : second = thread
    · subst hsecond
      rw [setTransaction_self] at hother
      exact hlocks other locked hother hsame first hfirst one hone howner
    · rw [setTransaction_of_ne before change hsecond] at hother
      exact hinv.exclusive first second one other locked hne hone hother howner hsame

theorem free_of_locked (hinv : CredentialInv settings before)
    (hcurrent : before.transactions thread = some current) (howner : current.owner = some owner) :
    before.Free thread owner :=
  fun other hother rival hrival hlocked ↦
    hinv.exclusive other thread rival current owner hother hrival hcurrent hlocked howner

theorem guarantees_same (hinv : CredentialInv settings before) :
    (credentials settings).Guarantees thread before before :=
  ⟨hinv, fun other _ ↦ (credentials settings).rely_refl other before⟩

/-! ### What a process knows of its transaction -/

/-- The transaction of a process, if it lasts, has locked the activity row of an owner and looked at it
at a moment. Its working copy is known, and what it did until the rows were `traced` is the sequence of
its events, none of them later than a bound. -/
def InTransaction (settings : StoreSettings) (thread : ℕ) (owner : String) (checked bound : ℕ)
    (traced working : OwnerTables E) (world : StoreWorld E) : Prop :=
  ∀ current, world.transactions thread = some current →
    current.owner = some owner ∧ current.checked = checked ∧ current.working = working ∧
      checked ≤ bound ∧ bound ≤ world.clock ∧ ∃ last, last ≤ bound ∧
        Runs settings.expiration owner OwnerState.unknown 0 (world.history owner ++ current.events)
          traced.ownerState last

theorem InTransaction.stable {traced working : OwnerTables E}
    (h : InTransaction settings thread owner checked bound traced working before)
    (hrely : CredentialRely thread before after) :
    InTransaction settings thread owner checked bound traced working after := by
  intro current hcurrent
  have hbefore : before.transactions thread = some current := by
    rcases hrely.transaction with hsame | hended
    · rw [← hsame]
      exact hcurrent
    · rw [hended] at hcurrent
      cases hcurrent
  obtain ⟨howner, hchecked, hworking, hbound, hclock, hruns⟩ := h current hbefore
  rw [(hrely.locked current owner hcurrent howner).2]
  exact ⟨howner, hchecked, hworking, hbound, hclock.trans hrely.clock, hruns⟩

/-- The transaction of a process, if it lasts, can be committed: its working copy is what its events
make of the rows it locked. -/
def Committable (settings : StoreSettings) (thread : ℕ) (world : StoreWorld E) : Prop :=
  ∀ current owner, world.transactions thread = some current → current.owner = some owner →
    ∃ last, last ≤ world.clock ∧ Runs settings.expiration owner OwnerState.unknown 0
      (world.history owner ++ current.events) current.working.ownerState last

/-- The transaction of a process, if it lasts, did nothing to the rows of an owner, and locked no
others. -/
def Started (thread : ℕ) (owner : String) (world : StoreWorld E) : Prop :=
  ∀ current, world.transactions thread = some current → current.events = [] ∧
    (current.owner = none ∨ current.owner = some owner ∧
      current.working.ownerState = (world.tables owner).ownerState)

theorem transactions_of_rely (hrely : CredentialRely thread before after)
    (hcurrent : after.transactions thread = some current) :
    before.transactions thread = some current := by
  rcases hrely.transaction with hsame | hended
  · rw [← hsame]
    exact hcurrent
  · rw [hended] at hcurrent
    cases hcurrent

theorem Started.stable (h : Started thread owner before) (hrely : CredentialRely thread before after) :
    Started thread owner after := by
  intro current hcurrent
  obtain ⟨hevents, howner⟩ := h current (transactions_of_rely hrely hcurrent)
  refine ⟨hevents, howner.imp_right fun ⟨hlocked, hworking⟩ ↦ ⟨hlocked, ?_⟩⟩
  rw [(hrely.locked current owner hcurrent hlocked).1]
  exact hworking

theorem Committable.stable (h : Committable settings thread before)
    (hrely : CredentialRely thread before after) : Committable settings thread after := by
  intro current owner hcurrent howner
  obtain ⟨last, hlast, hruns⟩ := h current owner (transactions_of_rely hrely hcurrent) howner
  rw [(hrely.locked current owner hcurrent howner).2]
  exact ⟨last, hlast.trans hrely.clock, hruns⟩

theorem InTransaction.committable
    (h : InTransaction settings thread owner checked bound tables tables world) :
    Committable settings thread world := by
  intro current locked hcurrent hlocked
  obtain ⟨howner, -, hworking, -, hclock, last, hlast, hruns⟩ := h current hcurrent
  obtain rfl : owner = locked := Option.some.inj (howner.symm.trans hlocked)
  exact ⟨last, hlast.trans hclock, hworking ▸ hruns⟩

theorem Started.committable (h : Started thread owner world) (hinv : CredentialInv settings world) :
    Committable settings thread world := by
  intro current locked hcurrent hlocked
  obtain ⟨hevents, hnone | ⟨howner, hworking⟩⟩ := h current hcurrent
  · rw [hnone] at hlocked
    cases hlocked
  · obtain rfl : owner = locked := Option.some.inj (howner.symm.trans hlocked)
    obtain ⟨latest, hlatest, hruns⟩ := hinv.runs owner
    refine ⟨latest, hlatest, ?_⟩
    rw [hevents, List.append_nil, hworking]
    exact hruns

/-! ### The calls -/

/-- The calls that publish nothing and need no lock. -/
def Calm : StoreCall E → Prop
  | .execute _ _ | .commit => False
  | .connect | .insertActivity _ | .selectActivity _ | .lockActivity _ | .inactiveOwners
  | .countConnected _ | .rollback | .close => True

/-- A calm call in an open connection keeps the invariant and what the others rely on. -/
theorem guarantees_calm_executes {reply : request.Reply}
    (hcalm : Calm request) (hinv : CredentialInv settings before)
    (hexecutes : Executes settings thread before current request reply after) :
    (credentials settings).Guarantees thread before after := by
  cases hexecutes with
  | activityThere owner hrow => exact guarantees_same hinv
  | activityInserted owner hfree hunlocked hrow =>
    refine guarantees_setTransaction hinv fun found locked hfound hlocked ↦ ?_
    cases hfound
    cases hlocked
    exact hfree
  | activitySelected owner hfree hunlocked hrow =>
    refine guarantees_setTransaction hinv fun found locked hfound hlocked ↦ ?_
    cases hfound
    cases hlocked
    exact hfree
  | activityLocked owner hfree hunlocked hrow =>
    refine guarantees_setTransaction hinv fun found locked hfound hlocked ↦ ?_
    cases hfound
    cases hlocked
    exact hfree
  | activityMissing owner hrow => exact guarantees_same hinv
  | executed owner statement howner => exact hcalm.elim
  | unlocked owner statement result after howner => exact hcalm.elim
  | inactiveOwners owners howners hlimit => exact guarantees_same hinv
  | countConnected owner => exact guarantees_same hinv
  | committed => exact hcalm.elim
  | rolledBack =>
    refine guarantees_setTransaction hinv fun found locked hfound hlocked ↦ ?_
    cases hfound
    cases hlocked

theorem guarantees_calm {reply : request.Reply} (hcalm : Calm request)
    (hinv : CredentialInv settings before)
    (hperforms : Performs settings thread before request reply after) :
    (credentials settings).Guarantees thread before after := by
  cases hperforms with
  | connected =>
    refine guarantees_setTransaction hinv fun found locked hfound hlocked ↦ ?_
    cases hfound
    cases hlocked
  | closed => exact guarantees_setTransaction hinv fun found locked hfound ↦ by cases hfound
  | closedRaising error => exact guarantees_setTransaction hinv fun found locked hfound ↦ by cases hfound
  | answered hcurrent hexecutes => exact guarantees_calm_executes hcalm hinv hexecutes
  | answeredRaising error hcurrent hexecutes => exact guarantees_calm_executes hcalm hinv hexecutes
  | raised request error => exact guarantees_same hinv

/-- A commit of what can be committed keeps the invariant and what the others rely on. -/
theorem guarantees_commit (hinv : CredentialInv settings before)
    (hcurrent : before.transactions thread = some current)
    (hcommittable : Committable settings thread before) :
    (credentials settings).Guarantees thread before (before.commit thread current) := by
  have hidle : (credentials settings).Guarantees thread before
      (before.setTransaction thread (some Transaction.idle)) := by
    refine guarantees_setTransaction hinv fun found locked hfound hlocked ↦ ?_
    cases hfound
    cases hlocked
  unfold StoreWorld.commit
  cases howner : current.owner with
  | none => exact hidle
  | some owner =>
    obtain ⟨last, hlast, hruns⟩ := hcommittable current owner hcurrent howner
    refine ⟨⟨fun other ↦ ?_, hidle.1.exclusive⟩, fun other hother ↦ ?_⟩
    · by_cases hsame : other = owner
      · subst hsame
        refine ⟨last, hlast, ?_⟩
        simp only [Function.update_self]
        exact hruns
      · simp only [Function.update_of_ne hsame]
        exact hinv.runs other
    · refine ⟨.inl (setTransaction_of_ne before _ hother), fun rival locked hrival hlocked ↦ ?_,
        le_rfl⟩
      have hne : locked ≠ owner := by
        rintro rfl
        have hfound : before.transactions other = some rival :=
          (setTransaction_of_ne before _ hother).symm.trans hrival
        exact hinv.exclusive other thread rival current locked hother hfound hcurrent hlocked howner
      exact ⟨Function.update_of_ne hne _ _, Function.update_of_ne hne _ _⟩

theorem safe_send (hcalm : Calm request) {post : Except StoreError Unit → StoreWorld E → Prop}
    (hpost : ∀ before, CredentialRely thread world before → CredentialInv settings before →
      ∀ reply after, Performs settings thread before request reply after →
        post (request.outcome reply) after) :
    Safe (credentials settings) thread (send request) world post := by
  intro before hrely hinv reply after hperform
  refine ⟨guarantees_calm hcalm hinv hperform, ?_⟩
  change Safe (credentials settings) thread (Program.ofExcept (request.outcome reply)) after _
  have houtcome := hpost before hrely hinv reply after hperform
  cases hreply : request.outcome reply with
  | ok value =>
    rw [hreply] at houtcome
    exact houtcome
  | error error =>
    rw [hreply] at houtcome
    exact houtcome

theorem safe_commit (h : Committable settings thread world) :
    Safe (credentials settings) thread (send .commit) world fun _ _ ↦ True := by
  intro before hrely hinv reply after hperform
  refine ⟨?_, ?_⟩
  · cases hperform with
    | answered hcurrent hexecutes =>
      cases hexecutes with
      | committed => exact guarantees_commit hinv hcurrent (h.stable hrely)
    | answeredRaising error hcurrent hexecutes =>
      cases hexecutes with
      | committed => exact guarantees_commit hinv hcurrent (h.stable hrely)
    | raised request error => exact guarantees_same hinv
  · change Safe (credentials settings) thread (Program.ofExcept _) after _
    cases StoreCall.outcome .commit reply <;> trivial

/-! ### Statements -/

/-- What a statement does to a transaction: with the time it is made, the bound on its events, the
rows that are traced, and its result. -/
structure Advances (settings : StoreSettings) (owner : String) (checked bound now : ℕ)
    (traced working : OwnerTables E) (statement : Statement E) (bound' : ℕ) (traced' : OwnerTables E) :
    Prop where
  bound_le : bound ≤ bound'
  le_now : bound' ≤ now
  runs : ∀ past last, last ≤ bound →
    Runs settings.expiration owner OwnerState.unknown 0 past traced.ownerState last →
      ∃ final, final ≤ bound' ∧ Runs settings.expiration owner OwnerState.unknown 0
        (past ++ (statement.run owner checked now working).2.2) traced'.ownerState final

/-- A statement of a process in its transaction. Assumes: what the statement does is known for every
moment at which it is made. -/
theorem safe_execute {traced working : OwnerTables E} (statement : Statement E)
    (post : statement.Result → ℕ → OwnerTables E → OwnerTables E → Prop)
    (h : InTransaction settings thread owner checked bound traced working world)
    (hadvances : ∀ now, bound ≤ now → ∃ bound' traced',
      Advances settings owner checked bound now traced working statement bound' traced' ∧
        post (statement.run owner checked now working).1 bound' traced'
          (statement.run owner checked now working).2.1) :
    Safe (credentials settings) thread (execute owner statement) world fun outcome after ↦
      ∀ result, outcome = .ok result → ∃ bound' traced' working', post result bound' traced' working' ∧
        InTransaction settings thread owner checked bound' traced' working' after := by
  intro before hrely hinv reply after hperform
  have hknown := h.stable hrely
  have hexecuted : ∀ {current : Transaction E} {result : statement.Result} {after : StoreWorld E},
      before.transactions thread = some current →
      Executes settings thread before current (.execute owner statement) (.ok result) after →
      (credentials settings).Guarantees thread before after ∧ ∃ bound' traced' working',
        post result bound' traced' working' ∧
          InTransaction settings thread owner checked bound' traced' working' after := by
    intro current result after hcurrent hexecutes
    obtain ⟨howner, hchecked, hworking, hbound, hclock, last, hlast, hruns⟩ := hknown current hcurrent
    cases hexecutes with
    | unlocked owner statement result after hunlocked => exact absurd howner hunlocked
    | executed owner statement howner =>
      subst hchecked hworking
      obtain ⟨bound', traced', hadvance, hpost⟩ := hadvances before.clock hclock
      refine ⟨guarantees_setTransaction hinv fun found locked hfound hlocked ↦ ?_, bound', traced',
        _, hpost, fun found hfound ↦ ?_⟩
      · cases hfound
        exact free_of_locked hinv hcurrent hlocked
      · rw [setTransaction_self, Option.some.injEq] at hfound
        subst hfound
        obtain ⟨final, hfinal, hmore⟩ := hadvance.runs _ last hlast hruns
        rw [List.append_assoc] at hmore
        exact ⟨howner, rfl, rfl, hbound.trans hadvance.bound_le, hadvance.le_now, final, hfinal, hmore⟩
  cases hperform with
  | @answered _ reply current _ hcurrent hexecutes =>
    cases reply with
    | error error => cases hexecutes
    | ok result =>
      obtain ⟨hguarantees, hpost⟩ := hexecuted hcurrent hexecutes
      exact ⟨hguarantees, fun found hfound ↦ Except.ok.inj hfound ▸ hpost⟩
  | @answeredRaising _ reply current _ error hcurrent hexecutes =>
    cases reply with
    | error _ => cases hexecutes
    | ok result =>
      exact ⟨(hexecuted hcurrent hexecutes).1, fun found hfound ↦ by cases hfound⟩
  | raised request error => exact ⟨guarantees_same hinv, fun found hfound ↦ by cases hfound⟩

theorem Advances.none {now : ℕ} {traced working : OwnerTables E}
    {statement : Statement E} (hnow : bound ≤ now)
    (hevents : (statement.run owner checked now working).2.2 = []) :
    Advances settings owner checked bound now traced working statement bound traced :=
  ⟨le_rfl, hnow, fun past last hlast hruns ↦ ⟨last, hlast, by rwa [hevents, List.append_nil]⟩⟩

theorem Advances.event {bound' now : ℕ} {traced working traced' : OwnerTables E}
    {statement : Statement E} (event : Event E) (hbound : bound ≤ bound') (hnow : bound' ≤ now)
    (hevents : (statement.run owner checked now working).2.2 = [event])
    (hstep : ∀ last, last ≤ bound → ∃ final, final ≤ bound' ∧ Step settings.expiration owner
      traced.ownerState last event traced'.ownerState final) :
    Advances settings owner checked bound now traced working statement bound' traced' := by
  refine ⟨hbound, hnow, fun past last hlast hruns ↦ ?_⟩
  obtain ⟨final, hfinal, hstepped⟩ := hstep last hlast
  exact ⟨final, hfinal, hevents ▸ .snoc hruns hstepped⟩

theorem tables_put (tables : OwnerTables E) (id : String) (row : Row E) :
    (tables.put id row).ownerState = tables.ownerState.put id row := by
  have hrows : (fun other ↦ (tables.rows.insert id row).get? other) =
      Function.update (fun other ↦ tables.rows.get? other) id (some row) := by
    funext other
    rw [Dictionary.get?_insert, Function.update_apply]
  simp only [OwnerTables.ownerState, OwnerTables.put, OwnerState.put, hrows]

/-! ### Activity -/

theorem Started.sees (h : Started thread owner world)
    (hcurrent : world.transactions thread = some current) :
    (world.sees current owner).ownerState = (world.tables owner).ownerState := by
  unfold StoreWorld.sees
  split
  · next hlocked =>
    rcases (h current hcurrent).2 with hnone | ⟨-, hworking⟩
    · rw [hnone] at hlocked
      cases hlocked
    · exact hworking
  · rfl

theorem safe_insertActivity (h : Started thread owner world) :
    Safe (credentials settings) thread (send (.insertActivity owner)) world fun outcome after ↦
      outcome = .ok () → Started thread owner after := by
  refine safe_send (show Calm (.insertActivity owner) from trivial)
    fun before hrely hinv reply after hperforms hok ↦ ?_
  have hstarted := h.stable hrely
  cases hperforms with
  | @answered _ _ current _ hcurrent hexecutes =>
    cases hexecutes with
    | activityThere owner hrow => exact hstarted
    | activityInserted owner hfree hunlocked hrow =>
      intro found hfound
      rw [setTransaction_self, Option.some.injEq] at hfound
      subst hfound
      refine ⟨(hstarted current hcurrent).1, .inr ⟨rfl, ?_⟩⟩
      have hempty : OwnerTables.ownerState
          { before.sees current owner with activity := some ⟨none, false⟩ } =
          (before.sees current owner).ownerState := by
        simp [OwnerTables.ownerState, hrow]
      exact hempty.trans (hstarted.sees hcurrent)
  | answeredRaising error hcurrent hexecutes => cases hok
  | raised request error => cases hok

theorem safe_lockActivity (h : Started thread owner world) :
    Safe (credentials settings) thread (send (.lockActivity owner)) world fun outcome after ↦
      outcome = .ok () → Started thread owner after := by
  refine safe_send (show Calm (.lockActivity owner) from trivial)
    fun before hrely hinv reply after hperforms hok ↦ ?_
  have hstarted := h.stable hrely
  cases hperforms with
  | @answered _ _ current _ hcurrent hexecutes =>
    cases hexecutes with
    | activityMissing owner hrow => exact hstarted
    | activityLocked owner hfree hunlocked hrow =>
      intro found hfound
      rw [setTransaction_self, Option.some.injEq] at hfound
      subst hfound
      exact ⟨(hstarted current hcurrent).1, .inr ⟨rfl, hstarted.sees hcurrent⟩⟩
  | answeredRaising error hcurrent hexecutes => cases hok
  | raised request error => cases hok

theorem tables_expire (hrow : tables.activity = some row) :
    OwnerTables.ownerState
      ⟨tables.rows.mapValues fun _ row ↦ row.cleared, some { row with expired := true }⟩ =
      tables.ownerState.expire := by
  simp [OwnerTables.ownerState, OwnerState.expire, hrow, Dictionary.get?_mapValues]

theorem tables_touch (hrow : tables.activity = some row) (now : ℕ) :
    OwnerTables.ownerState
      { tables with activity := tables.activity.map fun _ ↦ ⟨some now, false⟩ } =
      tables.ownerState.touch now := by
  simp [OwnerTables.ownerState, OwnerState.touch, hrow]

theorem inactive_row (settings : StoreSettings) (hrow : tables.activity = some row) (now : ℕ) :
    tables.ownerState.inactive settings.expiration now =
      (settings.expiration.enabled && row.inactive settings now) := by
  cases hlast : row.lastActive <;>
    simp [OwnerState.inactive, OwnerTables.ownerState, hrow, ActivityRow.inactive, hlast]

/-- The statements of an expiry. Assumes: the process looked at the activity of the owner, which is
inactive and not marked expired. -/
theorem safe_expire {checked : ℕ}
    (h : InTransaction settings thread owner checked checked tables tables world)
    (hrow : tables.activity = some row) (hflag : row.expired = false)
    (hinactive : (settings.expiration.enabled && row.inactive settings checked) = true) :
    Safe (credentials settings) thread
      (Program.bind (execute owner .expireRecords) fun _ ↦ execute owner .markExpired) world
      fun outcome after ↦ outcome = .ok () → ∃ expired : OwnerTables E,
        expired.activity.isSome ∧
          InTransaction settings thread owner checked checked expired expired after := by
  let cleared : OwnerTables E := ⟨tables.rows.mapValues fun _ row ↦ row.cleared, tables.activity⟩
  let expired : OwnerTables E := ⟨cleared.rows, some { row with expired := true }⟩
  have hclears := safe_execute .expireRecords (fun _ bound' traced' working' ↦
    bound' = checked ∧ traced' = tables ∧ working' = cleared) h fun now hnow ↦
      ⟨checked, tables, Advances.none hnow rfl, rfl, rfl, rfl⟩
  refine Safe.bind (hclears.mono fun outcome after hpost ↦ ?_)
  rcases outcome with error | ⟨⟩
  · exact fun hok ↦ by cases hok
  obtain ⟨bound', traced', working', ⟨rfl, rfl, rfl⟩, hcleared⟩ := hpost () rfl
  have hstep : ∀ last, last ≤ bound' → ∃ final, final ≤ bound' ∧ Step settings.expiration owner
      traced'.ownerState last (.expired bound') expired.ownerState final := by
    intro last hlast
    refine ⟨bound', le_rfl, ?_⟩
    rw [tables_expire hrow]
    refine .expired hlast ?_ ?_
    · rw [inactive_row settings hrow]
      exact hinactive
    · simp [OwnerTables.ownerState, hrow, hflag]
  have hmarks := safe_execute .markExpired (fun _ bound traced' working' ↦
    bound = bound' ∧ traced' = expired ∧ working' = expired) hcleared fun now hnow ↦
      ⟨bound', expired, Advances.event _ le_rfl hnow rfl hstep, rfl, rfl, by
        simp [Statement.run, cleared, expired, hrow]⟩
  refine hmarks.mono fun outcome after hpost hok ↦ ?_
  obtain ⟨bound, traced, working, ⟨rfl, rfl, rfl⟩, hexpired⟩ := hpost () hok
  exact ⟨expired, rfl, hexpired⟩

/-- The rest of `_owner_activity`. Assumes: the process looked at the activity of the owner. -/
theorem safe_activity {checked : ℕ}
    (h : InTransaction settings thread owner checked checked tables tables world)
    (hrow : tables.activity = some row) (touch : Bool) :
    Safe (credentials settings) thread
      (Program.bind
        (if (settings.expiration.enabled && row.inactive settings checked) && !row.expired then
          Program.bind (execute owner .expireRecords) fun _ ↦ execute owner .markExpired
        else .done ()) fun _ ↦
        Program.bind (if touch then execute owner .touchActivity else .done ()) fun _ ↦
          .done (settings.expiration.enabled && row.inactive settings checked)) world
      fun outcome after ↦ ∀ inactive, outcome = .ok inactive → ∃ checked bound tables,
        InTransaction settings thread owner checked bound tables tables after ∧
          (touch = false → inactive = false → bound = checked ∧
            tables.ownerState.inactive settings.expiration checked = false) := by
  have hexpires : Safe (credentials settings) thread
      (if (settings.expiration.enabled && row.inactive settings checked) && !row.expired then
        Program.bind (execute owner .expireRecords) fun _ ↦ execute owner .markExpired
      else .done ()) world fun outcome after ↦ outcome = .ok () → ∃ found : OwnerTables E,
        found.activity.isSome ∧ InTransaction settings thread owner checked checked found found after ∧
          ((settings.expiration.enabled && row.inactive settings checked) = false →
            found.ownerState.inactive settings.expiration checked = false) := by
    split
    · next hexpire =>
      simp only [Bool.and_eq_true, Bool.not_eq_true'] at hexpire
      refine (safe_expire h hrow hexpire.2 (by simpa using hexpire.1)).mono
        fun outcome after hpost hok ↦ ?_
      obtain ⟨expired, hsome, hexpired⟩ := hpost hok
      refine ⟨expired, hsome, hexpired, fun hactive ↦ ?_⟩
      simp [hexpire.1] at hactive
    · exact fun _ ↦ ⟨tables, by simp [hrow], h, fun hactive ↦ (inactive_row settings hrow _).trans
        hactive⟩
  refine Safe.bind (hexpires.mono fun outcome after hpost ↦ ?_)
  rcases outcome with error | ⟨⟩
  · exact fun inactive hok ↦ by cases hok
  obtain ⟨found, hsome, hfound, hactive⟩ := hpost rfl
  cases touch with
  | false =>
    intro inactive hok
    cases hok
    exact ⟨checked, checked, found, hfound, fun _ hfalse ↦ ⟨rfl, hactive hfalse⟩⟩
  | true =>
    obtain ⟨activity, hactivity⟩ := Option.isSome_iff_exists.1 hsome
    let touched : ℕ → OwnerTables E := fun now ↦
      { found with activity := found.activity.map fun _ ↦ ⟨some now, false⟩ }
    have htouches := safe_execute .touchActivity (fun _ bound traced working ↦
      traced = touched bound ∧ working = touched bound) hfound fun now hnow ↦
        ⟨now, touched now, Advances.event _ hnow le_rfl rfl (fun last hlast ↦ ⟨now, le_rfl, by
          rw [show (touched now).ownerState = _ from tables_touch hactivity now]
          exact .touched (hlast.trans hnow)⟩), rfl, rfl⟩
    refine Safe.bind (htouches.mono fun outcome after hpost ↦ ?_)
    rcases outcome with error | ⟨⟩
    · exact fun inactive hok ↦ by cases hok
    intro inactive hok
    obtain ⟨bound, traced, working, ⟨rfl, rfl⟩, hafter⟩ := hpost () rfl
    exact ⟨checked, bound, touched bound, hafter, fun hfalse ↦ by cases hfalse⟩

/-- `_owner_activity`. Assumes: the process did nothing yet. The transaction can be continued, and
when the activity of the owner was only looked at, the owner is found active as it was then. -/
theorem safe_ownerActivity (h : Started thread owner world) (touch : Bool) :
    Safe (credentials settings) thread (ownerActivity settings owner touch) world
      fun outcome after ↦ ∀ inactive, outcome = .ok inactive → ∃ checked bound tables,
        InTransaction settings thread owner checked bound tables tables after ∧
          (touch = false → inactive = false → bound = checked ∧
            tables.ownerState.inactive settings.expiration checked = false) := by
  refine Safe.bind ((safe_insertActivity h).mono fun outcome middle hinserted ↦ ?_)
  rcases outcome with error | ⟨⟩
  · exact fun inactive hok ↦ by cases hok
  have hstarted := hinserted rfl
  intro before hrely hinv reply after hperform
  have hready := hstarted.stable hrely
  refine ⟨guarantees_calm (show Calm (.selectActivity owner) from trivial) hinv hperform, ?_⟩
  cases hperform with
  | raised request error => exact fun inactive hok ↦ by cases hok
  | answeredRaising error hcurrent hexecutes => exact fun inactive hok ↦ by cases hok
  | @answered _ _ current _ hcurrent hexecutes =>
    cases hexecutes with
    | @activitySelected _ row hfree hunlocked hrow =>
      have hlooked : InTransaction settings thread owner before.clock before.clock
          (before.sees current owner) (before.sees current owner)
          (before.setTransaction thread (some
            { before.locked current owner with checked := before.clock })) := by
        intro found hfound
        rw [setTransaction_self, Option.some.injEq] at hfound
        subst hfound
        obtain ⟨latest, hlatest, hruns⟩ := hinv.runs owner
        refine ⟨rfl, rfl, rfl, le_rfl, le_rfl, latest, hlatest, ?_⟩
        have hevents : (before.locked current owner).events = [] := (hready current hcurrent).1
        change Runs _ _ _ _ (before.history owner ++ (before.locked current owner).events) _ _
        rw [hevents, List.append_nil, hready.sees hcurrent]
        exact hruns
      exact safe_activity hlooked hrow touch

/-! ### Transactions and operations -/

section Operations

variable {α : Type}

theorem safe_calm (hcalm : Calm request) :
    Safe (credentials settings) thread (send request) world fun _ _ ↦ True :=
  safe_send hcalm fun _ _ _ _ _ _ ↦ trivial

theorem safe_close {next : Unit → StoreProgram E α}
    (hnext : ∀ after, Safe (credentials settings) thread (next ()) after fun _ _ ↦ True) :
    Safe (credentials settings) thread (Program.bind (send .close) next) world fun _ _ ↦ True := by
  have hclose : Safe (credentials settings) thread (send .close) world fun _ _ ↦ True :=
    safe_calm trivial
  refine Safe.bind (hclose.mono fun outcome after _ ↦ ?_)
  cases outcome with
  | error error => trivial
  | ok value => exact hnext after

/-- What `_transaction` does with an exception. -/
theorem safe_recover (error : StoreError) :
    Safe (credentials settings) thread
      (Program.bind (Program.attempt (recover error)) fun
        | .ok () => Program.bind (send .close) fun _ ↦ (.raise (reported error) : StoreProgram E α)
        | .error another => Program.bind (send .close) fun _ ↦ .raise another) world
      fun _ _ ↦ True := by
  have hrecover : Safe (credentials settings) thread (recover error : StoreProgram E Unit) world
      fun _ _ ↦ True := by
    unfold recover
    split
    · trivial
    · exact safe_calm trivial
  refine Safe.bind (Safe.attempt (hrecover.mono fun outcome after _ ↦ ?_))
  rcases outcome with another | ⟨⟩
  · exact safe_close fun _ ↦ trivial
  · exact safe_close fun _ ↦ trivial

theorem safe_connect (owner : String) :
    Safe (credentials settings) thread (send .connect) world fun outcome after ↦
      outcome = .ok () → Started thread owner after := by
  refine safe_send (show Calm .connect from trivial)
    fun before hrely hinv reply after hperforms hok ↦ ?_
  cases hperforms with
  | connected =>
    intro found hfound
    rw [setTransaction_self, Option.some.injEq] at hfound
    subst hfound
    exact ⟨rfl, .inl rfl⟩
  | answered hcurrent hexecutes => cases hexecutes
  | answeredRaising error hcurrent hexecutes => cases hexecutes
  | raised request error => cases hok

/-- `_transaction`. Assumes: what the body leaves can be committed, from a transaction that did
nothing. -/
theorem safe_transaction {body : StoreProgram E α} (owner : String)
    (hbody : ∀ world, Started thread owner world → Safe (credentials settings) thread body world
      fun outcome after ↦ ∀ value, outcome = .ok value → Committable settings thread after) :
    Safe (credentials settings) thread (transaction body) world fun _ _ ↦ True := by
  refine Safe.bind (Safe.attempt ((safe_connect owner).mono fun outcome started hstarted ↦ ?_))
  rcases outcome with error | ⟨⟩
  · trivial
  refine Safe.bind (Safe.attempt (Safe.bind ((hbody started (hstarted rfl)).mono
    fun outcome after hpost ↦ ?_)))
  rcases outcome with error | value
  · exact safe_recover error
  · refine Safe.bind ((safe_commit (hpost value rfl)).mono fun outcome committed _ ↦ ?_)
    rcases outcome with error | ⟨⟩
    · exact safe_recover error
    · exact safe_close fun _ ↦ trivial

/-- A statement whose effect can be committed. Assumes: what it does is a sequence of events whenever it
is made. -/
theorem safe_statement (statement : Statement E)
    (h : InTransaction settings thread owner checked bound tables tables world)
    (hadvances : ∀ now, bound ≤ now → Advances settings owner checked bound now tables tables statement
      bound (statement.run owner checked now tables).2.1) :
    Safe (credentials settings) thread (execute owner statement) world fun outcome after ↦
      ∀ result, outcome = .ok result → ∃ after' : OwnerTables E,
        InTransaction settings thread owner checked bound after' after' after := by
  have hexecutes := safe_execute statement (fun _ bound' traced working ↦
    bound' = bound ∧ traced = working) h fun now hnow ↦
      ⟨bound, _, hadvances now hnow, rfl, rfl⟩
  refine hexecutes.mono fun outcome after hpost result hok ↦ ?_
  obtain ⟨bound', traced, working, ⟨rfl, rfl⟩, hafter⟩ := hpost result hok
  exact ⟨traced, hafter⟩

end Operations

/-! ### What the statements do -/

section Statements

variable {checked bound now : ℕ} {tables : OwnerTables E}

/-- A statement that leaves the rows of the owner as they are and brings about no event. -/
theorem advances_unchanged {statement : Statement E} (hnow : bound ≤ now)
    (hrun : (statement.run owner checked now tables).2 = (tables, [])) :
    Advances settings owner checked bound now tables tables statement bound
      (statement.run owner checked now tables).2.1 := by
  rw [congrArg Prod.fst hrun]
  exact .none hnow (congrArg Prod.snd hrun)

theorem advances_upsertRecord (hnow : bound ≤ now) (id : String) (provider : Provider) :
    Advances settings owner checked bound now tables tables (.upsertRecord id provider) bound
      ((Statement.upsertRecord id provider).run owner checked now tables).2.1 := by
  cases hrow : tables.rows.get? id with
  | none =>
    refine Advances.event (.begun id provider false) le_rfl hnow
      (by simp [Statement.run, hrow]) fun last hlast ↦ ⟨last, hlast, ?_⟩
    simp only [Statement.run, hrow, tables_put]
    exact .begunFirst id provider hrow
  | some row =>
    refine Advances.event (.begun id provider (decide (row.provider ≠ provider))) le_rfl hnow
      (by simp [Statement.run, hrow]) fun last hlast ↦ ⟨last, hlast, ?_⟩
    simp only [Statement.run, hrow, tables_put]
    exact .begun id provider hrow

/-- The update of a saving. Assumes: the owner was active when it was looked at, and the credential
was sealed. -/
theorem advances_updateRecord (hnow : checked ≤ now)
    (hactive : tables.ownerState.inactive settings.expiration checked = false) {nonce : ℕ}
    {id : String} {provider : Provider} {credential : E.Credential} {sealed : E.Encrypted}
    (hsealed : E.encrypt nonce owner id provider credential = .ok sealed) (generation : ℕ)
    (advance : Bool) :
    Advances settings owner checked checked now tables tables
      (.updateRecord id provider credential sealed generation advance) checked
      ((Statement.updateRecord id provider credential sealed generation advance).run owner checked now
        tables).2.1 := by
  cases hrow : tables.rows.get? id with
  | none =>
    exact advances_unchanged hnow (by simp only [Statement.run, hrow])
  | some row =>
    by_cases hmatches : row.provider = provider ∧ row.generation = generation
    · obtain ⟨hprovider, rfl⟩ := hmatches
      have hrun : (Statement.updateRecord id provider credential sealed row.generation advance).run
          owner checked now tables = (true, tables.put id (row.saved sealed advance),
            [.saved id provider credential row.generation advance checked]) := by
        simp only [Statement.run, hrow, hprovider, and_self, if_true]
        rfl
      refine Advances.event _ le_rfl hnow (by rw [hrun]) fun last hlast ↦ ⟨checked, le_rfl, ?_⟩
      rw [hrun, tables_put]
      exact .saved advance hlast hactive hrow hprovider hsealed
    · exact advances_unchanged hnow (by simp only [Statement.run, hrow, if_neg hmatches])

theorem advances_clearRecord (hnow : bound ≤ now) (id : String) :
    Advances settings owner checked bound now tables tables (.clearRecord id) bound
      ((Statement.clearRecord id).run owner checked now tables).2.1 := by
  cases hrow : tables.rows.get? id with
  | none =>
    exact advances_unchanged hnow (by simp only [Statement.run, hrow])
  | some row =>
    have hrun : (Statement.clearRecord id).run owner checked now tables =
        ((), tables.put id row.cleared, [.deleted id]) := by
      simp only [Statement.run, hrow]
      rfl
    refine Advances.event _ le_rfl hnow (by rw [hrun]) fun last hlast ↦ ⟨last, hlast, ?_⟩
    rw [hrun, tables_put]
    exact .deleted hrow

theorem advances_advanceRecord (hnow : bound ≤ now) (id : String) (generation : ℕ) :
    Advances settings owner checked bound now tables tables (.advanceRecord id generation) bound
      ((Statement.advanceRecord id generation).run owner checked now tables).2.1 := by
  cases hrow : tables.rows.get? id with
  | none =>
    exact advances_unchanged hnow (by simp only [Statement.run, hrow])
  | some row =>
    by_cases hmatches : row.generation = generation
    · subst hmatches
      have hrun : (Statement.advanceRecord id row.generation).run owner checked now tables =
          (true, tables.put id { row with generation := row.generation + 1 },
            [.fenced id row.generation]) := by
        simp only [Statement.run, hrow, if_true]
        rfl
      refine Advances.event _ le_rfl hnow (by rw [hrun]) fun last hlast ↦ ⟨last, hlast, ?_⟩
      rw [hrun, tables_put]
      exact .fenced hrow
    · exact advances_unchanged hnow (by simp only [Statement.run, hrow, if_neg hmatches])

theorem advances_readRecord (hnow : bound ≤ now) (id : String) :
    Advances settings owner checked bound now tables tables (.readRecord id) bound
      ((Statement.readRecord id).run owner checked now tables).2.1 := by
  cases hrow : tables.rows.get? id with
  | none =>
    exact advances_unchanged hnow (by simp only [Statement.run, hrow])
  | some row =>
    cases hsealed : row.ciphertext with
    | none =>
      exact advances_unchanged hnow (by simp only [Statement.run, hrow, hsealed])
    | some sealed =>
      cases hopened : E.decrypt owner id row.provider sealed with
      | none =>
        exact advances_unchanged hnow
          (by simp only [Statement.run, hrow, hsealed, hopened, Option.map_none, Option.toList_none])
      | some credential =>
        have hrun : (Statement.readRecord id).run owner checked now tables =
            (some (row, sealed), tables, [.got id credential]) := by
          simp only [Statement.run, hrow, hsealed, hopened, Option.map_some, Option.toList_some]
          rfl
        refine Advances.event _ le_rfl hnow (by rw [hrun]) fun last hlast ↦ ⟨last, hlast, ?_⟩
        rw [hrun]
        exact .got hrow hsealed hopened

end Statements

/-! ### The operations -/

section Programs

variable {α : Type}

/-- What an operation leaves can be committed. -/
def Leaves (settings : StoreSettings) (thread : ℕ) (outcome : Except StoreError α)
    (world : StoreWorld E) : Prop :=
  ∀ value, outcome = .ok value → Committable settings thread world

/-- An operation on the rows of an owner. Assumes: what follows the look at the activity leaves what can
be committed. -/
theorem safe_operation {owner : String} (touch : Bool) {rest : Bool → StoreProgram E α}
    (hrest : ∀ inactive checked bound (tables : OwnerTables E) world,
      InTransaction settings thread owner checked bound tables tables world →
      (touch = false → inactive = false → bound = checked ∧
        tables.ownerState.inactive settings.expiration checked = false) →
        Safe (credentials settings) thread (rest inactive) world (Leaves settings thread)) :
    Safe (credentials settings) thread
      (transaction (Program.bind (ownerActivity settings owner touch) rest)) world fun _ _ ↦ True := by
  refine safe_transaction owner fun started hstarted ↦ ?_
  refine Safe.bind ((safe_ownerActivity hstarted touch).mono fun outcome after hpost ↦ ?_)
  rcases outcome with error | inactive
  · exact fun value hok ↦ by cases hok
  obtain ⟨checked, bound, tables, hlooked, hactive⟩ := hpost inactive rfl
  exact hrest inactive checked bound tables after hlooked hactive

theorem safe_leaves (statement : Statement E)
    (h : InTransaction settings thread owner checked bound tables tables world)
    (hadvances : ∀ now, bound ≤ now → Advances settings owner checked bound now tables tables statement
      bound (statement.run owner checked now tables).2.1) :
    Safe (credentials settings) thread (execute owner statement) world (Leaves settings thread) := by
  refine (safe_statement statement h hadvances).mono fun outcome after hpost result hok ↦ ?_
  obtain ⟨final, hfinal⟩ := hpost result hok
  exact hfinal.committable

theorem safe_ofExcept {β : Type} (outcome : Except StoreError α) {next : α → StoreProgram E β}
    (hnext : ∀ value, outcome = .ok value →
      Safe (credentials settings) thread (next value) world fun _ _ ↦ True) :
    Safe (credentials settings) thread (Program.bind (Program.ofExcept outcome) next) world
      fun _ _ ↦ True := by
  cases outcome with
  | error error => trivial
  | ok value => exact hnext value rfl

/-- `touch_activity`. -/
theorem safe_touchActivity (owner : String) :
    Safe (credentials settings) thread (touchActivity settings owner : StoreProgram E Bool) world
      fun _ _ ↦ True := by
  refine safe_transaction owner fun started hstarted ↦ ?_
  refine (safe_ownerActivity hstarted true).mono fun outcome after hpost value hok ↦ ?_
  obtain ⟨checked, bound, tables, hlooked, -⟩ := hpost value hok
  exact hlooked.committable

/-- The transaction of `expire_inactive` for one owner. -/
theorem safe_expireOne (owner : String) :
    Safe (credentials settings) thread (expireOne settings owner : StoreProgram E ℕ) world
      fun _ _ ↦ True := by
  refine safe_transaction owner fun started hstarted ↦ ?_
  refine Safe.bind ((safe_lockActivity hstarted).mono fun outcome locked hlocked ↦ ?_)
  rcases outcome with error | ⟨⟩
  · exact fun value hok ↦ by cases hok
  intro before hrely hinv reply after hperform
  refine ⟨guarantees_calm (show Calm (.countConnected owner) from trivial) hinv hperform, ?_⟩
  have hready : ∀ connected, reply = Except.ok connected → Started thread owner after := by
    intro connected hreply
    cases hperform with
    | answered hcurrent hexecutes =>
      cases hexecutes with
      | countConnected owner => exact (hlocked rfl).stable hrely
    | answeredRaising error hcurrent hexecutes => cases hreply
    | raised request error => cases hreply
  cases reply with
  | error error => exact fun value hok ↦ by cases hok
  | ok connected =>
    change Safe (credentials settings) thread
      (Program.bind (ownerActivity settings owner false) _) after _
    refine Safe.bind ((safe_ownerActivity (hready connected rfl) false).mono
      fun outcome final hpost ↦ ?_)
    rcases outcome with error | inactive
    · exact fun value hok ↦ by cases hok
    obtain ⟨checked, bound, tables, hlooked, -⟩ := hpost inactive rfl
    exact fun value hok ↦ hlooked.committable

/-- The loop of `expire_inactive`. -/
theorem safe_expireEach (owners : List String) (count : ℕ) :
    Safe (credentials settings) thread (expireEach settings owners count : StoreProgram E ℕ) world
      fun _ _ ↦ True := by
  induction owners generalizing count world with
  | nil => trivial
  | cons owner rest ih =>
    refine Safe.bind ((safe_expireOne owner).mono fun outcome after _ ↦ ?_)
    cases outcome with
    | error error => trivial
    | ok expired => exact ih (count + expired)

/-- `expire_inactive`. -/
theorem safe_expireInactive :
    Safe (credentials settings) thread (expireInactive settings : StoreProgram E ℕ) world
      fun _ _ ↦ True := by
  unfold expireInactive
  split
  · trivial
  have hreads : Safe (credentials settings) thread
      (transaction (.call (I := storeInterface E) .inactiveOwners
        fun (reply : Except StoreError (List String)) ↦ Program.ofExcept reply)) world
      fun _ _ ↦ True := by
    refine safe_transaction "" fun started hstarted before hrely hinv reply after hperform ↦ ?_
    refine ⟨guarantees_calm (show Calm .inactiveOwners from trivial) hinv hperform, ?_⟩
    have hready : ∀ owners, reply = Except.ok owners → Committable settings thread after := by
      intro owners hreply
      cases hperform with
      | answered hcurrent hexecutes =>
        cases hexecutes with
        | inactiveOwners owners howners hlimit => exact (hstarted.stable hrely).committable hinv
      | answeredRaising error hcurrent hexecutes => cases hreply
      | raised request error => cases hreply
    cases reply with
    | error error => exact fun value hok ↦ by cases hok
    | ok owners => exact fun value hok ↦ hready owners rfl
  refine Safe.bind (hreads.mono fun outcome after _ ↦ ?_)
  cases outcome with
  | error error => trivial
  | ok owners => exact safe_expireEach owners 0

/-- `begin_login`. -/
theorem safe_beginLogin (owner id providerId : String) :
    Safe (credentials settings) thread
      (beginLogin settings owner id providerId : StoreProgram E Metadata) world fun _ _ ↦ True := by
  refine safe_ofExcept _ fun provider _ ↦ safe_operation true
    fun inactive checked bound tables world hlooked _ ↦ ?_
  have hread : ∀ (statement : Statement E), (∀ now,
      (statement.run owner checked now tables).2 = (tables, [])) → ∀ {world : StoreWorld E},
      InTransaction settings thread owner checked bound tables tables world →
      Safe (credentials settings) thread (execute owner statement) world fun outcome after ↦
        ∀ result, outcome = .ok result →
          InTransaction settings thread owner checked bound tables tables after := by
    intro statement hstatement world hlooked
    refine (safe_execute statement (fun _ bound' traced working ↦
      bound' = bound ∧ traced = tables ∧ working = tables) hlooked fun now hnow ↦
        ⟨bound, tables, Advances.none hnow (by rw [hstatement]), rfl, rfl, by
          rw [hstatement]⟩).mono fun outcome after hpost result hok ↦ ?_
    obtain ⟨bound', traced, working, ⟨rfl, rfl, rfl⟩, hafter⟩ := hpost result hok
    exact hafter
  refine Safe.bind ((hread (.findRecord id) (fun _ ↦ rfl) hlooked).mono
    fun outcome after hfound ↦ ?_)
  rcases outcome with error | found
  · exact fun value hok ↦ by cases hok
  have hknown := hfound found rfl
  have hcounts : ∀ there : Bool, Safe (credentials settings) thread
      (if there then .done ()
      else Program.bind (execute owner .countRecords) fun (count : ℕ) ↦
        if settings.maximumRecords ≤ count then
          .raise (.value "Maximum AI credential records reached")
        else .done ()) after fun outcome after ↦ outcome = .ok () →
          InTransaction settings thread owner checked bound tables tables after := by
    intro there
    split
    · exact fun _ ↦ hknown
    · refine Safe.bind ((hread .countRecords (fun _ ↦ rfl) hknown).mono fun outcome after hpost ↦ ?_)
      rcases outcome with error | count
      · exact fun hok ↦ by cases hok
      · have hlimit : ∀ number : ℕ, Safe (credentials settings) thread
            (if settings.maximumRecords ≤ number then
              (.raise (.value "Maximum AI credential records reached") : StoreProgram E Unit)
            else .done ()) after fun outcome after ↦ outcome = .ok () →
              InTransaction settings thread owner checked bound tables tables after := by
          intro number
          split
          · exact fun hok ↦ by cases hok
          · exact fun _ ↦ hpost count rfl
        exact hlimit count
  refine Safe.bind ((hcounts found).mono fun outcome counted hcounted ↦ ?_)
  rcases outcome with error | ⟨⟩
  · exact fun value hok ↦ by cases hok
  · exact safe_leaves _ (hcounted rfl) fun now hnow ↦ advances_upsertRecord hnow id provider

/-- `save`. -/
theorem safe_save (owner id providerId : String) (credential : E.Credential)
    (nonce expectedGeneration : ℕ) (advanceGeneration : Bool) :
    Safe (credentials settings) thread
      (save settings owner id providerId credential nonce expectedGeneration advanceGeneration) world
      fun _ _ ↦ True := by
  refine safe_ofExcept _ fun provider _ ↦ safe_ofExcept _ fun sealed hseal ↦ safe_operation false
    fun inactive checked bound tables world hlooked hactive ↦ ?_
  cases inactive with
  | true => exact fun value hok ↦ hlooked.committable
  | false =>
    obtain ⟨rfl, hfound⟩ := hactive rfl rfl
    have hencrypted : E.encrypt nonce owner id provider credential = .ok sealed := by
      unfold sealCredential at hseal
      split at hseal
      · cases hseal
      · next found hfound => rwa [Except.ok.inj hseal] at hfound
    exact safe_leaves _ hlooked fun now hnow ↦
      advances_updateRecord hnow hfound hencrypted expectedGeneration advanceGeneration

/-- `get`. -/
theorem safe_get (owner id : String) :
    Safe (credentials settings) thread
      (get settings owner id : StoreProgram E (Option (Metadata × E.Credential))) world
      fun _ _ ↦ True := by
  refine safe_ofExcept _ fun _ _ ↦ safe_operation false
    fun inactive checked bound tables world hlooked _ ↦ ?_
  refine Safe.bind ((safe_leaves (.readRecord id) hlooked fun now hnow ↦
    advances_readRecord hnow id).mono fun outcome after hpost ↦ ?_)
  rcases outcome with error | row
  · exact fun value hok ↦ by cases hok
  have hleaves := hpost row rfl
  rcases row with _ | ⟨row, sealed⟩
  · exact fun value hok ↦ hleaves
  · change Safe (credentials settings) thread (Program.bind (Program.ofExcept
      (openCredential owner id row sealed)) _) after _
    cases openCredential owner id row sealed with
    | error error => exact fun value hok ↦ by cases hok
    | ok answer => exact fun value hok ↦ hleaves

theorem safe_storePrograms {program : StoreProgram E Unit} (h : StorePrograms settings program) :
    Safe (credentials settings) thread program world fun _ _ ↦ True := by
  have hdiscards : ∀ {β : Type} {program : StoreProgram E β},
      Safe (credentials settings) thread program world (fun _ _ ↦ True) →
      Safe (credentials settings) thread (discard program) world fun _ _ ↦ True := by
    intro β program hsafe
    refine Safe.bind (hsafe.mono fun outcome after _ ↦ ?_)
    cases outcome <;> trivial
  cases h with
  | touchActivity owner => exact hdiscards (safe_touchActivity owner)
  | expireInactive => exact hdiscards safe_expireInactive
  | beginLogin owner id providerId => exact hdiscards (safe_beginLogin owner id providerId)
  | save owner id providerId credential nonce expectedGeneration advanceGeneration =>
    exact hdiscards (safe_save owner id providerId credential nonce expectedGeneration
      advanceGeneration)
  | get owner id => exact hdiscards (safe_get owner id)
  | list owner =>
    exact hdiscards (safe_operation false fun _ _ _ _ _ hlooked _ ↦
      safe_leaves .listRecords hlooked fun now hnow ↦ Advances.none hnow rfl)
  | delete owner id =>
    exact hdiscards (safe_ofExcept _ fun _ _ ↦ safe_operation false fun _ _ _ _ _ hlooked _ ↦
      safe_leaves _ hlooked fun now hnow ↦ advances_clearRecord hnow id)
  | fenceLogin owner id expectedGeneration =>
    exact hdiscards (safe_ofExcept _ fun _ _ ↦ safe_operation false fun _ _ _ _ _ hlooked _ ↦
      safe_leaves _ hlooked fun now hnow ↦ advances_advanceRecord hnow id expectedGeneration)

end Programs

/-! ### Both stores -/

/-- The rows of every owner are what the committed events make of nothing. Assumes: a state that some
interleaving of the operations of the store reaches. -/
theorem postgres_runs {pool : Pool (storeInterface E) StoreError (StoreWorld E)}
    (hreach : Pool.Reachable (credentialSemantics settings) (StorePrograms settings)
      (· = StoreWorld.initial) pool) : CredentialInv settings pool.world := by
  refine RelyGuarantee.reachable_inv (R := credentials settings) ?_ ?_ ?_ hreach
  · rintro world rfl
    exact ⟨fun owner ↦ ⟨0, le_rfl, .nil⟩, fun _ _ _ _ _ _ hone ↦ by cases hone⟩
  · exact fun program hstarts thread world _ ↦ safe_storePrograms hstarts
  · rintro before after hinv (⟨clock, hclock, rfl⟩ | ⟨thread, rfl⟩)
    · refine ⟨⟨fun owner ↦ ?_, hinv.exclusive⟩, fun thread ↦ ⟨.inl rfl, fun _ _ _ _ ↦ ⟨rfl, rfl⟩,
        hclock⟩⟩
      obtain ⟨latest, hlatest, hruns⟩ := hinv.runs owner
      exact ⟨latest, hlatest.trans hclock, hruns⟩
    · have hguarantees : (credentials settings).Guarantees thread before
          (before.setTransaction thread none) :=
        guarantees_setTransaction hinv fun _ _ hfound ↦ by cases hfound
      refine ⟨hguarantees.1, fun other ↦ ?_⟩
      by_cases hsame : other = thread
      · subst hsame
        exact ⟨.inr (setTransaction_self before other none), fun _ _ _ _ ↦ ⟨rfl, rfl⟩, le_rfl⟩
      · exact hguarantees.2 other hsame

/-- Credential generations fence every late writer, in both stores: after any sequence of operations on
the store in memory, and in every state that any interleaving of the operations on the store in
PostgreSQL reaches, with failures and crashes anywhere. -/
theorem credential_generations_fence (E : Encryption) (settings : StoreSettings) :
    (∀ (store : MemoryStore E) (clock : ℕ),
      Relation.ReflTransGen (MemoryStep settings) (MemoryStore.new, 0) (store, clock) →
        ∀ owner, Fenced settings.expiration owner (store.history owner) (store.ownerState owner)) ∧
    (∀ pool : Pool (storeInterface E) StoreError (StoreWorld E),
      Pool.Reachable (credentialSemantics settings) (StorePrograms settings)
        (· = StoreWorld.initial) pool →
        ∀ owner, Fenced settings.expiration owner (pool.world.history owner)
          (pool.world.tables owner).ownerState) := by
  refine ⟨fun store clock hruns owner ↦ ?_, fun pool hreach owner ↦ ?_⟩
  · obtain ⟨latest, -, hevents⟩ := memory_runs hruns owner
    exact hevents.fenced
  · obtain ⟨latest, -, hevents⟩ := (postgres_runs hreach).runs owner
    exact hevents.fenced

end Schemii.Credentials
