import Schemii.BulkJobs.Service

/-!
# Batches run at most once

What `bulk_jobs/service.py` keeps over every run of a job, with calls of the metadata store that are
lost before or after they took effect, a target that decides a COMMIT late, heartbeats, commands in
any order, and crashes at every point.

A batch is `Exposed` when one of its transactions has committed or may still commit, and no user has
reconciled the batch as rolled back since that transaction ran. The document `Shields` a batch when
it records it committing, uncertain or committed. The invariant `Inv` says that every exposed batch
is shielded, that a worker which has not yet sent its COMMIT finds every exposed batch recorded
committed (`Settled`), and that each execution in the journal came when the earlier transactions of
its batch were no longer exposed.

`batches_run_at_most_once` is the result for the runs in which no job is resumed over an exposed
batch that is recorded committing or uncertain. `cancelled_commit_runs_twice` is a run without that
condition: the store fails in `committed`, `failed` and `interrupted`, the job is cancelled and
resumed, and the batch whose transaction committed is executed again.
-/

set_option autoImplicit false

namespace Schemii.BulkJobs

variable {T : Type}
variable {transactions : List Transaction} {journal : List JournalEvent}

/-! ### What is claimed of a state -/

/-- A user reconciled the batch as rolled back after a transaction executed it. -/
def Excused (journal : List JournalEvent) (transaction batch : ℕ) : Prop :=
  ∃ newer older, journal = newer ++ .executed transaction batch :: older ∧
    .reconciled batch .rolledBack ∈ newer

/-- When a batch is executed, every earlier transaction of it that is committed, then or later, had
been reconciled as rolled back. -/
def State.RunsOnce (s : State T) : Prop :=
  ∀ newer older transaction batch, s.journal = newer ++ .executed transaction batch :: older →
    ∀ earlier, .executed earlier batch ∈ older →
      s.transactions[earlier]? = some ⟨batch, .committed⟩ → Excused older earlier batch

/-- A worker that is about to execute a batch finds every batch before it recorded committed. -/
def State.RunsInOrder (s : State T) : Prop :=
  ∀ worker index transaction, s.active = some worker →
    worker.point = .executing index transaction →
      ∃ job, s.job = some job ∧ ∀ earlier < index, job.statusOf earlier = some .committed

/-- A batch that is recorded pending or failed has no committed transaction that was not reconciled
as rolled back. -/
def State.RecordsFaithfully (s : State T) : Prop :=
  ∀ job batch, s.job = some job →
    job.statusOf batch = some .pending ∨ job.statusOf batch = some .failed →
      ∀ transaction, s.transactions[transaction]? = some ⟨batch, .committed⟩ →
        Excused s.journal transaction batch

/-! ### Exposed batches -/

/-- A transaction that has committed or may still commit without a further action. -/
def Phase.mayCommit : Phase → Bool
  | .committing => true
  | .committed => true
  | _ => false

/-- A batch with a transaction that has committed or may still commit, and that was not reconciled
as rolled back since. -/
def Exposed (transactions : List Transaction) (journal : List JournalEvent) (batch : ℕ) : Prop :=
  ∃ number phase, transactions[number]? = some ⟨batch, phase⟩ ∧ phase.mayCommit ∧
    ¬ Excused journal number batch

/-- A status under which a batch is not picked up before a user looked at it. -/
def BatchStatus.shields : BatchStatus → Bool
  | .committing => true
  | .uncertain => true
  | .committed => true
  | _ => false

/-- Every exposed batch has a shielding status. -/
def Shielded (transactions : List Transaction) (journal : List JournalEvent) (job : Job T) : Prop :=
  ∀ batch, Exposed transactions journal batch →
    ∃ status, job.statusOf batch = some status ∧ status.shields

/-- Every exposed batch, but for one that is being committed, is recorded committed. -/
def Settled (transactions : List Transaction) (journal : List JournalEvent)
    (committing : Option ℕ) (job : Job T) : Prop :=
  ∀ batch, some batch ≠ committing → Exposed transactions journal batch →
    job.statusOf batch = some .committed

/-- The batch to run next: those before it are recorded committed, and it is not. -/
def Next (job : Job T) (index : ℕ) : Prop :=
  (∀ earlier < index, job.statusOf earlier = some .committed) ∧
    ∃ status, job.statusOf index = some status ∧ status ≠ .committed

/-- A transaction of a batch for which no COMMIT was sent. -/
def Unsent (transactions : List Transaction) (number batch : ℕ) : Prop :=
  ∃ phase, transactions[number]? = some ⟨batch, phase⟩ ∧ phase.mayCommit = false

/-- A transaction that has not executed anything. -/
def Unused (journal : List JournalEvent) (number : ℕ) : Prop :=
  ∀ batch, .executed number batch ∉ journal

/-- A transaction that has executed its batch, after everything else in the journal. -/
def Latest (journal : List JournalEvent) (number batch : ℕ) : Prop :=
  ∃ older, journal = .executed number batch :: older ∧ Unused older number

/-- What the worker knows at each point. -/
def PointInv (transactions : List Transaction) (journal : List JournalEvent) (job : Job T) :
    Point → Prop
  | .entering => Settled transactions journal none job
  | .reading => Settled transactions journal none job
  | .testing index => Settled transactions journal none job ∧ ∀ batch ∈ index, Next job batch
  | .finishing index => Settled transactions journal none job ∧ ∀ batch ∈ index, Next job batch
  | .preparing index => Settled transactions journal none job ∧ Next job index
  | .starting index number =>
    Settled transactions journal none job ∧ Next job index ∧ Unsent transactions number index ∧
      Unused journal number
  | .executing index number =>
    Settled transactions journal none job ∧ Next job index ∧ Unsent transactions number index ∧
      Unused journal number
  | .checking index number =>
    Settled transactions journal none job ∧ Next job index ∧ Unsent transactions number index ∧
      Latest journal number index
  | .fencing index number =>
    Settled transactions journal none job ∧ Next job index ∧ Unsent transactions number index ∧
      Latest journal number index
  | .committing index number =>
    Settled transactions journal (some index) job ∧ job.statusOf index = some .committing ∧
      Unsent transactions number index ∧ Latest journal number index
  | .awaiting index _ =>
    Settled transactions journal (some index) job ∧ job.statusOf index = some .committing
  | .recording index =>
    Settled transactions journal (some index) job ∧ job.statusOf index = some .committing
  | .leaving _ => Settled transactions journal none job
  | .handling index _ committing _ =>
    committing = false → ∀ batch ∈ index, ¬ Exposed transactions journal batch
  | .failing index uncertain _ =>
    uncertain = false → ∀ batch ∈ index, ¬ Exposed transactions journal batch
  | .interrupting => True
  | .releasing => True

/-- What the journal says of the transactions. -/
structure LedgerInv (transactions : List Transaction) (journal : List JournalEvent) : Prop where
  /-- Every execution belongs to a transaction of its batch. -/
  tracked : ∀ number batch, .executed number batch ∈ journal →
    ∃ phase, transactions[number]? = some ⟨batch, phase⟩
  /-- Only a transaction that executed its batch may commit. -/
  backed : ∀ number batch phase, transactions[number]? = some ⟨batch, phase⟩ →
    phase.mayCommit → .executed number batch ∈ journal
  /-- An execution came when no earlier transaction of its batch was exposed. -/
  once : ∀ newer older number batch, journal = newer ++ .executed number batch :: older →
    ∀ earlier phase, .executed earlier batch ∈ older →
      transactions[earlier]? = some ⟨batch, phase⟩ → phase.mayCommit → Excused older earlier batch

/-- What holds in every state of a run. -/
structure Inv (s : State T) : Prop where
  ledger : LedgerInv s.transactions s.journal
  shielded : ∀ job, s.job = some job → Shielded s.transactions s.journal job
  /-- A job that waits to be claimed has no worker, and no batch that needs a user. -/
  queued : ∀ job, s.job = some job → job.status = .queued →
    s.active = none ∧ Settled s.transactions s.journal none job
  worker : ∀ worker, s.active = some worker → ∃ job, s.job = some job ∧
    PointInv s.transactions s.journal job worker.point
  /-- A server that is down has no worker. -/
  down : s.serving = false → s.active = none

/-! ### Facts about excuses and exposure -/

theorem Excused.cons {number batch : ℕ} (h : Excused journal number batch) (event : JournalEvent) :
    Excused (event :: journal) number batch := by
  obtain ⟨newer, older, rfl, hmem⟩ := h
  exact ⟨event :: newer, older, rfl, List.mem_cons_of_mem _ hmem⟩

theorem Exposed.of_cons
    {event : JournalEvent} {batch : ℕ} (h : Exposed transactions (event :: journal) batch) :
    Exposed transactions journal batch := by
  obtain ⟨number, phase, hnumber, hphase, hexcused⟩ := h
  exact ⟨number, phase, hnumber, hphase, fun h ↦ hexcused (h.cons event)⟩

/-- Assumes: a reconciliation of a batch as rolled back, when every transaction that may commit has
executed. The batch is no longer exposed. -/
theorem not_exposed_of_reconciled (h : LedgerInv transactions journal) (batch : ℕ) :
    ¬ Exposed transactions (.reconciled batch .rolledBack :: journal) batch := by
  rintro ⟨number, phase, hnumber, hphase, hexcused⟩
  obtain ⟨newer, older, hsplit⟩ := List.append_of_mem (h.backed number batch phase hnumber hphase)
  exact hexcused ⟨.reconciled batch .rolledBack :: newer, older, by rw [hsplit]; rfl, by simp⟩

theorem Shielded.mono {before after : List Transaction} {old new : List JournalEvent} {job : Job T}
    (h : Shielded before old job)
    (hless : ∀ batch, Exposed after new batch → Exposed before old batch) :
    Shielded after new job :=
  fun batch hexposed ↦ h batch (hless batch hexposed)

theorem Settled.mono {before after : List Transaction} {old new : List JournalEvent}
    {committing : Option ℕ} {job : Job T} (h : Settled before old committing job)
    (hless : ∀ batch, Exposed after new batch → Exposed before old batch) :
    Settled after new committing job :=
  fun batch hne hexposed ↦ h batch hne (hless batch hexposed)

/-- Assumes: the batch to run next, where every exposed batch is recorded committed. It is not
exposed. -/
theorem Settled.not_exposed
    {job : Job T} {index : ℕ} (h : Settled transactions journal none job) (hnext : Next job index) :
    ¬ Exposed transactions journal index := by
  intro hexposed
  obtain ⟨status, hstatus, hne⟩ := hnext.2
  have hcommitted := h index (by simp) hexposed
  rw [hstatus] at hcommitted
  exact hne (Option.some.inj hcommitted)

/-! ### Changed transactions -/

/-- Every transaction keeps its batch, and none may commit that might not before. -/
structure Quiet (before after : List Transaction) : Prop where
  keeps : ∀ (number batch : ℕ) (phase : Phase), before[number]? = some ⟨batch, phase⟩ →
    ∃ later, after[number]? = some ⟨batch, later⟩ ∧ (later.mayCommit → phase.mayCommit)
  reflects : ∀ (number batch : ℕ) (later : Phase),
    after[number]? = some ⟨batch, later⟩ → later.mayCommit →
    ∃ phase, before[number]? = some ⟨batch, phase⟩ ∧ phase.mayCommit

/-- Assumes: a change of phases that makes no transaction able to commit. Setting the phase of one
transaction by it is quiet. -/
theorem quiet_modify (transactions : List Transaction) (position : ℕ) {f : Phase → Phase}
    (hf : ∀ phase, (f phase).mayCommit → phase.mayCommit) :
    Quiet transactions
      (transactions.modify position fun known ↦ { known with phase := f known.phase }) where
  keeps := by
    intro number batch phase hnumber
    rw [List.getElem?_modify, hnumber]
    by_cases hsame : position = number
    · exact ⟨f phase, by simp [hsame], hf phase⟩
    · exact ⟨phase, by simp [hsame], id⟩
  reflects := by
    intro number batch later hnumber hlater
    rw [List.getElem?_modify] at hnumber
    obtain ⟨⟨knownBatch, phase⟩, hknown, hvalue⟩ := Option.map_eq_some_iff.mp hnumber
    split at hvalue
    · obtain ⟨rfl, rfl⟩ := Transaction.mk.inj hvalue
      exact ⟨phase, hknown, hf phase hlater⟩
    · obtain ⟨rfl, rfl⟩ := Transaction.mk.inj hvalue
      exact ⟨phase, hknown, hlater⟩

theorem quiet_append (transactions : List Transaction) (index : ℕ) :
    Quiet transactions (transactions ++ [⟨index, .running⟩]) where
  keeps := by
    intro number batch phase hnumber
    have hbound : number < transactions.length := (List.getElem?_eq_some_iff.mp hnumber).1
    exact ⟨phase, by rw [List.getElem?_append_left hbound]; exact hnumber, id⟩
  reflects := by
    intro number batch later hnumber hlater
    by_cases hbound : number < transactions.length
    · rw [List.getElem?_append_left hbound] at hnumber
      exact ⟨later, hnumber, hlater⟩
    · rw [List.getElem?_append_right (by omega), List.getElem?_singleton] at hnumber
      split at hnumber
      · obtain ⟨-, rfl⟩ := Transaction.mk.inj (Option.some.inj hnumber)
        simp [Phase.mayCommit] at hlater
      · simp at hnumber

section Quiet

variable {before after : List Transaction} {journal : List JournalEvent}

theorem Quiet.exposed (h : Quiet before after) {batch : ℕ}
    (hexposed : Exposed after journal batch) : Exposed before journal batch := by
  obtain ⟨number, later, hnumber, hlater, hexcused⟩ := hexposed
  obtain ⟨phase, hphase, hmay⟩ := h.reflects number batch later hnumber hlater
  exact ⟨number, phase, hphase, hmay, hexcused⟩

theorem Quiet.ledger (h : Quiet before after) (hledger : LedgerInv before journal) :
    LedgerInv after journal where
  tracked := by
    intro number batch hmem
    obtain ⟨phase, hphase⟩ := hledger.tracked number batch hmem
    obtain ⟨later, hlater, -⟩ := h.keeps number batch phase hphase
    exact ⟨later, hlater⟩
  backed := by
    intro number batch later hnumber hlater
    obtain ⟨phase, hphase, hmay⟩ := h.reflects number batch later hnumber hlater
    exact hledger.backed number batch phase hphase hmay
  once := by
    intro newer older number batch hsplit earlier later hmem hearlier hlater
    obtain ⟨phase, hphase, hmay⟩ := h.reflects earlier batch later hearlier hlater
    exact hledger.once newer older number batch hsplit earlier phase hmem hphase hmay

theorem Quiet.settled (h : Quiet before after) {committing : Option ℕ} {job : Job T}
    (hsettled : Settled before journal committing job) : Settled after journal committing job :=
  hsettled.mono fun _ ↦ h.exposed

theorem Quiet.unsent (h : Quiet before after) {number batch : ℕ}
    (hunsent : Unsent before number batch) : Unsent after number batch := by
  obtain ⟨phase, hphase, hmay⟩ := hunsent
  obtain ⟨later, hlater, himplies⟩ := h.keeps number batch phase hphase
  refine ⟨later, hlater, ?_⟩
  by_contra hnot
  rw [Bool.not_eq_false] at hnot
  simp [himplies hnot] at hmay

theorem Quiet.point (h : Quiet before after) {job : Job T} {point : Point}
    (hpoint : PointInv before journal job point) : PointInv after journal job point := by
  cases point with
  | entering => exact h.settled hpoint
  | reading => exact h.settled hpoint
  | testing index => exact ⟨h.settled hpoint.1, hpoint.2⟩
  | finishing index => exact ⟨h.settled hpoint.1, hpoint.2⟩
  | preparing index => exact ⟨h.settled hpoint.1, hpoint.2⟩
  | starting index number =>
    exact ⟨h.settled hpoint.1, hpoint.2.1, h.unsent hpoint.2.2.1, hpoint.2.2.2⟩
  | executing index number =>
    exact ⟨h.settled hpoint.1, hpoint.2.1, h.unsent hpoint.2.2.1, hpoint.2.2.2⟩
  | checking index number =>
    exact ⟨h.settled hpoint.1, hpoint.2.1, h.unsent hpoint.2.2.1, hpoint.2.2.2⟩
  | fencing index number =>
    exact ⟨h.settled hpoint.1, hpoint.2.1, h.unsent hpoint.2.2.1, hpoint.2.2.2⟩
  | committing index number =>
    exact ⟨h.settled hpoint.1, hpoint.2.1, h.unsent hpoint.2.2.1, hpoint.2.2.2⟩
  | awaiting index number => exact ⟨h.settled hpoint.1, hpoint.2⟩
  | recording index => exact ⟨h.settled hpoint.1, hpoint.2⟩
  | leaving index => exact h.settled hpoint
  | handling index number committing error =>
    exact fun hfalse batch hmem hexposed ↦ hpoint hfalse batch hmem (h.exposed hexposed)
  | failing index uncertain error =>
    exact fun hfalse batch hmem hexposed ↦ hpoint hfalse batch hmem (h.exposed hexposed)
  | interrupting => trivial
  | releasing => trivial

end Quiet

theorem Inv.unwatched {s after : State T} (h : Inv s) (hjob : after.job = s.job)
    (htransactions : after.transactions = s.transactions) (hjournal : after.journal = s.journal)
    (hactive : after.active = none) : Inv after where
  ledger := by
    rw [htransactions, hjournal]
    exact h.ledger
  shielded := by
    rw [hjob, htransactions, hjournal]
    exact h.shielded
  queued := by
    rw [hjob, htransactions, hjournal]
    exact fun job hknown hqueued ↦ ⟨hactive, (h.queued job hknown hqueued).2⟩
  worker := by
    intro worker hworker
    simp [hactive] at hworker
  down := fun _ ↦ hactive

theorem Inv.quiet {s : State T} (h : Inv s) {after : List Transaction}
    (hquiet : Quiet s.transactions after) : Inv { s with transactions := after } where
  ledger := hquiet.ledger h.ledger
  shielded := fun job hjob ↦ (h.shielded job hjob).mono fun _ ↦ hquiet.exposed
  queued := fun job hjob hqueued ↦
    ⟨(h.queued job hjob hqueued).1, hquiet.settled (h.queued job hjob hqueued).2⟩
  worker := by
    intro worker hworker
    obtain ⟨job, hjob, hpoint⟩ := h.worker worker hworker
    exact ⟨job, hjob, hquiet.point hpoint⟩
  down := h.down

theorem Phase.decided_mayCommit (commits : Bool) (phase : Phase) :
    (phase.decided commits).mayCommit → phase.mayCommit := by
  cases phase <;> simp [Phase.decided, Phase.mayCommit]

theorem Phase.rolledBack_mayCommit (phase : Phase) :
    phase.rolledBack.mayCommit → phase.mayCommit := by
  cases phase <;> simp [Phase.rolledBack, Phase.mayCommit]

/-! ### The statuses that an update leaves -/

namespace Job

variable (now : ℕ)

@[simp]
theorem statusOf_touch (job : Job T) (batch : ℕ) :
    (touch now job).statusOf batch = job.statusOf batch := rfl

@[simp]
theorem status_touch (job : Job T) : (touch now job).status = job.status := rfl

@[simp]
theorem statusOf_stopClock (job : Job T) (batch : ℕ) :
    (stopClock now job).statusOf batch = job.statusOf batch := by
  unfold stopClock
  split <;> rfl

@[simp]
theorem status_stopClock (job : Job T) :
    (stopClock now job).status = job.status := by
  unfold stopClock
  split <;> rfl

variable {f : Batch → Batch}

theorem statusOf_setBatch (job : Job T) (index : ℕ) (status : BatchStatus)
    (hf : ∀ batch, (f batch).status = status) (batch : ℕ) :
    (job.setBatch index f).statusOf batch =
      if index = batch then (job.statusOf batch).map fun _ ↦ status else job.statusOf batch := by
  unfold statusOf setBatch
  rw [List.getElem?_modify]
  by_cases hsame : index = batch
  · cases job.batches[batch]? <;> simp [hsame, hf]
  · cases job.batches[batch]? <;> simp [hsame]

variable {index : ℕ} {job : Job T}

/-- Assumes: the batch that `nextIndex` finds. -/
theorem nextIndex_eq_some (h : job.nextIndex = some index) :
    Next job index := by
  obtain ⟨hbound, hnot, hearlier⟩ := List.findIdx?_eq_some_iff_getElem.mp h
  refine ⟨fun earlier hlt ↦ ?_, job.batches[index].status, ?_, by simpa using hnot⟩
  · have hcommitted := hearlier earlier hlt
    simp only [ne_eq, decide_not, Bool.not_eq_true, Bool.not_eq_false',
      decide_eq_true_eq] at hcommitted
    unfold statusOf
    rw [List.getElem?_eq_getElem (hlt.trans hbound), Option.map_some, hcommitted]
  · unfold statusOf
    rw [List.getElem?_eq_getElem hbound, Option.map_some]

/-- An update that leaves every batch with its status. -/
def Restates (job after : Job T) : Prop :=
  ∀ batch, after.statusOf batch = job.statusOf batch

variable {job after : Job T}

theorem Restates.shielded (h : Restates job after) (hshielded : Shielded transactions journal job) :
    Shielded transactions journal after := by
  intro batch hexposed
  rw [h batch]
  exact hshielded batch hexposed

theorem Restates.settled {committing : Option ℕ} (h : Restates job after)
    (hsettled : Settled transactions journal committing job) :
    Settled transactions journal committing after := by
  intro batch hne hexposed
  rw [h batch]
  exact hsettled batch hne hexposed

theorem Restates.next (h : Restates job after) (hnext : Next job index) : Next after index := by
  refine ⟨fun earlier hlt ↦ ?_, ?_⟩
  · rw [h earlier]
    exact hnext.1 earlier hlt
  · rw [h index]
    exact hnext.2

theorem Restates.point (h : Restates job after) {point : Point}
    (hpoint : PointInv transactions journal job point) :
    PointInv transactions journal after point := by
  cases point with
  | entering => exact h.settled hpoint
  | reading => exact h.settled hpoint
  | testing index => exact ⟨h.settled hpoint.1, fun batch hmem ↦ h.next (hpoint.2 batch hmem)⟩
  | finishing index => exact ⟨h.settled hpoint.1, fun batch hmem ↦ h.next (hpoint.2 batch hmem)⟩
  | preparing index => exact ⟨h.settled hpoint.1, h.next hpoint.2⟩
  | starting index number => exact ⟨h.settled hpoint.1, h.next hpoint.2.1, hpoint.2.2⟩
  | executing index number => exact ⟨h.settled hpoint.1, h.next hpoint.2.1, hpoint.2.2⟩
  | checking index number => exact ⟨h.settled hpoint.1, h.next hpoint.2.1, hpoint.2.2⟩
  | fencing index number => exact ⟨h.settled hpoint.1, h.next hpoint.2.1, hpoint.2.2⟩
  | committing index number =>
    exact ⟨h.settled hpoint.1, (h index).trans hpoint.2.1, hpoint.2.2⟩
  | awaiting index number => exact ⟨h.settled hpoint.1, (h index).trans hpoint.2⟩
  | recording index => exact ⟨h.settled hpoint.1, (h index).trans hpoint.2⟩
  | leaving index => exact h.settled hpoint
  | handling index number committing error => exact hpoint
  | failing index uncertain error => exact hpoint
  | interrupting => trivial
  | releasing => trivial

theorem restates_clock (job : Job T) : Restates job (touch now (stopClock now job)) := by
  intro batch
  rw [statusOf_touch, statusOf_stopClock]

theorem restates_finished (index : Option ℕ) (now : ℕ) (job : Job T) :
    Restates job (finished index now job) := by
  intro batch
  simp only [finished, statusOf_touch, statusOf_stopClock]
  rfl

theorem restates_tick (job : Job T) : Restates job (tick now job) := by
  intro batch
  unfold tick
  split
  · exact statusOf_stopClock now job batch
  · rfl

theorem status_tick (job : Job T) : (tick now job).status = job.status := by
  unfold tick
  split
  · exact status_stopClock now job
  · rfl

theorem begun_eq_ok {now : ℕ} {job value : Job T} (h : begun now job = .ok value) :
    job.status = .queued ∧ value.status = .running ∧ Restates job value := by
  unfold begun at h
  split at h
  · cases h
  next hqueued =>
    obtain rfl := Except.ok.inj h
    exact ⟨not_not.mp hqueued, rfl, fun _ ↦ rfl⟩

theorem cancelled_eq_ok {active : Bool} {now : ℕ} {job value : Job T}
    (h : cancelled active now job = .ok value) :
    value.status ≠ .queued ∧ Restates job value := by
  unfold cancelled at h
  split at h
  · obtain rfl := Except.ok.inj h
    refine ⟨?_, fun _ ↦ rfl⟩
    cases active <;> simp
  · cases h

theorem settled_setBatch {committing : Option ℕ} (status : BatchStatus)
    (hf : ∀ batch, (f batch).status = status)
    (hsettled : Settled transactions journal committing job)
    (hnot : ¬ Exposed transactions journal index) :
    Settled transactions journal committing (job.setBatch index f) := by
  intro batch hne hexposed
  have hother : index ≠ batch := by
    rintro rfl
    exact hnot hexposed
  rw [statusOf_setBatch job index status hf, if_neg hother]
  exact hsettled batch hne hexposed

theorem shielded_setBatch (status : BatchStatus)
    (hf : ∀ batch, (f batch).status = status) (hshielded : Shielded transactions journal job)
    (hindex : status.shields ∨ ¬ Exposed transactions journal index) :
    Shielded transactions journal (job.setBatch index f) := by
  intro batch hexposed
  rw [statusOf_setBatch job index status hf]
  obtain ⟨known, hknown, hshields⟩ := hshielded batch hexposed
  by_cases hsame : index = batch
  · subst hsame
    have hstatus : status.shields := hindex.resolve_right (not_not.mpr hexposed)
    exact ⟨status, by simp [hknown], hstatus⟩
  · exact ⟨known, by simp [hsame, hknown], hshields⟩

/-- Assumes: the batch to run next is set to a status that is not committed. It is still the next
one. -/
theorem next_setBatch (status : BatchStatus)
    (hf : ∀ batch, (f batch).status = status) (hstatus : status ≠ .committed)
    (hnext : Next job index) : Next (job.setBatch index f) index := by
  refine ⟨fun earlier hlt ↦ ?_, status, ?_, hstatus⟩
  · rw [statusOf_setBatch job index status hf, if_neg (by omega)]
    exact hnext.1 earlier hlt
  · obtain ⟨known, hknown, -⟩ := hnext.2
    rw [statusOf_setBatch job index status hf, if_pos rfl, hknown, Option.map_some]

end Job

/-! ### The worker -/

section Worker

variable {s : State T} {worker : Worker} {job : Job T}

theorem applyUpdate_eq_ok {attempt : Attempt} {revision : Option ℕ}
    {update : ℕ → Job T → Except Raised (Job T)} {stored : Option (Job T)} {value : Job T}
    (h : applyUpdate attempt revision update stored = .ok value) :
    ∃ job, stored = some job ∧ update attempt.now job = .ok value := by
  unfold applyUpdate at h
  split at h
  · cases h
  next job =>
    split at h
    · cases h
    split at h
    · cases h
    next updated hupdated =>
      split at h
      · cases h
      · exact ⟨job, rfl, by rw [hupdated, Except.ok.inj h]⟩

/-- How a call of `change` ends: nothing is stored and it raises, or the update is stored and it
answers or raises. -/
theorem change_cases (attempt : Attempt) (revision : Option ℕ)
    (update : ℕ → Job T → Except Raised (Job T)) (stored : Option (Job T)) :
    ((∃ raised, (change attempt revision update stored).1 = .error raised) ∧
      (change attempt revision update stored).2 = stored) ∨
    ∃ job value, stored = some job ∧ update attempt.now job = .ok value ∧
      (change attempt revision update stored).2 = some value ∧
      ((change attempt revision update stored).1 = .ok value ∨
        ∃ raised, (change attempt revision update stored).1 = .error raised) := by
  unfold change
  split
  case h_1 message => exact .inl ⟨⟨_, rfl⟩, rfl⟩
  case h_2 =>
    split
    case h_1 raised _ => exact .inl ⟨⟨_, rfl⟩, rfl⟩
    case h_2 value hvalue =>
      obtain ⟨job, hjob, hupdate⟩ := applyUpdate_eq_ok hvalue
      exact .inr ⟨job, value, hjob, hupdate, rfl, .inl rfl⟩
  case h_3 message =>
    split
    case h_1 raised _ => exact .inl ⟨⟨_, rfl⟩, rfl⟩
    case h_2 value hvalue =>
      obtain ⟨job, hjob, hupdate⟩ := applyUpdate_eq_ok hvalue
      exact .inr ⟨job, value, hjob, hupdate, rfl, .inr ⟨_, rfl⟩⟩

theorem Inv.not_queued (h : Inv s) (hworker : s.active = some worker) (hjob : s.job = some job) :
    job.status ≠ .queued := by
  intro hqueued
  have hnone := (h.queued job hjob hqueued).1
  simp [hworker] at hnone

theorem Inv.up (h : Inv s) (hworker : s.active = some worker) : s.serving ≠ false := by
  intro hdown
  have hnone := h.down hdown
  simp [hworker] at hnone

theorem Inv.goto (h : Inv s) (hworker : s.active = some worker) (hjob : s.job = some job)
    {point : Point} (hpoint : PointInv s.transactions s.journal job point) :
    Inv (s.goto worker point) where
  ledger := h.ledger
  shielded := h.shielded
  queued := by
    intro known hknown hqueued
    exact absurd hqueued (h.not_queued hworker hknown)
  worker := by
    intro moved hmoved
    obtain rfl := Option.some.inj hmoved
    exact ⟨job, hjob, hpoint⟩
  down := fun hdown ↦ absurd hdown (h.up hworker)

/-- Assumes: an update that leaves the job not queued and every exposed batch shielded, and what the
worker knows where it goes on, whether the update was stored or not. -/
theorem Inv.updating (h : Inv s) (hworker : s.active = some worker) (hjob : s.job = some job)
    {attempt : Attempt} {update : ℕ → Job T → Job T} {next : Job T → Point}
    {handler : String → Point} (hstatus : (update attempt.now job).status ≠ .queued)
    (hshielded : Shielded s.transactions s.journal (update attempt.now job))
    (hnext : PointInv s.transactions s.journal (update attempt.now job)
      (next (update attempt.now job)))
    (hbefore : ∀ message, PointInv s.transactions s.journal job (handler message))
    (hafter : ∀ message, PointInv s.transactions s.journal (update attempt.now job)
      (handler message)) :
    Inv (s.updating worker attempt (always update) next handler) := by
  have hserving := h.up hworker
  unfold State.updating
  rcases change_cases attempt none (always update) s.job with
    ⟨⟨raised, hraised⟩, hstored⟩ | ⟨known, value, hknown, hvalue, hstored, hanswer⟩
  · rw [hraised, hstored]
    refine ⟨h.ledger, h.shielded, ?_, ?_, fun hdown ↦ absurd hdown hserving⟩
    · intro known hknown hqueued
      exact absurd hqueued (h.not_queued hworker hknown)
    · intro moved hmoved
      obtain rfl := Option.some.inj hmoved
      exact ⟨job, hjob, hbefore _⟩
  · obtain rfl : job = known := Option.some.inj (hjob.symm.trans hknown)
    obtain rfl : update attempt.now job = value := Except.ok.inj hvalue
    rw [hstored]
    refine ⟨h.ledger, ?_, ?_, ?_, fun hdown ↦ absurd hdown hserving⟩
    · intro stored hsome
      obtain rfl := Option.some.inj hsome
      exact hshielded
    · intro stored hsome hqueued
      obtain rfl := Option.some.inj hsome
      exact absurd hqueued hstatus
    · intro moved hmoved
      obtain rfl := Option.some.inj hmoved
      refine ⟨_, rfl, ?_⟩
      rcases hanswer with hok | ⟨raised, hraised⟩
      · simp only [hok]
        exact hnext
      · simp only [hraised]
        exact hafter _

variable {number index : ℕ}

/-- Assumes: a transaction of a batch that is not exposed, which has not executed anything. It
executes the batch. -/
theorem LedgerInv.executed (h : LedgerInv transactions journal)
    (hunsent : Unsent transactions number index) (hnot : ¬ Exposed transactions journal index) :
    LedgerInv transactions (.executed number index :: journal) where
  tracked := by
    intro known batch hmem
    rcases List.mem_cons.mp hmem with hnew | hold
    · obtain ⟨rfl, rfl⟩ := JournalEvent.executed.inj hnew
      obtain ⟨phase, hphase, -⟩ := hunsent
      exact ⟨phase, hphase⟩
    · exact h.tracked known batch hold
  backed := fun known batch phase hknown hphase ↦
    List.mem_cons_of_mem _ (h.backed known batch phase hknown hphase)
  once := by
    intro newer older known batch hsplit earlier phase hmem hearlier hphase
    cases newer with
    | nil =>
      -- The new execution: what was executed before it is no longer exposed.
      obtain ⟨hevent, rfl⟩ := List.cons.inj hsplit
      obtain ⟨rfl, rfl⟩ := JournalEvent.executed.inj hevent
      by_contra hexcused
      exact hnot ⟨earlier, phase, hearlier, hphase, hexcused⟩
    | cons event newer =>
      exact h.once newer older known batch (List.cons.inj hsplit).2 earlier phase hmem hearlier
        hphase

/-- Assumes: the latest execution. Nothing older in the journal is of its transaction. -/
theorem Latest.not_mem_older {newer older : List JournalEvent}
    {event : JournalEvent} (h : Latest journal number index)
    (hsplit : journal = newer ++ event :: older) (batch : ℕ) :
    .executed number batch ∉ older := by
  obtain ⟨rest, hrest, hunused⟩ := h
  rw [hrest] at hsplit
  intro hmem
  cases newer with
  | nil =>
    rw [(List.cons.inj hsplit).2] at hunused
    exact hunused batch hmem
  | cons first newer =>
    rw [(List.cons.inj hsplit).2] at hunused
    exact hunused batch (List.mem_append_right _ (List.mem_cons_of_mem _ hmem))

/-- The transactions after a COMMIT was sent for one. -/
def sentFor (transactions : List Transaction) (number : ℕ) : List Transaction :=
  transactions.modify number fun known ↦ { known with phase := known.phase.sent }

/-- Assumes: a transaction after a COMMIT was sent. It was there, and it may commit only if it might
before or the COMMIT was its own. -/
theorem getElem?_sentFor {number known batch : ℕ} {later : Phase}
    (h : (sentFor transactions number)[known]? = some ⟨batch, later⟩) (hlater : later.mayCommit) :
    known = number ∨ ∃ phase, transactions[known]? = some ⟨batch, phase⟩ ∧ phase.mayCommit := by
  by_cases hsame : known = number
  · exact .inl hsame
  · have hother : transactions[known]? = some ⟨batch, later⟩ := by
      simpa [sentFor, List.getElem?_modify, Ne.symm hsame] using h
    exact .inr ⟨later, hother, hlater⟩

theorem batch_sentFor {number known batch index : ℕ}
    {later phase : Phase} (h : (sentFor transactions number)[known]? = some ⟨batch, later⟩)
    (hphase : transactions[known]? = some ⟨index, phase⟩) : batch = index := by
  rw [sentFor, List.getElem?_modify, hphase] at h
  have hvalue := Option.some.inj h
  split at hvalue
  · exact ((Transaction.mk.inj hvalue).1).symm
  · exact ((Transaction.mk.inj hvalue).1).symm

/-- Assumes: a COMMIT for a transaction of a batch. A batch that is exposed after it was exposed
before or is the one. -/
theorem exposed_sentFor {number index batch : ℕ} (hunsent : Unsent transactions number index)
    (hexposed : Exposed (sentFor transactions number) journal batch) :
    batch = index ∨ Exposed transactions journal batch := by
  obtain ⟨known, later, hknown, hlater, hexcused⟩ := hexposed
  rcases getElem?_sentFor hknown hlater with rfl | ⟨phase, hphase, hmay⟩
  · obtain ⟨phase, hphase, -⟩ := hunsent
    exact .inl (batch_sentFor hknown hphase)
  · exact .inr ⟨known, phase, hphase, hmay, hexcused⟩

theorem LedgerInv.sent (h : LedgerInv transactions journal)
    (hunsent : Unsent transactions number index) (hlatest : Latest journal number index) :
    LedgerInv (sentFor transactions number) journal where
  tracked := by
    intro known batch hmem
    obtain ⟨phase, hphase⟩ := h.tracked known batch hmem
    rw [sentFor, List.getElem?_modify, hphase]
    by_cases hsame : number = known
    · exact ⟨phase.sent, by simp [hsame]⟩
    · exact ⟨phase, by simp [hsame]⟩
  backed := by
    intro known batch later hknown hlater
    rcases getElem?_sentFor hknown hlater with rfl | ⟨phase, hphase, hmay⟩
    · obtain ⟨phase, hphase, -⟩ := hunsent
      obtain rfl := batch_sentFor hknown hphase
      obtain ⟨older, rfl, -⟩ := hlatest
      exact List.mem_cons_self
    · exact h.backed known batch phase hphase hmay
  once := by
    intro newer older known batch hsplit earlier later hmem hearlier hlater
    rcases getElem?_sentFor hearlier hlater with rfl | ⟨phase, hphase, hmay⟩
    · exact absurd hmem (hlatest.not_mem_older hsplit batch)
    · exact h.once newer older known batch hsplit earlier phase hmem hphase hmay

variable {index : ℕ}

theorem Inv.open (h : Inv s) (hworker : s.active = some worker) (hjob : s.job = some job)
    (hpoint : PointInv s.transactions s.journal job (.preparing index)) :
    Inv { s.goto worker (.starting index s.transactions.length) with
      transactions := s.transactions ++ [⟨index, .running⟩] } := by
  have hquiet := quiet_append s.transactions index
  have hunused : Unused s.journal s.transactions.length := by
    intro batch hmem
    obtain ⟨phase, hphase⟩ := h.ledger.tracked _ batch hmem
    simp at hphase
  exact (h.quiet hquiet).goto hworker hjob
    ⟨hquiet.settled hpoint.1, hpoint.2, ⟨.running, by simp, rfl⟩, hunused⟩

variable {index number : ℕ}

/-- Assumes: what the worker knows before it executes a batch, and what it needs to know where it
goes on. -/
theorem Inv.execute (h : Inv s) (hworker : s.active = some worker) (hjob : s.job = some job)
    (hpoint : PointInv s.transactions s.journal job (.executing index number)) {point : Point}
    (hnext : PointInv s.transactions (.executed number index :: s.journal) job point) :
    Inv { s.goto worker point with journal := .executed number index :: s.journal } where
  ledger := h.ledger.executed hpoint.2.2.1 (hpoint.1.not_exposed hpoint.2.1)
  shielded := fun known hknown ↦ (h.shielded known hknown).mono fun _ ↦ Exposed.of_cons
  queued := fun known hknown hqueued ↦ absurd hqueued (h.not_queued hworker hknown)
  worker := by
    intro moved hmoved
    obtain rfl := Option.some.inj hmoved
    exact ⟨job, hjob, hnext⟩
  down := fun hdown ↦ absurd hdown (h.up hworker)

theorem Inv.send (h : Inv s) (hworker : s.active = some worker) (hjob : s.job = some job)
    (hpoint : PointInv s.transactions s.journal job (.committing index number)) :
    Inv ((s.goto worker (.awaiting index number)).setPhase number .sent) := by
  obtain ⟨hsettled, hcommitting, hunsent, hlatest⟩ := hpoint
  refine ⟨h.ledger.sent hunsent hlatest, ?_, ?_, ?_, fun hdown ↦ absurd hdown (h.up hworker)⟩
  · intro known hknown batch hexposed
    obtain rfl : job = known := Option.some.inj (hjob.symm.trans hknown)
    rcases exposed_sentFor hunsent hexposed with rfl | hold
    · exact ⟨.committing, hcommitting, rfl⟩
    · exact h.shielded job hjob batch hold
  · exact fun known hknown hqueued ↦ absurd hqueued (h.not_queued hworker hknown)
  · intro moved hmoved
    obtain rfl := Option.some.inj hmoved
    refine ⟨job, hjob, fun batch hne hexposed ↦ ?_, hcommitting⟩
    have hother : batch ≠ index := fun hsame ↦ hne (congrArg some hsame)
    exact hsettled batch hne ((exposed_sentFor hunsent hexposed).resolve_left hother)

/-- A batch that is recorded failed or uncertain when its worker gives up is not exposed or
shielded. -/
theorem shielded_failed
    (hshielded : Shielded transactions journal job) {index : Option ℕ} {uncertain : Bool}
    (hindex : uncertain = false → ∀ batch ∈ index, ¬ Exposed transactions journal batch)
    (stopped : Bool) (error : String) (now : ℕ) :
    Shielded transactions journal (Job.failed index uncertain stopped error now job) := by
  unfold Job.failed
  apply (Job.restates_clock now _).shielded
  cases index with
  | none => exact hshielded
  | some index =>
    refine Job.shielded_setBatch (if uncertain then .uncertain else .failed) (fun _ ↦ rfl)
      hshielded ?_
    cases uncertain with
    | false => exact .inr (hindex rfl index rfl)
    | true => exact .inl rfl

/-- `interrupted` shields the batch that was in flight. -/
theorem shielded_interrupted (hshielded : Shielded transactions journal job) (now : ℕ) :
    Shielded transactions journal (Job.interrupted now job) := by
  unfold Job.interrupted
  apply (Job.restates_clock now _).shielded
  split
  · exact Job.shielded_setBatch .uncertain (fun _ ↦ rfl) hshielded (.inl rfl)
  · exact hshielded

theorem settled_committed (hsettled : Settled transactions journal (some index) job)
    (hcommitting : job.statusOf index = some .committing) (now : ℕ) :
    Settled transactions journal none (Job.committed index now job) := by
  intro batch _ hexposed
  unfold Job.committed
  rw [Job.statusOf_touch]
  refine Eq.trans (Job.statusOf_stopClock now _ batch) ?_
  rw [Job.statusOf_setBatch job index .committed (fun _ ↦ rfl)]
  by_cases hsame : index = batch
  · subst hsame
    simp [hcommitting]
  · rw [if_neg hsame]
    exact hsettled batch (fun h ↦ hsame (Option.some.inj h).symm) hexposed

theorem pointInv_handling (hnot : ¬ Exposed transactions journal index) (number : Option ℕ)
    (committing : Bool)
    (error : String) :
    PointInv transactions journal job (.handling (some index) number committing error) := by
  intro _ batch hmem
  obtain rfl := Option.some.inj hmem
  exact hnot

theorem Inv.mark_read (h : Inv s) (hworker : s.active = some worker) (hjob : s.job = some job)
    (hpoint : PointInv s.transactions s.journal job .reading) (attempt : Attempt) :
    Inv (s.updating worker attempt unchanged (fun value ↦ .testing value.nextIndex)
      (.handling none none false)) := by
  have hunchanged : (unchanged : ℕ → Job T → Except Raised (Job T)) = always fun _ job ↦ job := rfl
  have hnothing : ∀ message, PointInv s.transactions s.journal job
      (.handling none none false message) := fun _ _ _ hmem ↦ by cases hmem
  rw [hunchanged]
  exact h.updating hworker hjob (h.not_queued hworker hjob) (h.shielded job hjob)
    ⟨hpoint, fun _ hmem ↦ Job.nextIndex_eq_some hmem⟩ hnothing hnothing

theorem Inv.mark_started (h : Inv s) (hworker : s.active = some worker) (hjob : s.job = some job)
    (hpoint : PointInv s.transactions s.journal job (.starting index number)) (attempt : Attempt) :
    Inv (s.updating worker attempt (always (Job.started index)) (fun _ ↦ .executing index number)
      (.handling (some index) (some number) false)) := by
  obtain ⟨hsettled, hnext, hunsent, hunused⟩ := hpoint
  have hnot := hsettled.not_exposed hnext
  have hqueued := h.not_queued hworker hjob
  refine h.updating hworker hjob hqueued ?_ ?_ (fun _ ↦ pointInv_handling hnot _ _ _)
    (fun _ ↦ pointInv_handling hnot _ _ _)
  · exact Job.shielded_setBatch .running (fun _ ↦ rfl) (h.shielded job hjob) (.inr hnot)
  · exact ⟨Job.settled_setBatch .running (fun _ ↦ rfl) hsettled hnot,
      Job.next_setBatch .running (fun _ ↦ rfl) (by decide) hnext, hunsent, hunused⟩

theorem Inv.mark_committing (h : Inv s) (hworker : s.active = some worker) (hjob : s.job = some job)
    (hpoint : PointInv s.transactions s.journal job (.fencing index number)) (attempt : Attempt) :
    Inv (s.updating worker attempt (always (Job.committingBatch index))
      (fun _ ↦ .committing index number) (.handling (some index) (some number) false)) := by
  obtain ⟨hsettled, hnext, hunsent, hlatest⟩ := hpoint
  have hnot := hsettled.not_exposed hnext
  have hstatus : (Job.committingBatch index attempt.now job).statusOf index = some .committing := by
    obtain ⟨known, hknown, -⟩ := hnext.2
    unfold Job.committingBatch
    rw [Job.statusOf_touch, Job.statusOf_setBatch job index .committing (fun _ ↦ rfl), if_pos rfl,
      hknown, Option.map_some]
  have hqueued := h.not_queued hworker hjob
  refine h.updating hworker hjob hqueued ?_ ?_ (fun _ ↦ pointInv_handling hnot _ _ _)
    (fun _ ↦ pointInv_handling hnot _ _ _)
  · exact Job.shielded_setBatch .committing (fun _ ↦ rfl) (h.shielded job hjob) (.inl rfl)
  · have hmarked : Settled s.transactions s.journal none
        (Job.committingBatch index attempt.now job) :=
      Job.settled_setBatch .committing (fun _ ↦ rfl) hsettled hnot
    exact ⟨fun batch _ ↦ hmarked batch (by simp), hstatus, hunsent, hlatest⟩

theorem Inv.mark_committed (h : Inv s) (hworker : s.active = some worker) (hjob : s.job = some job)
    (hpoint : PointInv s.transactions s.journal job (.recording index)) (attempt : Attempt) :
    Inv (s.updating worker attempt (always (Job.committed index)) (fun _ ↦ .leaving index)
      (.handling (some index) none true)) := by
  have hsettled := settled_committed hpoint.1 hpoint.2 attempt.now
  refine h.updating hworker hjob ?_ ?_ hsettled (fun _ hfalse ↦ by cases hfalse)
    (fun _ hfalse ↦ by cases hfalse)
  · have hqueued := h.not_queued hworker hjob
    show (Job.stopClock attempt.now _).status ≠ _
    rw [Job.status_stopClock]
    exact hqueued
  · intro batch hexposed
    exact ⟨.committed, hsettled batch (by simp) hexposed, rfl⟩

theorem Inv.mark_finished (h : Inv s) (hworker : s.active = some worker) (hjob : s.job = some job)
    {index : Option ℕ} (hpoint : PointInv s.transactions s.journal job (.finishing index))
    (attempt : Attempt) :
    Inv (s.updating worker attempt (always (Job.finished index)) (fun _ ↦ .releasing)
      (.handling index none false)) := by
  refine h.updating hworker hjob ?_ ((Job.restates_finished _ _ _).shielded (h.shielded job hjob))
    trivial ?_ ?_
  · unfold Job.finished
    rw [Job.status_touch, Job.status_stopClock]
    cases index <;> simp
  · exact fun message _ batch hmem ↦ hpoint.1.not_exposed (hpoint.2 batch hmem)
  · exact fun message _ batch hmem ↦ hpoint.1.not_exposed (hpoint.2 batch hmem)

theorem Inv.mark_failed (h : Inv s) (hworker : s.active = some worker) (hjob : s.job = some job)
    {index : Option ℕ} {uncertain : Bool} {error : String}
    (hpoint : PointInv s.transactions s.journal job (.failing index uncertain error))
    (attempt : Attempt) :
    Inv (s.updating worker attempt (always (Job.failed index uncertain worker.stopped error))
      (fun _ ↦ .releasing) (fun _ ↦ .interrupting)) := by
  refine h.updating hworker hjob ?_
    (shielded_failed (h.shielded job hjob) hpoint worker.stopped error attempt.now) trivial
    (fun _ ↦ trivial) (fun _ ↦ trivial)
  unfold Job.failed
  rw [Job.status_touch, Job.status_stopClock]
  cases index <;> cases uncertain <;> cases worker.stopped <;> simp [Job.setBatch]

/-- `interrupted` keeps the invariant. -/
theorem Inv.mark_interrupted (h : Inv s) (hworker : s.active = some worker)
    (hjob : s.job = some job) (attempt : Attempt) :
    Inv (s.updating worker attempt (always Job.interrupted) (fun _ ↦ .releasing)
      (fun _ ↦ .releasing)) := by
  refine h.updating hworker hjob ?_ (shielded_interrupted (h.shielded job hjob) attempt.now) trivial
    (fun _ ↦ trivial) (fun _ ↦ trivial)
  unfold Job.interrupted
  rw [Job.status_touch, Job.status_stopClock]
  split <;> simp

theorem Inv.work (h : Inv s) (hworker : s.active = some worker) (fate : Fate) :
    Inv (work fate s worker) := by
  obtain ⟨job, hjob, hpoint⟩ := h.worker worker hworker
  unfold BulkJobs.work
  split
  case h_1 hat =>
    rw [hat] at hpoint
    split
    · exact h.goto hworker hjob hpoint
    · exact h.goto hworker hjob trivial
  case h_2 hat =>
    rw [hat] at hpoint
    exact h.mark_read hworker hjob hpoint fate.attempt
  case h_3 index hat =>
    rw [hat] at hpoint
    split
    · exact h.goto hworker hjob hpoint
    · split
      · exact h.goto hworker hjob hpoint
      · exact h.goto hworker hjob ⟨hpoint.1, hpoint.2 _ rfl⟩
  case h_4 index hat =>
    rw [hat] at hpoint
    exact h.mark_finished hworker hjob hpoint fate.attempt
  case h_5 index hat =>
    rw [hat] at hpoint
    split
    · exact h.goto hworker hjob (pointInv_handling (hpoint.1.not_exposed hpoint.2) _ _ _)
    · exact h.open hworker hjob hpoint
  case h_6 index number hat =>
    rw [hat] at hpoint
    exact h.mark_started hworker hjob hpoint fate.attempt
  case h_7 index number hat =>
    rw [hat] at hpoint
    have hsettled := hpoint.1.mono fun batch (hexposed : Exposed s.transactions
      (.executed number index :: s.journal) batch) ↦ hexposed.of_cons
    refine h.execute hworker hjob hpoint ?_
    split
    · exact pointInv_handling (hsettled.not_exposed hpoint.2.1) _ _ _
    · exact ⟨hsettled, hpoint.2.1, hpoint.2.2.1, s.journal, rfl, hpoint.2.2.2⟩
  case h_8 index number hat =>
    rw [hat] at hpoint
    refine h.goto hworker hjob ?_
    split
    · exact pointInv_handling (hpoint.1.not_exposed hpoint.2.1) _ _ _
    · exact hpoint
  case h_9 index number hat =>
    rw [hat] at hpoint
    exact h.mark_committing hworker hjob hpoint fate.attempt
  case h_10 index number hat =>
    rw [hat] at hpoint
    split
    · exact h.goto hworker hjob fun hfalse ↦ by cases hfalse
    · exact h.send hworker hjob hpoint
  case h_11 index number hat =>
    rw [hat] at hpoint
    split
    · exact h.goto hworker hjob hpoint
    · exact h
    · exact h.goto hworker hjob fun hfalse ↦ by cases hfalse
  case h_12 index hat =>
    rw [hat] at hpoint
    exact h.mark_committed hworker hjob hpoint fate.attempt
  case h_13 index hat =>
    rw [hat] at hpoint
    split
    · exact h.goto hworker hjob fun hfalse ↦ by cases hfalse
    · exact h.goto hworker hjob hpoint
  case h_14 index number committing error hat =>
    rw [hat] at hpoint
    split
    · exact h.goto hworker hjob hpoint
    next position _ =>
      have hfailing : PointInv s.transactions s.journal job (.failing index committing error) :=
        hpoint
      exact (h.goto hworker hjob hfailing).quiet
        (quiet_modify s.transactions position Phase.rolledBack_mayCommit)
    · exact h.goto hworker hjob fun hfalse ↦ by cases hfalse
  case h_15 index uncertain error hat =>
    rw [hat] at hpoint
    exact h.mark_failed hworker hjob hpoint fate.attempt
  case h_16 hat => exact h.mark_interrupted hworker hjob fate.attempt
  case h_17 hat =>
    exact h.unwatched rfl rfl rfl rfl

end Worker

/-! ### Requests, heartbeats and restarts -/

section Events

variable {s : State T}

/-- Assumes: updates that keep every status and do not queue the job, and at most a changed stop
flag. -/
theorem Inv.restated (h : Inv s) {attempt : Attempt} {revision : Option ℕ}
    {update : ℕ → Job T → Except Raised (Job T)}
    (hupdate : ∀ job value, s.job = some job → update attempt.now job = .ok value →
      Job.Restates job value ∧ (value.status = .queued → job.status = .queued))
    {active : Option Worker} (hactive : active = s.active ∨
      active = s.active.map fun worker ↦ { worker with stopped := true }) :
    Inv { s with job := (change attempt revision update s.job).2, active := active } := by
  have hnone : s.active = none → active = none := by
    intro hnone
    rcases hactive with rfl | rfl
    · exact hnone
    · rw [hnone, Option.map_none]
  have hsame : ∀ worker, active = some worker →
      ∃ known, s.active = some known ∧ known.point = worker.point := by
    intro worker hworker
    rcases hactive with rfl | rfl
    · exact ⟨worker, hworker, rfl⟩
    · obtain ⟨known, hknown, rfl⟩ := Option.map_eq_some_iff.mp hworker
      exact ⟨known, hknown, rfl⟩
  rcases change_cases attempt revision update s.job with
    ⟨-, hstored⟩ | ⟨job, value, hjob, hvalue, hstored, -⟩
  · rw [hstored]
    refine ⟨h.ledger, h.shielded, ?_, ?_, fun hdown ↦ hnone (h.down hdown)⟩
    · intro job hjob hqueued
      obtain ⟨hidle, hsettled⟩ := h.queued job hjob hqueued
      exact ⟨hnone hidle, hsettled⟩
    · intro worker hworker
      obtain ⟨known, hknown, hpoint⟩ := hsame worker hworker
      obtain ⟨job, hjob, hinv⟩ := h.worker known hknown
      exact ⟨job, hjob, hpoint ▸ hinv⟩
  · obtain ⟨hrestates, hqueues⟩ := hupdate job value hjob hvalue
    rw [hstored]
    refine ⟨h.ledger, ?_, ?_, ?_, fun hdown ↦ hnone (h.down hdown)⟩
    · intro stored hsome
      obtain rfl := Option.some.inj hsome
      exact hrestates.shielded (h.shielded job hjob)
    · intro stored hsome hqueued
      obtain rfl := Option.some.inj hsome
      obtain ⟨hidle, hsettled⟩ := h.queued job hjob (hqueues hqueued)
      exact ⟨hnone hidle, hrestates.settled hsettled⟩
    · intro worker hworker
      obtain ⟨known, hknown, hpoint⟩ := hsame worker hworker
      obtain ⟨seen, hseen, hinv⟩ := h.worker known hknown
      obtain rfl : job = seen := Option.some.inj (hjob.symm.trans hseen)
      exact ⟨value, rfl, hrestates.point (hpoint ▸ hinv)⟩

theorem Inv.cancel (h : Inv s) (revision : ℕ) (attempt : Attempt) :
    Inv (s.cancel revision attempt) := by
  refine h.restated ?_ ?_
  · intro job value _ hvalue
    obtain ⟨hstatus, hrestates⟩ := Job.cancelled_eq_ok hvalue
    exact ⟨hrestates, fun hqueued ↦ absurd hqueued hstatus⟩
  · split
    · exact .inr rfl
    · exact .inl rfl

theorem Inv.heartbeat (h : Inv s) (attempt : Attempt) : Inv (s.heartbeat attempt) := by
  refine h.restated ?_ ?_
  · intro job value _ hvalue
    obtain rfl := Except.ok.inj hvalue
    exact ⟨Job.restates_tick _ _, fun hqueued ↦ (Job.status_tick _ _).symm.trans hqueued⟩
  · split
    · exact .inl rfl
    · exact .inr rfl

/-- Assumes: a job without a worker, and a change of its document that shields every exposed batch
and, when it leaves the job queued, records every exposed batch committed. -/
theorem Inv.rewritten (h : Inv s) (hidle : s.active = none) {value : Job T} (serving : Bool)
    (hshielded : Shielded s.transactions s.journal value)
    (hqueued : value.status = .queued → Settled s.transactions s.journal none value) :
    Inv { s with job := some value, serving := serving } where
  ledger := h.ledger
  shielded := by
    intro stored hsome
    obtain rfl := Option.some.inj hsome
    exact hshielded
  queued := by
    intro stored hsome hstatus
    obtain rfl := Option.some.inj hsome
    exact ⟨hidle, hqueued hstatus⟩
  worker := by
    intro worker hworker
    simp [hidle] at hworker
  down := fun _ ↦ hidle

theorem Inv.run (h : Inv s) (hserving : s.serving = true) (read claim : Attempt) :
    Inv (s.run read claim) := by
  unfold State.run
  split
  case h_2 => exact h
  case h_1 value hidle _ =>
    split
    · exact h
    split
    · exact h.cancel value.revision claim
    rcases change_cases claim (some value.revision) Job.begun s.job with
      ⟨⟨raised, hraised⟩, hstored⟩ | ⟨job, begun, hjob, hbegun, hstored, hanswer⟩
    · simp only [hraised, hstored]
      exact h.unwatched rfl rfl rfl rfl
    · obtain ⟨hqueued, hrunning, hrestates⟩ := Job.begun_eq_ok hbegun
      have hnot : begun.status ≠ .queued := by simp [hrunning]
      have hinv := h.rewritten hidle s.serving (hrestates.shielded (h.shielded job hjob))
        fun hstatus ↦ absurd hstatus hnot
      simp only [hstored]
      rcases hanswer with hok | ⟨raised, hraised⟩
      · simp only [hok]
        refine ⟨hinv.ledger, hinv.shielded, ?_, ?_, fun hdown ↦ by simp [hserving] at hdown⟩
        · intro stored hsome hstatus
          obtain rfl := Option.some.inj hsome
          exact absurd hstatus hnot
        · intro worker hworker
          obtain rfl := Option.some.inj hworker
          exact ⟨begun, rfl, hrestates.settled (h.queued job hjob hqueued).2⟩
      · simp only [hraised]
        exact hinv.unwatched rfl rfl rfl rfl

theorem Job.resumed_eq_ok [DecidableEq T] {active : Bool} {review : Option (ℕ × ℕ × T)} {now : ℕ}
    {job value : Job T} (h : Job.resumed active review now job = .ok value) :
    active = false ∧ (job.status = .paused ∨ job.status = .failed) ∧
      ∀ batch, value.statusOf batch =
        (job.statusOf batch).map fun status ↦ if status = .failed then .pending else status := by
  unfold Job.resumed at h
  split at h
  · cases h
  next hactive =>
    split at h
    · cases h
    next hstatus =>
      split at h
      · cases h
      · split at h
        · cases h
        · obtain rfl := Except.ok.inj h
          refine ⟨by simpa using hactive, by tauto, fun batch ↦ ?_⟩
          simp only [Job.statusOf, Job.touch, List.getElem?_map, Option.map_map]
          congr 1
          funext known
          simp only [Function.comp, Job.Batch.retried]
          split <;> simp_all

theorem Job.reconciled_eq_ok {active : Bool} {outcome : Outcome} {now : ℕ} {job value : Job T}
    (h : Job.reconciled active outcome now job = .ok value) {index : ℕ}
    (hindex : job.uncertainIndex = some index) :
    active = false ∧ value.status ≠ .queued ∧
      ∃ f : Batch → Batch, Job.Restates (job.setBatch index f) value ∧
        ∀ batch, (f batch).status = outcome.batchStatus := by
  unfold Job.reconciled at h
  split at h
  · cases h
  next hactive =>
    split at h
    · cases h
    · rw [hindex] at h
      obtain rfl := Except.ok.inj h
      refine ⟨by simpa using hactive, ?_, _, fun _ ↦ rfl, fun _ ↦ rfl⟩
      rw [Job.status_touch]
      dsimp only
      split <;> simp

/-- `recover` shields the batch that was in flight and leaves no job queued. -/
theorem shielded_recovered {job : Job T} (hshielded : Shielded transactions journal job) :
    Shielded transactions journal job.recovered ∧ job.recovered.status ≠ .queued := by
  unfold Job.recovered
  split
  next hstatus =>
    cases job.inFlight with
    | none => exact ⟨hshielded, by simp⟩
    | some index =>
      exact ⟨Job.shielded_setBatch .uncertain (fun _ ↦ rfl) hshielded (.inl rfl), by simp⟩
  next hstatus => exact ⟨hshielded, by tauto⟩

theorem LedgerInv.reconciled (h : LedgerInv transactions journal) (index : ℕ) (outcome : Outcome) :
    LedgerInv transactions (.reconciled index outcome :: journal) where
  tracked := by
    intro number batch hmem
    exact h.tracked number batch (by simpa using hmem)
  backed := fun number batch phase hnumber hphase ↦
    List.mem_cons_of_mem _ (h.backed number batch phase hnumber hphase)
  once := by
    intro newer older number batch hsplit earlier phase hmem hearlier hphase
    cases newer with
    | nil => cases (List.cons.inj hsplit).1
    | cons event newer =>
      exact h.once newer older number batch (List.cons.inj hsplit).2 earlier phase hmem hearlier
        hphase

/-- Assumes: a job without a worker, and another document, after a batch was reconciled. -/
theorem Inv.reconcile (h : Inv s) (revision : ℕ) (outcome : Outcome) (attempt : Attempt) :
    Inv (s.reconcile revision outcome attempt) := by
  unfold State.reconcile
  dsimp only
  split
  case h_2 => exact h
  case h_1 index value hindex _ hvalue =>
    obtain ⟨job, hjob, hfirst⟩ := Option.bind_eq_some_iff.mp hindex
    have hupdate := applyUpdate_eq_ok hvalue
    obtain ⟨known, hknown, hreconciled⟩ := hupdate
    obtain rfl : job = known := Option.some.inj (hjob.symm.trans hknown)
    obtain ⟨hactive, hstatus, f, hrestates, hf⟩ := Job.reconciled_eq_ok hreconciled hfirst
    have hidle : s.active = none := by simpa using hactive
    have hshielded : Shielded s.transactions (.reconciled index outcome :: s.journal) job :=
      (h.shielded job hjob).mono fun _ ↦ Exposed.of_cons
    refine ⟨h.ledger.reconciled index outcome, ?_, ?_, ?_, fun _ ↦ hidle⟩
    · intro stored hsome
      obtain rfl := Option.some.inj hsome
      refine hrestates.shielded (Job.shielded_setBatch _ hf hshielded ?_)
      cases outcome with
      | committed => exact .inl rfl
      | rolledBack => exact .inr (not_exposed_of_reconciled h.ledger index)
    · intro stored hsome hqueued
      obtain rfl := Option.some.inj hsome
      exact absurd hqueued hstatus
    · intro worker hworker
      simp [hidle] at hworker

theorem Inv.delete (h : Inv s) (revision : ℕ) (attempt : Attempt) :
    Inv (s.delete revision attempt) := by
  unfold State.delete
  split
  · refine ⟨h.ledger, fun _ hnone ↦ by simp at hnone, fun _ hnone ↦ by simp at hnone, ?_, h.down⟩
    intro worker hworker
    simp_all
  · exact h

variable [DecidableEq T]

/-- The condition on an event: when a job that is paused or failed and has no worker is asked to
resume, none of its exposed batches is recorded committing or uncertain. -/
def ResumesResolved (event : Event T) (s : State T) : Prop :=
  match event with
  | .resume _ _ _ => ∀ job, s.active = none → s.job = some job →
      job.status = .paused ∨ job.status = .failed →
        ∀ batch, job.statusOf batch = some .committing ∨ job.statusOf batch = some .uncertain →
          ¬ Exposed s.transactions s.journal batch
  | _ => True

theorem Inv.resume (h : Inv s) {revision : ℕ} {review : Option (ℕ × ℕ × T)} {attempt : Attempt}
    (hresolved : ResumesResolved (.resume revision review attempt) s) :
    Inv { s with job :=
      (change attempt (some revision) (Job.resumed s.active.isSome review) s.job).2 } := by
  rcases change_cases attempt (some revision) (Job.resumed s.active.isSome review) s.job with
    ⟨-, hstored⟩ | ⟨job, value, hjob, hvalue, hstored, -⟩
  · rw [hstored]
    exact h
  · obtain ⟨hactive, hstatus, hstatuses⟩ := Job.resumed_eq_ok hvalue
    have hidle : s.active = none := by simpa using hactive
    have hsettled : Settled s.transactions s.journal none value := by
      intro batch _ hexposed
      obtain ⟨known, hknown, hshields⟩ := h.shielded job hjob batch hexposed
      have hnot := hresolved job hidle hjob hstatus batch
      rw [hstatuses batch, hknown]
      rw [hknown] at hnot
      cases known <;> simp_all [BatchStatus.shields]
    rw [hstored]
    exact h.rewritten hidle s.serving
      (fun batch hexposed ↦ ⟨.committed, hsettled batch (by simp) hexposed, rfl⟩)
      (fun _ ↦ hsettled)

theorem Inv.step (h : Inv s) {event : Event T} (hresolved : ResumesResolved event s) :
    Inv (step event s) := by
  unfold BulkJobs.step
  split
  case h_1 _ number commits =>
    exact h.quiet (quiet_modify s.transactions number (Phase.decided_mayCommit commits))
  case h_2 _ number =>
    exact h.quiet (quiet_modify s.transactions number Phase.rolledBack_mayCommit)
  case h_3 attempt hdown =>
    have hidle := h.down hdown
    rcases change_cases attempt none (always fun _ ↦ Job.recovered) s.job with
      ⟨-, hstored⟩ | ⟨job, value, hjob, hvalue, hstored, -⟩
    · simp only [hstored]
      exact h.unwatched rfl rfl rfl hidle
    · obtain rfl := Except.ok.inj hvalue
      obtain ⟨hshielded, hstatus⟩ := shielded_recovered (h.shielded job hjob)
      simp only [hstored]
      exact h.rewritten hidle _ hshielded fun hqueued ↦ absurd hqueued hstatus
  case h_4 read claim hup => exact h.run hup read claim
  case h_5 revision attempt _ => exact h.cancel revision attempt
  case h_6 revision review attempt _ => exact h.resume hresolved
  case h_7 revision outcome attempt _ => exact h.reconcile revision outcome attempt
  case h_8 revision attempt _ => exact h.delete revision attempt
  case h_9 attempt _ => exact h.heartbeat attempt
  case h_10 fate _ =>
    split
    next worker hworker => exact h.work hworker fate
    · exact h
  case h_11 =>
    have hstopped := h.heartbeat ⟨0, false, .lostBefore ""⟩
    exact ⟨hstopped.ledger, hstopped.shielded, hstopped.queued, hstopped.worker, hstopped.down⟩
  case h_12 => exact h.unwatched rfl rfl rfl rfl
  case h_13 => exact h

end Events

/-! ### Runs -/

section Runs

theorem inv_start (workspaceRevision settingsRevision : ℕ) (target : T) (now : ℕ)
    (statements : List String) :
    Inv (State.start (Job.created workspaceRevision settingsRevision target now statements)) where
  ledger := ⟨fun _ _ hmem ↦ by simp [State.start] at hmem,
    fun _ _ _ hnumber ↦ by simp [State.start] at hnumber,
    fun _ _ _ _ hsplit ↦ by simp [State.start] at hsplit⟩
  shielded := by
    rintro job - batch ⟨number, phase, hnumber, -⟩
    simp [State.start] at hnumber
  queued := by
    refine fun job _ _ ↦ ⟨rfl, ?_⟩
    rintro batch - ⟨number, phase, hnumber, -⟩
    simp [State.start] at hnumber
  worker := fun worker hworker ↦ by simp [State.start] at hworker
  down := fun _ ↦ rfl

/-- No batch is recorded committing or uncertain when a job is resumed. -/
def resumesClear (event : Event T) (s : State T) : Bool :=
  match event with
  | .resume _ _ _ => s.job.all fun job ↦ job.batches.all fun batch ↦
      batch.status ≠ .committing ∧ batch.status ≠ .uncertain
  | _ => true

/-- Assumes: no batch is recorded committing or uncertain. The resumption meets the condition. -/
theorem resumesResolved_of_clear {event : Event T} {s : State T} (h : resumesClear event s) :
    ResumesResolved event s := by
  cases event with
  | resume revision review attempt =>
    intro job _ hjob _ batch hstatus
    simp only [resumesClear, hjob, Option.all_some, List.all_eq_true] at h
    have hclear : ∀ status, job.statusOf batch = some status →
        status ≠ .committing ∧ status ≠ .uncertain := by
      intro status hknown
      obtain ⟨known, hmem, rfl⟩ := Option.map_eq_some_iff.mp hknown
      simpa using h known (List.mem_of_getElem? hmem)
    rcases hstatus with hcommitting | huncertain
    · exact absurd rfl (hclear _ hcommitting).1
    · exact absurd rfl (hclear _ huncertain).2
  | _ => trivial

variable [DecidableEq T]

/-- The states that the runs from a state reach whose events all meet a condition. -/
def Reaches (condition : Event T → State T → Prop) : State T → State T → Prop :=
  Relation.ReflTransGen fun s after ↦ ∃ event, condition event s ∧ after = step event s

theorem Inv.reaches {s after : State T} (h : Inv s) (hreaches : Reaches ResumesResolved s after) :
    Inv after := by
  induction hreaches with
  | refl => exact h
  | tail _ hstep ih =>
    obtain ⟨event, hresolved, rfl⟩ := hstep
    exact ih.step hresolved

/-- Assumes: a run of a created job in which no paused or failed job is resumed over a batch that is
recorded committing or uncertain and whose transaction committed, or may still commit, without a
reconciliation as rolled back. In every state of the run, with failures of the store and crashes
anywhere, a batch with a committed transaction was executed again only after a user reconciled it as
rolled back, a batch is executed only after every batch before it is recorded committed, and a batch
recorded pending or failed has no committed transaction that was not so reconciled. -/
theorem batches_run_at_most_once (workspaceRevision settingsRevision : ℕ) (target : T) (now : ℕ)
    (statements : List String) (s : State T)
    (hreaches : Reaches ResumesResolved (State.start
      (Job.created workspaceRevision settingsRevision target now statements)) s) :
    s.RunsOnce ∧ s.RunsInOrder ∧ s.RecordsFaithfully := by
  have hinv := (inv_start workspaceRevision settingsRevision target now statements).reaches hreaches
  refine ⟨?_, ?_, ?_⟩
  · intro newer older number batch hsplit earlier hmem hcommitted
    exact hinv.ledger.once newer older number batch hsplit earlier .committed hmem hcommitted rfl
  · intro worker index number hworker hat
    obtain ⟨job, hjob, hpoint⟩ := hinv.worker worker hworker
    rw [hat] at hpoint
    exact ⟨job, hjob, hpoint.2.1.1⟩
  · intro job batch hjob hstatus number hcommitted
    by_contra hexcused
    obtain ⟨status, hknown, hshields⟩ :=
      hinv.shielded job hjob batch ⟨number, .committed, hcommitted, rfl, hexcused⟩
    rw [hknown] at hstatus
    rcases hstatus with hpending | hfailed
    · obtain rfl := Option.some.inj hpending
      simp [BatchStatus.shields] at hshields
    · obtain rfl := Option.some.inj hfailed
      simp [BatchStatus.shields] at hshields

/-- Every event of a list meets a condition in the state it happens in. -/
def Meets (condition : Event T → State T → Prop) : List (Event T) → State T → Prop
  | [], _ => True
  | event :: events, s => condition event s ∧ Meets condition events (step event s)

instance decidableMeets (condition : Event T → State T → Prop)
    [∀ event s, Decidable (condition event s)] :
    (events : List (Event T)) → (s : State T) → Decidable (Meets condition events s)
  | [], _ => .isTrue trivial
  | event :: events, s =>
    have := decidableMeets condition events (step event s)
    inferInstanceAs (Decidable (condition event s ∧ Meets condition events (step event s)))

theorem Meets.mono {condition weaker : Event T → State T → Prop}
    (hweaker : ∀ event s, condition event s → weaker event s) {events : List (Event T)}
    {s : State T} (h : Meets condition events s) : Meets weaker events s := by
  induction events generalizing s with
  | nil => trivial
  | cons event events ih => exact ⟨hweaker event s h.1, ih h.2⟩

theorem reaches_steps {condition : Event T → State T → Prop} (events : List (Event T))
    {s : State T} (h : Meets condition events s) : Reaches condition s (steps events s) := by
  induction events generalizing s with
  | nil => exact .refl
  | cons event events ih => exact .head ⟨event, h.1, rfl⟩ (ih h.2)

end Runs

/-! ### Runs of one job -/

/-- A job of one batch. -/
def sampleJob : Job String :=
  Job.created 1 1 "primary" 0 ["INSERT INTO facts VALUES (0)"]

/-- A call that is answered. -/
def answered : Attempt := ⟨0, false, .answered⟩

/-- The worker's next action, which goes well. -/
def advance : Event String := .work ⟨answered, none⟩

/-- The worker's next action, in which the store is lost before it changed anything. -/
def advanceLost : Event String := .work ⟨⟨0, false, .lostBefore "store unavailable"⟩, none⟩

/-- From the claim to the COMMIT of transaction 0, which the target decides. -/
def commitFirst : List (Event String) :=
  .run answered answered :: List.replicate 9 advance ++ [.decide 0 true, advance]

/-- The store fails in `committed`, `failed` and `interrupted`, and the worker is gone. The job is
cancelled and resumed, and its batch is executed again and fails. -/
def cancelCommitting : List (Event String) :=
  commitFirst ++ [advanceLost, advance, advanceLost, advanceLost, advance,
    .cancel 4 answered, .resume 5 (some (1, 1, "primary")) answered, .run answered answered,
    advance, advance, advance, advance, advance, .work ⟨answered, some "duplicate key"⟩,
    advance, advance]

/-- The batch whose transaction committed is executed twice and recorded failed, and no user
reconciled it. -/
theorem cancelled_commit_runs_twice :
    ¬ (steps cancelCommitting (State.start sampleJob)).RunsOnce ∧
      ¬ (steps cancelCommitting (State.start sampleJob)).RecordsFaithfully := by
  have hjournal : (steps cancelCommitting (State.start sampleJob)).journal =
      [.executed 1 0, .executed 0 0] := by decide
  have hcommitted : (steps cancelCommitting (State.start sampleJob)).transactions[0]? =
      some ⟨0, .committed⟩ := by decide
  have hstatus : ((steps cancelCommitting (State.start sampleJob)).job.bind
      fun job ↦ job.statusOf 0) = some .failed := by decide
  have hnever : ∀ journal : List JournalEvent, (∀ batch, .reconciled batch .rolledBack ∉ journal) →
      ¬ Excused journal 0 0 := by
    rintro journal hnone ⟨newer, older, rfl, hmem⟩
    exact hnone 0 (List.mem_append_left _ hmem)
  refine ⟨fun honce ↦ ?_, fun hfaithful ↦ ?_⟩
  · exact hnever _ (by simp) (honce [] [.executed 0 0] 1 0 hjournal 0 (by simp) hcommitted)
  · obtain ⟨job, hjob, hfailed⟩ := Option.bind_eq_some_iff.mp hstatus
    have hexcused := hfaithful job 0 hjob (.inr hfailed) 0 hcommitted
    rw [hjournal] at hexcused
    exact hnever _ (by simp) hexcused

/-- The store is lost in `committed` only. A user reconciles the batch as rolled back, and the job
is resumed and executes it again. -/
def reconcileAndResume : List (Event String) :=
  commitFirst ++ [advanceLost, advance, advance, advance,
    .reconcile 5 .rolledBack answered, .resume 6 (some (1, 1, "primary")) answered,
    .run answered answered, advance, advance, advance, advance, advance, advance]

theorem sample_batches_run_at_most_once :
    (steps reconcileAndResume (State.start sampleJob)).journal =
      [.executed 1 0, .reconciled 0 .rolledBack, .executed 0 0] ∧
    (steps reconcileAndResume (State.start sampleJob)).RunsOnce := by
  have hclear : Meets (fun event s ↦ resumesClear event s = true) reconcileAndResume
      (State.start sampleJob) := by decide
  have hreaches := reaches_steps _ (hclear.mono fun _ _ ↦ resumesResolved_of_clear)
  exact ⟨by decide, (batches_run_at_most_once 1 1 "primary" 0 _ _ hreaches).1⟩

end Schemii.BulkJobs
