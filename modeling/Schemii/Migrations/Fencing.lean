import Schemii.Migrations.Revisions

/-!
# Licensed calls keep the invariant of the world

A call with the licence that `Discipline` asks for keeps `WorldInv` and whatever the other programs
rely on. A transaction is changed only by its own program (`Changes`), and is committed only when it
is ready; baselines are only appended.

The result is stated for any `fact` about baselines, so that every discipline built on `WorldInv` can
use it (`perform_guarantees`).
-/

set_option autoImplicit false

namespace Schemii.Migrations

open Foundations Designs

variable {C K : Type}
variable {world : World C K} {transaction changed : TargetTransaction K}

/-! ### Transactions -/

/-- What a step may make of a transaction. -/
structure Changes (world : World C K) (transaction changed : TargetTransaction K) : Prop where
  thread : changed.thread = transaction.thread
  execution : changed.execution = transaction.execution
  identity : changed.identity = transaction.identity
  named : ∀ transactionId, transaction.transactionId = some transactionId →
    changed.transactionId = some transactionId
  fresh : changed.transactionId = transaction.transactionId ∨ ∀ other ∈ world.target,
    other.identity = transaction.identity → other.transactionId ≠ changed.transactionId
  committed : transaction.phase = .committed → changed.phase = .committed
  ready : changed.phase = .committing ∨ changed.phase = .committed → world.Ready changed

variable {transaction : TargetTransaction K}

theorem World.setTransaction_self (world : World C K) {index : ℕ} (changed : TargetTransaction K)
    (hat : world.target[index]? = some transaction) :
    (world.setTransaction index changed).target[index]? = some changed := by
  obtain ⟨hindex, -⟩ := List.getElem?_eq_some_iff.mp hat
  exact List.getElem?_set_self hindex

theorem World.setTransaction_of_ne (world : World C K) {index other : ℕ}
    (changed : TargetTransaction K) (h : other ≠ index) :
    (world.setTransaction index changed).target[other]? = world.target[other]? :=
  List.getElem?_set_ne (Ne.symm h)

theorem Changes.holds (h : Changes world transaction changed) {record : ExecutionRecord C K}
    (hholds : record.Holds transaction) : record.Holds changed := by
  obtain ⟨transactionId, hid⟩ := Option.ne_none_iff_exists'.mp hholds.named
  have hchanged := h.named transactionId hid
  exact ⟨by rw [hchanged]; exact Option.some_ne_none _,
    (hholds.transactionId.trans hid).trans hchanged.symm,
    by rw [h.identity]; exact hholds.targetIdentity⟩

/-- Assumes: the invariant, and a transaction that a step changes. The invariant holds after it. -/
theorem WorldInv.setTransaction {index : ℕ} (h : WorldInv world)
    (hat : world.target[index]? = some transaction) (hchanges : Changes world transaction changed) :
    WorldInv (world.setTransaction index changed) := by
  -- Every transaction of the changed target is the changed one or stands where it stood.
  have hlookup : ∀ {other : ℕ} {found : TargetTransaction K},
      (world.setTransaction index changed).target[other]? = some found →
        (other = index ∧ found = changed) ∨ other ≠ index ∧ world.target[other]? = some found := by
    intro other found hfound
    by_cases hother : other = index
    · subst hother
      rw [world.setTransaction_self changed hat] at hfound
      exact Or.inl ⟨rfl, (Option.some.inj hfound).symm⟩
    · rw [world.setTransaction_of_ne changed hother] at hfound
      exact Or.inr ⟨hother, hfound⟩
  -- What a record holds is kept, under the same index.
  have hheld : ∀ {other : ℕ} {found : TargetTransaction K} {record : ExecutionRecord C K},
      world.target[other]? = some found → record.Holds found →
        ∃ later, (world.setTransaction index changed).target[other]? = some later ∧
          later.execution = found.execution ∧ record.Holds later ∧
          (found.phase = .committed → later.phase = .committed) := by
    intro other found record hfound hholds
    by_cases hother : other = index
    · subst hother
      obtain rfl : found = transaction := Option.some.inj (hfound.symm.trans hat)
      exact ⟨changed, world.setTransaction_self changed hat, hchanges.execution,
        hchanges.holds hholds, hchanges.committed⟩
    · exact ⟨found, by rw [world.setTransaction_of_ne changed hother]; exact hfound, rfl, hholds,
        id⟩
  -- A new name is not taken on the same target.
  have hdistinct : ∀ {other : ℕ} {found : TargetTransaction K}, other ≠ index →
      world.target[other]? = some found → changed.transactionId ≠ none →
        changed.transactionId = found.transactionId → changed.identity = found.identity →
          False := by
    intro other found hother hfound hnamed hid hidentity
    rcases hchanges.fresh with hsame | hfresh
    · refine hother (h.distinct index other transaction found hat hfound ?_ ?_ ?_).symm
      · rw [← hsame]
        exact hnamed
      · rw [← hsame]
        exact hid
      · rw [← hchanges.identity]
        exact hidentity
    · refine hfresh found (List.mem_of_getElem? hfound) ?_ hid.symm
      rw [← hidentity, hchanges.identity]
  exact
    { keyed := h.keyed
      reserved := h.reserved
      evidence := by
        intro key record transactionId hrecord hid
        obtain ⟨hne, other, found, hfound, hexecution, hholds⟩ :=
          h.evidence key record transactionId hrecord hid
        obtain ⟨later, hlater, hlaterExecution, hlaterHolds, -⟩ := hheld hfound hholds
        exact ⟨hne, other, later, hlater, hlaterExecution.trans hexecution, hlaterHolds⟩
      started := h.started
      ready := by
        intro other found hfound hphase
        rcases hlookup hfound with ⟨rfl, rfl⟩ | ⟨-, hold⟩
        · exact hchanges.ready hphase
        · exact h.ready other found hold hphase
      distinct := by
        intro first second found other hfound hother hnamed hid hidentity
        rcases hlookup hfound with ⟨rfl, rfl⟩ | ⟨hne, hold⟩
        · rcases hlookup hother with ⟨rfl, rfl⟩ | ⟨hneOther, holdOther⟩
          · rfl
          · exact (hdistinct hneOther holdOther hnamed hid hidentity).elim
        · rcases hlookup hother with ⟨rfl, rfl⟩ | ⟨hneOther, holdOther⟩
          · refine (hdistinct hne hold ?_ hid.symm hidentity.symm).elim
            rw [← hid]
            exact hnamed
          · exact h.distinct first second found other hold holdOther hnamed hid hidentity
      committed := by
        intro key record hrecord hcommitted
        obtain ⟨other, found, hfound, hexecution, hholds, hphase⟩ :=
          h.committed key record hrecord hcommitted
        obtain ⟨later, hlater, hlaterExecution, hlaterHolds, hlaterPhase⟩ := hheld hfound hholds
        exact ⟨other, later, hlater, hlaterExecution.trans hexecution, hlaterHolds,
          hlaterPhase hphase⟩
      succeeded := h.succeeded
      lease := h.lease
      plans := h.plans
      baselineIds := h.baselineIds
      marks := h.marks }

variable {thread index : ℕ}

/-- Assumes: a transaction that a step changes, in the way a program may rely on. What the program
relies on is kept. -/
theorem WorldRely.setTransaction (hat : world.target[index]? = some transaction)
    (hlater : transaction.Later thread changed) :
    WorldRely thread world (world.setTransaction index changed) where
  quiet :=
    { growth := ⟨(WorldGrowth.refl world).executions, (WorldGrowth.refl world).plans,
        (WorldGrowth.refl world).baselines, (WorldGrowth.refl world).marks⟩
      transactions := by
        intro other found hfound
        by_cases hother : other = index
        · subst hother
          obtain rfl : found = transaction := Option.some.inj (hfound.symm.trans hat)
          exact ⟨changed, world.setTransaction_self changed hat, hlater⟩
        · exact ⟨found, by rw [world.setTransaction_of_ne changed hother]; exact hfound,
            .refl thread found⟩ }
  alive := by
    intro other found later record current _ _ _ _ hrecord _ halive hcurrent
    obtain rfl : record = current := Option.some.inj (hrecord.symm.trans hcurrent)
    exact halive

/-- Assumes: a running transaction that its own program changes. What another program relies on is
kept. -/
theorem Changes.later {thread other : ℕ} (h : Changes world transaction changed)
    (hrunning : transaction.phase = .running) (hthread : transaction.thread = thread)
    (hother : other ≠ thread) : transaction.Later other changed where
  thread_eq := h.thread
  execution := h.execution
  identity := h.identity
  transactionId := h.named
  running := fun _ ↦ hrunning
  aborted := by
    intro haborted
    rw [hrunning] at haborted
    exact nomatch haborted
  committed := h.committed
  own := fun hown ↦ absurd (hown.symm.trans hthread) hother

/-! ### Baselines -/

/-- A world with one more baseline of a workspace. -/
def World.appendBaseline (world : World C K) (workspace : Key) (baseline : BaselineRecord C K) :
    World C K :=
  { world with repository := { world.repository with
      baselineRows := world.repository.baselineRows.insert workspace
        (world.repository.baselines workspace ++ [baseline]) } }

theorem World.appendBaseline_baselines (world : World C K) (workspace other : Key)
    (baseline : BaselineRecord C K) :
    (world.appendBaseline workspace baseline).repository.baselines other =
      world.repository.baselines other ++ if other = workspace then [baseline] else [] := by
  unfold World.appendBaseline MigrationRepository.baselines
  by_cases hother : other = workspace
  · subst hother
    simp
  · rw [AList.lookup_insert_ne hother, if_neg hother, List.append_nil]

/-- Assumes: the invariant, and a baseline with a new identifier. The invariant holds with it. -/
theorem WorldInv.appendBaseline (h : WorldInv world) {workspace : Key}
    {baseline : BaselineRecord C K}
    (hfresh : ∀ other ∈ world.repository.baselines workspace, other.id ≠ baseline.id) :
    WorldInv (world.appendBaseline workspace baseline) :=
  { keyed := h.keyed
    reserved := h.reserved
    evidence := h.evidence
    started := h.started
    ready := h.ready
    distinct := h.distinct
    committed := h.committed
    succeeded := h.succeeded
    lease := h.lease
    plans := h.plans
    baselineIds := by
      intro other
      rw [world.appendBaseline_baselines]
      split_ifs with hother
      · subst hother
        rw [List.map_append, List.nodup_append]
        refine ⟨h.baselineIds other, List.nodup_singleton _, ?_⟩
        intro first hfirst second hsecond hsame
        obtain ⟨found, hfound, rfl⟩ := List.mem_map.mp hfirst
        obtain rfl : second = baseline.id := by simpa using hsecond
        exact hfresh found hfound hsame
      · rw [List.append_nil]
        exact h.baselineIds other
    marks := by
      intro key record hrecord
      rw [world.appendBaseline_baselines, List.length_append]
      exact (h.marks key record hrecord).trans (Nat.le_add_right _ _) }

theorem WorldRely.appendBaseline (thread : ℕ) (world : World C K) (workspace : Key)
    (baseline : BaselineRecord C K) :
    WorldRely thread world (world.appendBaseline workspace baseline) where
  quiet :=
    { growth :=
        { executions := (WorldGrowth.refl world).executions
          plans := (WorldGrowth.refl world).plans
          baselines := by
            intro other
            rw [world.appendBaseline_baselines]
            exact List.prefix_append _ _
          marks := fun _ _ _ ↦ rfl }
      transactions := .refl thread world }
  alive := (WorldRely.refl thread world).alive

/-! ### Calls -/

/-- A step of a program keeps the invariant and what the other programs rely on. -/
def KeepsWorld (thread : ℕ) (before after : World C K) : Prop :=
  WorldInv after ∧ ∀ other, other ≠ thread → WorldRely other before after

variable {thread : ℕ}

theorem KeepsWorld.refl (h : WorldInv world) :
    KeepsWorld thread world world :=
  ⟨h, fun other _ ↦ .refl other world⟩

variable {before after : World C K}

/-- Assumes: the invariant, and a call to a store whose effect keeps it. So does the call, lost or
not. -/
theorem Attempted.keepsWorld {α : Type} {outcome : Except Failure α × World C K}
    {reply : Except Failure α} (h : WorldInv before)
    (hattempted : Attempted outcome before reply after)
    (houtcome : KeepsWorld thread before outcome.2) : KeepsWorld thread before after := by
  rcases hattempted with ⟨-, rfl⟩ | ⟨failure, -, -, rfl | rfl⟩
  · exact houtcome
  · exact .refl h
  · exact houtcome

theorem WorldInv.keeps_setRecord (h : WorldInv world) {key : Key}
    {current next : ExecutionRecord C K} (hcurrent : world.record? key = some current)
    (hrevises : Revises thread world current next) :
    KeepsWorld thread world (world.setRecord key next) :=
  ⟨h.setRecord hcurrent hrevises, fun _ hother ↦ h.rely_setRecord hcurrent hrevises hother⟩

theorem WorldInv.keeps_setTransaction (h : WorldInv world)
    (hat : world.target[index]? = some transaction)
    (hrunning : transaction.phase = .running) (hthread : transaction.thread = thread)
    (hchanges : Changes world transaction changed) :
    KeepsWorld thread world (world.setTransaction index changed) :=
  ⟨h.setTransaction hat hchanges,
    fun _ hother ↦ .setTransaction hat (hchanges.later hrunning hthread hother)⟩

theorem WorldInv.keeps_transition (h : WorldInv world)
    {fingerprint : K → String} {record : ExecutionRecord C K} {transition : ExecutionTransition C K}
    (hknows : world.Knows record)
    (hrevision : transition.expectedRevision = record.execution.revision)
    (hlicence : TransitionLicence fingerprint thread world record transition.status
      transition.changes) :
    KeepsWorld thread world (world.withRepository
      (world.repository.transitionExecution record.key transition)).2 := by
  rcases world.repository.transitionExecution_cases record.key transition with
    ⟨failure, houtcome⟩ | ⟨current, hlookup, hcurrentRevision, hlegal, -, -, houtcome⟩
  · rw [World.withRepository, houtcome]
    exact .refl h
  · rw [World.withRepository, houtcome]
    obtain ⟨stored, hstored, hlater⟩ := hknows
    obtain rfl : stored = current := Option.some.inj (hstored.symm.trans hlookup)
    exact h.keeps_setRecord hstored (h.revises_of_licence hstored
      (hlater.same (hcurrentRevision.trans hrevision)) hlegal hlicence)

/-- Assumes: the invariant, and a new identifier. Creating a baseline keeps the invariant. -/
theorem WorldInv.keeps_createBaseline (h : WorldInv world)
    {id : String} {values : BaselineCreate C K}
    (hfresh : ∀ workspace, ∀ baseline ∈ world.repository.baselines workspace, baseline.id ≠ id) :
    KeepsWorld thread world
      (world.withRepository (world.repository.createBaseline id values)).2 := by
  rcases world.repository.createBaseline_cases id values with
    ⟨failure, houtcome⟩ | ⟨baseline, -, hid, -, -, houtcome⟩
  · rw [World.withRepository, houtcome]
    exact .refl h
  · rw [World.withRepository, houtcome]
    have happended :
        WorldInv (world.appendBaseline (values.ownerId, values.workspaceId) baseline) := by
      refine h.appendBaseline ?_
      rw [hid]
      exact hfresh _
    exact ⟨happended, fun other _ ↦
      .appendBaseline other world (values.ownerId, values.workspaceId) baseline⟩

/-- What a lease makes of a world: nothing, or a record is revised that is as far as it was. -/
def World.Leases (thread : ℕ) (world after : World C K) : Prop :=
  after = world ∨ ∃ (key : Key) (current next : ExecutionRecord C K),
    world.record? key = some current ∧ Revises thread world current next ∧
    next.blocksWorkspaceLifecycle = current.blocksWorkspaceLifecycle ∧
    next.execution.commitOutcome = current.execution.commitOutcome ∧
    after = world.setRecord key next

theorem World.Leases.keepsWorld {after : World C K} (h : WorldInv world)
    (hleases : world.Leases thread after) : KeepsWorld thread world after := by
  rcases hleases with rfl | ⟨key, current, next, hcurrent, hrevises, -, -, rfl⟩
  · exact .refl h
  · exact h.keeps_setRecord hcurrent hrevises

theorem WorldInv.leases_claim (h : WorldInv world) (thread claimedAt : ℕ)
    (leaseOwner : String) (leaseExpiresAt : ℕ) :
    world.Leases thread { world with repository :=
      (world.repository.claimNextExecution claimedAt leaseOwner leaseExpiresAt).2 } := by
  rcases world.repository.claimNextExecution_cases claimedAt leaseOwner leaseExpiresAt with
    houtcome | ⟨key, priority, kind, current, hlookup, heligible, houtcome⟩
  · rw [houtcome]
    exact Or.inl rfl
  · rw [houtcome, h.keyed key current hlookup]
    exact Or.inr ⟨key, current, _, hlookup, h.revises_lease (current.execution.revision + 1)
      (some leaseOwner) (some leaseExpiresAt) hlookup (Nat.le_succ _)
      (fun hsame ↦ absurd hsame (Nat.succ_ne_self _)) (holdsLease_of_eligible heligible), rfl, rfl,
      rfl⟩

theorem WorldInv.leases_renewal (h : WorldInv world) (thread : ℕ) (key : Key)
    (leaseOwner : String) (leaseExpiresAt : ℕ) :
    world.Leases thread { world with repository :=
      (world.repository.renewExecutionLease key leaseOwner leaseExpiresAt).2 } := by
  rcases world.repository.renewExecutionLease_cases key leaseOwner leaseExpiresAt with
    houtcome | ⟨current, hlookup, howner, houtcome⟩
  · rw [houtcome]
    exact Or.inl rfl
  · rw [houtcome]
    refine Or.inr ⟨key, current, _, hlookup, h.revises_lease current.execution.revision
      (some leaseOwner) (some leaseExpiresAt) hlookup (Nat.le_refl _) (fun _ ↦ howner.symm) ?_, rfl,
      rfl, rfl⟩
    cases hholds : holdsExecutionLease current.execution.status current.execution.syncStatus with
    | true => rfl
    | false =>
      have hnone := h.lease key current hlookup hholds
      rw [howner] at hnone
      exact nomatch hnone

/-- Assumes: the invariant, and an own statement that keeps what the invariant says of its
transaction. -/
theorem InTransaction.keepsWorld {α : Type} {reply : Except Failure α}
    {succeeds : TargetTransaction K → α → TargetTransaction K → Prop} (h : WorldInv before)
    (hlicensed : ∃ transaction, before.target[index]? = some transaction ∧
      transaction.thread = thread)
    (hperform : InTransaction index before reply after succeeds)
    (hchanges : ∀ transaction value changed, before.target[index]? = some transaction →
      transaction.phase = .running → succeeds transaction value changed →
        Changes before transaction changed) : KeepsWorld thread before after := by
  rcases hperform with ⟨failure, -, -, rfl⟩ |
    ⟨transaction, value, changed, hat, hrunning, -, hsucceeds, rfl⟩
  · exact .refl h
  · obtain ⟨found, hfound, hthread⟩ := hlicensed
    obtain rfl : found = transaction := Option.some.inj (hfound.symm.trans hat)
    exact h.keeps_setTransaction hat hrunning hthread
      (hchanges found value changed hat hrunning hsucceeds)

theorem Changes.catalog (catalog : Option K) (hrunning : transaction.phase = .running) :
    Changes world transaction { transaction with catalog := catalog } where
  thread := rfl
  execution := rfl
  identity := rfl
  named := fun _ hid ↦ hid
  fresh := Or.inl rfl
  committed := id
  ready := by
    intro hphase
    have hnever : TransactionPhase.running = .committing ∨
        TransactionPhase.running = .committed := hrunning ▸ hphase
    exact hnever.elim (fun hcase ↦ nomatch hcase) fun hcase ↦ nomatch hcase

/-- A transaction that only changes its phase. Assumes: it is not committed, and it is ready where
it is committed or about to be. -/
theorem Changes.phase (phase : TransactionPhase) (hopen : transaction.phase ≠ .committed)
    (hready : phase = .committing ∨ phase = .committed → world.Ready transaction) :
    Changes world transaction { transaction with phase := phase } where
  thread := rfl
  execution := rfl
  identity := rfl
  named := fun _ hid ↦ hid
  fresh := Or.inl rfl
  committed := fun hcommitted ↦ absurd hcommitted hopen
  ready := by
    intro hphase
    obtain ⟨record, hrecord, hholds, hresult, halive⟩ := hready hphase
    exact ⟨record, hrecord, ⟨hholds.named, hholds.transactionId, hholds.targetIdentity⟩, hresult,
      halive⟩

theorem WorldInv.keeps_begin (h : WorldInv world) (execution : Key) (identity : TargetIdentity) :
    KeepsWorld thread world { world with
      target := world.target ++ [⟨thread, execution, identity, none, .running, none⟩] } := by
  have hold : ∀ {index : ℕ} {transaction : TargetTransaction K},
      world.target[index]? = some transaction →
        (world.target ++ [⟨thread, execution, identity, none, .running, none⟩])[index]? =
          some transaction := by
    intro index transaction hat
    obtain ⟨hindex, -⟩ := List.getElem?_eq_some_iff.mp hat
    rw [List.getElem?_append_left hindex]
    exact hat
  have hlookup : ∀ {index : ℕ} {transaction : TargetTransaction K},
      (world.target ++ [⟨thread, execution, identity, none, .running, none⟩])[index]? =
        some transaction → world.target[index]? = some transaction ∨
          transaction.transactionId = none ∧ transaction.phase = .running := by
    intro index transaction hat
    rcases Nat.lt_or_ge index world.target.length with hindex | hindex
    · rw [List.getElem?_append_left hindex] at hat
      exact Or.inl hat
    · rw [List.getElem?_append_right hindex] at hat
      obtain rfl : _ = transaction :=
        List.mem_singleton.mp (List.mem_of_getElem? hat) |>.symm
      exact Or.inr ⟨rfl, rfl⟩
  refine ⟨?_, fun other _ ↦ ⟨⟨?_, ?_⟩, ?_⟩⟩
  · exact
      { keyed := h.keyed
        reserved := h.reserved
        evidence := by
          intro key record transactionId hrecord hid
          obtain ⟨hne, index, transaction, hat, hrest⟩ :=
            h.evidence key record transactionId hrecord hid
          exact ⟨hne, index, transaction, hold hat, hrest⟩
        started := h.started
        ready := by
          intro index transaction hat hphase
          rcases hlookup hat with hbefore | ⟨-, hrunning⟩
          · exact h.ready index transaction hbefore hphase
          · rw [hrunning] at hphase
            exact hphase.elim (fun hcase ↦ nomatch hcase) fun hcase ↦ nomatch hcase
        distinct := by
          intro index other transaction second hat hsecond hnamed hid hidentity
          rcases hlookup hat with hbefore | ⟨hnone, -⟩
          · rcases hlookup hsecond with hbeforeSecond | ⟨hnone, -⟩
            · exact h.distinct index other transaction second hbefore hbeforeSecond hnamed hid
                hidentity
            · exact absurd (hid.trans hnone) hnamed
          · exact absurd hnone hnamed
        committed := by
          intro key record hrecord hcommitted
          obtain ⟨index, transaction, hat, hrest⟩ := h.committed key record hrecord hcommitted
          exact ⟨index, transaction, hold hat, hrest⟩
        succeeded := h.succeeded
        lease := h.lease
        plans := h.plans
        baselineIds := h.baselineIds
        marks := h.marks }
  · exact ⟨(WorldGrowth.refl world).executions, (WorldGrowth.refl world).plans,
      (WorldGrowth.refl world).baselines, (WorldGrowth.refl world).marks⟩
  · exact fun index transaction hat ↦ ⟨transaction, hold hat, .refl other transaction⟩
  · intro index transaction later record current _ _ _ _ hrecord _ halive hcurrent
    obtain rfl : record = current := Option.some.inj (hrecord.symm.trans hcurrent)
    exact halive

/-- Assumes: the invariant, and a licensed call. It keeps the invariant and what the other programs
rely on. -/
theorem perform_guarantees {rules : ContentRules C} {limit thread : ℕ} {fingerprint : K → String}
    {fact : Key → Option (BaselineRecord C K) → World C K → Prop} {request : MigrationCall C K}
    {reply : request.Reply} (h : WorldInv before)
    (hlicensed : Licensed fingerprint fact thread before request)
    (hperform : perform rules limit thread request before reply after) :
    KeepsWorld thread before after := by
  have hread : ∀ {α : Type} {outcome : Except Failure α} {answer : Except Failure α},
      Attempted (outcome, before) before answer after → KeepsWorld thread before after :=
    fun hattempted ↦ hattempted.keepsWorld h (.refl h)
  cases request with
  | now =>
    obtain ⟨-, rfl⟩ := hperform
    exact .refl h
  | leaseToken =>
    obtain rfl : after = before := hperform
    exact .refl h
  | getPlan key => exact hread hperform
  | getWorkspace key => exact hread hperform
  | getDesign key =>
    rcases hperform with hattempted | ⟨message, -, rfl⟩
    · exact hread hattempted
    · exact .refl h
  | currentBaseline workspace purpose => exact hread hperform
  | createBaseline values =>
    obtain ⟨id, hfresh, hattempted⟩ := hperform
    exact hattempted.keepsWorld h (h.keeps_createBaseline hfresh)
  | getExecution key => exact hread hperform
  | claimNextExecution claimedAt leaseOwner leaseExpiresAt =>
    exact Attempted.keepsWorld h hperform
      ((h.leases_claim thread claimedAt leaseOwner leaseExpiresAt).keepsWorld h)
  | renewExecutionLease key leaseOwner leaseExpiresAt =>
    exact Attempted.keepsWorld h hperform
      ((h.leases_renewal thread key leaseOwner leaseExpiresAt).keepsWorld h)
  | transitionExecution key transition =>
    obtain ⟨record, hknows, rfl, hrevision, hlicence⟩ := hlicensed
    exact Attempted.keepsWorld h hperform (h.keeps_transition hknows hrevision hlicence)
  | replaceDesign workspace execution request =>
    refine Attempted.keepsWorld h hperform ?_
    unfold World.replaceDesign
    split
    · exact ⟨h.congr rfl rfl rfl, fun other _ ↦ .congr rfl rfl rfl⟩
    · exact ⟨h.congr rfl rfl rfl, fun other _ ↦ .congr rfl rfl rfl⟩
  | useConnection ownerId connectionId => exact hread hperform
  | gatewaySupports method =>
    obtain rfl : after = before := hperform
    exact .refl h
  | beginTransaction execution connection freshSnapshots =>
    rcases hperform with ⟨failure, -, -, rfl⟩ | ⟨identity, -, rfl⟩
    · exact .refl h
    · exact h.keeps_begin execution identity
  | lockTarget index targetNamespace tables conversions =>
    refine InTransaction.keepsWorld h hlicensed hperform ?_
    rintro transaction value changed - hrunning rfl
    exact .catalog _ hrunning
  | introspect index targetNamespace =>
    refine InTransaction.keepsWorld h hlicensed hperform ?_
    rintro transaction value changed - hrunning rfl
    exact .catalog _ hrunning
  | tableEmptiness index targetNamespace tables =>
    refine InTransaction.keepsWorld h hlicensed hperform ?_
    rintro transaction value changed - hrunning rfl
    exact .catalog _ hrunning
  | targetIdentity index =>
    refine InTransaction.keepsWorld h hlicensed hperform ?_
    rintro transaction value changed - hrunning ⟨-, rfl⟩
    exact .catalog _ hrunning
  | currentTransactionId index =>
    refine InTransaction.keepsWorld h hlicensed hperform ?_
    rintro transaction value changed - hrunning ⟨rfl, hname⟩
    refine ⟨rfl, rfl, rfl, ?_, ?_, id, ?_⟩
    · intro transactionId hid
      rcases hname with hnamed | ⟨hnone, -⟩
      · exact hnamed.symm.trans hid
      · rw [hnone] at hid
        exact nomatch hid
    · rcases hname with hnamed | ⟨-, hfresh⟩
      · exact Or.inl hnamed.symm
      · exact Or.inr hfresh
    · intro hphase
      have hnever : TransactionPhase.running = .committing ∨
          TransactionPhase.running = .committed := hrunning ▸ hphase
      exact hnever.elim (fun hcase ↦ nomatch hcase) fun hcase ↦ nomatch hcase
  | executeStatement index statement =>
    refine InTransaction.keepsWorld h hlicensed hperform ?_
    rintro transaction value changed - hrunning rfl
    exact .catalog _ hrunning
  | commit index =>
    obtain ⟨transaction, hat, hthread, hready⟩ := hlicensed
    rcases hperform with hperform | ⟨found, phase, failure, hfound, hrunning, -, rfl⟩
    · refine InTransaction.keepsWorld h ⟨transaction, hat, hthread⟩ hperform ?_
      rintro found value changed hfound hrunning rfl
      obtain rfl : found = transaction := Option.some.inj (hfound.symm.trans hat)
      exact .phase _ (by rw [hrunning]; exact fun hcase ↦ nomatch hcase) fun _ ↦ hready hrunning
    · obtain rfl : found = transaction := Option.some.inj (hfound.symm.trans hat)
      exact h.keeps_setTransaction hat hrunning hthread
        (.phase _ (by rw [hrunning]; exact fun hcase ↦ nomatch hcase) fun _ ↦ hready hrunning)
  | cleanup index =>
    obtain ⟨transaction, hat, hthread⟩ := hlicensed
    rcases hperform with rfl | ⟨found, hfound, hrunning, rfl⟩
    · exact .refl h
    · obtain rfl : found = transaction := Option.some.inj (hfound.symm.trans hat)
      refine h.keeps_setTransaction hat hrunning hthread (.phase _ ?_ ?_)
      · rw [hrunning]
        exact fun hcase ↦ nomatch hcase
      · exact fun hcase ↦ hcase.elim (fun hphase ↦ nomatch hphase) fun hphase ↦ nomatch hphase
  | transactionStatus connection transactionId =>
    obtain ⟨rfl, -⟩ := hperform
    exact .refl h

end Schemii.Migrations
