import Schemii.Common.ConnectionCapacity

/-!
# The counters are the leases

`Counts` ties the counters to the outstanding leases: each is the number of leases of its kind, an
identity without any has no entry, and the limits hold of these numbers. The order of the leases does
not matter to it (`Counts.perm`), so one lemma for each operation, about a lease in front, gives that
every event keeps it (`LeasePool.Sound.step`). The claim about whole runs is `capacity_accounts`.
-/

set_option autoImplicit false

namespace Schemii.Common

open Foundations

/-! ### Numbers of leases -/

/-- The outstanding leases of an identity. -/
def leasesOf (leases : List Lease) (identity : String) : ℕ :=
  leases.countP fun lease ↦ lease.identity = identity

/-- The outstanding leases of long-lived sessions. -/
def retainedLeases (leases : List Lease) : ℕ :=
  leases.countP fun lease ↦ lease.retained

/-- The outstanding leases of long-lived sessions of an identity. -/
def retainedLeasesOf (leases : List Lease) (identity : String) : ℕ :=
  leases.countP fun lease ↦ lease.retained ∧ lease.identity = identity

/-- The outstanding leases with an established connection. -/
def connectedLeases (leases : List Lease) : ℕ :=
  leases.countP Lease.isConnected

section Numbers

variable (lease : Lease) (leases : List Lease) (identity : String)

@[simp]
theorem leasesOf_nil : leasesOf [] identity = 0 :=
  rfl

@[simp]
theorem leasesOf_cons : leasesOf (lease :: leases) identity =
    leasesOf leases identity + if lease.identity = identity then 1 else 0 := by
  simp [leasesOf, List.countP_cons]

@[simp]
theorem retainedLeases_nil : retainedLeases [] = 0 :=
  rfl

@[simp]
theorem retainedLeases_cons : retainedLeases (lease :: leases) =
    retainedLeases leases + if lease.retained then 1 else 0 := by
  simp [retainedLeases, List.countP_cons]

@[simp]
theorem retainedLeasesOf_nil : retainedLeasesOf [] identity = 0 :=
  rfl

@[simp]
theorem retainedLeasesOf_cons : retainedLeasesOf (lease :: leases) identity =
    retainedLeasesOf leases identity +
      if lease.retained ∧ lease.identity = identity then 1 else 0 := by
  simp [retainedLeasesOf, List.countP_cons]

@[simp]
theorem connectedLeases_nil : connectedLeases [] = 0 :=
  rfl

@[simp]
theorem connectedLeases_cons : connectedLeases (lease :: leases) =
    connectedLeases leases + if lease.isConnected then 1 else 0 := by
  simp [connectedLeases, List.countP_cons]

theorem retainedLeasesOf_le : retainedLeasesOf leases identity ≤ leasesOf leases identity :=
  List.countP_mono_left fun lease _ hboth ↦ by
    simp only [decide_eq_true_eq] at hboth ⊢
    exact hboth.2

end Numbers

/-! ### Dictionaries of counts -/

/-- A dictionary has an entry for each identity with a count, and no others. -/
def Holds (counts : Dictionary String ℤ) (number : String → ℕ) : Prop :=
  ∀ identity, counts.get? identity = if number identity = 0 then none else some (number identity : ℤ)

variable {counts : Dictionary String ℤ}

theorem Holds.countAt {number : String → ℕ} (h : Holds counts number)
    (identity : String) : countAt counts identity = number identity := by
  unfold Common.countAt
  rw [h identity]
  split
  · next hzero => simp [hzero]
  · rfl

theorem Holds.contains_iff {number : String → ℕ} (h : Holds counts number) (identity : String) :
    counts.contains identity ↔ number identity ≠ 0 := by
  rw [Dictionary.contains, h identity]
  split
  · next hzero => simp [hzero]
  · next hsome => simp [hsome]

variable {identity : String}

theorem Holds.insert {number later : String → ℕ} (h : Holds counts number) {count : ℤ}
    (hcount : count = later identity) (hpositive : 0 < later identity)
    (hothers : ∀ other, other ≠ identity → later other = number other) :
    Holds (counts.insert identity count) later := by
  intro other
  rw [Dictionary.get?_insert]
  by_cases hsame : other = identity
  · subst hsame
    rw [if_pos rfl, if_neg hpositive.ne', hcount]
  · rw [if_neg hsame, hothers other hsame, h other]

theorem Holds.erase {number later : String → ℕ}
    (h : Holds counts number) (hzero : later identity = 0)
    (hothers : ∀ other, other ≠ identity → later other = number other) :
    Holds (counts.erase identity) later := by
  intro other
  rw [Dictionary.get?_erase]
  by_cases hsame : other = identity
  · subst hsame
    rw [if_pos rfl, if_pos hzero]
  · rw [if_neg hsame, hothers other hsame, h other]

/-! ### Counters and leases -/

/-- The counters are the numbers of outstanding leases. -/
structure Counts (capacity : ConnectionCapacity) (leases : List Lease) : Prop where
  total : capacity.total = leases.length
  connected : capacity.connected = connectedLeases leases
  byIdentity : Holds capacity.byIdentity (leasesOf leases)
  retainedTotal : capacity.retainedTotal = retainedLeases leases
  retainedByIdentity : Holds capacity.retainedByIdentity (retainedLeasesOf leases)

/-- The outstanding leases are within the limits. -/
structure Within (capacity : ConnectionCapacity) (leases : List Lease) : Prop where
  total : leases.length ≤ capacity.maximumTotal
  identity : ∀ identity, leasesOf leases identity ≤ capacity.maximumPerIdentity
  retained : (retainedLeases leases : ℤ) ≤ capacity.retainedLimit
  retainedIdentity : ∀ identity,
    (retainedLeasesOf leases identity : ℤ) ≤ capacity.retainedPerIdentity

variable {capacity : ConnectionCapacity} {leases : List Lease} {lease : Lease}

theorem counts_new (maximumTotal maximumPerIdentity : ℕ) :
    Counts (.new maximumTotal maximumPerIdentity) [] :=
  ⟨rfl, rfl, fun _ ↦ rfl, rfl, fun _ ↦ rfl⟩

theorem within_new (maximumTotal maximumPerIdentity : ℕ) :
    Within (.new maximumTotal maximumPerIdentity) [] where
  total := Nat.zero_le _
  identity := fun _ ↦ Nat.zero_le _
  retained := zero_le_one.trans (le_max_left _ _)
  retainedIdentity := fun _ ↦ zero_le_one.trans (le_max_left _ _)

theorem Counts.perm {others : List Lease} (h : Counts capacity leases) (hperm : leases.Perm others) :
    Counts capacity others := by
  have hidentity : leasesOf others = leasesOf leases :=
    funext fun identity ↦ (hperm.countP_eq _).symm
  have hretained : retainedLeasesOf others = retainedLeasesOf leases :=
    funext fun identity ↦ (hperm.countP_eq _).symm
  exact ⟨h.total.trans (congrArg _ hperm.length_eq),
    h.connected.trans (congrArg _ (hperm.countP_eq _)), hidentity ▸ h.byIdentity,
    h.retainedTotal.trans (congrArg _ (hperm.countP_eq _)), hretained ▸ h.retainedByIdentity⟩

theorem Counts.reserve (h : Counts capacity leases) (identity : String) (retained : Bool) :
    Counts (capacity.reserve identity retained) (⟨identity, retained, .opening⟩ :: leases) := by
  have hbyIdentity : Holds
      (capacity.byIdentity.insert identity (countAt capacity.byIdentity identity + 1))
      (leasesOf (⟨identity, retained, .opening⟩ :: leases)) := by
    refine h.byIdentity.insert ?_ ?_ fun other hother ↦ ?_
    · simp [h.byIdentity.countAt]
    · simp
    · simp [hother.symm]
  cases retained with
  | false =>
    refine ⟨?_, ?_, hbyIdentity, ?_, fun other ↦ ?_⟩
    · simp [ConnectionCapacity.reserve, h.total]
    · simp [ConnectionCapacity.reserve, h.connected, Lease.isConnected]
    · simp [ConnectionCapacity.reserve, h.retainedTotal]
    · simpa [ConnectionCapacity.reserve] using h.retainedByIdentity other
  | true =>
    refine ⟨?_, ?_, hbyIdentity, ?_, h.retainedByIdentity.insert ?_ ?_ fun other hother ↦ ?_⟩
    · simp [ConnectionCapacity.reserve, h.total]
    · simp [ConnectionCapacity.reserve, h.connected, Lease.isConnected]
    · simp [ConnectionCapacity.reserve, h.retainedTotal]
    · simp [h.retainedByIdentity.countAt]
    · simp
    · simp [hother.symm]

theorem Counts.release (h : Counts capacity (lease :: leases)) :
    Counts (capacity.release lease.identity lease.retained lease.isConnected) leases := by
  have hcount : countAt capacity.byIdentity lease.identity = leasesOf leases lease.identity + 1 := by
    simp [h.byIdentity.countAt]
  have hpositive : ¬ countAt capacity.byIdentity lease.identity ≤ 0 := by omega
  have hothers : ∀ other, other ≠ lease.identity →
      leasesOf leases other = leasesOf (lease :: leases) other := fun other hother ↦ by
    simp [hother.symm]
  have hretainedOthers : ∀ other, other ≠ lease.identity →
      retainedLeasesOf leases other = retainedLeasesOf (lease :: leases) other :=
    fun other hother ↦ by simp [hother.symm]
  simp only [ConnectionCapacity.release, if_neg hpositive]
  refine ⟨?_, ?_, ?_, ?_, ?_⟩
  · simp [h.total]
  · simp only [h.connected, connectedLeases_cons]
    split <;> simp
  · dsimp only
    by_cases hlast : leasesOf leases lease.identity = 0
    · rw [if_pos (by omega)]
      exact h.byIdentity.erase hlast hothers
    · rw [if_neg (by omega)]
      exact h.byIdentity.insert (by omega) (by omega) hothers
  · simp only [h.retainedTotal, retainedLeases_cons]
    split <;> simp
  · dsimp only
    by_cases hretained : lease.retained = true
    · have hretainedCount : countAt capacity.retainedByIdentity lease.identity =
          retainedLeasesOf leases lease.identity + 1 := by
        simp [h.retainedByIdentity.countAt, hretained]
      rw [if_pos hretained]
      by_cases hlast : retainedLeasesOf leases lease.identity = 0
      · rw [if_pos (by omega)]
        exact h.retainedByIdentity.erase hlast hretainedOthers
      · rw [if_neg (by omega)]
        exact h.retainedByIdentity.insert (by omega) (by omega) hretainedOthers
    · rw [if_neg hretained]
      intro other
      rw [h.retainedByIdentity other]
      simp [hretained]

theorem Counts.markConnected (h : Counts capacity (lease :: leases)) (hphase : lease.phase = .opening) :
    Counts capacity.markConnected ({ lease with phase := .opened } :: leases) where
  total := h.total
  connected := by
    simp [ConnectionCapacity.markConnected, h.connected, Lease.isConnected, hphase]
  byIdentity := h.byIdentity
  retainedTotal := h.retainedTotal
  retainedByIdentity := h.retainedByIdentity

theorem Counts.close (h : Counts capacity (lease :: leases)) (hphase : lease.phase ≠ .opening) :
    Counts capacity ({ lease with phase := .closing } :: leases) where
  total := h.total
  connected := by
    simp [h.connected, Lease.isConnected, hphase]
  byIdentity := h.byIdentity
  retainedTotal := h.retainedTotal
  retainedByIdentity := h.retainedByIdentity

/-! ### The limits -/

/-- The limits of one capacity are those of another. -/
def SameLimits (capacity later : ConnectionCapacity) : Prop :=
  later.maximumTotal = capacity.maximumTotal ∧
    later.maximumPerIdentity = capacity.maximumPerIdentity

theorem sameLimits_reserve (identity : String) (retained : Bool) :
    SameLimits capacity (capacity.reserve identity retained) := by
  cases retained <;> exact ⟨rfl, rfl⟩

theorem sameLimits_release (identity : String) (retained connected : Bool) :
    SameLimits capacity (capacity.release identity retained connected) := by
  unfold ConnectionCapacity.release
  dsimp only
  split <;> exact ⟨rfl, rfl⟩

theorem reached_eq_none_iff {retained : Bool} :
    capacity.reached identity retained = none ↔
      countAt capacity.byIdentity identity < capacity.maximumPerIdentity ∧
        capacity.total < capacity.maximumTotal ∧
          (retained → countAt capacity.retainedByIdentity identity < capacity.retainedPerIdentity ∧
            capacity.retainedTotal < capacity.retainedLimit) := by
  simp only [ConnectionCapacity.reached]
  cases retained <;> grind

theorem Within.reserve (h : Within capacity leases) (hcounts : Counts capacity leases)
    {retained : Bool} (hfree : capacity.reached identity retained = none) :
    Within (capacity.reserve identity retained) (⟨identity, retained, .opening⟩ :: leases) := by
  obtain ⟨hmaximum, hper⟩ := @sameLimits_reserve capacity identity retained
  obtain ⟨hidentity, htotal, hretained⟩ := reached_eq_none_iff.mp hfree
  rw [hcounts.byIdentity.countAt] at hidentity
  rw [hcounts.total] at htotal
  rw [hcounts.retainedByIdentity.countAt, hcounts.retainedTotal] at hretained
  constructor
  · rw [hmaximum, List.length_cons]
    omega
  · intro other
    rw [hper, leasesOf_cons]
    have hother := h.identity other
    split
    · next hsame =>
      obtain rfl : identity = other := hsame
      omega
    · exact hother
  · unfold ConnectionCapacity.retainedLimit
    rw [hmaximum, retainedLeases_cons]
    have hbefore := h.retained
    unfold ConnectionCapacity.retainedLimit at hbefore hretained
    split
    · next hkind =>
      have hless := (hretained hkind).2
      push_cast
      omega
    · simpa using hbefore
  · intro other
    unfold ConnectionCapacity.retainedPerIdentity
    rw [hper, retainedLeasesOf_cons]
    have hbefore := h.retainedIdentity other
    unfold ConnectionCapacity.retainedPerIdentity at hbefore hretained
    split
    · next hboth =>
      obtain ⟨hkind, rfl⟩ : retained = true ∧ identity = other := hboth
      have hless := (hretained hkind).1
      push_cast
      omega
    · simpa using hbefore

variable {later : ConnectionCapacity}

theorem Within.mono {fewer : List Lease} (h : Within capacity leases)
    (hlimits : SameLimits capacity later) (hlength : fewer.length ≤ leases.length)
    (hidentity : ∀ identity, leasesOf fewer identity ≤ leasesOf leases identity)
    (hretained : retainedLeases fewer ≤ retainedLeases leases)
    (hretainedIdentity : ∀ identity,
      retainedLeasesOf fewer identity ≤ retainedLeasesOf leases identity) : Within later fewer := by
  obtain ⟨hmaximum, hper⟩ := hlimits
  constructor
  · exact hmaximum ▸ hlength.trans h.total
  · exact fun identity ↦ hper ▸ (hidentity identity).trans (h.identity identity)
  · unfold ConnectionCapacity.retainedLimit
    exact hmaximum ▸ (Int.ofNat_le.mpr hretained).trans h.retained
  · intro identity
    unfold ConnectionCapacity.retainedPerIdentity
    exact hper ▸ (Int.ofNat_le.mpr (hretainedIdentity identity)).trans (h.retainedIdentity identity)

theorem Within.perm {others : List Lease} (h : Within capacity leases) (hperm : leases.Perm others) :
    Within capacity others :=
  h.mono ⟨rfl, rfl⟩ hperm.length_eq.ge (fun _ ↦ (hperm.countP_eq _).ge) (hperm.countP_eq _).ge
    fun _ ↦ (hperm.countP_eq _).ge

theorem Within.tail (h : Within capacity (lease :: leases))
    (hlimits : SameLimits capacity later) : Within later leases := by
  refine h.mono hlimits (Nat.le_succ _) (fun identity ↦ ?_) ?_ fun identity ↦ ?_
  · simp
  · simp
  · simp

theorem Within.phase (h : Within capacity (lease :: leases))
    (hlimits : SameLimits capacity later) (phase : LeasePhase) :
    Within later ({ lease with phase } :: leases) := by
  refine h.mono hlimits le_rfl (fun identity ↦ ?_) ?_ fun identity ↦ ?_
  · simp
  · simp
  · simp

/-! ### Events -/

/-- The counters of a pool are its leases, and these are within the limits. -/
structure LeasePool.Sound (pool : LeasePool) : Prop where
  counts : Counts pool.capacity pool.leases
  within : Within pool.capacity pool.leases

theorem LeasePool.Sound.front {pool : LeasePool} (h : pool.Sound) (hmem : lease ∈ pool.leases) :
    Counts pool.capacity (lease :: pool.leases.erase lease) ∧
      Within pool.capacity (lease :: pool.leases.erase lease) :=
  ⟨h.counts.perm (List.perm_cons_erase hmem), h.within.perm (List.perm_cons_erase hmem)⟩

theorem acquire_nil (identity : String) (retained : Bool) :
    capacity.acquire identity retained [] =
      match capacity.reached identity retained with
      | none => (none, capacity.reserve identity retained)
      | some reached => (some reached, capacity) := by
  unfold ConnectionCapacity.acquire
  split <;> simp_all

theorem acquire_cons {retained : Bool} {reached : Reached}
    (hreached : capacity.reached identity retained = some reached) (wait : ConnectionCapacity.Wait)
    (rest : List ConnectionCapacity.Wait) :
    capacity.acquire identity retained (wait :: rest) =
      if wait.notified then (wait.others capacity).acquire identity retained rest
      else (some reached, wait.others capacity) := by
  rw [ConnectionCapacity.acquire.eq_def]
  simp [hreached]

theorem LeasePool.Sound.step {pool later : LeasePool} (h : pool.Sound) {event : LeaseEvent}
    (hstep : pool.step event = some later) :
    later.Sound ∧ SameLimits pool.capacity later.capacity := by
  cases event with
  | acquire identity retained =>
    simp only [LeasePool.step, acquire_nil] at hstep
    cases hreached : pool.capacity.reached identity retained with
    | none =>
      simp only [hreached, Option.some.injEq] at hstep
      subst hstep
      exact ⟨⟨h.counts.reserve identity retained, h.within.reserve h.counts hreached⟩,
        sameLimits_reserve identity retained⟩
    | some reached =>
      simp only [hreached, Option.some.injEq] at hstep
      subst hstep
      exact ⟨h, rfl, rfl⟩
  | connected lease =>
    obtain ⟨⟨hmem, hphase⟩, ⟨⟩⟩ := Option.ite_none_right_eq_some.mp hstep
    obtain ⟨hcounts, hwithin⟩ := h.front hmem
    have hlimits : SameLimits pool.capacity pool.capacity.markConnected := ⟨rfl, rfl⟩
    exact ⟨⟨hcounts.markConnected hphase, hwithin.phase hlimits .opened⟩, hlimits⟩
  | openFailed lease =>
    obtain ⟨⟨hmem, hphase⟩, ⟨⟩⟩ := Option.ite_none_right_eq_some.mp hstep
    obtain ⟨hcounts, hwithin⟩ := h.front hmem
    have hlimits := @sameLimits_release pool.capacity lease.identity lease.retained false
    have hreleased := hcounts.release
    rw [show lease.isConnected = false by simp [Lease.isConnected, hphase]] at hreleased
    exact ⟨⟨hreleased, hwithin.tail hlimits⟩, hlimits⟩
  | close lease =>
    obtain ⟨⟨hmem, hphase⟩, ⟨⟩⟩ := Option.ite_none_right_eq_some.mp hstep
    obtain ⟨hcounts, hwithin⟩ := h.front hmem
    exact ⟨⟨hcounts.close hphase, hwithin.phase ⟨rfl, rfl⟩ .closing⟩, rfl, rfl⟩
  | released lease =>
    obtain ⟨⟨hmem, hphase⟩, ⟨⟩⟩ := Option.ite_none_right_eq_some.mp hstep
    obtain ⟨hcounts, hwithin⟩ := h.front hmem
    have hlimits := @sameLimits_release pool.capacity lease.identity lease.retained true
    have hreleased := hcounts.release
    rw [show lease.isConnected = true by simp [Lease.isConnected, hphase]] at hreleased
    exact ⟨⟨hreleased, hwithin.tail hlimits⟩, hlimits⟩

theorem LeasePool.Sound.run {pool later : LeasePool} (h : pool.Sound) {events : List LeaseEvent}
    (hrun : pool.run events = some later) :
    later.Sound ∧ SameLimits pool.capacity later.capacity := by
  induction events generalizing pool with
  | nil =>
    obtain rfl : pool = later := Option.some_injective _ hrun
    exact ⟨h, rfl, rfl⟩
  | cons event rest ih =>
    simp only [LeasePool.run, List.foldlM_cons, Option.bind_eq_bind,
      Option.bind_eq_some_iff] at hrun
    obtain ⟨middle, hstep, hrest⟩ := hrun
    obtain ⟨hmiddle, hlimits⟩ := h.step hstep
    obtain ⟨hlater, hlaterLimits⟩ := ih hmiddle hrest
    exact ⟨hlater, hlaterLimits.1.trans hlimits.1, hlaterLimits.2.trans hlimits.2⟩

/-! ### Calls that wait -/

/-- What others do in some waits, one after the other. -/
def othersOf (waits : List ConnectionCapacity.Wait) (capacity : ConnectionCapacity) :
    ConnectionCapacity :=
  waits.foldl (fun before wait ↦ wait.others before) capacity

/-- A call changes nothing until it is admitted: what it leaves when it is refused is what others made
of the capacity while it waited, and otherwise it adds one permit to that. -/
theorem acquire_cases (identity : String) (retained : Bool) (waits : List ConnectionCapacity.Wait) :
    ∃ taken, taken <+: waits ∧
      ((∃ reached, capacity.acquire identity retained waits =
          (some reached, othersOf taken capacity)) ∨
        (othersOf taken capacity).reached identity retained = none ∧
          capacity.acquire identity retained waits =
            (none, (othersOf taken capacity).reserve identity retained)) := by
  induction waits generalizing capacity with
  | nil =>
    refine ⟨[], List.prefix_rfl, ?_⟩
    rw [acquire_nil]
    cases hreached : capacity.reached identity retained with
    | none => exact .inr ⟨hreached, rfl⟩
    | some reached => exact .inl ⟨reached, rfl⟩
  | cons wait rest ih =>
    cases hreached : capacity.reached identity retained with
    | none =>
      refine ⟨[], List.nil_prefix, .inr ⟨hreached, ?_⟩⟩
      simp only [ConnectionCapacity.acquire, hreached]
      rfl
    | some reached =>
      by_cases hnotified : wait.notified = true
      · obtain ⟨taken, hinitial, hcases⟩ := @ih (wait.others capacity)
        refine ⟨wait :: taken, (List.prefix_cons_inj wait).mpr hinitial, ?_⟩
        simpa only [acquire_cons hreached, if_pos hnotified, othersOf, List.foldl_cons] using hcases
      · refine ⟨[wait], List.prefix_cons_iff.mpr (.inr ⟨[], rfl, List.nil_prefix⟩),
          .inl ⟨reached, ?_⟩⟩
        simp [acquire_cons hreached, hnotified, othersOf]

/-! ### Every run -/

/-- Assumes: events that can happen one after the other, so that a lease is released only while it is
outstanding. Then every counter is the number of the outstanding leases of its kind, none exceeds its
limit, a limit above one is never used up by long-lived sessions, and a call of `acquire` that is
refused leaves what others made of the capacity while it waited. -/
theorem capacity_accounts (maximumTotal maximumPerIdentity : ℕ) (events : List LeaseEvent)
    (pool : LeasePool)
    (hrun : (LeasePool.new maximumTotal maximumPerIdentity).run events = some pool) :
    (pool.capacity.total = pool.leases.length ∧
      pool.capacity.connected = connectedLeases pool.leases ∧
      pool.capacity.retainedTotal = retainedLeases pool.leases ∧
      ∀ identity, countAt pool.capacity.byIdentity identity = leasesOf pool.leases identity ∧
        countAt pool.capacity.retainedByIdentity identity = retainedLeasesOf pool.leases identity ∧
        (pool.capacity.byIdentity.contains identity ↔ leasesOf pool.leases identity ≠ 0) ∧
        (pool.capacity.retainedByIdentity.contains identity ↔
          retainedLeasesOf pool.leases identity ≠ 0)) ∧
    (0 ≤ pool.capacity.total ∧ pool.capacity.total ≤ maximumTotal ∧
      0 ≤ pool.capacity.connected ∧ pool.capacity.connected ≤ maximumTotal ∧
      0 ≤ pool.capacity.retainedTotal ∧ pool.capacity.retainedTotal ≤ maximumTotal ∧
      ∀ identity, 0 ≤ countAt pool.capacity.byIdentity identity ∧
        countAt pool.capacity.byIdentity identity ≤ maximumPerIdentity ∧
        0 ≤ countAt pool.capacity.retainedByIdentity identity ∧
        countAt pool.capacity.retainedByIdentity identity ≤ maximumPerIdentity) ∧
    (1 < maximumTotal → pool.capacity.retainedTotal + 1 ≤ maximumTotal) ∧
    (1 < maximumPerIdentity → ∀ identity,
      countAt pool.capacity.retainedByIdentity identity + 1 ≤ maximumPerIdentity) ∧
    ∀ identity retained waits reached after,
      pool.capacity.acquire identity retained waits = (some reached, after) →
        ∃ taken, taken <+: waits ∧ after = othersOf taken pool.capacity := by
  obtain ⟨⟨hcounts, hwithin⟩, hlimits⟩ :=
    (LeasePool.Sound.mk (counts_new maximumTotal maximumPerIdentity)
      (within_new maximumTotal maximumPerIdentity)).run hrun
  have hmaximum : pool.capacity.maximumTotal = maximumTotal := hlimits.1
  have hper : pool.capacity.maximumPerIdentity = maximumPerIdentity := hlimits.2
  have htotal : pool.leases.length ≤ maximumTotal := hmaximum ▸ hwithin.total
  have hidentity : ∀ identity, leasesOf pool.leases identity ≤ maximumPerIdentity :=
    fun identity ↦ hper ▸ hwithin.identity identity
  have hconnected : connectedLeases pool.leases ≤ pool.leases.length := List.countP_le_length
  have hretainedLength : retainedLeases pool.leases ≤ pool.leases.length := List.countP_le_length
  have hretained := hwithin.retained
  have hretainedIdentity := hwithin.retainedIdentity
  unfold ConnectionCapacity.retainedLimit at hretained
  unfold ConnectionCapacity.retainedPerIdentity at hretainedIdentity
  rw [hmaximum] at hretained
  rw [hper] at hretainedIdentity
  have hnumbers : ∀ identity,
      countAt pool.capacity.byIdentity identity = leasesOf pool.leases identity ∧
        countAt pool.capacity.retainedByIdentity identity = retainedLeasesOf pool.leases identity :=
    fun identity ↦ ⟨hcounts.byIdentity.countAt identity, hcounts.retainedByIdentity.countAt identity⟩
  refine ⟨⟨hcounts.total, hcounts.connected, hcounts.retainedTotal, fun identity ↦
    ⟨(hnumbers identity).1, (hnumbers identity).2, hcounts.byIdentity.contains_iff identity,
      hcounts.retainedByIdentity.contains_iff identity⟩⟩, ?_, ?_, ?_, ?_⟩
  · rw [hcounts.total, hcounts.connected, hcounts.retainedTotal]
    refine ⟨by omega, by omega, by omega, by omega, by omega, by omega, fun identity ↦ ?_⟩
    have hkept := hidentity identity
    have hpart := retainedLeasesOf_le pool.leases identity
    rw [(hnumbers identity).1, (hnumbers identity).2]
    exact ⟨by omega, by omega, by omega, by omega⟩
  · intro hmany
    rw [hcounts.retainedTotal]
    omega
  · intro hmany identity
    have hkept := hretainedIdentity identity
    rw [(hnumbers identity).2]
    omega
  · intro identity retained waits reached after hrefused
    obtain ⟨taken, hinitial, ⟨other, hcall⟩ | ⟨-, hcall⟩⟩ :=
      @acquire_cases pool.capacity identity retained waits
    · rw [hcall] at hrefused
      exact ⟨taken, hinitial, (congrArg Prod.snd hrefused).symm⟩
    · rw [hcall] at hrefused
      exact absurd (congrArg Prod.fst hrefused) (Option.some_ne_none _).symm

/-- Two sessions and a call that is refused, with room for transient work left. -/
theorem one_slot_stays_free :
    ∃ pool, (LeasePool.new 3 2).run [.acquire "a:1" true, .connected ⟨"a:1", true, .opening⟩,
        .acquire "a:1" true, .acquire "b:1" true, .acquire "c:1" true] = some pool ∧
      pool.leases.length = 2 ∧ pool.capacity.total = 2 ∧ pool.capacity.retainedTotal + 1 ≤ 3 := by
  refine ⟨_, rfl, rfl, rfl, ?_⟩
  exact (capacity_accounts 3 2 [.acquire "a:1" true, .connected ⟨"a:1", true, .opening⟩,
    .acquire "a:1" true, .acquire "b:1" true, .acquire "c:1" true] _ rfl).2.2.1 (by decide)

end Schemii.Common
