import Schemii.ReadSessions.Service

/-!
# The limits on retained read sessions

How many read sessions the registry retains, in total and for one connection at one revision, while
any number of runs race between their preflight and their retention.

`Shrinks` says what every section but two does: it retains no session that was not retained, and
evicts none that is leased or protected. A preflight makes room for one session of its identity; it
stands until another run of the same identity retains a session. `_retain_results` enforces the total
again, and the limit of the identity not at all.

* `read_session_limits`: both limits hold in every run in which each retention finds its preflight
  standing.
* `raced_runs_exceed_identity_limit`: two runs that race past each other's preflight.
-/

set_option autoImplicit false

namespace Schemii.ReadSessions

open Schemii.Foundations

variable {E : Encoding}
variable {registry : Registry E} {before after : Registry E} {summaries : Summaries}
  {settings : Settings}

/-! ### Sections that retain nothing -/

/-- A change that retains no further session, and evicts none that is leased or protected. -/
structure Shrinks (before after : Registry E) : Prop where
  sessions : ∀ execution identity, after.activeReadSessions.get? execution = some identity →
    before.activeReadSessions.get? execution = some identity
  standing : after.standing = before.standing
  closings : ∀ closing ∈ after.closings, closing.reason = .eviction → closing ∈ before.closings ∨
    (closing.leased = false ∧ closing.protectedThen = false)

namespace Shrinks

theorem refl (registry : Registry E) : Shrinks registry registry :=
  ⟨fun _ _ h ↦ h, rfl, fun _ h _ ↦ .inl h⟩

theorem trans {first second third : Registry E} (h : Shrinks first second)
    (h' : Shrinks second third) : Shrinks first third where
  sessions := fun execution identity hactive ↦ h.sessions _ _ (h'.sessions _ _ hactive)
  standing := h'.standing.trans h.standing
  closings := fun closing hmem hreason ↦ by
    rcases h'.closings closing hmem hreason with hmiddle | hfree
    · exact h.closings closing hmiddle hreason
    · exact .inr hfree

theorem countP_le (h : Shrinks before after) (p : ℕ × Identity → Bool) :
    after.activeReadSessions.entries.countP p ≤ before.activeReadSessions.entries.countP p :=
  (Dictionary.subperm_of_get? h.sessions).countP_le p

theorem size_le (h : Shrinks before after) :
    after.activeReadSessions.size ≤ before.activeReadSessions.size :=
  (Dictionary.subperm_of_get? h.sessions).length_le

theorem of_same (hsessions : after.activeReadSessions = before.activeReadSessions)
    (hstanding : after.standing = before.standing) (hclosings : after.closings = before.closings) :
    Shrinks before after :=
  ⟨fun _ _ h ↦ hsessions ▸ h, hstanding, fun _ h _ ↦ .inl (hclosings ▸ h)⟩

end Shrinks

theorem get?_of_filter {K V : Type} [DecidableEq K] {d : Dictionary K V} {p : K → V → Bool} {k : K}
    {v : V} (h : (d.filter p).get? k = some v) : d.get? k = some v := by
  rw [Dictionary.get?_filter] at h
  exact (Option.filter_eq_some_iff.1 h).1

theorem closeUnreferenced_shrinks (registry : Registry E) {reason : Reason}
    (hreason : reason ≠ .eviction) : Shrinks registry (registry.closeUnreferencedReadSessions reason)
    where
  sessions := fun _ _ h ↦ get?_of_filter h
  standing := rfl
  closings := fun closing hmem heviction ↦ by
    rcases List.mem_append.1 hmem with hnew | hold
    · obtain ⟨execution, -, rfl⟩ := List.mem_map.1 hnew
      exact absurd heviction hreason
    · exact .inl hold

theorem purge_shrinks (registry : Registry E) (now : ℕ) :
    Shrinks registry (registry.purgeTransientResults now) := by
  have hdropped : Shrinks registry (registry.dropExpired now) := .of_same rfl rfl rfl
  exact hdropped.trans (closeUnreferenced_shrinks _ (by decide))

theorem evict_shrinks {execution : ℕ} (h : registry.readSessionEvictable execution = true) :
    Shrinks registry (registry.evictReadSession execution) where
  sessions := fun _ _ hactive ↦ get?_of_filter hactive
  standing := rfl
  closings := fun closing hmem _ ↦ by
    rcases List.mem_cons.1 hmem with rfl | hold
    · simp only [Registry.readSessionEvictable, Bool.and_eq_true, Bool.not_eq_true'] at h
      exact .inr ⟨h.2, h.1⟩
    · exact .inl hold

theorem evicts_shrinks (h : Registry.EvictsSome before after) :
    Shrinks before after := by
  induction h with
  | refl => exact .refl before
  | tail _ hevicts ih =>
    obtain ⟨execution, -, hevictable, rfl⟩ := hevicts
    exact ih.trans (evict_shrinks hevictable)

theorem length_ofIdentity (registry : Registry E) (identity : Identity) :
    (registry.ofIdentity identity).length =
      registry.activeReadSessions.entries.countP fun entry ↦ decide (entry.2 = identity) := by
  simp [Registry.ofIdentity, Dictionary.keys, Dictionary.filter, List.countP_eq_length_filter]

theorem Shrinks.ofIdentity_le (h : Shrinks before after) (identity : Identity) :
    (after.ofIdentity identity).length ≤ (before.ofIdentity identity).length := by
  rw [length_ofIdentity, length_ofIdentity]
  exact h.countP_le _

theorem ofIdentity_evict (registry : Registry E) (execution : ℕ) (identity : Identity) :
    (registry.evictReadSession execution).ofIdentity identity =
      (registry.ofIdentity identity).filter fun other ↦ decide (other ≠ execution) := by
  simp only [Registry.ofIdentity, Registry.evictReadSession, Dictionary.keys, Dictionary.filter,
    Dictionary.erase, List.filter_filter, List.filter_map]
  congr 1
  refine List.filter_congr fun entry _ ↦ ?_
  simp [Bool.and_comm]

/-- Evicting among the sessions of an identity. Assumes: there were enough of them. Their number went
down by as many. -/
theorem evictEach_ofIdentity {excess : ℕ} {identity : Identity}
    (h : (Registry.evictEach excess (registry.ofIdentity identity) registry).1 = true) :
    ((Registry.evictEach excess (registry.ofIdentity identity) registry).2.ofIdentity
      identity).length + excess ≤ (registry.ofIdentity identity).length := by
  induction excess generalizing registry with
  | zero => exact le_rfl
  | succ excess ih =>
    cases hfind : (registry.ofIdentity identity).find? registry.readSessionEvictable with
    | none => simp [Registry.evictEach, hfind] at h
    | some execution =>
      simp only [Registry.evictEach, hfind, ← ofIdentity_evict] at h ⊢
      have hstep := ih h
      have hmem : execution ∈ registry.ofIdentity identity := List.mem_of_find?_eq_some hfind
      have hless : ((registry.evictReadSession execution).ofIdentity identity).length <
          (registry.ofIdentity identity).length := by
        rw [ofIdentity_evict]
        exact List.length_filter_lt_length_iff_exists.2 ⟨execution, hmem, by simp⟩
      omega

/-- The preflight of an identity retains nothing. Assumes: it succeeds. There is room for one more
session of the identity. -/
theorem makeReadSessionCapacity_room {target : Identity} {now : ℕ}
    (h : (registry.makeReadSessionCapacity settings target now).1 = true) :
    ((registry.makeReadSessionCapacity settings target now).2.ofIdentity target).length <
      settings.maximumLiveReadSessionsPerIdentity := by
  cases hfirst : Registry.evictEach (((registry.purgeTransientResults now).ofIdentity target).length
      + 1 - settings.maximumLiveReadSessionsPerIdentity)
    ((registry.purgeTransientResults now).ofIdentity target)
    (registry.purgeTransientResults now) with
  | mk enough after =>
    cases enough with
    | false => simp [Registry.makeReadSessionCapacity, hfirst] at h
    | true =>
      simp only [Registry.makeReadSessionCapacity, hfirst]
      have hroom := @evictEach_ofIdentity E _ _ _ (congrArg Prod.fst hfirst)
      rw [hfirst] at hroom
      have hshrinks := (evicts_shrinks (Registry.evictEach_evicts
        (after.activeReadSessions.keys.length + 1 - settings.maximumLiveReadSessions)
        after.activeReadSessions.keys fun _ ↦ id)).ofIdentity_le target
      simp only at hroom
      omega

theorem makeReadSessionCapacity_shrinks (settings : Settings) (target : Identity) (now : ℕ)
    (registry : Registry E) :
    Shrinks registry (registry.makeReadSessionCapacity settings target now).2 :=
  (purge_shrinks registry now).trans
    (evicts_shrinks (registry.makeReadSessionCapacity_evicts settings target now))

/-! ### Retaining a session -/

theorem size_evict {execution : ℕ} (h : execution ∈ registry.activeReadSessions.keys) :
    (registry.evictReadSession execution).activeReadSessions.size + 1 =
      registry.activeReadSessions.size := by
  obtain ⟨identity, hget⟩ := Dictionary.mem_keys.1 h
  simpa [Dictionary.size, Registry.evictReadSession] using
    (Dictionary.perm_erase hget).length_eq.symm

/-- The loop of a retention that finds room. It retains nothing, and brings the number of sessions
down as far as it has to. -/
theorem retainLoop_retained {execution excess : ℕ}
    (h : (Registry.retainLoop execution excess registry).1 = true) :
    Shrinks registry (Registry.retainLoop execution excess registry).2 ∧
      (Registry.retainLoop execution excess registry).2.activeReadSessions.size + excess =
        registry.activeReadSessions.size := by
  induction excess generalizing registry with
  | zero => exact ⟨.refl registry, rfl⟩
  | succ excess ih =>
    cases hfind : registry.activeReadSessions.keys.find? fun other ↦
      decide (other ≠ execution) && registry.readSessionEvictable other with
    | none => simp only [Registry.retainLoop, hfind, Bool.false_eq_true] at h
    | some other =>
      simp only [Registry.retainLoop, hfind] at h ⊢
      obtain ⟨hshrinks, hsize⟩ := ih h
      have hevictable : registry.readSessionEvictable other = true := by
        have hboth := List.find?_some hfind
        simp only [Bool.and_eq_true] at hboth
        exact hboth.2
      have hone := size_evict (List.mem_of_find?_eq_some hfind)
      exact ⟨(evict_shrinks hevictable).trans hshrinks, by omega⟩

/-- The loop of a retention that gives its session up. The session is not retained, nor is another one
that was not. -/
theorem retainLoop_refused {execution excess : ℕ}
    (h : (Registry.retainLoop execution excess registry).1 = false) :
    Shrinks registry (Registry.retainLoop execution excess registry).2 ∧
      (Registry.retainLoop execution excess registry).2.activeReadSessions.get? execution = none := by
  induction excess generalizing registry with
  | zero => simp [Registry.retainLoop] at h
  | succ excess ih =>
    cases hfind : registry.activeReadSessions.keys.find? fun other ↦
      decide (other ≠ execution) && registry.readSessionEvictable other with
    | none =>
      simp only [Registry.retainLoop, hfind]
      exact ⟨⟨fun _ _ hactive ↦ get?_of_filter hactive, rfl, fun _ hmem _ ↦ .inl hmem⟩, by simp⟩
    | some other =>
      simp only [Registry.retainLoop, hfind] at h ⊢
      obtain ⟨hshrinks, hnone⟩ := ih h
      have hevictable : registry.readSessionEvictable other = true := by
        have hboth := List.find?_some hfind
        simp only [Bool.and_eq_true] at hboth
        exact hboth.2
      exact ⟨(evict_shrinks hevictable).trans hshrinks, hnone⟩

/-- The sessions that a retention adds to: the ones there were, and one of the identity. -/
theorem addSession_countP (record : ExecutionRecord) (execution expiresAt : ℕ)
    (summaries : Summaries) (registry : Registry E) (p : ℕ × Identity → Bool) :
    (registry.addSession record execution expiresAt summaries).activeReadSessions.entries.countP p ≤
      registry.activeReadSessions.entries.countP p +
        (if p (execution, record.target) then 1 else 0) := by
  have hnone : (registry.activeReadSessions.erase execution).get? execution = none := by simp
  have herased : (registry.activeReadSessions.erase execution).entries.countP p ≤
      registry.activeReadSessions.entries.countP p :=
    (Dictionary.subperm_of_get? fun _ _ h ↦ get?_of_filter h).countP_le p
  have hadded := (Dictionary.perm_insert (v := record.target) hnone).countP_eq p
  rw [List.countP_cons] at hadded
  show ((registry.activeReadSessions.erase execution).insert execution record.target).entries.countP
    p ≤ _
  omega

variable {record : ExecutionRecord}

theorem addSession_get? {execution expiresAt other : ℕ}
    {identity : Identity} (hne : other ≠ execution)
    (h : (registry.addSession record execution expiresAt summaries).activeReadSessions.get? other =
      some identity) : registry.activeReadSessions.get? other = some identity := by
  simpa [Registry.addSession, hne] using h

theorem retainResults_refused {execution expiresAt now : ℕ}
    (h : (registry.retainResults settings record execution expiresAt summaries now).1 = false) :
    Shrinks registry (registry.retainResults settings record execution expiresAt summaries now).2 :=
    by
  obtain ⟨hshrinks, hnone⟩ := retainLoop_refused h
  refine (purge_shrinks registry now).trans ⟨fun other identity hactive ↦ ?_, hshrinks.standing,
    hshrinks.closings⟩
  have hne : other ≠ execution := by
    rintro rfl
    rw [show (registry.retainResults settings record other expiresAt summaries
      now).2.activeReadSessions.get? other = none from hnone] at hactive
    cases hactive
  exact addSession_get? hne (hshrinks.sessions other identity hactive)

/-- A retention that finds room leaves no more sessions than the total limit, and beyond the new one
nothing is retained. -/
theorem retainResults_retained {execution expiresAt now : ℕ}
    (h : (registry.retainResults settings record execution expiresAt summaries now).1 = true) :
    Shrinks ((registry.purgeTransientResults now).addSession record execution expiresAt summaries)
        (registry.retainResults settings record execution expiresAt summaries now).2 ∧
      (registry.retainResults settings record execution expiresAt summaries
        now).2.activeReadSessions.size ≤ settings.maximumLiveReadSessions := by
  obtain ⟨hshrinks, hsize⟩ := retainLoop_retained h
  refine ⟨hshrinks, ?_⟩
  simp only [Registry.retainResults]
  omega

/-! ### The other calls -/

/-- `move_to_end` retains nothing. -/
theorem touch_shrinks (registry : Registry E) (execution : ℕ) :
    Shrinks registry (registry.touch execution) := by
  unfold Registry.touch
  split
  · next identity hget =>
    refine ⟨fun other found hactive ↦ ?_, rfl, fun _ h _ ↦ .inl h⟩
    simp only [Dictionary.get?_insert, Dictionary.get?_erase] at hactive
    split at hactive
    · next hsame =>
      rw [hsame, hget]
      exact hactive
    · exact hactive
  · exact .refl registry

theorem lease_shrinks (registry : Registry E) (thread : ℕ) (result : ResultId)
    (value : TransientResult) : Shrinks registry (registry.lease thread result value) :=
  .of_same rfl rfl rfl

theorem claimPage_shrinks (settings : Settings) (thread : ℕ) (request : Registry.PageRequest)
    (now : ℕ) (registry : Registry E) :
    Shrinks registry (registry.claimPage settings thread request now).2 := by
  have hpurge := purge_shrinks registry now
  have hpop : ∀ token, Shrinks (registry.purgeTransientResults now)
      ((registry.purgeTransientResults now).popCursor token) := fun _ ↦ .of_same rfl rfl rfl
  have hbegin : ∀ registry : Registry E, Shrinks registry
      (registry.beginPage thread request.result) := fun _ ↦ .of_same rfl rfl rfl
  have hclaims := registry.claimPage_claims settings thread request now
  generalize registry.claimPage settings thread request now = outcome at hclaims ⊢
  obtain ⟨reply, after⟩ := outcome
  cases hclaims with
  | refused => exact hpurge
  | spent refusal token => exact hpurge.trans (hpop token)
  | first =>
    exact ((hpurge.trans (hbegin _)).trans (lease_shrinks _ _ _ _)).trans (touch_shrinks _ _)
  | next =>
    exact (((hpurge.trans (hpop _)).trans (hbegin _)).trans (lease_shrinks _ _ _ _)).trans
      (touch_shrinks _ _)

theorem startExport_shrinks (thread : ℕ) (owner : String) (workspace : Option String)
    (execution : ℕ) (result : ResultId) (now : ℕ) (registry : Registry E) :
    Shrinks registry (registry.startExport thread owner workspace execution result now).2 := by
  have hpurge := purge_shrinks registry now
  unfold Registry.startExport
  dsimp only
  split
  · exact hpurge
  · split
    · exact hpurge
    · exact hpurge.trans (.of_same rfl rfl rfl)

theorem releaseLease_shrinks (thread : ℕ) (result : ResultId) (now : ℕ) (registry : Registry E) :
    Shrinks registry (registry.releaseLease thread result now) := by
  have hunleased : Shrinks registry (registry.unlease thread result) := .of_same rfl rfl rfl
  exact hunleased.trans (purge_shrinks _ now)

/-- The section of `close_result` retains nothing. -/
theorem closeResult_shrinks (result : ResultId) (registry : Registry E) :
    Shrinks registry (registry.closeResult result) := by
  have hdropped : Shrinks registry (registry.dropResult result) := .of_same rfl rfl rfl
  have hreason : Reason.request ≠ .eviction := by decide
  have hclosed := hdropped.trans (closeUnreferenced_shrinks _ hreason)
  simp only [Registry.closeResult]
  split
  · exact hclosed
  · exact hclosed.trans (.of_same rfl rfl rfl)

theorem fetches_shrinks {fetch : ReadCursor E → Except FetchProblem (List E.Row × ReadCursor E)}
    {move : ℕ → ReadCursor E → ReadCursor E} {result : ResultId}
    {reply : Except FetchProblem (List E.Row)}
    (h : Fetches fetch move result before reply after) : Shrinks before after := by
  cases h with
  | unavailable => exact .refl before
  | cancelled => exact .refl before
  | failed => exact .of_same rfl rfl rfl
  | raised =>
    split
    · exact .of_same rfl rfl rfl
    · exact .refl before
  | fetched => exact .of_same rfl rfl rfl

/-- The calls that may retain a session or let a preflight stand. -/
def Admitting : ReadCall E → Prop
  | .preflight _ | .retain _ _ => True
  | _ => False

theorem call_shrinks {records : ℕ → ExecutionRecord} {thread : ℕ}
    {request : ReadCall E} {reply : request.Reply E} (hother : ¬ Admitting request)
    (h : (registrySemantics settings records).perform thread request before reply after) :
    Shrinks before after := by
  cases request with
  | claim execution =>
    rcases h with ⟨rfl, -⟩ | ⟨-, -, rfl⟩
    · exact .refl after
    · exact .of_same rfl rfl rfl
  | resolve execution =>
    obtain rfl : after = before := h
    exact .refl after
  | storeFailure execution =>
    obtain rfl : after = before := h
    exact .refl after
  | getReceipt execution =>
    obtain rfl : after = before := h
    exact .refl after
  | storeClosed result =>
    obtain rfl : after = before := h
    exact .refl after
  | preflight execution => exact absurd trivial hother
  | retain execution summaries => exact absurd trivial hother
  | openReadSession execution =>
    cases h with
    | failed => exact .refl before
    | opened => exact .of_same rfl rfl rfl
  | succeed execution =>
    obtain ⟨rfl, -⟩ := h
    exact .refl after
  | closeReadSession execution =>
    obtain rfl := h
    exact .of_same rfl rfl rfl
  | claimPage request =>
    obtain ⟨now, hclaim⟩ := h
    obtain rfl : after = _ := congrArg Prod.snd hclaim
    exact claimPage_shrinks settings thread request now before
  | fetchPage result offset pageSize => exact fetches_shrinks h
  | hasBufferedRows result =>
    obtain ⟨rfl, -⟩ := h
    exact .refl after
  | respond result cursor offset rows hasMore =>
    cases h with
    | last => exact .of_same rfl rfl rfl
    | next => exact .of_same rfl rfl rfl
  | markPendingClose execution =>
    obtain rfl := h
    exact .of_same rfl rfl rfl
  | releaseLease result =>
    obtain ⟨now, rfl⟩ := h
    exact releaseLease_shrinks thread result now before
  | startExport owner workspace execution result =>
    obtain ⟨now, hstart⟩ := h
    obtain rfl : after = _ := congrArg Prod.snd hstart
    exact startExport_shrinks thread owner workspace execution result now before
  | fetchExport result offset pageSize => exact fetches_shrinks h
  | closeResult result =>
    obtain rfl := h
    exact closeResult_shrinks result before
  | requestCancel execution =>
    rcases h with ⟨problem, -, rfl⟩ | ⟨-, rfl⟩
    · exact .refl after
    · exact .of_same rfl rfl rfl
  | unprotect execution =>
    obtain ⟨rfl, -⟩ := h
    exact .of_same rfl rfl rfl
  | cancelReadSession execution =>
    rcases perform_cancelReadSession h with ⟨connection, -, rfl⟩ | ⟨-, rfl⟩
    · exact .of_same rfl rfl rfl
    · exact .refl after
  | clear =>
    obtain ⟨-, rfl⟩ := h
    exact ⟨fun _ _ hactive ↦ (by cases hactive), rfl, fun _ hmem _ ↦ .inl hmem⟩
  | reclaim identity globalCapacity =>
    obtain ⟨now, hreclaim⟩ := h
    obtain rfl : after = _ := congrArg Prod.snd hreclaim
    exact (purge_shrinks before now).trans
      (evicts_shrinks (before.reclaimReadSession_evicts identity globalCapacity now))
  | protect execution =>
    obtain ⟨now, later, rfl⟩ := h
    exact (purge_shrinks before now).trans (.of_same rfl rfl rfl)

/-! ### Both limits -/

/-- The limits, and the room that a standing preflight has made. -/
structure LimitsInv (settings : Settings) (records : ℕ → ExecutionRecord) (registry : Registry E) :
    Prop where
  total : registry.activeReadSessions.size ≤ settings.maximumLiveReadSessions
  identity : ∀ identity, (registry.ofIdentity identity).length ≤
    settings.maximumLiveReadSessionsPerIdentity
  standing : ∀ execution, registry.standing execution = true →
    (registry.ofIdentity (records execution).target).length <
      settings.maximumLiveReadSessionsPerIdentity
  evictions : ∀ closing ∈ registry.closings, closing.reason = .eviction →
    closing.leased = false ∧ closing.protectedThen = false

section Invariant

variable {settings : Settings} {records : ℕ → ExecutionRecord} {before after : Registry E}
  (h : LimitsInv settings records before)

include h in
theorem LimitsInv.evictions_of (hclosings : ∀ closing ∈ after.closings, closing.reason = .eviction →
      closing ∈ before.closings ∨ (closing.leased = false ∧ closing.protectedThen = false)) :
    ∀ closing ∈ after.closings, closing.reason = .eviction →
      closing.leased = false ∧ closing.protectedThen = false := by
  intro closing hmem hreason
  rcases hclosings closing hmem hreason with hold | hfree
  · exact h.evictions closing hold hreason
  · exact hfree

include h in
theorem LimitsInv.shrinks (hshrinks : Shrinks before after) : LimitsInv settings records after where
  total := hshrinks.size_le.trans h.total
  identity := fun identity ↦ (hshrinks.ofIdentity_le identity).trans (h.identity identity)
  standing := fun execution hstanding ↦
    (hshrinks.ofIdentity_le _).trans_lt (h.standing execution (hshrinks.standing ▸ hstanding))
  evictions := h.evictions_of hshrinks.closings

include h in
theorem LimitsInv.admits {execution : ℕ} {reply : Except Problem Unit}
    (hadmits : Admits settings records execution before reply after) :
    LimitsInv settings records after := by
  cases hadmits with
  | refused now hfull => exact h.shrinks (makeReadSessionCapacity_shrinks _ _ _ _)
  | admitted now hroom =>
    have hkept := h.shrinks (makeReadSessionCapacity_shrinks settings (records execution).target now
      before)
    refine ⟨hkept.total, hkept.identity, fun other hstanding ↦ ?_, hkept.evictions⟩
    by_cases hsame : other = execution
    · subst hsame
      exact makeReadSessionCapacity_room hroom
    · exact hkept.standing other (by simpa [Function.update_of_ne hsame] using hstanding)

include h in
theorem LimitsInv.retains {execution : ℕ} {reply : Except Problem Unit}
    (hstands : before.standing execution = true)
    (hretains : Retains settings records execution summaries before reply after) :
    LimitsInv settings records after := by
  cases hretains with
  | refused expiresAt now hfull => exact h.shrinks (retainResults_refused hfull)
  | retained expiresAt now hroom =>
    obtain ⟨hshrinks, htotal⟩ := retainResults_retained hroom
    have hpurged := h.shrinks (purge_shrinks before now)
    -- The sessions of an identity: those there were, and the new one.
    have hcount : ∀ identity, ((before.retainResults settings (records execution) execution expiresAt
        summaries now).2.ofIdentity identity).length ≤
          ((before.purgeTransientResults now).ofIdentity identity).length +
            (if (records execution).target = identity then 1 else 0) := by
      intro identity
      have hadded := addSession_countP (records execution) execution expiresAt summaries
        (before.purgeTransientResults now) fun entry ↦ decide (entry.2 = identity)
      have hafter := hshrinks.ofIdentity_le identity
      simp only [length_ofIdentity, decide_eq_true_eq] at *
      omega
    refine ⟨htotal, fun identity ↦ ?_, fun other hstanding ↦ ?_,
      hpurged.evictions_of hshrinks.closings⟩
    · have hle := hcount identity
      have hroomy := hpurged.standing execution hstands
      have hold := hpurged.identity identity
      change ((before.retainResults settings (records execution) execution expiresAt summaries
        now).2.ofIdentity identity).length ≤ _
      split at hle
      · next hsame =>
        subst hsame
        omega
      · omega
    · have hboth : (before.retainResults settings (records execution) execution expiresAt summaries
          now).2.standing other = true ∧ (records other).target ≠ (records execution).target := by
        simpa [Registry.overtake] using hstanding
      have hstill : (before.purgeTransientResults now).standing other = true := by
        rw [hshrinks.standing] at hboth
        exact hboth.1
      have hle := hcount (records other).target
      rw [if_neg hboth.2.symm] at hle
      have hroomy := hpurged.standing other hstill
      change ((before.retainResults settings (records execution) execution expiresAt summaries
        now).2.ofIdentity _).length < _
      omega

/-- The condition: a retention whose preflight stands, since no other run of its identity has retained
a session after it. -/
def preflightStands : ReadCall E → Registry E → Bool
  | .retain execution _, registry => registry.standing execution
  | _, _ => true

include h in
theorem LimitsInv.call {thread : ℕ} {request : ReadCall E} {reply : request.Reply E}
    (hstands : preflightStands request before = true)
    (hperform : (registrySemantics settings records).perform thread request before reply after) :
    LimitsInv settings records after := by
  by_cases hadmitting : Admitting request
  · cases request with
    | preflight execution => exact h.admits hperform
    | retain execution summaries => exact h.retains hstands hperform
    | _ => exact hadmitting.elim
  · exact h.shrinks (call_shrinks hadmitting hperform)

theorem limitsInv_initial : LimitsInv settings records (Registry.initial : Registry E) where
  total := Nat.zero_le _
  identity := fun _ ↦ Nat.zero_le _
  standing := fun _ hstanding ↦ by cases hstanding
  evictions := fun _ hmem ↦ by cases hmem

end Invariant

/-- The limits on read sessions. Assumes: a state that some interleaving of the programs of the service
reaches, in which every retention finds its preflight standing. At most the total number of sessions
is retained, at most the number for every identity, and no eviction closed a session that was leased
or protected. -/
theorem read_session_limits (settings : Settings) (records : ℕ → ExecutionRecord)
    (pool : Pool (readInterface E) Problem (Registry E))
    (hreach : Pool.Reachable ((registrySemantics settings records).restrict
      fun request registry ↦ preflightStands request registry = true)
      (Starts E) (· = Registry.initial) pool) :
    pool.world.activeReadSessions.size ≤ settings.maximumLiveReadSessions ∧
      (∀ identity, (pool.world.ofIdentity identity).length ≤
        settings.maximumLiveReadSessionsPerIdentity) ∧
      ∀ closing ∈ pool.world.closings, closing.reason = .eviction →
        closing.leased = false ∧ closing.protectedThen = false := by
  have hinv : LimitsInv settings records pool.world := by
    refine @Pool.Reachable.invariant _ _ _ _ _ _ (LimitsInv settings records) ?_ ?_ ?_ pool hreach
    · rintro world rfl
      exact limitsInv_initial
    · exact fun thread request before reply after h hperform ↦ h.call hperform.1 hperform.2
    · exact fun _ _ _ henvironment ↦ henvironment.elim
  exact ⟨hinv.total, hinv.identity, hinv.evictions⟩

/-- Room for four sessions, and for one of each identity. -/
def oneEach : Settings := ⟨100, 1000, 4, 1, 900⟩

/-- Two runs in turn, each of which finds its preflight standing: the second evicts the session of the
first. -/
theorem runs_in_turn_within_limits :
    ((samplePool oneEach [1, 2] [run _ 1, run _ 2]
        [0, 0, 0, 0, 0, 0, 1, 1, 1, 1, 1, 1]).world.ofIdentity ("connection", 1)).length ≤ 1 :=
  (read_session_limits oneEach (fun _ ↦ sampleRecord) _ (samplePool_reachable
    (fun program hmem ↦ by
      simp only [List.mem_cons, List.not_mem_nil, or_false] at hmem
      rcases hmem with rfl | rfl
      · exact .run 1
      · exact .run 2)
    (by decide))).2.1 ("connection", 1)

/-- Two runs of one identity make their preflights before either retains its session. Both are
retained. -/
theorem raced_runs_exceed_identity_limit :
    ∃ pool, Pool.Reachable (registrySemantics oneEach fun _ ↦ sampleRecord) (Starts numberRows)
        (· = Registry.initial) pool ∧
      oneEach.maximumLiveReadSessionsPerIdentity <
        (pool.world.ofIdentity ("connection", 1)).length := by
  refine ⟨samplePool oneEach [1, 2] [run _ 1, run _ 2] [0, 1, 0, 1, 0, 1, 0, 1, 0, 1, 0, 1],
    (samplePool_reachable (fun program hmem ↦ ?_) (Pool.follows_true _ _ _)).of_restrict,
    by decide⟩
  simp only [List.mem_cons, List.not_mem_nil, or_false] at hmem
  rcases hmem with rfl | rfl
  · exact .run 1
  · exact .run 2

end Schemii.ReadSessions
