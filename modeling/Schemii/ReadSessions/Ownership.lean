import Schemii.ReadSessions.Limits

/-!
# Who holds a read session

The correspondence that every section of the registry restores. A retained session has a transient
result; the leases of a result are the pages and exports that are under way; an open connection is
retained, or some call that is under way has to close it (`RegistryInv`). `OwnRely` is what a call may
rely on meanwhile: its leases are its own, the session it opened is untouched until it is retained,
and no one hands it a connection.

* `Undisturbed`: what purges, evictions, closings and reads leave alone.
* `purge_restores`, `evict_restores`, `closeResult_restores`, `retainResults_restores`,
  `lease_restores`, `unlease_restores`: the sections restore the correspondence.
-/

set_option autoImplicit false

namespace Schemii.ReadSessions

open Schemii.Foundations

variable {E : Encoding}
variable {before after : Registry E} {first second third : Registry E} {record : ExecutionRecord}
  {summaries : Summaries}

/-! ### The correspondence -/

/-- The correspondence but for the results of the retained sessions. -/
structure BaseInv (registry : Registry E) : Prop where
  /-- The leases of a result are the pages and exports that are under way. -/
  leases : ∀ result value, registry.transientResults.get? result = some value →
    value.activeExports = (registry.leases.map Prod.snd).count result
  /-- Results, leases and retained sessions are of executions that were retained. -/
  results : ∀ result value, registry.transientResults.get? result = some value →
    registry.retained result.execution = true
  leased : ∀ lease ∈ registry.leases, registry.retained lease.2.execution = true
  active : ∀ execution identity, registry.activeReadSessions.get? execution = some identity →
    registry.retained execution = true
  /-- An execution that no run claimed was not retained and has no connection. -/
  claimed : ∀ execution, registry.claimedBy execution = none →
    registry.retained execution = false ∧ registry.connections.get? execution = none
  /-- An open connection that no call has to close is retained. -/
  owned : ∀ execution connection, registry.connections.get? execution = some connection →
    connection.closed = false → connection.holder = none →
      registry.activeReadSessions.contains execution = true
  /-- What a purge or an eviction closed was neither leased nor protected. -/
  closings : ∀ closing ∈ registry.closings, closing.reason ≠ .request →
    closing.leased = false ∧ closing.protectedThen = false
  /-- No call has two leases. -/
  single : (registry.leases.map Prod.fst).Nodup

/-- The correspondence: every retained session has a result. -/
structure RegistryInv (registry : Registry E) : Prop extends BaseInv registry where
  referenced : ∀ execution identity, registry.activeReadSessions.get? execution = some identity →
    registry.referenced execution = true

/-- What a call may rely on while the others act. -/
structure OwnRely (thread : ℕ) (before after : Registry E) : Prop where
  /-- Its leases are its own. -/
  leases : ∀ result, after.leases.count (thread, result) = before.leases.count (thread, result)
  /-- The execution that it claimed is its own, with its connection, until it is retained. -/
  claimed : ∀ execution, before.claimedBy execution = some thread →
    after.claimedBy execution = some thread ∧ (before.retained execution = false →
      after.retained execution = false ∧
      after.connections.get? execution = before.connections.get? execution)
  /-- No one hands it a connection to close. -/
  held : ∀ execution connection, after.connections.get? execution = some connection →
    connection.closed = false → connection.holder = some thread → ∃ connection',
      before.connections.get? execution = some connection' ∧ connection'.closed = false ∧
      connection'.holder = some thread
  /-- An execution that was retained stays so. -/
  retained : ∀ execution, before.retained execution = true → after.retained execution = true

theorem OwnRely.refl (thread : ℕ) (registry : Registry E) : OwnRely thread registry registry where
  leases := fun _ ↦ rfl
  claimed := fun _ hclaimed ↦ ⟨hclaimed, fun hretained ↦ ⟨hretained, rfl⟩⟩
  held := fun _ connection hconnection hopen hholder ↦ ⟨connection, hconnection, hopen, hholder⟩
  retained := fun _ hretained ↦ hretained

variable {thread : ℕ}

theorem OwnRely.trans (h : OwnRely thread first second)
    (h' : OwnRely thread second third) : OwnRely thread first third where
  leases := fun result ↦ (h'.leases result).trans (h.leases result)
  claimed := fun execution hclaimed ↦ by
    obtain ⟨hsecond, hkept⟩ := h.claimed execution hclaimed
    obtain ⟨hthird, hkept'⟩ := h'.claimed execution hsecond
    refine ⟨hthird, fun hretained ↦ ?_⟩
    obtain ⟨hretained', hsame⟩ := hkept hretained
    obtain ⟨hretained'', hsame'⟩ := hkept' hretained'
    exact ⟨hretained'', hsame'.trans hsame⟩
  held := fun execution connection hconnection hopen hholder ↦ by
    obtain ⟨middle, hmiddle, hopen', hholder'⟩ := h'.held execution connection hconnection hopen hholder
    exact h.held execution middle hmiddle hopen' hholder'
  retained := fun execution hretained ↦ h'.retained execution (h.retained execution hretained)

/-- The correspondence and what the calls rely on. -/
def ownership (S : Semantics (readInterface E) (Registry E)) : RelyGuarantee S where
  inv := RegistryInv
  rely := OwnRely
  rely_refl := OwnRely.refl
  rely_trans := fun _ _ _ _ ↦ OwnRely.trans

/-! ### Changes that disturb no call -/

/-- The leases and the claims stay, and so do the connections, but for the ones of executions that were
retained: these may be closed and read. -/
structure Undisturbed (before after : Registry E) : Prop where
  leases : after.leases = before.leases
  claimedBy : after.claimedBy = before.claimedBy
  retained : after.retained = before.retained
  connections : ∀ execution, after.connections.get? execution = before.connections.get? execution ∨
    (before.retained execution = true ∧ ∃ connection connection',
      before.connections.get? execution = some connection ∧
      after.connections.get? execution = some connection' ∧
      connection'.holder = connection.holder ∧ (connection.closed = true → connection'.closed = true))

namespace Undisturbed

variable {before after : Registry E}

theorem refl (registry : Registry E) : Undisturbed registry registry :=
  ⟨rfl, rfl, rfl, fun _ ↦ .inl rfl⟩

theorem of_same (hleases : after.leases = before.leases)
    (hclaimed : after.claimedBy = before.claimedBy) (hretained : after.retained = before.retained)
    (hconnections : after.connections = before.connections) : Undisturbed before after :=
  ⟨hleases, hclaimed, hretained, fun _ ↦ .inl (by rw [hconnections])⟩

theorem trans (h : Undisturbed first second)
    (h' : Undisturbed second third) : Undisturbed first third where
  leases := h'.leases.trans h.leases
  claimedBy := h'.claimedBy.trans h.claimedBy
  retained := h'.retained.trans h.retained
  connections := fun execution ↦ by
    rcases h'.connections execution with hsame' | ⟨hretained', middle, last, hmiddle, hlast, hholder',
      hclosed'⟩
    · rw [hsame']
      exact h.connections execution
    · rcases h.connections execution with hsame | ⟨hretained, begun, middle', hbegun, hmiddle',
        hholder, hclosed⟩
      · exact .inr ⟨h.retained ▸ hretained', middle, last, hsame ▸ hmiddle, hlast, hholder', hclosed'⟩
      · obtain rfl := Option.some.inj (hmiddle.symm.trans hmiddle')
        exact .inr ⟨hretained, begun, last, hbegun, hlast, hholder'.trans hholder,
          fun hbegunClosed ↦ hclosed' (hclosed hbegunClosed)⟩

theorem rely (h : Undisturbed before after) (thread : ℕ) : OwnRely thread before after where
  leases := fun result ↦ by rw [h.leases]
  claimed := fun execution hclaimed ↦ by
    refine ⟨h.claimedBy ▸ hclaimed, fun hretained ↦ ⟨h.retained ▸ hretained, ?_⟩⟩
    rcases h.connections execution with hsame | ⟨hwas, -⟩
    · exact hsame
    · rw [hretained] at hwas
      cases hwas
  held := fun execution connection hconnection hopen hholder ↦ by
    rcases h.connections execution with hsame | ⟨-, begun, last, hbegun, hlast, hsame, hclosed⟩
    · exact ⟨connection, hsame ▸ hconnection, hopen, hholder⟩
    · obtain rfl := Option.some.inj (hconnection.symm.trans hlast)
      refine ⟨begun, hbegun, ?_, hsame ▸ hholder⟩
      by_contra hbegunClosed
      rw [hclosed (by simpa using hbegunClosed)] at hopen
      cases hopen
  retained := fun execution hretained ↦ h.retained ▸ hretained

end Undisturbed

/-! ### Sections that close sessions -/

theorem get?_closeConnections (registry : Registry E) (closes : ℕ → Bool) (execution : ℕ) :
    (registry.closeConnections closes).connections.get? execution =
      (registry.connections.get? execution).map fun connection ↦
        if closes execution then { connection with closed := true, readers := .empty }
        else connection := by
  simp [Registry.closeConnections]

/-- Assumes: only connections of retained executions are closed. No call is disturbed. -/
theorem closeConnections_undisturbed {registry : Registry E} {closes : ℕ → Bool}
    (h : ∀ execution, closes execution = true → registry.retained execution = true) :
    Undisturbed registry (registry.closeConnections closes) := by
  refine ⟨rfl, rfl, rfl, fun execution ↦ ?_⟩
  rw [get?_closeConnections]
  cases hclosed : closes execution with
  | false =>
    left
    cases registry.connections.get? execution <;> simp
  | true =>
    cases hconnection : registry.connections.get? execution with
    | none => exact .inl rfl
    | some connection => exact .inr ⟨h execution hclosed, connection, _, rfl, rfl, rfl, fun _ ↦ rfl⟩

variable {execution : ℕ}

theorem open_of_closeConnections {registry : Registry E} {closes : ℕ → Bool}
    {connection : Connection E}
    (h : (registry.closeConnections closes).connections.get? execution = some connection)
    (hopen : connection.closed = false) :
    closes execution = false ∧ registry.connections.get? execution = some connection := by
  rw [get?_closeConnections] at h
  obtain ⟨before, hbefore, hsame⟩ := Option.map_eq_some_iff.1 h
  cases hclosed : closes execution with
  | false =>
    rw [hclosed] at hsame
    exact ⟨rfl, hsame ▸ hbefore⟩
  | true =>
    rw [hclosed] at hsame
    subst hsame
    cases hopen

theorem leased_of_unreferenced {registry : Registry E}
    (h : registry.referenced execution = false) : registry.leased execution = false := by
  by_contra hleased
  simp only [Registry.leased, Bool.not_eq_false, List.any_eq_true] at hleased
  obtain ⟨entry, hentry, hboth⟩ := hleased
  have hreferenced : registry.referenced execution = true := by
    simp only [Bool.and_eq_true] at hboth
    exact List.any_eq_true.2 ⟨entry.1, List.mem_map.2 ⟨entry, hentry, rfl⟩, hboth.1⟩
  rw [h] at hreferenced
  cases hreferenced

theorem referenced_iff {registry : Registry E} :
    registry.referenced execution = true ↔ ∃ result value,
      registry.transientResults.get? result = some value ∧ result.execution = execution := by
  simp only [Registry.referenced, List.any_eq_true, decide_eq_true_eq]
  constructor
  · rintro ⟨result, hmem, hexecution⟩
    obtain ⟨value, hvalue⟩ := Dictionary.mem_keys.1 hmem
    exact ⟨result, value, hvalue, hexecution⟩
  · rintro ⟨result, value, hvalue, hexecution⟩
    exact ⟨result, Dictionary.mem_keys.2 ⟨value, hvalue⟩, hexecution⟩

section CloseUnreferenced

variable {registry : Registry E} {reason : Reason}

theorem closeUnreferenced_undisturbed (h : BaseInv registry) :
    Undisturbed registry (registry.closeUnreferencedReadSessions reason) := by
  have hclosed := @closeConnections_undisturbed E registry (fun execution ↦
    registry.activeReadSessions.contains execution && !registry.referenced execution)
    fun execution hdropped ↦ by
      simp only [Bool.and_eq_true] at hdropped
      obtain ⟨identity, hactive⟩ := Dictionary.contains_iff.1 hdropped.1
      exact h.active execution identity hactive
  exact ⟨hclosed.leases, hclosed.claimedBy, hclosed.retained, hclosed.connections⟩

/-- Assumes: the correspondence but for the results, and what a purge closes is not protected. After the
sessions without results are closed, every retained session has a result. -/
theorem closeUnreferenced_inv (h : BaseInv registry)
    (hprotected : reason ≠ .request → ∀ execution,
      registry.activeReadSessions.contains execution = true →
      registry.referenced execution = false →
      registry.protectedResults.contains execution = false) :
    RegistryInv (registry.closeUnreferencedReadSessions reason) where
  leases := h.leases
  results := h.results
  leased := h.leased
  active := fun execution identity hactive ↦ h.active execution identity (get?_of_filter hactive)
  claimed := fun execution hclaimed ↦ by
    obtain ⟨hretained, hnone⟩ := h.claimed execution hclaimed
    refine ⟨hretained, ?_⟩
    show (registry.closeConnections _).connections.get? execution = none
    rw [get?_closeConnections, hnone]
    rfl
  owned := fun execution connection hconnection hopen hholder ↦ by
    obtain ⟨hkept, hbefore⟩ := open_of_closeConnections hconnection hopen
    have hactive := h.owned execution connection hbefore hopen hholder
    obtain ⟨identity, hidentity⟩ := Dictionary.contains_iff.1 hactive
    refine Dictionary.contains_iff.2 ⟨identity, ?_⟩
    show (registry.activeReadSessions.filter _).get? execution = some identity
    rw [Dictionary.get?_filter, hidentity]
    simp [hkept]
  closings := fun closing hmem hreason ↦ by
    rcases List.mem_append.1 hmem with hnew | hold
    · obtain ⟨execution, hdropped, rfl⟩ := List.mem_map.1 hnew
      have hboth := (List.mem_filter.1 hdropped).2
      simp only [Bool.and_eq_true, Bool.not_eq_true'] at hboth
      exact ⟨leased_of_unreferenced hboth.2, hprotected hreason execution hboth.1 hboth.2⟩
    · exact h.closings closing hold hreason
  single := h.single
  referenced := fun execution identity hactive ↦ by
    change (registry.activeReadSessions.filter _).get? execution = some identity at hactive
    rw [Dictionary.get?_filter, Option.filter_eq_some_iff] at hactive
    obtain ⟨hbefore, hkept⟩ := hactive
    have hcontains : registry.activeReadSessions.contains execution = true :=
      Dictionary.contains_iff.2 ⟨identity, hbefore⟩
    have hstill : registry.referenced execution = true := by simpa [hcontains] using hkept
    exact hstill

end CloseUnreferenced

/-! ### Purges -/

variable {result : ResultId}

theorem get?_dropExpired {registry : Registry E} {now : ℕ} {value : TransientResult}
    (h : (registry.dropExpired now).transientResults.get? result = some value) :
    registry.transientResults.get? result = some value :=
  get?_of_filter h

theorem dropExpired_inv {registry : Registry E} (h : BaseInv registry) (now : ℕ) :
    BaseInv (registry.dropExpired now) where
  leases := fun result value hvalue ↦ h.leases result value (get?_dropExpired hvalue)
  results := fun result value hvalue ↦ h.results result value (get?_dropExpired hvalue)
  leased := h.leased
  active := h.active
  claimed := h.claimed
  owned := h.owned
  closings := h.closings
  single := h.single

theorem purge_inv {registry : Registry E} (h : RegistryInv registry) (now : ℕ) :
    RegistryInv (registry.purgeTransientResults now) := by
  refine closeUnreferenced_inv (dropExpired_inv h.toBaseInv now) fun _ execution hactive hgone ↦ ?_
  obtain ⟨identity, hidentity⟩ := Dictionary.contains_iff.1 hactive
  have hreferenced : registry.referenced execution = true := h.referenced execution identity hidentity
  -- Its last results are dropped now, so it is not protected any more.
  by_contra hprotected
  obtain ⟨expires, hexpires⟩ := Dictionary.contains_iff.1 (by simpa using hprotected)
  change (registry.protectedResults.filter _).get? execution = some expires at hexpires
  rw [Dictionary.get?_filter, Option.filter_eq_some_iff] at hexpires
  have hkept := hexpires.2
  simp only [hreferenced, Bool.true_and, Bool.and_eq_true, Bool.not_not] at hkept
  rw [show (registry.dropExpired now).referenced execution = true from hkept.2] at hgone
  cases hgone

theorem purge_undisturbed {registry : Registry E} (h : RegistryInv registry) (now : ℕ) :
    Undisturbed registry (registry.purgeTransientResults now) := by
  have hdropped : Undisturbed registry (registry.dropExpired now) := .of_same rfl rfl rfl rfl
  exact hdropped.trans (closeUnreferenced_undisturbed (dropExpired_inv h.toBaseInv now))

/-- A change that keeps the correspondence and disturbs no call. -/
def Restores (before after : Registry E) : Prop := RegistryInv after ∧ Undisturbed before after

theorem Restores.trans (h : Restores first second)
    (h' : Restores second third) : Restores first third :=
  ⟨h'.1, h.2.trans h'.2⟩

theorem purge_restores {registry : Registry E} (h : RegistryInv registry) (now : ℕ) :
    Restores registry (registry.purgeTransientResults now) :=
  ⟨purge_inv h now, purge_undisturbed h now⟩

/-- Assumes: a change that disturbs no call and leaves the results, the retained sessions and the
closings. It restores the correspondence. -/
theorem Restores.of_undisturbed (h : RegistryInv before) (hundisturbed : Undisturbed before after)
    (hresults : after.transientResults = before.transientResults)
    (hactive : ∀ execution, after.activeReadSessions.get? execution =
      before.activeReadSessions.get? execution)
    (hclosings : after.closings = before.closings) : Restores before after := by
  refine ⟨⟨⟨?_, ?_, ?_, ?_, fun execution hfree ↦ ?_,
    fun execution connection hconnection hopen hholder ↦ ?_, ?_, ?_⟩,
    fun execution identity hget ↦ ?_⟩, hundisturbed⟩
  · rw [hresults, hundisturbed.leases]
    exact h.leases
  · rw [hresults, hundisturbed.retained]
    exact h.results
  · rw [hundisturbed.leases, hundisturbed.retained]
    exact h.leased
  · simp only [hactive, hundisturbed.retained]
    exact h.active
  · rw [hundisturbed.claimedBy] at hfree
    obtain ⟨hretained, hnone⟩ := h.claimed execution hfree
    refine ⟨hundisturbed.retained ▸ hretained, ?_⟩
    rcases hundisturbed.connections execution with hsame | ⟨hwas, -⟩
    · rw [hsame, hnone]
    · rw [hretained] at hwas
      cases hwas
  · simp only [Dictionary.contains, hactive]
    rcases hundisturbed.connections execution with hsame | ⟨-, begun, last, hbegun, hlast, hsame, hclosed⟩
    · exact h.owned execution connection (hsame ▸ hconnection) hopen hholder
    · obtain rfl := Option.some.inj (hconnection.symm.trans hlast)
      refine h.owned execution begun hbegun ?_ (hsame ▸ hholder)
      by_contra hbegunClosed
      rw [hclosed (by simpa using hbegunClosed)] at hopen
      cases hopen
  · rw [hclosings]
    exact h.closings
  · rw [hundisturbed.leases]
    exact h.single
  · rw [hactive] at hget
    rw [Registry.referenced, hresults]
    exact h.referenced execution identity hget

/-- Assumes: results, retained sessions, connections, leases, claims and closings stay. -/
theorem Restores.of_same (h : RegistryInv before)
    (hresults : after.transientResults = before.transientResults)
    (hactive : after.activeReadSessions = before.activeReadSessions)
    (hconnections : after.connections = before.connections)
    (hleases : after.leases = before.leases) (hclaimed : after.claimedBy = before.claimedBy)
    (hretained : after.retained = before.retained) (hclosings : after.closings = before.closings) :
    Restores before after :=
  .of_undisturbed h (.of_same hleases hclaimed hretained hconnections) hresults
    (fun _ ↦ by rw [hactive]) hclosings

/-! ### Evictions -/

/-- Dropping a session with its results. Assumes: it was retained, its connection is closed, and the
closings are as they should be. -/
theorem dropSession_restores (h : RegistryInv before) (hretained : before.retained execution = true)
    (hresults : after.transientResults = before.transientResults.filter fun result _ ↦
      decide (result.execution ≠ execution))
    (hactive : after.activeReadSessions = before.activeReadSessions.erase execution)
    (hconnections : after.connections =
      (before.closeConnections fun other ↦ decide (other = execution)).connections)
    (hleases : after.leases = before.leases) (hclaimed : after.claimedBy = before.claimedBy)
    (hsame : after.retained = before.retained)
    (hclosings : ∀ closing ∈ after.closings, closing.reason ≠ .request →
      closing.leased = false ∧ closing.protectedThen = false) : Restores before after := by
  have hclosed := @closeConnections_undisturbed E before (fun other ↦ decide (other = execution))
    fun other hother ↦ by
      obtain rfl : other = execution := by simpa using hother
      exact hretained
  refine ⟨⟨⟨fun result value hvalue ↦ ?_, fun result value hvalue ↦ ?_, ?_,
    fun other found hfound ↦ ?_, fun other hother ↦ ?_,
    fun other connection hconnection hopen hholder ↦ ?_, hclosings, by rw [hleases]; exact h.single⟩,
    fun other found hfound ↦ ?_⟩,
    ⟨hleases, hclaimed, hsame, fun other ↦ by rw [hconnections]; exact hclosed.connections other⟩⟩
  · rw [hresults] at hvalue
    rw [hleases]
    exact h.leases result value (get?_of_filter hvalue)
  · rw [hresults] at hvalue
    rw [hsame]
    exact h.results result value (get?_of_filter hvalue)
  · rw [hleases, hsame]
    exact h.leased
  · rw [hactive] at hfound
    rw [hsame]
    exact h.active other found (get?_of_filter hfound)
  · rw [hclaimed] at hother
    obtain ⟨hnot, hnone⟩ := h.claimed other hother
    refine ⟨hsame ▸ hnot, ?_⟩
    rw [hconnections, get?_closeConnections, hnone]
    rfl
  · rw [hconnections] at hconnection
    obtain ⟨hkept, hbefore⟩ := open_of_closeConnections hconnection hopen
    have hne : other ≠ execution := by simpa using hkept
    obtain ⟨found, hfound⟩ := Dictionary.contains_iff.1 (h.owned other connection hbefore hopen hholder)
    refine Dictionary.contains_iff.2 ⟨found, ?_⟩
    rw [hactive, Dictionary.get?_erase, if_neg hne]
    exact hfound
  · rw [hactive, Dictionary.get?_erase] at hfound
    split at hfound
    · cases hfound
    · next hne =>
      obtain ⟨result, value, hvalue, hexecution⟩ := referenced_iff.1 (h.referenced other found hfound)
      refine referenced_iff.2 ⟨result, value, ?_, hexecution⟩
      rw [hresults, Dictionary.get?_filter, hvalue]
      simp [hexecution, hne]

theorem evict_restores {registry : Registry E} (h : RegistryInv registry)
    (hactive : execution ∈ registry.activeReadSessions.keys)
    (hevictable : registry.readSessionEvictable execution = true) :
    Restores registry (registry.evictReadSession execution) := by
  obtain ⟨identity, hidentity⟩ := Dictionary.mem_keys.1 hactive
  refine dropSession_restores h (h.active execution identity hidentity) rfl rfl rfl rfl rfl rfl
    fun closing hmem hreason ↦ ?_
  rcases List.mem_cons.1 hmem with rfl | hold
  · simp only [Registry.readSessionEvictable, Bool.and_eq_true, Bool.not_eq_true'] at hevictable
    exact ⟨hevictable.2, hevictable.1⟩
  · exact h.closings closing hold hreason

theorem evicts_restores {registry after : Registry E} {now : ℕ} (h : RegistryInv registry)
    (hevicts : Registry.EvictsSome (registry.purgeTransientResults now) after) :
    Restores registry after := by
  induction hevicts with
  | refl => exact purge_restores h now
  | tail _ hevicts ih =>
    obtain ⟨execution, hactive, hevictable, rfl⟩ := hevicts
    exact ih.trans (evict_restores ih.1 hactive hevictable)

/-! ### Closing and giving up results -/

/-- Assumes: results are dropped or changed without changing their leases. The correspondence holds but
for the sessions without results. -/
theorem BaseInv.of_results (h : BaseInv before)
    (hresults : ∀ result value, after.transientResults.get? result = some value →
      ∃ old, before.transientResults.get? result = some old ∧ old.activeExports = value.activeExports)
    (hactive : after.activeReadSessions = before.activeReadSessions)
    (hconnections : after.connections = before.connections)
    (hleases : after.leases = before.leases) (hclaimed : after.claimedBy = before.claimedBy)
    (hretained : after.retained = before.retained) (hclosings : after.closings = before.closings) :
    BaseInv after := by
  refine ⟨fun result value hvalue ↦ ?_, fun result value hvalue ↦ ?_, ?_, ?_, ?_, ?_, ?_, ?_⟩
  · obtain ⟨old, hold, hsame⟩ := hresults result value hvalue
    rw [hleases, ← hsame]
    exact h.leases result old hold
  · obtain ⟨old, hold, -⟩ := hresults result value hvalue
    rw [hretained]
    exact h.results result old hold
  · rw [hleases, hretained]
    exact h.leased
  · rw [hactive, hretained]
    exact h.active
  · rw [hclaimed, hretained, hconnections]
    exact h.claimed
  · rw [hconnections, hactive]
    exact h.owned
  · rw [hclosings]
    exact h.closings
  · rw [hleases]
    exact h.single

/-- The section of `close_result` restores the correspondence. -/
theorem closeResult_restores (result : ResultId) {registry : Registry E} (h : RegistryInv registry) :
    Restores registry (registry.closeResult result) := by
  have hbase : BaseInv (registry.dropResult result) := by
    refine h.toBaseInv.of_results (fun other value hvalue ↦ ?_) rfl rfl rfl rfl rfl rfl
    change (registry.resultsWithout result).get? other = some value at hvalue
    unfold Registry.resultsWithout at hvalue
    split at hvalue
    · next found hfound =>
      split at hvalue
      · rw [Dictionary.get?_insert] at hvalue
        split at hvalue
        · next hsame =>
          obtain rfl := Option.some.inj hvalue
          exact ⟨found, hsame ▸ hfound, rfl⟩
        · exact ⟨value, hvalue, rfl⟩
      · exact ⟨value, get?_of_filter hvalue, rfl⟩
    · exact ⟨value, hvalue, rfl⟩
  have hdropped : Undisturbed registry (registry.dropResult result) := .of_same rfl rfl rfl rfl
  have hclosed : Restores registry
      ((registry.dropResult result).closeUnreferencedReadSessions .request) :=
    ⟨closeUnreferenced_inv hbase fun hreason ↦ absurd rfl hreason,
      hdropped.trans (closeUnreferenced_undisturbed hbase)⟩
  simp only [Registry.closeResult]
  split
  · exact hclosed
  · exact hclosed.trans (.of_same hclosed.1 rfl rfl rfl rfl rfl rfl rfl)

theorem markPendingClose_restores (execution : ℕ) {registry : Registry E}
    (h : RegistryInv registry) : Restores registry (registry.markPendingClose execution) := by
  have hget : ∀ result, (registry.markPendingClose execution).transientResults.get? result =
      (registry.transientResults.get? result).map fun value ↦
        if result.execution = execution then { value with pendingClose := true } else value := by
    intro result
    simp [Registry.markPendingClose]
  refine ⟨⟨h.toBaseInv.of_results (fun result value hvalue ↦ ?_) rfl rfl rfl rfl rfl rfl,
    fun other identity hactive ↦ ?_⟩, .of_same rfl rfl rfl rfl⟩
  · rw [hget] at hvalue
    obtain ⟨old, hold, rfl⟩ := Option.map_eq_some_iff.1 hvalue
    refine ⟨old, hold, ?_⟩
    split <;> rfl
  · obtain ⟨result, value, hvalue, hexecution⟩ := referenced_iff.1
      (h.referenced other identity hactive)
    exact referenced_iff.2 ⟨result, _, by rw [hget, hvalue]; rfl, hexecution⟩

/-! ### Leases -/

/-- A change by a thread that keeps the correspondence and what the other calls rely on. -/
def RestoresFor (thread : ℕ) (before after : Registry E) : Prop :=
  RegistryInv after ∧ ∀ other, other ≠ thread → OwnRely other before after

theorem Restores.restoresFor (h : Restores before after) (thread : ℕ) :
    RestoresFor thread before after :=
  ⟨h.1, fun other _ ↦ h.2.rely other⟩

theorem RestoresFor.trans
    (h : RestoresFor thread first second) (h' : RestoresFor thread second third) :
    RestoresFor thread first third :=
  ⟨h'.1, fun other hother ↦ (h.2 other hother).trans (h'.2 other hother)⟩

theorem get?_touch (registry : Registry E) (execution other : ℕ) :
    (registry.touch execution).activeReadSessions.get? other =
      registry.activeReadSessions.get? other := by
  unfold Registry.touch
  split
  · next identity hidentity =>
    simp only [Dictionary.get?_insert, Dictionary.get?_erase]
    split
    · next hsame => rw [hsame, hidentity]
    · rfl
  · rfl

theorem touch_restores {registry : Registry E} (h : RegistryInv registry) (execution : ℕ) :
    Restores registry (registry.touch execution) := by
  have hrest : Undisturbed registry (registry.touch execution) ∧
      (registry.touch execution).transientResults = registry.transientResults ∧
      (registry.touch execution).closings = registry.closings := by
    unfold Registry.touch
    split
    · exact ⟨.of_same rfl rfl rfl rfl, rfl, rfl⟩
    · exact ⟨.refl registry, rfl, rfl⟩
  exact .of_undisturbed h hrest.1 hrest.2.1 (get?_touch registry execution) hrest.2.2

/-- Assumes: the leases of other calls stay, the results change by writing one of them, and nothing
else. What the others rely on stays. -/
theorem rely_of_leases {other : ℕ}
    (hleases : ∀ result, after.leases.count (other, result) = before.leases.count (other, result))
    (hclaimed : after.claimedBy = before.claimedBy) (hretained : after.retained = before.retained)
    (hconnections : after.connections = before.connections) : OwnRely other before after where
  leases := hleases
  claimed := fun execution hmine ↦ by
    rw [hclaimed, hretained, hconnections]
    exact ⟨hmine, fun hnot ↦ ⟨hnot, rfl⟩⟩
  held := fun execution connection hconnection hopen hholder ↦
    ⟨connection, hconnections ▸ hconnection, hopen, hholder⟩
  retained := fun execution hwas ↦ hretained ▸ hwas

theorem lease_restores {registry : Registry E}
    {old value : TransientResult} (h : RegistryInv registry)
    (hold : registry.transientResults.get? result = some old)
    (hsame : value.activeExports = old.activeExports)
    (hfree : ∀ other, registry.leases.count (thread, other) = 0) :
    RestoresFor thread registry (registry.lease thread result value) := by
  have hget : ∀ other, (registry.lease thread result value).transientResults.get? other =
      if other = result then some { value with activeExports := value.activeExports + 1 }
      else registry.transientResults.get? other := by
    intro other
    simp [Registry.lease, Registry.writeResult]
  refine ⟨⟨⟨fun other found hfound ↦ ?_, fun other found hfound ↦ ?_, fun lease hlease ↦ ?_,
    h.active, h.claimed, h.owned, h.closings, List.nodup_cons.2 ⟨fun hmem ↦ ?_, h.single⟩⟩,
    fun execution identity hactive ↦ ?_⟩,
    fun other hother ↦ rely_of_leases (fun target ↦ ?_) rfl rfl rfl⟩
  · show found.activeExports = (result :: registry.leases.map Prod.snd).count other
    rw [hget] at hfound
    split at hfound
    · next hother =>
      obtain rfl := Option.some.inj hfound
      subst hother
      simp [hsame, h.leases other old hold]
    · next hother =>
      have hne : result ≠ other := fun hsame ↦ hother hsame.symm
      simpa [List.count_cons, hne] using h.leases other found hfound
  · rw [hget] at hfound
    split at hfound
    · next hother =>
      subst hother
      exact h.results other old hold
    · exact h.results other found hfound
  · rcases List.mem_cons.1 hlease with rfl | hlease
    · exact h.results result old hold
    · exact h.leased lease hlease
  · obtain ⟨⟨leasing, other⟩, hlease, hsame⟩ := List.mem_map.1 hmem
    obtain rfl : leasing = thread := hsame
    exact List.count_eq_zero.1 (hfree other) hlease
  · obtain ⟨target, found, hfound, hexecution⟩ := referenced_iff.1
      (h.referenced execution identity hactive)
    by_cases hsame : target = result
    · exact referenced_iff.2 ⟨target, _, by rw [hget, if_pos hsame], hexecution⟩
    · exact referenced_iff.2 ⟨target, found, by rw [hget, if_neg hsame]; exact hfound, hexecution⟩
  · show ((thread, result) :: registry.leases).count (other, target) = _
    have hne : thread ≠ other := fun hsame ↦ hother hsame.symm
    simp [hne]

theorem unlease_restores {registry : Registry E}
    (h : RegistryInv registry) (hlease : (thread, result) ∈ registry.leases) :
    RestoresFor thread registry (registry.unlease thread result) := by
  have hget : ∀ other, (registry.unlease thread result).transientResults.get? other =
      (registry.transientResults.get? other).map fun value ↦
        if other = result then { value with activeExports := value.activeExports - 1 }
        else value := by
    intro other
    simp [Registry.unlease]
  have hcount : ∀ other, (registry.leases.map Prod.snd).count other =
      ((registry.leases.erase (thread, result)).map Prod.snd).count other +
        if result = other then 1 else 0 := by
    intro other
    have hperm := ((List.perm_cons_erase hlease).map Prod.snd).count_eq other
    rw [hperm, List.map_cons, List.count_cons]
    simp
  refine ⟨⟨⟨fun other found hfound ↦ ?_, fun other found hfound ↦ ?_,
    fun lease hmem ↦ h.leased lease (List.mem_of_mem_erase hmem), h.active, h.claimed, h.owned,
    h.closings, h.single.sublist (List.erase_sublist.map Prod.fst)⟩, fun execution identity hactive ↦ ?_⟩,
    fun other hother ↦ rely_of_leases (fun target ↦ ?_) rfl rfl rfl⟩
  · show found.activeExports = ((registry.leases.erase (thread, result)).map Prod.snd).count other
    rw [hget] at hfound
    obtain ⟨old, hold, rfl⟩ := Option.map_eq_some_iff.1 hfound
    have hbefore := h.leases other old hold
    have hsplit := hcount other
    by_cases hsame : other = result
    · subst hsame
      simp only [if_true] at hsplit ⊢
      omega
    · have hne : result ≠ other := fun hsame' ↦ hsame hsame'.symm
      simp only [if_neg hsame, if_neg hne] at hsplit ⊢
      omega
  · rw [hget] at hfound
    obtain ⟨old, hold, -⟩ := Option.map_eq_some_iff.1 hfound
    exact h.results other old hold
  · obtain ⟨target, found, hfound, hexecution⟩ := referenced_iff.1
      (h.referenced execution identity hactive)
    exact referenced_iff.2 ⟨target, _, by rw [hget, hfound]; rfl, hexecution⟩
  · show (registry.leases.erase (thread, result)).count (other, target) = _
    have hne : (thread, result) ≠ (other, target) := fun hsame ↦ hother (congrArg Prod.fst hsame).symm
    simp [List.count_erase, hne]

/-! ### Connections -/

theorem writeConnection_undisturbed {registry : Registry E} {connection connection' : Connection E}
    (hconnection : registry.connections.get? execution = some connection)
    (hretained : registry.retained execution = true) (hholder : connection'.holder = connection.holder)
    (hclosed : connection.closed = true → connection'.closed = true) :
    Undisturbed registry (registry.writeConnection execution connection') := by
  refine ⟨rfl, rfl, rfl, fun other ↦ ?_⟩
  have hget : (registry.writeConnection execution connection').connections.get? other =
      if other = execution then some connection' else registry.connections.get? other := by
    simp [Registry.writeConnection]
  rw [hget]
  by_cases hsame : other = execution
  · subst hsame
    exact .inr ⟨hretained, connection, connection', hconnection, if_pos rfl, hholder, hclosed⟩
  · exact .inl (if_neg hsame)

theorem fetches_restores {fetch : ReadCursor E → Except FetchProblem (List E.Row × ReadCursor E)}
    {move : ℕ → ReadCursor E → ReadCursor E}
    {reply : Except FetchProblem (List E.Row)} (h : RegistryInv before)
    (hretained : before.retained result.execution = true)
    (hfetches : Fetches fetch move result before reply after) : Restores before after := by
  cases hfetches with
  | unavailable => exact ⟨h, .refl before⟩
  | cancelled => exact ⟨h, .refl before⟩
  | failed problem sent hproblem hconnection hreader hopen =>
    exact .of_undisturbed h (writeConnection_undisturbed hconnection hretained rfl id) rfl
      (fun _ ↦ rfl) rfl
  | raised hconnection hreader hopen hfetch =>
    split
    · refine .of_undisturbed h (closeConnections_undisturbed fun other hother ↦ ?_) rfl
        (fun _ ↦ rfl) rfl
      obtain rfl : other = result.execution := by simpa using hother
      exact hretained
    · exact ⟨h, .refl before⟩
  | fetched hconnection hreader hopen hcancelled hfetch =>
    exact .of_undisturbed h (writeConnection_undisturbed hconnection hretained rfl id) rfl
      (fun _ ↦ rfl) rfl

/-- Closing the session of an execution. Assumes: the thread claimed it, or it was retained. -/
theorem closeReadSession_restores {registry : Registry E} {thread execution : ℕ}
    (h : RegistryInv registry) (hmine : registry.claimedBy execution = some thread ∨
      registry.retained execution = true) :
    RestoresFor thread registry
      (registry.closeConnections fun other ↦ decide (other = execution)) := by
  refine ⟨⟨⟨h.leases, h.results, h.leased, h.active, fun other hfree ↦ ?_,
    fun other connection hconnection hopen hholder ↦ ?_, h.closings, h.single⟩, h.referenced⟩,
    fun other hother ↦ ⟨fun _ ↦ rfl, fun target hclaimed ↦ ⟨hclaimed, fun hnot ↦ ⟨hnot, ?_⟩⟩,
      fun target connection hconnection hopen hholder ↦ ?_, fun _ hwas ↦ hwas⟩⟩
  · obtain ⟨hretained, hnone⟩ := h.claimed other hfree
    refine ⟨hretained, ?_⟩
    rw [get?_closeConnections, hnone]
    rfl
  · obtain ⟨-, hbefore⟩ := open_of_closeConnections hconnection hopen
    exact h.owned other connection hbefore hopen hholder
  · have hne : target ≠ execution := by
      rintro rfl
      rcases hmine with hthread | hretained
      · rw [hthread] at hclaimed
        exact hother (Option.some.inj hclaimed).symm
      · rw [hnot] at hretained
        cases hretained
    rw [get?_closeConnections]
    cases registry.connections.get? target <;> simp [hne]
  · obtain ⟨-, hbefore⟩ := open_of_closeConnections hconnection hopen
    exact ⟨connection, hbefore, hopen, hholder⟩

/-- Clearing the registry. The sessions that were retained are the thread's to close. -/
theorem clear_restores {registry : Registry E} (h : RegistryInv registry) (thread : ℕ) :
    RestoresFor thread registry (registry.clear thread) := by
  have hget : ∀ execution, (registry.clear thread).connections.get? execution =
      (registry.connections.get? execution).map fun connection ↦
        if registry.activeReadSessions.contains execution then
          { connection with holder := some thread }
        else connection := by
    intro execution
    simp [Registry.clear]
  refine ⟨⟨⟨fun _ _ hvalue ↦ (by cases hvalue), fun _ _ hvalue ↦ (by cases hvalue), h.leased,
    fun _ _ hactive ↦ (by cases hactive), fun execution hfree ↦ ?_,
    fun execution connection hconnection hopen hholder ↦ ?_, h.closings, h.single⟩,
    fun _ _ hactive ↦ (by cases hactive)⟩, fun other hother ↦ ⟨fun _ ↦ rfl,
    fun execution hclaimed ↦ ⟨hclaimed, fun hnot ↦ ⟨hnot, ?_⟩⟩,
    fun execution connection hconnection hopen hholder ↦ ?_, fun _ hwas ↦ hwas⟩⟩
  · obtain ⟨hretained, hnone⟩ := h.claimed execution hfree
    exact ⟨hretained, by rw [hget, hnone]; rfl⟩
  · rw [hget] at hconnection
    obtain ⟨before, hbefore, hsame⟩ := Option.map_eq_some_iff.1 hconnection
    split at hsame
    · subst hsame
      cases hholder
    · next hinactive =>
      subst hsame
      exact absurd (h.owned execution before hbefore hopen hholder) hinactive
  · rw [hget]
    have hinactive : registry.activeReadSessions.contains execution = false := by
      by_contra hactive
      obtain ⟨identity, hidentity⟩ := Dictionary.contains_iff.1 (by simpa using hactive)
      rw [h.active execution identity hidentity] at hnot
      cases hnot
    cases registry.connections.get? execution <;> simp [hinactive]
  · rw [hget] at hconnection
    obtain ⟨before, hbefore, hsame⟩ := Option.map_eq_some_iff.1 hconnection
    split at hsame
    · subst hsame
      exact absurd (Option.some.inj hholder).symm hother
    · subst hsame
      exact ⟨before, hbefore, hopen, hholder⟩

/-! ### Retaining a session -/

theorem get?_addResults (record : ExecutionRecord) (execution expiresAt : ℕ)
    (summaries : Summaries) (results : Dictionary ResultId TransientResult) (result : ResultId) :
    (Registry.addResults record execution expiresAt summaries results).get? result =
        results.get? result ∨
      result.execution = execution ∧ ∃ value,
        (Registry.addResults record execution expiresAt summaries results).get? result = some value ∧
        value.activeExports = 0 := by
  induction summaries generalizing results with
  | nil => exact .inl rfl
  | cons summary rest ih =>
    obtain ⟨statement, rowCount⟩ := summary
    unfold Registry.addResults
    rcases ih (results.insert ⟨execution, statement⟩ ⟨record.owner, record.workspace, rowCount,
      record.pageSize, expiresAt, false, 0, false⟩) with hsame | hnew
    · rw [hsame, Dictionary.get?_insert]
      split
      · next hresult => exact .inr ⟨by rw [hresult], _, rfl, rfl⟩
      · exact .inl rfl
    · exact .inr hnew

theorem addResults_referenced {execution expiresAt : ℕ} (hsome : summaries ≠ [])
    (results : Dictionary ResultId TransientResult) :
    ∃ result value, (Registry.addResults record execution expiresAt summaries results).get? result =
      some value ∧ result.execution = execution := by
  induction summaries generalizing results with
  | nil => exact absurd rfl hsome
  | cons summary rest ih =>
    obtain ⟨statement, rowCount⟩ := summary
    by_cases hrest : rest = []
    · subst hrest
      refine ⟨⟨execution, statement⟩, ⟨record.owner, record.workspace, rowCount, record.pageSize,
        expiresAt, false, 0, false⟩, ?_, rfl⟩
      rw [Registry.addResults, Registry.addResults, Dictionary.get?_insert, if_pos rfl]
    · exact ih hrest _

/-- Adding a session. Assumes: the thread claimed its execution, which was not retained, and the
session has results. -/
theorem addSession_restores {registry : Registry E} {thread execution expiresAt : ℕ}
    (h : RegistryInv registry) (hclaimed : registry.claimedBy execution = some thread)
    (hnew : registry.retained execution = false) (hsome : summaries ≠ []) :
    RestoresFor thread registry (registry.addSession record execution expiresAt summaries) := by
  have hconnections : ∀ other, (registry.addSession record execution expiresAt
      summaries).connections.get? other = (registry.connections.get? other).map fun connection ↦
        if other = execution then { connection with holder := none } else connection := by
    intro other
    simp [Registry.addSession]
  have hactive : ∀ other, (registry.addSession record execution expiresAt
      summaries).activeReadSessions.get? other =
        if other = execution then some record.target
        else registry.activeReadSessions.get? other := by
    intro other
    simp only [Registry.addSession, Dictionary.get?_insert, Dictionary.get?_erase]
    split <;> rfl
  have hretained : ∀ other, (registry.addSession record execution expiresAt summaries).retained other =
      if other = execution then true else registry.retained other := by
    intro other
    simp [Registry.addSession, Function.update_apply]
  have hkept : ∀ other, registry.retained other = true →
      (registry.addSession record execution expiresAt summaries).retained other = true := by
    intro other hother
    rw [hretained]
    split
    · rfl
    · exact hother
  have hresults : ∀ result value, (registry.addSession record execution expiresAt
      summaries).transientResults.get? result = some value →
        (registry.transientResults.get? result = some value) ∨
        (result.execution = execution ∧ value.activeExports = 0) := by
    intro result value hvalue
    change (Registry.addResults record execution expiresAt summaries
      registry.transientResults).get? result = some value at hvalue
    rcases get?_addResults record execution expiresAt summaries registry.transientResults result with
      hsame | ⟨hexecution, found, hfound, hzero⟩
    · exact .inl (hsame ▸ hvalue)
    · obtain rfl := Option.some.inj (hvalue.symm.trans hfound)
      exact .inr ⟨hexecution, hzero⟩
  refine ⟨⟨⟨fun result value hvalue ↦ ?_, fun result value hvalue ↦ ?_,
    fun lease hlease ↦ hkept _ (h.leased lease hlease), fun other identity hother ↦ ?_,
    fun other hfree ↦ ?_, fun other connection hconnection hopen hholder ↦ ?_, h.closings, h.single⟩,
    fun other identity hother ↦ ?_⟩, fun other hother ↦ ⟨fun _ ↦ rfl,
    fun target hmine ↦ ⟨hmine, fun hnot ↦ ?_⟩,
    fun target connection hconnection hopen hholder ↦ ?_, hkept⟩⟩
  · rcases hresults result value hvalue with hold | ⟨hexecution, hzero⟩
    · exact h.leases result value hold
    · -- No lease can be of an execution that was not retained.
      rw [hzero, eq_comm, List.count_eq_zero]
      intro hmem
      obtain ⟨lease, hlease, rfl⟩ := List.mem_map.1 hmem
      have hwas := h.leased lease hlease
      rw [hexecution, hnew] at hwas
      cases hwas
  · rcases hresults result value hvalue with hold | ⟨hexecution, -⟩
    · exact hkept _ (h.results result value hold)
    · rw [hretained, if_pos hexecution]
  · rw [hactive] at hother
    split at hother
    · next hsame => rw [hretained, if_pos hsame]
    · exact hkept _ (h.active other identity hother)
  · obtain ⟨hnot, hnone⟩ := h.claimed other hfree
    have hne : other ≠ execution := by
      rintro rfl
      rw [show registry.claimedBy other = none from hfree] at hclaimed
      cases hclaimed
    exact ⟨by rw [hretained, if_neg hne]; exact hnot, by rw [hconnections, hnone]; rfl⟩
  · rw [hconnections] at hconnection
    obtain ⟨before, hbefore, hsame⟩ := Option.map_eq_some_iff.1 hconnection
    by_cases hother : other = execution
    · exact Dictionary.contains_iff.2 ⟨record.target, by rw [hactive, if_pos hother]⟩
    · rw [if_neg hother] at hsame
      subst hsame
      obtain ⟨identity, hidentity⟩ := Dictionary.contains_iff.1
        (h.owned other before hbefore hopen hholder)
      exact Dictionary.contains_iff.2 ⟨identity, by rw [hactive, if_neg hother]; exact hidentity⟩
  · rw [hactive] at hother
    split at hother
    · next hsame =>
      obtain ⟨result, value, hvalue, hexecution⟩ := addResults_referenced hsome
        registry.transientResults
      exact referenced_iff.2 ⟨result, value, hvalue, hexecution.trans hsame.symm⟩
    · next hne =>
      obtain ⟨result, value, hvalue, hexecution⟩ := referenced_iff.1
        (h.referenced other identity hother)
      refine referenced_iff.2 ?_
      rcases get?_addResults record execution expiresAt summaries registry.transientResults result
        with hsame | ⟨hexecution', -⟩
      · exact ⟨result, value, hsame.trans hvalue, hexecution⟩
      · exact absurd (hexecution.symm.trans hexecution') hne
  · have hne : target ≠ execution := by
      rintro rfl
      rw [show registry.claimedBy target = some other from hmine] at hclaimed
      exact hother (Option.some.inj hclaimed)
    refine ⟨by rw [hretained, if_neg hne]; exact hnot, ?_⟩
    rw [hconnections]
    cases registry.connections.get? target <;> simp [hne]
  · rw [hconnections] at hconnection
    obtain ⟨before, hbefore, hsame⟩ := Option.map_eq_some_iff.1 hconnection
    by_cases htarget : target = execution
    · rw [if_pos htarget] at hsame
      subst hsame
      cases hholder
    · rw [if_neg htarget] at hsame
      subst hsame
      exact ⟨before, hbefore, hopen, hholder⟩

/-- The loop of a retention restores the correspondence. Assumes: its session was added. -/
theorem retainLoop_restores (excess : ℕ) {registry : Registry E}
    (h : RegistryInv registry) (hretained : registry.retained execution = true) :
    Restores registry (Registry.retainLoop execution excess registry).2 := by
  induction excess generalizing registry with
  | zero => exact ⟨h, .refl registry⟩
  | succ excess ih =>
    unfold Registry.retainLoop
    split
    · next other hfind =>
      have hboth := List.find?_some hfind
      simp only [Bool.and_eq_true] at hboth
      have hevicted := evict_restores h (List.mem_of_find?_eq_some hfind) hboth.2
      exact hevicted.trans (ih hevicted.1 hretained)
    · exact dropSession_restores h hretained rfl rfl rfl rfl rfl rfl h.closings

/-- A retention restores the correspondence, whether it finds room or not. Assumes: the thread claimed
the execution, which was not retained, and the session has results. -/
theorem retainResults_restores {settings : Settings} {registry : Registry E}
    {thread execution expiresAt now : ℕ}
    (h : RegistryInv registry) (hclaimed : registry.claimedBy execution = some thread)
    (hnew : registry.retained execution = false) (hsome : summaries ≠ []) :
    RestoresFor thread registry
      (registry.retainResults settings record execution expiresAt summaries now).2 := by
  have hpurged := purge_restores h now
  have hadded : RestoresFor thread (registry.purgeTransientResults now)
      ((registry.purgeTransientResults now).addSession record execution expiresAt summaries) :=
    addSession_restores hpurged.1 (hpurged.2.claimedBy ▸ hclaimed) (hpurged.2.retained ▸ hnew) hsome
  refine ((hpurged.restoresFor thread).trans hadded).trans
    ((retainLoop_restores _ hadded.1 ?_).restoresFor thread)
  simp [Registry.addSession]

/-- What a retention leaves to the thread: its leases, and of the connections that it has to close all
but the one of the execution. -/
theorem retainResults_own {settings : Settings} {registry : Registry E}
    {thread execution expiresAt now : ℕ}
    (h : RegistryInv registry) (hclaimed : registry.claimedBy execution = some thread)
    (hnew : registry.retained execution = false) (hsome : summaries ≠ []) :
    (registry.retainResults settings record execution expiresAt summaries now).2.leases =
        registry.leases ∧
      (registry.retainResults settings record execution expiresAt summaries now).2.claimedBy =
        registry.claimedBy ∧
      ∀ other connection, (registry.retainResults settings record execution expiresAt summaries
        now).2.connections.get? other = some connection → connection.closed = false →
        connection.holder = some thread → other ≠ execution ∧ ∃ connection',
          registry.connections.get? other = some connection' ∧ connection'.closed = false ∧
          connection'.holder = some thread := by
  have hpurged := purge_restores h now
  have hadded : RestoresFor thread (registry.purgeTransientResults now)
      ((registry.purgeTransientResults now).addSession record execution expiresAt summaries) :=
    addSession_restores hpurged.1 (hpurged.2.claimedBy ▸ hclaimed) (hpurged.2.retained ▸ hnew) hsome
  have hloop := (@retainLoop_restores E execution
    (((registry.purgeTransientResults now).addSession record execution expiresAt
      summaries).activeReadSessions.size - settings.maximumLiveReadSessions) _ hadded.1
    (by simp [Registry.addSession])).2
  refine ⟨hloop.leases.trans hpurged.2.leases, hloop.claimedBy.trans hpurged.2.claimedBy,
    fun other connection hconnection hopen hholder ↦ ?_⟩
  obtain ⟨middle, hmiddle, hopen', hholder'⟩ := (hloop.rely thread).held other connection hconnection
    hopen hholder
  simp only [Registry.addSession, Dictionary.get?_mapValues, Option.map_eq_some_iff] at hmiddle
  obtain ⟨old, hold, hsame⟩ := hmiddle
  by_cases hother : other = execution
  · rw [if_pos hother] at hsame
    subst hsame
    cases hholder'
  · rw [if_neg hother] at hsame
    subst hsame
    exact ⟨hother, (hpurged.2.rely thread).held other old hold hopen' hholder'⟩

end Schemii.ReadSessions
