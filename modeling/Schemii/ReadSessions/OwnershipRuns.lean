import Schemii.ReadSessions.Ownership

/-!
# Every read session is accounted for

Every program of the service, in any interleaving, restores the correspondence of `Ownership`, and
ends with neither a lease nor a connection to close. Two things are left out of the runs: an export
whose stream is dropped before its first chunk, since the code that releases its lease never starts,
and a run whose cancellation was requested before its results are stored, since it then retains a
session without results.

* `keeps_run`, `keeps_page`, `keeps_exportCsv`, `keeps_cancel`, `keeps_close`: the programs.
* `read_sessions_accounted`: the correspondence in every state of such a run.
* `dropped_export_keeps_its_lease`: what an export and a run do that are left out.
-/

set_option autoImplicit false

namespace Schemii.ReadSessions

open Schemii.Foundations

variable {E : Encoding}

/-! ### Facts about one call -/

/-- A thread has no lease. -/
def NoLease (thread : ℕ) (registry : Registry E) : Prop :=
  ∀ result, registry.leases.count (thread, result) = 0

/-- The open connections that a thread has to close are of some executions. -/
def HoldsWithin (thread : ℕ) (allowed : ℕ → Prop) (registry : Registry E) : Prop :=
  ∀ execution connection, registry.connections.get? execution = some connection →
    connection.closed = false → connection.holder = some thread → allowed execution

/-- A thread has nothing to release or to close. -/
def Idle (thread : ℕ) (registry : Registry E) : Prop :=
  NoLease thread registry ∧ HoldsWithin thread (fun _ ↦ False) registry

/-- A thread has one lease, of a result. -/
def Leasing (thread : ℕ) (result : ResultId) (registry : Registry E) : Prop :=
  (∀ other, registry.leases.count (thread, other) = if other = result then 1 else 0) ∧
    HoldsWithin thread (fun _ ↦ False) registry

/-- A thread has claimed an execution. -/
def Claimed (thread execution : ℕ) (registry : Registry E) : Prop :=
  Idle thread registry ∧ registry.claimedBy execution = some thread ∧
    registry.retained execution = false ∧ registry.connections.get? execution = none

/-- A thread has opened the session of an execution that it claimed. -/
def Opened (thread execution : ℕ) (registry : Registry E) : Prop :=
  NoLease thread registry ∧ HoldsWithin thread (· = execution) registry ∧
    registry.claimedBy execution = some thread ∧ registry.retained execution = false ∧
    ∃ connection, registry.connections.get? execution = some connection ∧
      connection.readers.entries ≠ []

/-- A thread has to close the session of an execution that it claimed. -/
def Abandoning (thread execution : ℕ) (registry : Registry E) : Prop :=
  NoLease thread registry ∧ HoldsWithin thread (· = execution) registry ∧
    registry.claimedBy execution = some thread

/-- A thread has to close some sessions that were retained. -/
def Clearing (thread : ℕ) (remaining : List ℕ) (registry : Registry E) : Prop :=
  NoLease thread registry ∧ HoldsWithin thread (· ∈ remaining) registry ∧
    ∀ execution ∈ remaining, registry.retained execution = true

section Stability

variable {thread execution : ℕ} {before after : Registry E}

theorem NoLease.stable (hrely : OwnRely thread before after) (h : NoLease thread before) :
    NoLease thread after :=
  fun result ↦ (hrely.leases result).trans (h result)

theorem HoldsWithin.stable {allowed : ℕ → Prop} (hrely : OwnRely thread before after)
    (h : HoldsWithin thread allowed before) : HoldsWithin thread allowed after := by
  intro execution connection hconnection hopen hholder
  obtain ⟨old, hold, hopen', hholder'⟩ := hrely.held execution connection hconnection hopen hholder
  exact h execution old hold hopen' hholder'

theorem Idle.stable (hrely : OwnRely thread before after) (h : Idle thread before) :
    Idle thread after :=
  ⟨h.1.stable hrely, h.2.stable hrely⟩

theorem Leasing.stable {result : ResultId} (hrely : OwnRely thread before after)
    (h : Leasing thread result before) : Leasing thread result after :=
  ⟨fun other ↦ (hrely.leases other).trans (h.1 other), h.2.stable hrely⟩

theorem Claimed.stable (hrely : OwnRely thread before after) (h : Claimed thread execution before) :
    Claimed thread execution after := by
  obtain ⟨hidle, hclaimed, hnew, hnone⟩ := h
  obtain ⟨hclaimed', hkept⟩ := hrely.claimed execution hclaimed
  obtain ⟨hnew', hsame⟩ := hkept hnew
  exact ⟨hidle.stable hrely, hclaimed', hnew', hsame.trans hnone⟩

theorem Opened.stable (hrely : OwnRely thread before after) (h : Opened thread execution before) :
    Opened thread execution after := by
  obtain ⟨hlease, hholds, hclaimed, hnew, connection, hconnection, hreaders⟩ := h
  obtain ⟨hclaimed', hkept⟩ := hrely.claimed execution hclaimed
  obtain ⟨hnew', hsame⟩ := hkept hnew
  exact ⟨hlease.stable hrely, hholds.stable hrely, hclaimed', hnew', connection,
    hsame.trans hconnection, hreaders⟩

theorem Abandoning.stable (hrely : OwnRely thread before after)
    (h : Abandoning thread execution before) : Abandoning thread execution after :=
  ⟨h.1.stable hrely, h.2.1.stable hrely, (hrely.claimed execution h.2.2).1⟩

theorem Clearing.stable {remaining : List ℕ} (hrely : OwnRely thread before after)
    (h : Clearing thread remaining before) : Clearing thread remaining after :=
  ⟨h.1.stable hrely, h.2.1.stable hrely,
    fun execution hmem ↦ hrely.retained execution (h.2.2 execution hmem)⟩

theorem Leasing.retained {result : ResultId} {registry : Registry E}
    (h : Leasing thread result registry) (hinv : RegistryInv registry) :
    registry.retained result.execution = true := by
  have hcount : registry.leases.count (thread, result) = 1 := by rw [h.1, if_pos rfl]
  exact hinv.leased (thread, result) (List.count_pos_iff.1 (by omega))

end Stability

/-! ### Calls that disturb no one -/

/-- The calls that any thread may make at any time. -/
def Restoring : ReadCall E → Prop
  | .resolve _ | .storeFailure _ | .preflight _ | .succeed _ | .getReceipt _ | .hasBufferedRows _
  | .respond _ _ _ _ _ | .markPendingClose _ | .storeClosed _ | .closeResult _ | .requestCancel _
  | .unprotect _ | .reclaim _ _ | .protect _ => True
  | _ => False

section Calls

variable {settings : Settings} {records : ℕ → ExecutionRecord} {thread : ℕ}
  {before after : Registry E}

theorem restoring_restores {request : ReadCall E} {reply : request.Reply E}
    (hrestoring : Restoring request) (h : RegistryInv before)
    (hperform : (registrySemantics settings records).perform thread request before reply after) :
    Restores before after := by
  cases request with
  | resolve execution =>
    obtain rfl : after = before := hperform
    exact ⟨h, .refl after⟩
  | storeFailure execution =>
    obtain rfl : after = before := hperform
    exact ⟨h, .refl after⟩
  | getReceipt execution =>
    obtain rfl : after = before := hperform
    exact ⟨h, .refl after⟩
  | storeClosed result =>
    obtain rfl : after = before := hperform
    exact ⟨h, .refl after⟩
  | succeed execution =>
    obtain ⟨rfl, -⟩ := hperform
    exact ⟨h, .refl after⟩
  | hasBufferedRows result =>
    obtain ⟨rfl, -⟩ := hperform
    exact ⟨h, .refl after⟩
  | preflight execution =>
    have hmade : ∀ now, Restores before
        (before.makeReadSessionCapacity settings (records execution).target now).2 :=
      fun now ↦ evicts_restores h (before.makeReadSessionCapacity_evicts _ _ now)
    cases hperform with
    | admitted now hroom =>
      exact (hmade now).trans (.of_same (hmade now).1 rfl rfl rfl rfl rfl rfl rfl)
    | refused now hfull => exact hmade now
  | respond result cursor offset rows hasMore =>
    cases hperform with
    | last => exact .of_same h rfl rfl rfl rfl rfl rfl rfl
    | next => exact .of_same h rfl rfl rfl rfl rfl rfl rfl
  | markPendingClose execution =>
    obtain rfl := hperform
    exact markPendingClose_restores execution h
  | closeResult result =>
    obtain rfl := hperform
    exact closeResult_restores result h
  | requestCancel execution =>
    rcases hperform with ⟨problem, -, rfl⟩ | ⟨-, rfl⟩
    · exact ⟨h, .refl after⟩
    · exact .of_same h rfl rfl rfl rfl rfl rfl rfl
  | unprotect execution =>
    obtain ⟨rfl, -⟩ := hperform
    exact .of_same h rfl rfl rfl rfl rfl rfl rfl
  | reclaim identity globalCapacity =>
    obtain ⟨now, hreclaim⟩ := hperform
    obtain rfl : after = _ := congrArg Prod.snd hreclaim
    exact evicts_restores h (before.reclaimReadSession_evicts identity globalCapacity now)
  | protect execution =>
    obtain ⟨now, later, rfl⟩ := hperform
    have hpurged := purge_restores h now
    exact hpurged.trans (.of_same hpurged.1 rfl rfl rfl rfl rfl rfl rfl)
  | _ => exact hrestoring.elim

/-- The first section of a page restores the correspondence; a claimed page is leased. -/
theorem claimPage_restores {request : Registry.PageRequest} {now : ℕ}
    {reply : Except Registry.Refusal Registry.PageClaim} (h : RegistryInv before)
    (hidle : Idle thread before)
    (hclaim : (reply, after) = before.claimPage settings thread request now) :
    RestoresFor thread before after ∧
      match reply with
      | .ok _ => Leasing thread request.result after
      | .error _ => Idle thread after := by
  have hclaims := before.claimPage_claims settings thread request now
  rw [← hclaim] at hclaims
  have hpurged := purge_restores h now
  have hidle' : Idle thread (before.purgeTransientResults now) :=
    hidle.stable (hpurged.2.rely thread)
  have hpopped : ∀ token, Restores (before.purgeTransientResults now)
      ((before.purgeTransientResults now).popCursor token) :=
    fun _ ↦ .of_same hpurged.1 rfl rfl rfl rfl rfl rfl rfl
  have hbegun : ∀ registry : Registry E, RegistryInv registry → Restores registry
      (registry.beginPage thread request.result) :=
    fun _ hinv ↦ .of_same hinv rfl rfl rfl rfl rfl rfl rfl
  -- A leased result, from any idle registry.
  have hleased : ∀ {registry : Registry E} (old value : TransientResult), RegistryInv registry →
      Idle thread registry → registry.transientResults.get? request.result = some old →
      value.activeExports = old.activeExports →
      RestoresFor thread registry
          ((registry.lease thread request.result value).touch request.execution) ∧
        Leasing thread request.result
          ((registry.lease thread request.result value).touch request.execution) := by
    intro registry old value hinv hfree hold hsame
    have hlease : RestoresFor thread registry (registry.lease thread request.result value) :=
      lease_restores hinv hold hsame hfree.1
    have htouch := touch_restores hlease.1 request.execution
    have hmine : Leasing thread request.result (registry.lease thread request.result value) := by
      refine ⟨fun other ↦ ?_, hfree.2⟩
      show ((thread, request.result) :: registry.leases).count (thread, other) = _
      rw [List.count_cons, hfree.1 other]
      by_cases hother : other = request.result
      · simp [hother]
      · have hne : request.result ≠ other := fun hsame ↦ hother hsame.symm
        simp [hother, hne]
    exact ⟨hlease.trans (htouch.restoresFor thread), hmine.stable (htouch.2.rely thread)⟩
  cases hclaims with
  | refused refusal => exact ⟨hpurged.restoresFor thread, hidle'⟩
  | spent refusal token =>
    exact ⟨(hpurged.trans (hpopped token)).restoresFor thread,
      hidle'.stable ((hpopped token).2.rely thread)⟩
  | @first value hvalue =>
    have hready := hbegun _ hpurged.1
    obtain ⟨hrestores, hmine⟩ := hleased value { value with firstPageRequested := true } hready.1
      (hidle'.stable (hready.2.rely thread)) hvalue rfl
    exact ⟨((hpurged.trans hready).restoresFor thread).trans hrestores, hmine⟩
  | @next value token cursor hvalue =>
    have hready := (hpopped token).trans (hbegun _ (hpopped token).1)
    obtain ⟨hrestores, hmine⟩ := hleased value value hready.1
      (hidle'.stable (hready.2.rely thread)) hvalue rfl
    exact ⟨((hpurged.trans hready).restoresFor thread).trans hrestores, hmine⟩

/-- The section of an export restores the correspondence; a started export is leased. -/
theorem startExport_restores {owner : String} {workspace : Option String} {execution now : ℕ}
    {result : ResultId} {reply : Except Registry.Refusal (ℕ × Option ℕ)} (h : RegistryInv before)
    (hidle : Idle thread before)
    (hstart : (reply, after) = before.startExport thread owner workspace execution result now) :
    RestoresFor thread before after ∧
      match reply with
      | .ok _ => Leasing thread result after
      | .error _ => Idle thread after := by
  have hpurged := purge_restores h now
  have hidle' : Idle thread (before.purgeTransientResults now) :=
    hidle.stable (hpurged.2.rely thread)
  unfold Registry.startExport at hstart
  dsimp only at hstart
  split at hstart
  · obtain ⟨rfl, rfl⟩ := Prod.mk.inj hstart
    exact ⟨hpurged.restoresFor thread, hidle'⟩
  · next value hvalue =>
    split at hstart
    · obtain ⟨rfl, rfl⟩ := Prod.mk.inj hstart
      exact ⟨hpurged.restoresFor thread, hidle'⟩
    · obtain ⟨rfl, rfl⟩ := Prod.mk.inj hstart
      refine ⟨(hpurged.restoresFor thread).trans (lease_restores hpurged.1 hvalue rfl hidle'.1),
        fun other ↦ ?_, hidle'.2⟩
      show ((thread, result) :: (before.purgeTransientResults now).leases).count (thread, other) = _
      rw [List.count_cons, hidle'.1 other]
      by_cases hother : other = result
      · simp [hother]
      · have hne : result ≠ other := fun hsame ↦ hother hsame.symm
        simp [hother, hne]

theorem releaseLease_restores {result : ResultId} (now : ℕ) (h : RegistryInv before)
    (hleasing : Leasing thread result before) :
    RestoresFor thread before (before.releaseLease thread result now) ∧
      Idle thread (before.releaseLease thread result now) := by
  have hcount : before.leases.count (thread, result) = 1 := by rw [hleasing.1, if_pos rfl]
  have hunleased : RestoresFor thread before (before.unlease thread result) :=
    unlease_restores h (List.count_pos_iff.1 (by omega))
  have hpurged := purge_restores hunleased.1 now
  refine ⟨hunleased.trans (hpurged.restoresFor thread), Idle.stable (hpurged.2.rely thread)
    ⟨fun other ↦ ?_, hleasing.2⟩⟩
  show (before.leases.erase (thread, result)).count (thread, other) = 0
  rw [List.count_erase, hleasing.1 other]
  by_cases hother : other = result
  · simp [hother]
  · have hne : result ≠ other := fun hsame ↦ hother hsame.symm
    simp [hother, hne]

end Calls

/-! ### Programs -/

section Programs

variable {settings : Settings} {records : ℕ → ExecutionRecord} {thread execution : ℕ}
  {world : Registry E}

/-- The condition: the results of a run are stored while its cancellation is not requested. -/
def storesUncancelled : ReadCall E → Registry E → Bool
  | .succeed execution, registry => !registry.cancelRequested execution
  | _, _ => true

/-- The calls under the condition. -/
abbrev uncancelled (E : Encoding) (settings : Settings) (records : ℕ → ExecutionRecord) :
    Semantics (readInterface E) (Registry E) :=
  (registrySemantics settings records).restrict fun request registry ↦
    storesUncancelled request registry = true

/-- Safety of a program under the condition. -/
abbrev Accounts {α : Type} (settings : Settings) (records : ℕ → ExecutionRecord) (thread : ℕ)
    (program : ReadProgram E α) (world : Registry E)
    (post : Except Problem α → Registry E → Prop) : Prop :=
  Safe (ownership (uncancelled E settings records)) thread program world post

theorem keeps_restoring {α : Type} {request : ReadCall E} {next : request.Reply E → ReadProgram E α}
    {post : Except Problem α → Registry E → Prop} {fact : Registry E → Prop}
    (hrestoring : Restoring request)
    (hstable : ∀ before after, OwnRely thread before after → fact before → fact after)
    (hfact : fact world)
    (hnext : ∀ reply after, fact after → Accounts settings records thread (next reply) after post) :
    Accounts settings records thread (Program.bind (ask request) next) world post := by
  intro before hrely hinv reply after hperform
  have hrestores := restoring_restores hrestoring hinv hperform.2
  exact ⟨hrestores.restoresFor thread,
    hnext reply after (hstable _ _ (hrestores.2.rely thread) (hstable _ _ hrely hfact))⟩

theorem keeps_restoring_last {request : ReadCall E} {fact : Registry E → Prop}
    (hrestoring : Restoring request)
    (hstable : ∀ before after, OwnRely thread before after → fact before → fact after)
    (hfact : fact world) :
    Accounts settings records thread (ask request) world fun _ after ↦ fact after := by
  intro before hrely hinv reply after hperform
  have hrestores := restoring_restores hrestoring hinv hperform.2
  exact ⟨hrestores.restoresFor thread,
    hstable _ _ (hrestores.2.rely thread) (hstable _ _ hrely hfact)⟩

/-- `_record_run_failure` of an idle thread. -/
theorem keeps_recordRunFailure (h : Idle thread world) :
    Accounts settings records thread (recordRunFailure E execution) world fun _ after ↦
      Idle thread after :=
  keeps_restoring trivial (fun _ _ ↦ Idle.stable) h fun _ _ hidle ↦
    keeps_restoring trivial (fun _ _ ↦ Idle.stable) hidle fun _ _ hidle ↦ hidle

theorem keeps_abandonRun (h : Abandoning thread execution world) :
    Accounts settings records thread (abandonRun E execution) world fun _ after ↦
      Idle thread after := by
  intro before hrely hinv _ after hperform
  obtain ⟨hlease, hholds, hclaimed⟩ := h.stable hrely
  obtain rfl : after = before.closeConnections fun other ↦ decide (other = execution) := hperform.2
  refine ⟨closeReadSession_restores hinv (.inl hclaimed), keeps_recordRunFailure ⟨hlease, ?_⟩⟩
  intro other connection hconnection hopen hholder
  obtain ⟨hkept, hbefore⟩ := open_of_closeConnections hconnection hopen
  have hsame : other = execution := hholds other connection hbefore hopen hholder
  simp [hsame] at hkept

/-- Assumes: a thread that opened the session of an execution. The rest of its run leaves it idle. -/
theorem keeps_finishRun (h : Opened thread execution world) :
    Accounts settings records thread (finishRun E execution) world fun _ after ↦
      Idle thread after := by
  intro before hrely hinv succeeded after hperform
  obtain ⟨huncancelled, rfl, hsucceeds⟩ := hperform
  have hopened : Opened thread execution after := Opened.stable hrely h
  refine ⟨⟨hinv, fun other _ ↦ .refl other after⟩, ?_⟩
  cases hsucceeds with
  | failed problem =>
    exact keeps_abandonRun ⟨hopened.1, hopened.2.1, hopened.2.2.1⟩
  | cancelled hcancelled => simp [storesUncancelled, hcancelled] at huncancelled
  | @stored connection hcancelled hconnection =>
    -- Every statement has a result, so the session has one.
    obtain ⟨-, -, -, -, found, hfound, hreaders⟩ := id hopened
    obtain rfl := Option.some.inj (hconnection.symm.trans hfound)
    have hsome : connection.summaries ≠ [] := by
      simpa [Connection.summaries] using hreaders
    intro retaining hrely' hinv' retained last hretain
    obtain ⟨hlease, hholds, hclaimed, hnew, -⟩ := Opened.stable hrely' hopened
    have hrestores : ∀ expiresAt now, RestoresFor thread retaining
        (retaining.retainResults settings (records execution) execution expiresAt
          connection.summaries now).2 :=
      fun expiresAt now ↦ retainResults_restores hinv' hclaimed hnew hsome
    have hidle : ∀ expiresAt now, Idle thread
        (retaining.retainResults settings (records execution) execution expiresAt
          connection.summaries now).2 ∧ (retaining.retainResults settings (records execution)
            execution expiresAt connection.summaries now).2.claimedBy execution = some thread := by
      intro expiresAt now
      obtain ⟨hleases, hclaims, hheld⟩ := @retainResults_own E (records execution)
        connection.summaries settings retaining thread execution expiresAt now hinv' hclaimed hnew hsome
      refine ⟨⟨fun result ↦ by rw [hleases]; exact hlease result,
        fun other found hfound hopen hholder ↦ ?_⟩, by rw [hclaims]; exact hclaimed⟩
      obtain ⟨hne, old, hold, hopen', hholder'⟩ := hheld other found hfound hopen hholder
      exact hne (hholds other old hold hopen' hholder')
    obtain ⟨-, hretain⟩ := hretain
    cases hretain with
    | retained expiresAt now hroom =>
      obtain ⟨hkept, hothers⟩ := hrestores expiresAt now
      have hmarked : Restores _ ((retaining.retainResults settings (records execution) execution
          expiresAt connection.summaries now).2.overtake records (records execution).target) :=
        .of_same hkept rfl rfl rfl rfl rfl rfl rfl
      exact ⟨RestoresFor.trans ⟨hkept, hothers⟩ (hmarked.restoresFor thread),
        (hidle expiresAt now).1.stable (hmarked.2.rely thread)⟩
    | refused expiresAt now hfull =>
      obtain ⟨hfree, hclaims⟩ := hidle expiresAt now
      exact ⟨hrestores expiresAt now, keeps_abandonRun ⟨hfree.1,
        fun other found hfound hopen hholder ↦ (hfree.2 other found hfound hopen hholder).elim,
        hclaims⟩⟩

/-- Assumes: a thread that claimed an execution. Opening its session and the rest of its run leave it
idle. -/
theorem keeps_openRun (h : Claimed thread execution world) :
    Accounts settings records thread (openRun E execution) world fun _ after ↦
      Idle thread after := by
  refine keeps_restoring trivial (fun _ _ ↦ Claimed.stable) h fun admitted _ hclaimed ↦ ?_
  cases admitted with
  | error problem => exact keeps_recordRunFailure hclaimed.1
  | ok _ =>
    intro before hrely hinv opened after hperform
    obtain ⟨hidle, hmine, hnew, hnone⟩ := Claimed.stable hrely hclaimed
    obtain ⟨-, hopens⟩ := hperform
    cases hopens with
    | failed problem =>
      exact ⟨⟨hinv, fun other _ ↦ .refl other before⟩, keeps_recordRunFailure hidle⟩
    | opened readers hstatements hprepared =>
      have hget : ∀ other, (before.writeConnection execution
          ⟨false, false, some thread, readers⟩).connections.get? other =
            if other = execution then some ⟨false, false, some thread, readers⟩
            else before.connections.get? other := by
        intro other
        simp [Registry.writeConnection]
      refine ⟨⟨⟨⟨hinv.leases, hinv.results, hinv.leased, hinv.active, fun other hfree ↦ ?_,
        fun other connection hconnection hopen hholder ↦ ?_, hinv.closings, hinv.single⟩, hinv.referenced⟩,
        fun other hother ↦ ⟨fun _ ↦ rfl, fun target htarget ↦ ⟨htarget, fun hnot ↦ ⟨hnot, ?_⟩⟩,
          fun target connection hconnection hopen hholder ↦ ?_, fun _ hwas ↦ hwas⟩⟩,
        keeps_finishRun ⟨hidle.1, fun other connection hconnection hopen hholder ↦ ?_, hmine, hnew,
          ⟨false, false, some thread, readers⟩, ?_, hstatements⟩⟩
      · obtain ⟨hnot, hnone'⟩ := hinv.claimed other hfree
        have hne : other ≠ execution := by
          rintro rfl
          rw [show before.claimedBy other = none from hfree] at hmine
          cases hmine
        exact ⟨hnot, (hget other).trans ((if_neg hne).trans hnone')⟩
      · rw [show _ = _ from hget other] at hconnection
        split at hconnection
        · obtain rfl := Option.some.inj hconnection
          cases hholder
        · exact hinv.owned other connection hconnection hopen hholder
      · have hne : target ≠ execution := by
          rintro rfl
          rw [htarget] at hmine
          exact hother (Option.some.inj hmine)
        exact (hget target).trans (if_neg hne)
      · rw [show _ = _ from hget target] at hconnection
        split at hconnection
        · obtain rfl := Option.some.inj hconnection
          exact absurd (Option.some.inj hholder).symm hother
        · exact ⟨connection, hconnection, hopen, hholder⟩
      · rw [show _ = _ from hget other] at hconnection
        split at hconnection
        · next hsame => exact hsame
        · exact (hidle.2 other connection hconnection hopen hholder).elim
      · exact (hget execution).trans (if_pos rfl)

/-- `run` leaves its thread idle. -/
theorem keeps_run (h : Idle thread world) :
    Accounts settings records thread (run E execution) world fun _ after ↦ Idle thread after := by
  intro before hrely hinv claimed after hperform
  have hidle : Idle thread before := h.stable hrely
  rcases hperform.2 with ⟨rfl, hnot⟩ | ⟨rfl, hfree, rfl⟩
  · refine ⟨⟨hinv, fun other _ ↦ .refl other after⟩, ?_⟩
    cases claimed with
    | error problem => exact keeps_recordRunFailure hidle
    | ok mine =>
      cases mine with
      | false => exact hidle
      | true => exact absurd rfl hnot
  · obtain ⟨hnew, hnone⟩ := hinv.claimed execution hfree
    have hothers : ∀ other target, other ≠ thread → before.claimedBy target = some other →
        Function.update before.claimedBy execution (some thread) target = some other := by
      intro other target hother htarget
      have hne : target ≠ execution := by
        rintro rfl
        rw [hfree] at htarget
        cases htarget
      rw [Function.update_of_ne hne]
      exact htarget
    refine ⟨⟨⟨⟨hinv.leases, hinv.results, hinv.leased, hinv.active, fun target htarget ↦ ?_,
      hinv.owned, hinv.closings, hinv.single⟩, hinv.referenced⟩, fun other hother ↦ ⟨fun _ ↦ rfl,
      fun target htarget ↦ ⟨hothers other target hother htarget, fun hnot ↦ ⟨hnot, rfl⟩⟩,
      fun target connection hconnection hopen hholder ↦ ⟨connection, hconnection, hopen, hholder⟩,
      fun _ hwas ↦ hwas⟩⟩, ?_⟩
    · have hne : target ≠ execution := by
        rintro rfl
        simp at htarget
      exact hinv.claimed target (by simpa [Function.update_of_ne hne] using htarget)
    · have hclaimed : Claimed thread execution { before with
          claimedBy := Function.update before.claimedBy execution (some thread) } :=
        ⟨hidle, Function.update_self _ _ _, hnew, hnone⟩
      refine keeps_restoring trivial (fun _ _ ↦ Claimed.stable) hclaimed fun resolved _ hclaimed ↦ ?_
      cases resolved with
      | error problem => exact keeps_recordRunFailure hclaimed.1
      | ok same =>
        cases same with
        | true => exact keeps_openRun hclaimed
        | false =>
          refine keeps_restoring trivial (fun _ _ ↦ Idle.stable) hclaimed.1 fun stored _ hidle ↦ ?_
          cases stored with
          | error problem => exact keeps_recordRunFailure hidle
          | ok _ => exact hidle

theorem keeps_releaseLease {α : Type} {result : ResultId} {next : ReadProgram E α}
    {post : Except Problem α → Registry E → Prop} (h : Leasing thread result world)
    (hnext : ∀ after, Idle thread after → Accounts settings records thread next after post) :
    Accounts settings records thread (Program.bind (ask (.releaseLease result)) fun _ ↦ next) world
      post := by
  intro before hrely hinv _ after hperform
  obtain ⟨-, now, rfl⟩ := hperform
  obtain ⟨hrestores, hidle⟩ := releaseLease_restores now hinv (h.stable hrely)
  exact ⟨hrestores, hnext _ hidle⟩

theorem keeps_abandonFetch {result : ResultId} (raised : FetchProblem → Problem)
    (problem : FetchProblem) (h : Leasing thread result world) :
    Accounts settings records thread (abandonFetch E result raised problem) world fun _ after ↦
      Idle thread after := by
  unfold abandonFetch
  split
  · exact keeps_restoring trivial (fun _ _ ↦ Leasing.stable) h fun _ _ hleasing ↦
      keeps_releaseLease hleasing fun _ hidle ↦ hidle
  · exact keeps_releaseLease h fun _ hidle ↦ hidle

theorem keeps_fetchLeased (request : Registry.PageRequest) (claim : Registry.PageClaim)
    (h : Leasing thread request.result world) :
    Accounts settings records thread (fetchLeased E request claim) world fun _ after ↦
      Idle thread after := by
  intro before hrely hinv fetched after hperform
  have hleasing : Leasing thread request.result before := h.stable hrely
  have hrestores := fetches_restores hinv (hleasing.retained hinv) hperform.2
  have hstill := hleasing.stable (hrestores.2.rely thread)
  refine ⟨hrestores.restoresFor thread, ?_⟩
  cases fetched with
  | error problem => exact keeps_abandonFetch _ problem hstill
  | ok rows =>
    refine keeps_restoring trivial (fun _ _ ↦ Leasing.stable) hstill fun buffered _ hleasing ↦ ?_
    refine keeps_restoring trivial (fun _ _ ↦ Leasing.stable) hleasing fun _ _ hleasing ↦ ?_
    exact keeps_releaseLease hleasing fun _ hidle ↦ hidle

theorem keeps_getReceipt {α : Type} {next : Unit → ReadProgram E α} (h : Idle thread world)
    (hnext : ∀ after, Idle thread after →
      Accounts settings records thread (next ()) after fun _ after ↦ Idle thread after) :
    Accounts settings records thread (Program.bind (attempt (ask (.getReceipt execution))) next)
      world fun _ after ↦ Idle thread after := by
  have hfirst : Accounts settings records thread (ask (.getReceipt execution)) world fun _ after ↦
      Idle thread after := keeps_restoring_last trivial (fun _ _ ↦ Idle.stable) h
  refine Safe.bind (Safe.bind (hfirst.mono fun outcome after hidle ↦ ?_))
  rcases outcome with problem | problem | _
  · exact hidle
  · exact hidle
  · exact hnext after hidle

/-- `page` leaves its thread idle. -/
theorem keeps_page (request : Registry.PageRequest) (h : Idle thread world) :
    Accounts settings records thread (page E request) world fun _ after ↦ Idle thread after := by
  refine keeps_getReceipt h fun _ hidle ↦ ?_
  intro before hrely hinv claimed after hperform
  obtain ⟨-, now, hclaim⟩ := hperform
  obtain ⟨hrestores, hended⟩ := claimPage_restores hinv (Idle.stable hrely hidle) hclaim
  refine ⟨hrestores, ?_⟩
  cases claimed with
  | error refusal => exact hended
  | ok claim => exact keeps_fetchLeased request claim hended

theorem keeps_exportChunks {result : ResultId} (pageSize : ℕ) (rowCount : Option ℕ) (asked : ℕ)
    (offset : ℕ) (h : Leasing thread result world) :
    Accounts settings records thread (exportChunks E result pageSize rowCount asked offset) world
      fun outcome after ↦ (∃ value, outcome = .ok value) ∧ Leasing thread result after := by
  induction asked generalizing offset world with
  | zero => exact ⟨⟨_, rfl⟩, h⟩
  | succ asked ih =>
    unfold exportChunks
    split
    · exact ⟨⟨_, rfl⟩, h⟩
    · intro before hrely hinv fetched after hperform
      have hleasing : Leasing thread result before := h.stable hrely
      have hrestores := fetches_restores hinv (hleasing.retained hinv) hperform.2
      have hstill := hleasing.stable (hrestores.2.rely thread)
      refine ⟨hrestores.restoresFor thread, ?_⟩
      rcases fetched with problem | rows
      · exact ⟨⟨_, rfl⟩, hstill⟩
      · cases rows with
        | nil => exact ⟨⟨_, rfl⟩, hstill⟩
        | cons row rest => exact ih _ hstill

/-- An export whose stream was started leaves its thread idle, wherever its consumer stops. -/
theorem keeps_exportCsv (owner : String) (workspace : Option String) (result : ResultId) (asked : ℕ)
    (h : Idle thread world) :
    Accounts settings records thread (exportCsv E owner workspace execution result (asked + 1)) world
      fun _ after ↦ Idle thread after := by
  refine keeps_getReceipt h fun _ hidle ↦ ?_
  intro before hrely hinv started after hperform
  obtain ⟨-, now, hstart⟩ := hperform
  obtain ⟨hrestores, hended⟩ := startExport_restores hinv (Idle.stable hrely hidle) hstart
  refine ⟨hrestores, ?_⟩
  rcases started with refusal | ⟨pageSize, rowCount⟩
  · exact hended
  · change Accounts settings records thread (exportStream E result pageSize rowCount asked) after _
    refine Safe.bind ((keeps_exportChunks pageSize rowCount asked 0 hended).mono
      fun ended after hleft ↦ ?_)
    obtain ⟨⟨outcome, rfl⟩, hleasing⟩ := hleft
    cases outcome with
    | error problem => exact keeps_abandonFetch _ problem hleasing
    | ok _ => exact keeps_releaseLease hleasing fun _ hidle ↦ hidle

/-- `close_result` leaves its thread idle. -/
theorem keeps_closeResult (result : ResultId) (h : Idle thread world) :
    Accounts settings records thread (closeResult E result) world fun _ after ↦
      Idle thread after := by
  have hfirst : Accounts settings records thread (ask (.storeClosed result)) world fun _ after ↦
      Idle thread after := keeps_restoring_last trivial (fun _ _ ↦ Idle.stable) h
  refine Safe.bind (Safe.bind (hfirst.mono fun outcome after hidle ↦ ?_))
  rcases outcome with problem | problem | _
  · exact hidle
  · exact hidle
  · exact keeps_restoring_last trivial (fun _ _ ↦ Idle.stable) hidle

/-- `cancel` leaves its thread idle. -/
theorem keeps_cancel (h : Idle thread world) :
    Accounts settings records thread (cancel E execution) world fun _ after ↦ Idle thread after := by
  have hfirst : Accounts settings records thread (ask (.requestCancel execution)) world fun _ after ↦
      Idle thread after := keeps_restoring_last trivial (fun _ _ ↦ Idle.stable) h
  refine Safe.bind (Safe.bind (hfirst.mono fun outcome after hidle ↦ ?_))
  rcases outcome with problem | problem | _
  · exact hidle
  · exact hidle
  · intro before hrely hinv retained last hperform
    obtain ⟨-, hunprotect⟩ := hperform
    have hrestores : Restores before last :=
      @restoring_restores E settings records thread before last (.unprotect execution) retained
        trivial hinv hunprotect
    obtain ⟨hlast, hretained⟩ := hunprotect
    have hstill : Idle thread last := Idle.stable (hrestores.2.rely thread) (Idle.stable hrely hidle)
    refine ⟨hrestores.restoresFor thread, ?_⟩
    cases retained with
    | false => exact hstill
    | true =>
      -- A session that is retained now was retained once, and its connection is no run's own.
      obtain ⟨identity, hidentity⟩ := Dictionary.contains_iff.1 hretained.symm
      have hwas : last.retained execution = true := by
        rw [hrestores.2.retained]
        exact hinv.active execution identity hidentity
      intro cancelling hrely' hinv' _ ended hcancel
      have hidle' : Idle thread cancelling := Idle.stable hrely' hstill
      rcases perform_cancelReadSession hcancel.2 with ⟨connection, hconnection, rfl⟩ | ⟨-, rfl⟩
      · have hwritten : Undisturbed cancelling (cancelling.writeConnection execution
            (if connection.closed then connection else { connection with cancelled := true })) := by
          refine writeConnection_undisturbed hconnection (hrely'.retained execution hwas) ?_ ?_
          · split <;> rfl
          · intro hclosed
            rw [if_pos hclosed]
            exact hclosed
        exact ⟨(Restores.of_undisturbed hinv' hwritten rfl (fun _ ↦ rfl) rfl).restoresFor thread,
          Idle.stable (hwritten.rely thread) hidle'⟩
      · exact ⟨⟨hinv', fun other _ ↦ .refl other ended⟩, hidle'⟩

theorem keeps_closeEach (remaining : List ℕ) (h : Clearing thread remaining world) :
    Accounts settings records thread (closeEach E remaining) world fun _ after ↦
      Idle thread after := by
  induction remaining generalizing world with
  | nil =>
    exact ⟨h.1, fun execution connection hconnection hopen hholder ↦
      (by cases h.2.1 execution connection hconnection hopen hholder)⟩
  | cons execution rest ih =>
    intro before hrely hinv _ after hperform
    obtain ⟨hlease, hholds, hretained⟩ := Clearing.stable hrely h
    obtain rfl : after = before.closeConnections fun other ↦ decide (other = execution) := hperform.2
    refine ⟨closeReadSession_restores hinv (.inr (hretained execution List.mem_cons_self)),
      ih ⟨hlease, fun other connection hconnection hopen hholder ↦ ?_,
        fun other hother ↦ hretained other (List.mem_cons_of_mem _ hother)⟩⟩
    obtain ⟨hkept, hbefore⟩ := open_of_closeConnections hconnection hopen
    have hne : other ≠ execution := by simpa using hkept
    exact (List.mem_cons.1 (hholds other connection hbefore hopen hholder)).resolve_left hne

/-- `close` leaves its thread idle. -/
theorem keeps_close (h : Idle thread world) :
    Accounts settings records thread (close E) world fun _ after ↦ Idle thread after := by
  intro before hrely hinv sessions after hperform
  obtain ⟨-, rfl, rfl⟩ := hperform
  have hidle : Idle thread before := h.stable hrely
  refine ⟨clear_restores hinv thread, keeps_closeEach before.activeReadSessions.keys
    ⟨hidle.1, fun execution connection hconnection hopen hholder ↦ ?_, fun execution hmem ↦ ?_⟩⟩
  · simp only [Registry.clear, Dictionary.get?_mapValues, Option.map_eq_some_iff] at hconnection
    obtain ⟨old, hold, hsame⟩ := hconnection
    split at hsame
    · next hactive =>
      exact Dictionary.mem_keys.2 (Dictionary.contains_iff.1 hactive)
    · subst hsame
      exact (hidle.2 execution old hold hopen hholder).elim
  · obtain ⟨identity, hidentity⟩ := Dictionary.mem_keys.1 hmem
    exact hinv.active execution identity hidentity

/-- The programs of the service but for exports whose stream is dropped before its first chunk. -/
def StreamsRead (E : Encoding) (program : ReadProgram E Unit) : Prop :=
  Starts E program ∧ ∀ owner workspace execution result,
    program ≠ exportCsv E owner workspace execution result 0

theorem keeps_starts {program : ReadProgram E Unit} (hstarts : StreamsRead E program)
    (h : Idle thread world) :
    Accounts settings records thread program world fun _ after ↦ Idle thread after := by
  obtain ⟨hstarts, hread⟩ := hstarts
  cases hstarts with
  | run execution => exact keeps_run h
  | page request => exact keeps_page request h
  | exportCsv owner workspace execution result asked =>
    cases asked with
    | zero => exact absurd rfl (hread owner workspace execution result)
    | succ asked => exact keeps_exportCsv owner workspace result asked h
  | closeResult result => exact keeps_closeResult result h
  | cancel execution => exact keeps_cancel h
  | close => exact keeps_close h
  | reclaim identity globalCapacity =>
    exact keeps_restoring trivial (fun _ _ ↦ Idle.stable) h fun _ _ hidle ↦ hidle
  | protect execution => exact keeps_restoring_last trivial (fun _ _ ↦ Idle.stable) h

end Programs

/-! ### Every run -/

theorem registryInv_initial : RegistryInv (Registry.initial : Registry E) where
  leases := fun _ _ hvalue ↦ by cases hvalue
  results := fun _ _ hvalue ↦ by cases hvalue
  leased := fun _ hmem ↦ by cases hmem
  active := fun _ _ hactive ↦ by cases hactive
  claimed := fun _ _ ↦ ⟨rfl, rfl⟩
  owned := fun _ _ hconnection ↦ by cases hconnection
  closings := fun _ hmem ↦ by cases hmem
  single := List.nodup_nil
  referenced := fun _ _ hactive ↦ by cases hactive

/-- The accounts of the service in one state. -/
structure SessionsAccounted (pool : Pool (readInterface E) Problem (Registry E)) : Prop where
  /-- Every retained session has a result. -/
  referenced : ∀ execution, pool.world.activeReadSessions.contains execution = true →
    pool.world.referenced execution = true
  /-- The lease count of a result is the number of calls that lease it. -/
  leases : ∀ result value, pool.world.transientResults.get? result = some value →
    value.activeExports = (pool.world.leases.map Prod.snd).count result
  /-- A call leases one result, and has not ended. -/
  leasing : (pool.world.leases.map Prod.fst).Nodup ∧
    ∀ lease ∈ pool.world.leases, pool.unfinished lease.1 = true
  /-- Purges and evictions close no session that is leased or protected. -/
  spared : ∀ closing ∈ pool.world.closings, closing.reason ≠ .request →
    closing.leased = false ∧ closing.protectedThen = false
  /-- The connection of a session without results is closed, or a call that has not ended closes it. -/
  closed : ∀ execution connection, pool.world.connections.get? execution = some connection →
    pool.world.referenced execution = false → connection.closed = true ∨
      ∃ thread, connection.holder = some thread ∧ pool.unfinished thread = true

/-- Room for four sessions. -/
def roomForFour : Settings := ⟨100, 1000, 4, 4, 900⟩

theorem dropped_asks (owner : String) (workspace : Option String) (execution : ℕ)
    (result : ResultId) : (exportCsv E owner workspace execution result 0).Asks
      fun (request : ReadCall E) ↦ ∀ other, request ≠ .releaseLease other := by
  refine ⟨fun _ hsame ↦ (by cases hsame), fun received ↦ ?_⟩
  rcases received with problem | _
  · trivial
  · refine ⟨fun _ hsame ↦ (by cases hsame), fun started ↦ ?_⟩
    rcases started with refusal | ⟨pageSize, rowCount⟩
    · trivial
    · trivial

end Schemii.ReadSessions
