import Schemii.ReadSessions.Fetching

/-!
# The registry of read sessions

The dictionaries of `ConsoleService` that hold transient results, page cursors, protected executions
and retained read sessions (`console/service.py`), and what each section under
`_transient_results_lock` does to them. A section is one function of the registry at some time:
`purgeTransientResults`, `closeUnreferencedReadSessions`, `makeReadSessionCapacity`, `retainResults`,
`claimPage`, `startExport`, `releaseLease`, `closeResult`, `reclaimReadSession` and the smaller ones.

The id of a result is random and belongs to one statement of one execution, so it is written as these
two. The connection of a read session is known by its execution, which runs once. The fields from
`claimedBy` on are read by no section: they record who claimed an execution, which executions were
retained, which preflights still stand, the leases, why sessions were closed, the call that has claimed
a page of a result and not answered it, the pages that were answered, the tokens that were issued and
consumed, and the rows of each server-side cursor.
-/

set_option autoImplicit false

namespace Schemii.ReadSessions

open Schemii.Foundations

/-- The connection and its revision. -/
abbrev Identity : Type := String × ℕ

/-- The settings of the service. -/
structure Settings where
  rowPageSize : ℕ
  pageMemoryBytes : ℕ
  maximumLiveReadSessions : ℕ
  maximumLiveReadSessionsPerIdentity : ℕ
  resultTtl : ℕ

/-- The id of a result. -/
structure ResultId where
  execution : ℕ
  statement : ℕ
  deriving DecidableEq, Repr

/-- `_TransientConsoleResult`. -/
structure TransientResult where
  owner : String
  workspace : Option String
  rowCount : Option ℕ
  pageSize : ℕ
  expiresAt : ℕ
  firstPageRequested : Bool
  activeExports : ℕ
  pendingClose : Bool
  deriving DecidableEq, Repr

/-- A page cursor: its result, its offset, and when it expires. -/
structure PageCursor where
  result : ResultId
  offset : ℕ
  expiresAt : ℕ
  deriving DecidableEq, Repr

/-- The record of an execution: what its run retains. -/
structure ExecutionRecord where
  owner : String
  workspace : Option String
  target : Identity
  pageSize : ℕ

/-- A read session with its connection. `holder` is the call that has to close it, if it is not
retained. -/
structure Connection (E : Encoding) where
  closed : Bool
  cancelled : Bool
  holder : Option ℕ
  readers : Dictionary ℕ (ReadCursor E)

/-- What closed a read session. -/
inductive Reason
  | purge
  | eviction
  | request
  deriving DecidableEq, Repr

/-- A read session that was closed, with its leases and its protection at that moment. -/
structure Closing where
  execution : ℕ
  reason : Reason
  leased : Bool
  protectedThen : Bool
  deriving DecidableEq, Repr

/-- A page that was answered: the token it was asked with, its offset and rows, the next token, and
whether the result was about to close. -/
structure Page (E : Encoding) where
  result : ResultId
  cursor : Option ℕ
  offset : ℕ
  rows : List E.Row
  next : Option ℕ
  closing : Bool

/-- The registry. -/
structure Registry (E : Encoding) where
  transientResults : Dictionary ResultId TransientResult
  resultCursors : Dictionary ℕ PageCursor
  protectedResults : Dictionary ℕ ℕ
  activeReadSessions : Dictionary ℕ Identity
  connections : Dictionary ℕ (Connection E)
  cancelRequested : ℕ → Bool
  claimedBy : ℕ → Option ℕ
  retained : ℕ → Bool
  standing : ℕ → Bool
  leases : List (ℕ × ResultId)
  closings : List Closing
  pager : ResultId → Option ℕ
  pages : List (Page E)
  issued : List ℕ
  consumed : List ℕ
  sources : ResultId → List (Option E.Row)

namespace Registry

variable {E : Encoding}

/-- The registry of a new service. -/
def initial : Registry E where
  transientResults := .empty
  resultCursors := .empty
  protectedResults := .empty
  activeReadSessions := .empty
  connections := .empty
  cancelRequested := fun _ ↦ false
  claimedBy := fun _ ↦ none
  retained := fun _ ↦ false
  standing := fun _ ↦ false
  leases := []
  closings := []
  pager := fun _ ↦ none
  pages := []
  issued := []
  consumed := []
  sources := fun _ ↦ []

/-- Whether an execution has a transient result. -/
def referenced (registry : Registry E) (execution : ℕ) : Bool :=
  registry.transientResults.keys.any fun result ↦ decide (result.execution = execution)

/-- Whether a result of an execution is leased. -/
def leased (registry : Registry E) (execution : ℕ) : Bool :=
  registry.transientResults.entries.any fun entry ↦
    decide (entry.1.execution = execution) && decide (0 < entry.2.activeExports)

/-- `_read_session_evictable`. -/
def readSessionEvictable (registry : Registry E) (execution : ℕ) : Bool :=
  !registry.protectedResults.contains execution && !registry.leased execution

/-- `PsycopgConsoleReadSession.close` of the sessions of some executions. -/
def closeConnections (registry : Registry E) (closes : ℕ → Bool) : Registry E :=
  { registry with
    connections := registry.connections.mapValues fun execution connection ↦
      if closes execution then { connection with closed := true, readers := .empty }
      else connection }

/-- What is recorded of the sessions that are closed for a reason. -/
def closing (registry : Registry E) (reason : Reason) (execution : ℕ) : Closing :=
  ⟨execution, reason, registry.leased execution, registry.protectedResults.contains execution⟩

/-- `_close_unreferenced_read_sessions`. -/
def closeUnreferencedReadSessions (registry : Registry E) (reason : Reason) : Registry E :=
  let dropped : ℕ → Bool := fun execution ↦
    registry.activeReadSessions.contains execution && !registry.referenced execution
  { registry.closeConnections dropped with
    activeReadSessions := registry.activeReadSessions.filter fun execution _ ↦ !dropped execution
    protectedResults := registry.protectedResults.filter fun execution _ ↦ !dropped execution
    closings := (registry.activeReadSessions.keys.filter dropped).map (registry.closing reason) ++
      registry.closings }

/-- Whether a purge drops a result. -/
def expired (now : ℕ) (result : TransientResult) : Bool :=
  (decide (result.expiresAt ≤ now) || result.pendingClose) && decide (result.activeExports = 0)

/-- `_purge_transient_results` up to the sessions without results. -/
def dropExpired (registry : Registry E) (now : ℕ) : Registry E :=
  let kept := registry.transientResults.filter fun _ result ↦ !expired now result
  let releases : ℕ → Bool := fun execution ↦
    registry.referenced execution && !(kept.keys.any fun result ↦ decide (result.execution = execution))
  { registry with
    transientResults := kept
    protectedResults := registry.protectedResults.filter fun execution expires ↦
      decide (now < expires) && !releases execution
    resultCursors := registry.resultCursors.filter fun _ cursor ↦
      !((registry.transientResults.get? cursor.result).any (expired now)) &&
        decide (now < cursor.expiresAt) }

/-- `_purge_transient_results`. -/
def purgeTransientResults (registry : Registry E) (now : ℕ) : Registry E :=
  (registry.dropExpired now).closeUnreferencedReadSessions .purge

/-- `_evict_read_session`, with the removal from the retained sessions before it. -/
def evictReadSession (registry : Registry E) (execution : ℕ) : Registry E :=
  { registry.closeConnections (fun other ↦ decide (other = execution)) with
    activeReadSessions := registry.activeReadSessions.erase execution
    transientResults := registry.transientResults.filter fun result _ ↦
      decide (result.execution ≠ execution)
    resultCursors := registry.resultCursors.filter fun _ cursor ↦
      decide (cursor.result.execution ≠ execution)
    closings := registry.closing .eviction execution :: registry.closings }

/-- Evict some number of the given sessions, each time the first one that is evictable. It answers
whether there were enough. -/
def evictEach : ℕ → List ℕ → Registry E → Bool × Registry E
  | 0, _, registry => (true, registry)
  | excess + 1, matching, registry =>
    match matching.find? registry.readSessionEvictable with
    | none => (false, registry)
    | some execution =>
      evictEach excess (matching.filter fun other ↦ decide (other ≠ execution))
        (registry.evictReadSession execution)

/-- The retained sessions of an identity, in order. -/
def ofIdentity (registry : Registry E) (identity : Identity) : List ℕ :=
  (registry.activeReadSessions.filter fun _ other ↦ decide (other = identity)).keys

/-- `_make_read_session_capacity`: first for the identity, then for all. -/
def makeReadSessionCapacity (settings : Settings) (target : Identity) (now : ℕ)
    (registry : Registry E) : Bool × Registry E :=
  let purged := registry.purgeTransientResults now
  let matching := purged.ofIdentity target
  match evictEach (matching.length + 1 - settings.maximumLiveReadSessionsPerIdentity) matching
    purged with
  | (false, after) => (false, after)
  | (true, after) =>
    let all := after.activeReadSessions.keys
    evictEach (all.length + 1 - settings.maximumLiveReadSessions) all after

/-- The results that a run adds, one for each statement. -/
def addResults (record : ExecutionRecord) (execution expiresAt : ℕ) :
    List (ℕ × Option ℕ) → Dictionary ResultId TransientResult → Dictionary ResultId TransientResult
  | [], results => results
  | (statement, rowCount) :: rest, results =>
    addResults record execution expiresAt rest (results.insert ⟨execution, statement⟩
      ⟨record.owner, record.workspace, rowCount, record.pageSize, expiresAt, false, 0, false⟩)

/-- The loop of `_retain_results`: evict other sessions, or give this one up. -/
def retainLoop (execution : ℕ) : ℕ → Registry E → Bool × Registry E
  | 0, registry => (true, registry)
  | excess + 1, registry =>
    match registry.activeReadSessions.keys.find? fun other ↦
      decide (other ≠ execution) && registry.readSessionEvictable other with
    | some other => retainLoop execution excess (registry.evictReadSession other)
    | none => (false, { registry.closeConnections (fun other ↦ decide (other = execution)) with
        activeReadSessions := registry.activeReadSessions.erase execution
        protectedResults := registry.protectedResults.erase execution
        transientResults := registry.transientResults.filter fun result _ ↦
          decide (result.execution ≠ execution) })

/-- `_retain_results` up to its loop, on a registry that was purged. -/
def addSession (record : ExecutionRecord) (execution expiresAt : ℕ)
    (summaries : List (ℕ × Option ℕ)) (registry : Registry E) : Registry E :=
  let extended := if registry.protectedResults.contains execution then
    registry.protectedResults.insert execution expiresAt else registry.protectedResults
  { registry with
    protectedResults := if summaries = [] then extended.erase execution else extended
    transientResults := addResults record execution expiresAt summaries registry.transientResults
    activeReadSessions := (registry.activeReadSessions.erase execution).insert execution record.target
    connections := registry.connections.mapValues fun other connection ↦
      if other = execution then { connection with holder := none } else connection
    retained := Function.update registry.retained execution true }

/-- `_retain_results`, for the results that were stored. -/
def retainResults (settings : Settings) (record : ExecutionRecord) (execution expiresAt : ℕ)
    (summaries : List (ℕ × Option ℕ)) (now : ℕ) (registry : Registry E) : Bool × Registry E :=
  let added := (registry.purgeTransientResults now).addSession record execution expiresAt summaries
  retainLoop execution (added.activeReadSessions.size - settings.maximumLiveReadSessions) added

/-- Write a result. -/
def writeResult (registry : Registry E) (result : ResultId) (value : TransientResult) : Registry E :=
  { registry with transientResults := registry.transientResults.insert result value }

/-- Take a lease of a result, by a thread. -/
def lease (registry : Registry E) (thread : ℕ) (result : ResultId) (value : TransientResult) :
    Registry E :=
  { registry.writeResult result { value with activeExports := value.activeExports + 1 } with
    leases := (thread, result) :: registry.leases }

/-- `move_to_end` of a retained session, if it is there. -/
def touch (registry : Registry E) (execution : ℕ) : Registry E :=
  match registry.activeReadSessions.get? execution with
  | some identity => { registry with
      activeReadSessions := (registry.activeReadSessions.erase execution).insert execution identity }
  | none => registry

/-- Why a request for a page or an export is refused. -/
inductive Refusal
  /-- 410 `console_result_replay_required` -/
  | replayRequired
  /-- 422 `console_page_size_limit` -/
  | pageSizeLimit
  /-- 410 `console_result_gone` -/
  | resultGone
  deriving DecidableEq, Repr

/-- A request for a page. -/
structure PageRequest where
  owner : String
  execution : ℕ
  result : ResultId
  cursor : Option ℕ
  pageSize : Option ℕ
  deriving DecidableEq, Repr

/-- What a claimed page reads: its offset, how many rows, and the count of the rows if it is known. -/
structure PageClaim where
  offset : ℕ
  batchSize : ℕ
  rowCount : Option ℕ
  deriving DecidableEq, Repr

/-- Take a token out of the page cursors. -/
def popCursor (registry : Registry E) (token : ℕ) : Registry E :=
  { registry with
    resultCursors := registry.resultCursors.erase token
    consumed := if registry.resultCursors.contains token then token :: registry.consumed
      else registry.consumed }

/-- A thread claims a page of a result. -/
def beginPage (registry : Registry E) (thread : ℕ) (result : ResultId) : Registry E :=
  { registry with pager := Function.update registry.pager result (some thread) }

/-- The first section of `page`. -/
def claimPage (settings : Settings) (thread : ℕ) (request : PageRequest) (now : ℕ)
    (registry : Registry E) : Except Refusal PageClaim × Registry E :=
  let purged := registry.purgeTransientResults now
  match purged.transientResults.get? request.result with
  | none => (.error .replayRequired, purged)
  | some value =>
    if value.pendingClose ∨ value.owner ≠ request.owner ∨
        request.result.execution ≠ request.execution then (.error .replayRequired, purged)
    else
      let batchSize := request.pageSize.getD value.pageSize
      if batchSize < 1 ∨ min value.pageSize settings.rowPageSize < batchSize then
        (.error .pageSizeLimit, purged)
      else
        match request.cursor with
        | none =>
          if value.firstPageRequested then (.error .resultGone, purged)
          else
            (.ok ⟨0, batchSize, value.rowCount⟩,
              ((purged.beginPage thread request.result).lease thread request.result
                { value with firstPageRequested := true }).touch request.execution)
        | some token =>
          match purged.resultCursors.get? token with
          | none => (.error .resultGone, purged.popCursor token)
          | some cursor =>
            if cursor.result ≠ request.result ∨ cursor.expiresAt ≤ now then
              (.error .resultGone, purged.popCursor token)
            else
              (.ok ⟨cursor.offset, batchSize, value.rowCount⟩,
                (((purged.popCursor token).beginPage thread request.result).lease thread
                  request.result value).touch request.execution)

/-- What the first section of `page` does to a registry that was purged: it refuses, it takes the token
and refuses, or it claims the first page or the page of the token. -/
inductive ClaimsPage (settings : Settings) (thread : ℕ) (request : PageRequest) (now : ℕ)
    (purged : Registry E) : Except Refusal PageClaim → Registry E → Prop
  | refused (refusal : Refusal) : ClaimsPage settings thread request now purged (.error refusal) purged
  | spent (refusal : Refusal) (token : ℕ) :
      ClaimsPage settings thread request now purged (.error refusal) (purged.popCursor token)
  | first {value : TransientResult}
      (hvalue : purged.transientResults.get? request.result = some value)
      (hopen : value.pendingClose = false) (hexecution : request.result.execution = request.execution)
      (hsize : 1 ≤ request.pageSize.getD value.pageSize)
      (hcursor : request.cursor = none) (hfirst : value.firstPageRequested = false) :
      ClaimsPage settings thread request now purged
        (.ok ⟨0, request.pageSize.getD value.pageSize, value.rowCount⟩)
        (((purged.beginPage thread request.result).lease thread request.result
          { value with firstPageRequested := true }).touch request.execution)
  | next {value : TransientResult} {token : ℕ} {cursor : PageCursor}
      (hvalue : purged.transientResults.get? request.result = some value)
      (hopen : value.pendingClose = false) (hexecution : request.result.execution = request.execution)
      (hsize : 1 ≤ request.pageSize.getD value.pageSize) (hcursor : request.cursor = some token)
      (htoken : purged.resultCursors.get? token = some cursor)
      (hresult : cursor.result = request.result) :
      ClaimsPage settings thread request now purged
        (.ok ⟨cursor.offset, request.pageSize.getD value.pageSize, value.rowCount⟩)
        ((((purged.popCursor token).beginPage thread request.result).lease thread request.result
          value).touch request.execution)

/-- The first section of `page` is one of these. -/
theorem claimPage_claims (settings : Settings) (thread : ℕ) (request : PageRequest) (now : ℕ)
    (registry : Registry E) :
    ClaimsPage settings thread request now (registry.purgeTransientResults now)
      (registry.claimPage settings thread request now).1
      (registry.claimPage settings thread request now).2 := by
  unfold claimPage
  dsimp only
  split
  · exact .refused _
  · next value hvalue =>
    split
    · exact .refused _
    · next hopen =>
      simp only [not_or, Bool.not_eq_true, ne_eq, not_not] at hopen
      split
      · exact .refused _
      · next hsize =>
        simp only [not_or, not_lt] at hsize
        split
        · next hcursor =>
          split
          · exact .refused _
          · next hfirst =>
            exact .first hvalue hopen.1 hopen.2.2 hsize.1 hcursor (by simpa using hfirst)
        · next token hcursor =>
          split
          · exact .spent _ token
          · next cursor htoken =>
            split
            · exact .spent _ token
            · next hvalid =>
              simp only [ne_eq, not_or, not_not] at hvalid
              exact .next hvalue hopen.1 hopen.2.2 hsize.1 hcursor htoken hvalid.1

/-- The section of `export_csv`. It answers the page size and the count of the rows. -/
def startExport (thread : ℕ) (owner : String) (workspace : Option String) (execution : ℕ)
    (result : ResultId) (now : ℕ) (registry : Registry E) :
    Except Refusal (ℕ × Option ℕ) × Registry E :=
  let purged := registry.purgeTransientResults now
  match purged.transientResults.get? result with
  | none => (.error .replayRequired, purged)
  | some value =>
    if value.pendingClose ∨ value.owner ≠ owner ∨ value.workspace ≠ workspace ∨
        result.execution ≠ execution then (.error .replayRequired, purged)
    else (.ok (value.pageSize, value.rowCount), purged.lease thread result value)

/-- The end of the lease of a thread. -/
def unlease (thread : ℕ) (result : ResultId) (registry : Registry E) : Registry E :=
  { registry with
    transientResults := registry.transientResults.mapValues fun other value ↦
      if other = result then { value with activeExports := value.activeExports - 1 } else value
    leases := registry.leases.erase (thread, result) }

/-- The last section of `page` and of an export. -/
def releaseLease (thread : ℕ) (result : ResultId) (now : ℕ) (registry : Registry E) : Registry E :=
  (registry.unlease thread result).purgeTransientResults now

/-- The section of `page` and of an export after a fetch that gives the results up. -/
def markPendingClose (execution : ℕ) (registry : Registry E) : Registry E :=
  { registry with
    transientResults := registry.transientResults.mapValues fun result value ↦
      if result.execution = execution then { value with pendingClose := true } else value }

/-- The transient results after `close_result`: a leased result is about to close. -/
def resultsWithout (result : ResultId) (registry : Registry E) :
    Dictionary ResultId TransientResult :=
  match registry.transientResults.get? result with
  | some value =>
    if 0 < value.activeExports then
      registry.transientResults.insert result { value with pendingClose := true }
    else registry.transientResults.erase result
  | none => registry.transientResults

/-- The first part of the section of `close_result`. -/
def dropResult (result : ResultId) (registry : Registry E) : Registry E :=
  { registry with
    transientResults := registry.resultsWithout result
    resultCursors := registry.resultCursors.filter fun _ cursor ↦ decide (cursor.result ≠ result) }

/-- The section of `close_result`. -/
def closeResult (result : ResultId) (registry : Registry E) : Registry E :=
  let closed := (registry.dropResult result).closeUnreferencedReadSessions .request
  if closed.referenced result.execution then closed
  else { closed with protectedResults := closed.protectedResults.erase result.execution }

/-- The section of `reserve_read_target` that protects a result. -/
def protectResult (settings : Settings) (execution now later : ℕ) (registry : Registry E) :
    Registry E :=
  let purged := registry.purgeTransientResults now
  { purged with
    protectedResults := purged.protectedResults.insert execution (later + settings.resultTtl) }

/-- The end of the protection of an execution. -/
def unprotect (execution : ℕ) (registry : Registry E) : Registry E :=
  { registry with protectedResults := registry.protectedResults.erase execution }

/-- The section of `close` that clears the registry; the caller closes the sessions then. -/
def clear (thread : ℕ) (registry : Registry E) : Registry E :=
  { registry with
    activeReadSessions := .empty
    protectedResults := .empty
    transientResults := .empty
    resultCursors := .empty
    connections := registry.connections.mapValues fun execution connection ↦
      if registry.activeReadSessions.contains execution then
        { connection with holder := some thread }
      else connection }

/-- `_reclaim_read_session`. It answers whether a session was released. -/
def reclaimReadSession (identity : Identity) (globalCapacity : Bool) (now : ℕ)
    (registry : Registry E) : Bool × Registry E :=
  let purged := registry.purgeTransientResults now
  match (purged.activeReadSessions.entries.filter fun entry ↦
      globalCapacity || decide (entry.2 = identity)).find? fun entry ↦
        purged.readSessionEvictable entry.1 with
  | none => (false, purged)
  | some entry => (true, purged.evictReadSession entry.1)

/-! ### Evictions -/

/-- A retained session that is evictable is evicted. -/
def Evicts (before after : Registry E) : Prop :=
  ∃ execution ∈ before.activeReadSessions.keys, before.readSessionEvictable execution = true ∧
    after = before.evictReadSession execution

/-- Some evictions, one after the other. -/
abbrev EvictsSome : Registry E → Registry E → Prop := Relation.ReflTransGen Evicts

theorem evictEach_evicts (excess : ℕ) (matching : List ℕ) {registry : Registry E}
    (hmatching : ∀ execution ∈ matching, execution ∈ registry.activeReadSessions.keys) :
    EvictsSome registry (evictEach excess matching registry).2 := by
  induction excess generalizing matching registry with
  | zero => exact .refl
  | succ excess ih =>
    unfold evictEach
    split
    · exact .refl
    · next execution hfind =>
      have hmem := List.mem_of_find?_eq_some hfind
      refine .head ⟨execution, hmatching execution hmem, List.find?_some hfind, rfl⟩
        (ih _ fun other hother ↦ ?_)
      obtain ⟨hother, hne⟩ := List.mem_filter.1 hother
      obtain ⟨identity, hidentity⟩ := Dictionary.mem_keys.1 (hmatching other hother)
      refine Dictionary.mem_keys.2 ⟨identity, ?_⟩
      show (registry.activeReadSessions.erase execution).get? other = some identity
      rw [Dictionary.get?_erase, if_neg (by simpa using hne)]
      exact hidentity

theorem mem_ofIdentity {registry : Registry E} {identity : Identity} {execution : ℕ}
    (h : execution ∈ registry.ofIdentity identity) : execution ∈ registry.activeReadSessions.keys :=
  (List.filter_sublist.map Prod.fst).subset h

theorem makeReadSessionCapacity_evicts (settings : Settings) (target : Identity) (now : ℕ)
    (registry : Registry E) : EvictsSome (registry.purgeTransientResults now)
      (registry.makeReadSessionCapacity settings target now).2 := by
  have hfirst := evictEach_evicts
    (((registry.purgeTransientResults now).ofIdentity target).length + 1 -
      settings.maximumLiveReadSessionsPerIdentity)
    ((registry.purgeTransientResults now).ofIdentity target) fun _ ↦ mem_ofIdentity
  simp only [makeReadSessionCapacity]
  split
  · next after hevict =>
    rw [hevict] at hfirst
    exact hfirst
  · next after hevict =>
    rw [hevict] at hfirst
    exact hfirst.trans (evictEach_evicts _ _ fun _ ↦ id)

theorem reclaimReadSession_evicts (identity : Identity) (globalCapacity : Bool) (now : ℕ)
    (registry : Registry E) : EvictsSome (registry.purgeTransientResults now)
      (registry.reclaimReadSession identity globalCapacity now).2 := by
  unfold reclaimReadSession
  dsimp only
  split
  · exact .refl
  · next entry hfind =>
    have hmem := (List.mem_filter.1 (List.mem_of_find?_eq_some hfind)).1
    exact .single ⟨entry.1, List.mem_map.2 ⟨entry, hmem, rfl⟩, by simpa using List.find?_some hfind,
      rfl⟩

end Registry

end Schemii.ReadSessions
