import Schemii.ReadSessions.Limits

/-!
# Pages in sequence

The pages of one result follow each other: a token is issued with a page and taken by one request, and
while a page is under way its result has no token. This module is about the calls that do nothing to
that.

* `Steady`: what purges, evictions, closings, leases and exports do to the pages, which is nothing but
  to take results, tokens and cursors away.
* `call_steady`: the calls that are steady.
-/

set_option autoImplicit false

namespace Schemii.ReadSessions

open Schemii.Foundations

variable {E : Encoding}

/-! ### What pages read -/

/-- The rows and the portal that the pages of a result read, unless its session is closed. -/
def Registry.view (registry : Registry E) (result : ResultId) : Option (List E.Row × Portal E) :=
  (registry.connections.get? result.execution).bind fun connection ↦
    (connection.readers.get? result.statement).map fun reader ↦ (reader.rows, reader.page)

/-- A view reads the rows of a result. -/
def ReadsRows (source : List (Option E.Row)) (view : List E.Row × Portal E) : Prop :=
  (view.2.cursor = none → source = view.1.map some) ∧
    (view.2.cursor ≠ none → ∃ raws, source = raws.map E.convert ∧ view.2.Reads raws)

/-- The portal of a result, if its session is open, stands at an offset. -/
def StandsAt (registry : Registry E) (result : ResultId) (offset : ℕ) : Prop :=
  ∀ view, registry.view result = some view → view.2.cursor ≠ none → view.2.position = offset

/-- A count of the rows of a result, which is known when there is no cursor. -/
def Counted (registry : Registry E) (result : ResultId) (count : Option ℕ) : Prop :=
  (∀ number, count = some number → number = (registry.sources result).length) ∧
    ∀ view, registry.view result = some view → (view.2.cursor = none ↔ count ≠ none)

/-- A result stays retained: it is there, it is not about to close, and its session is open. -/
def Kept (registry : Registry E) (result : ResultId) : Prop :=
  (∃ value, registry.transientResults.get? result = some value ∧ value.pendingClose = false) ∧
    registry.view result ≠ none

theorem view_closeConnections (registry : Registry E) (closes : ℕ → Bool) (result : ResultId) :
    (registry.closeConnections closes).view result =
      if closes result.execution then none else registry.view result := by
  simp only [Registry.view, Registry.closeConnections, Dictionary.get?_mapValues]
  cases registry.connections.get? result.execution with
  | none => simp
  | some connection =>
    cases closes result.execution with
    | false => simp
    | true => simp

theorem view_writeConnection (registry : Registry E) (execution : ℕ) (connection : Connection E)
    (result : ResultId) :
    (registry.writeConnection execution connection).view result =
      if result.execution = execution then
        (connection.readers.get? result.statement).map fun reader ↦ (reader.rows, reader.page)
      else registry.view result := by
  simp only [Registry.view, Registry.writeConnection, Dictionary.get?_insert]
  split <;> rfl

variable {result : ResultId} {registry : Registry E}

theorem view_writeReader {connection : Connection E}
    (hconnection : registry.connections.get? result.execution = some connection)
    (reader : ReadCursor E) (other : ResultId) :
    (registry.writeReader result connection reader).view other =
      if other = result then some (reader.rows, reader.page) else registry.view other := by
  rw [Registry.writeReader, view_writeConnection]
  by_cases hexecution : other.execution = result.execution
  · rw [if_pos hexecution, Dictionary.get?_insert]
    by_cases hstatement : other.statement = result.statement
    · have hsame : other = result := by
        cases other
        cases result
        simp only at hexecution hstatement
        rw [hexecution, hstatement]
      rw [if_pos hstatement, if_pos hsame]
      rfl
    · have hne : other ≠ result := fun hsame ↦ hstatement (by rw [hsame])
      rw [if_neg hstatement, if_neg hne, Registry.view, hexecution, hconnection]
      rfl
  · have hne : other ≠ result := fun hsame ↦ hexecution (by rw [hsame])
    rw [if_neg hexecution, if_neg hne]

/-! ### Changes that leave the pages alone -/

/-- The pages and the tokens stay, and so do the claims that there are. -/
structure SameLog (before after : Registry E) : Prop where
  claimedBy : ∀ execution thread, before.claimedBy execution = some thread →
    after.claimedBy execution = some thread
  retained : after.retained = before.retained
  sources : after.sources = before.sources
  pager : after.pager = before.pager
  pages : after.pages = before.pages
  issued : after.issued = before.issued
  consumed : after.consumed = before.consumed

/-- A change takes results, tokens and sessions away, and changes nothing else of the pages. -/
structure Steady (before after : Registry E) : Prop extends SameLog before after where
  views : ∀ result, after.view result = none ∨ after.view result = before.view result
  results : ∀ result value, after.transientResults.get? result = some value →
    ∃ old, before.transientResults.get? result = some old ∧ value.rowCount = old.rowCount ∧
      value.firstPageRequested = old.firstPageRequested ∧
      (old.pendingClose = true → value.pendingClose = true)
  cursors : ∀ token cursor, after.resultCursors.get? token = some cursor →
    before.resultCursors.get? token = some cursor

namespace Steady

theorem refl (registry : Registry E) : Steady registry registry :=
  ⟨⟨fun _ _ h ↦ h, rfl, rfl, rfl, rfl, rfl, rfl⟩, fun _ ↦ .inr rfl,
    fun _ value hvalue ↦ ⟨value, hvalue, rfl, rfl, fun hclosing ↦ hclosing⟩, fun _ _ h ↦ h⟩

theorem trans {first second third : Registry E} (h : Steady first second)
    (h' : Steady second third) : Steady first third where
  claimedBy := fun _ _ hclaimed ↦ h'.claimedBy _ _ (h.claimedBy _ _ hclaimed)
  retained := h'.retained.trans h.retained
  sources := h'.sources.trans h.sources
  pager := h'.pager.trans h.pager
  pages := h'.pages.trans h.pages
  issued := h'.issued.trans h.issued
  consumed := h'.consumed.trans h.consumed
  views := fun result ↦ by
    rcases h'.views result with hnone | hsame
    · exact .inl hnone
    · rw [hsame]
      exact h.views result
  results := fun result value hvalue ↦ by
    obtain ⟨middle, hmiddle, hcount', hfirst', hclosing'⟩ := h'.results result value hvalue
    obtain ⟨old, hold, hcount, hfirst, hclosing⟩ := h.results result middle hmiddle
    exact ⟨old, hold, hcount'.trans hcount, hfirst'.trans hfirst,
      fun hwas ↦ hclosing' (hclosing hwas)⟩
  cursors := fun token cursor hcursor ↦ h.cursors token cursor (h'.cursors token cursor hcursor)

variable {before after : Registry E}

theorem of_same (hlog : SameLog before after) (hconnections : after.connections = before.connections)
    (hresults : after.transientResults = before.transientResults)
    (hcursors : after.resultCursors = before.resultCursors) : Steady before after where
  toSameLog := hlog
  views := fun result ↦ .inr (by rw [Registry.view, Registry.view, hconnections])
  results := fun _ value hvalue ↦ ⟨value, hresults ▸ hvalue, rfl, rfl, fun hclosing ↦ hclosing⟩
  cursors := fun _ _ hcursor ↦ hcursors ▸ hcursor

theorem of_dropped (hlog : SameLog before after)
    (hconnections : after.connections = before.connections)
    (hresults : ∀ result value, after.transientResults.get? result = some value →
      before.transientResults.get? result = some value)
    (hcursors : ∀ token cursor, after.resultCursors.get? token = some cursor →
      before.resultCursors.get? token = some cursor) : Steady before after where
  toSameLog := hlog
  views := fun result ↦ .inr (by rw [Registry.view, Registry.view, hconnections])
  results := fun result value hvalue ↦
    ⟨value, hresults result value hvalue, rfl, rfl, fun hclosing ↦ hclosing⟩
  cursors := hcursors

end Steady

theorem closeConnections_steady (registry : Registry E) (closes : ℕ → Bool) :
    Steady registry (registry.closeConnections closes) where
  toSameLog := ⟨fun _ _ h ↦ h, rfl, rfl, rfl, rfl, rfl, rfl⟩
  views := fun result ↦ by
    rw [view_closeConnections]
    split
    · exact .inl rfl
    · exact .inr rfl
  results := fun _ value hvalue ↦ ⟨value, hvalue, rfl, rfl, fun hclosing ↦ hclosing⟩
  cursors := fun _ _ hcursor ↦ hcursor

theorem purge_steady (registry : Registry E) (now : ℕ) :
    Steady registry (registry.purgeTransientResults now) := by
  have hdropped : Steady registry (registry.dropExpired now) :=
    .of_dropped ⟨fun _ _ h ↦ h, rfl, rfl, rfl, rfl, rfl, rfl⟩ rfl (fun _ _ ↦ get?_of_filter)
      fun _ _ ↦ get?_of_filter
  have hclosed := closeConnections_steady (registry.dropExpired now) fun execution ↦
    (registry.dropExpired now).activeReadSessions.contains execution &&
      !(registry.dropExpired now).referenced execution
  exact (hdropped.trans hclosed).trans
    (.of_same ⟨fun _ _ h ↦ h, rfl, rfl, rfl, rfl, rfl, rfl⟩ rfl rfl rfl)

theorem evict_steady (registry : Registry E) (execution : ℕ) :
    Steady registry (registry.evictReadSession execution) :=
  (closeConnections_steady registry fun other ↦ decide (other = execution)).trans
    (.of_dropped ⟨fun _ _ h ↦ h, rfl, rfl, rfl, rfl, rfl, rfl⟩ rfl (fun _ _ ↦ get?_of_filter)
      fun _ _ ↦ get?_of_filter)

variable {before after : Registry E}

theorem evicts_steady (h : Registry.EvictsSome before after) :
    Steady before after := by
  induction h with
  | refl => exact .refl before
  | tail _ hevicts ih =>
    obtain ⟨execution, -, -, rfl⟩ := hevicts
    exact ih.trans (evict_steady _ execution)

theorem retainLoop_steady (execution excess : ℕ) (registry : Registry E) :
    Steady registry (Registry.retainLoop execution excess registry).2 := by
  induction excess generalizing registry with
  | zero => exact .refl registry
  | succ excess ih =>
    unfold Registry.retainLoop
    split
    · exact (evict_steady registry _).trans (ih _)
    · exact (closeConnections_steady registry fun other ↦ decide (other = execution)).trans
        (.of_dropped ⟨fun _ _ h ↦ h, rfl, rfl, rfl, rfl, rfl, rfl⟩ rfl (fun _ _ ↦ get?_of_filter)
          fun _ _ hcursor ↦ hcursor)

/-- `move_to_end`. -/
theorem touch_steady (registry : Registry E) (execution : ℕ) :
    Steady registry (registry.touch execution) := by
  unfold Registry.touch
  split
  · exact .of_same ⟨fun _ _ h ↦ h, rfl, rfl, rfl, rfl, rfl, rfl⟩ rfl rfl rfl
  · exact .refl registry

/-- Writing a result. Assumes: it is there, with the same count and the same first page. -/
theorem lease_steady {old value : TransientResult}
    (thread : ℕ) (hold : registry.transientResults.get? result = some old)
    (hcount : value.rowCount = old.rowCount)
    (hfirst : value.firstPageRequested = old.firstPageRequested)
    (hclosing : old.pendingClose = true → value.pendingClose = true) :
    Steady registry (registry.lease thread result value) where
  toSameLog := ⟨fun _ _ h ↦ h, rfl, rfl, rfl, rfl, rfl, rfl⟩
  views := fun _ ↦ .inr rfl
  results := fun other found hfound ↦ by
    simp only [Registry.lease, Registry.writeResult, Dictionary.get?_insert] at hfound
    split at hfound
    · next hsame =>
      obtain rfl := Option.some.inj hfound
      exact ⟨old, hsame ▸ hold, hcount, hfirst, hclosing⟩
    · exact ⟨found, hfound, rfl, rfl, fun hwas ↦ hwas⟩
  cursors := fun _ _ hcursor ↦ hcursor

theorem mapResults_steady (registry : Registry E) {change : ResultId → TransientResult →
    TransientResult} (hcount : ∀ result value, (change result value).rowCount = value.rowCount)
    (hfirst : ∀ result value, (change result value).firstPageRequested = value.firstPageRequested)
    (hclosing : ∀ result value, value.pendingClose = true →
      (change result value).pendingClose = true) :
    Steady registry { registry with
      transientResults := registry.transientResults.mapValues change } where
  toSameLog := ⟨fun _ _ h ↦ h, rfl, rfl, rfl, rfl, rfl, rfl⟩
  views := fun _ ↦ .inr rfl
  results := fun result value hvalue ↦ by
    simp only [Dictionary.get?_mapValues, Option.map_eq_some_iff] at hvalue
    obtain ⟨old, hold, rfl⟩ := hvalue
    exact ⟨old, hold, hcount result old, hfirst result old, hclosing result old⟩
  cursors := fun _ _ hcursor ↦ hcursor

theorem releaseLease_steady (thread : ℕ) (result : ResultId) (now : ℕ) (registry : Registry E) :
    Steady registry (registry.releaseLease thread result now) := by
  have hmapped := @mapResults_steady E registry (fun other value ↦
    if other = result then { value with activeExports := value.activeExports - 1 } else value)
    (fun _ _ ↦ by split <;> rfl) (fun _ _ ↦ by split <;> rfl)
    fun _ _ hclosing ↦ by split <;> exact hclosing
  have hunleased : Steady registry (registry.unlease thread result) :=
    hmapped.trans (.of_same ⟨fun _ _ h ↦ h, rfl, rfl, rfl, rfl, rfl, rfl⟩ rfl rfl rfl)
  exact hunleased.trans (purge_steady _ now)

theorem markPendingClose_steady (execution : ℕ) (registry : Registry E) :
    Steady registry (registry.markPendingClose execution) :=
  mapResults_steady registry (fun _ _ ↦ by split <;> rfl) (fun _ _ ↦ by split <;> rfl)
    fun _ _ hclosing ↦ by
      split
      · rfl
      · exact hclosing

/-- The first part of `close_result`. -/
theorem dropResult_steady (result : ResultId) (registry : Registry E) :
    Steady registry (registry.dropResult result) where
  toSameLog := ⟨fun _ _ h ↦ h, rfl, rfl, rfl, rfl, rfl, rfl⟩
  views := fun _ ↦ .inr rfl
  results := fun other value hvalue ↦ by
    simp only [Registry.dropResult, Registry.resultsWithout] at hvalue
    split at hvalue
    · next old hold =>
      split at hvalue
      · rw [Dictionary.get?_insert] at hvalue
        split at hvalue
        · next hsame =>
          obtain rfl := Option.some.inj hvalue
          exact ⟨old, hsame ▸ hold, rfl, rfl, fun _ ↦ rfl⟩
        · exact ⟨value, hvalue, rfl, rfl, fun hwas ↦ hwas⟩
      · exact ⟨value, get?_of_filter hvalue, rfl, rfl, fun hwas ↦ hwas⟩
    · exact ⟨value, hvalue, rfl, rfl, fun hwas ↦ hwas⟩
  cursors := fun _ _ ↦ get?_of_filter

/-- The section of `close_result`. -/
theorem closeResult_steady (result : ResultId) (registry : Registry E) :
    Steady registry (registry.closeResult result) := by
  have hclosed := (dropResult_steady result registry).trans
    (closeConnections_steady (registry.dropResult result) fun execution ↦
      (registry.dropResult result).activeReadSessions.contains execution &&
        !(registry.dropResult result).referenced execution)
  simp only [Registry.closeResult]
  split
  · exact hclosed.trans (.of_same ⟨fun _ _ h ↦ h, rfl, rfl, rfl, rfl, rfl, rfl⟩ rfl rfl rfl)
  · exact hclosed.trans (.of_same ⟨fun _ _ h ↦ h, rfl, rfl, rfl, rfl, rfl, rfl⟩ rfl rfl rfl)

theorem startExport_steady (thread : ℕ) (owner : String) (workspace : Option String)
    (execution : ℕ) (result : ResultId) (now : ℕ) (registry : Registry E) :
    Steady registry (registry.startExport thread owner workspace execution result now).2 := by
  have hpurge := purge_steady registry now
  unfold Registry.startExport
  dsimp only
  split
  · exact hpurge
  · next value hvalue =>
    split
    · exact hpurge
    · exact hpurge.trans (lease_steady thread hvalue rfl rfl fun hwas ↦ hwas)

/-- The section of `close`. -/
theorem clear_steady (thread : ℕ) (registry : Registry E) :
    Steady registry (registry.clear thread) where
  toSameLog := ⟨fun _ _ h ↦ h, rfl, rfl, rfl, rfl, rfl, rfl⟩
  views := fun result ↦ by
    simp only [Registry.view, Registry.clear, Dictionary.get?_mapValues]
    cases registry.connections.get? result.execution with
    | none => exact .inr rfl
    | some connection =>
      refine .inr ?_
      simp only [Option.map_some, Option.bind_some]
      split <;> rfl
  results := fun _ _ hvalue ↦ by cases hvalue
  cursors := fun _ _ hcursor ↦ by cases hcursor

theorem writeReader_steady {connection : Connection E} {reader reader' : ReadCursor E}
    (hconnection : registry.connections.get? result.execution = some connection)
    (hreader : connection.readers.get? result.statement = some reader)
    (hrows : reader'.rows = reader.rows) (hpage : reader'.page = reader.page) :
    Steady registry (registry.writeReader result connection reader') where
  toSameLog := ⟨fun _ _ h ↦ h, rfl, rfl, rfl, rfl, rfl, rfl⟩
  views := fun other ↦ by
    rw [view_writeReader hconnection]
    split
    · next hsame =>
      rw [hsame, Registry.view, hconnection, Option.bind_some, hreader, hrows, hpage]
      exact .inr rfl
    · exact .inr rfl
  results := fun _ value hvalue ↦ ⟨value, hvalue, rfl, rfl, fun hclosing ↦ hclosing⟩
  cursors := fun _ _ hcursor ↦ hcursor

theorem fetchExport_steady {limit offset pageSize : ℕ} {reply : Except FetchProblem (List E.Row)}
    (h : Fetches (fun reader ↦ reader.fetchExport limit offset pageSize) ReadCursor.moveExport result
      before reply after) : Steady before after := by
  cases h with
  | unavailable => exact .refl before
  | cancelled => exact .refl before
  | failed problem sent hproblem hconnection hreader =>
    exact writeReader_steady hconnection hreader rfl rfl
  | raised hconnection hreader hopen hfetch =>
    split
    · exact closeConnections_steady before _
    · exact .refl before
  | @fetched connection reader reader' rows hconnection hreader hopen hcancelled hfetch =>
    simp only [ReadCursor.fetchExport] at hfetch
    split at hfetch
    · cases hfetch
    · obtain ⟨-, rfl⟩ := Prod.mk.inj (Except.ok.inj hfetch)
      exact writeReader_steady hconnection hreader rfl rfl

/-- The calls that leave the pages alone. -/
def SteadyCall : ReadCall E → Prop
  | .openReadSession _ | .retain _ _ | .claimPage _ | .fetchPage _ _ _
  | .respond _ _ _ _ _ => False
  | _ => True

theorem call_steady {settings : Settings} {records : ℕ → ExecutionRecord} {thread : ℕ}
    {request : ReadCall E} {reply : request.Reply E} {before after : Registry E}
    (hsteady : SteadyCall request)
    (h : (registrySemantics settings records).perform thread request before reply after) :
    Steady before after := by
  cases request with
  | claim execution =>
    rcases h with ⟨rfl, -⟩ | ⟨-, hfree, rfl⟩
    · exact .refl after
    · refine .of_same ⟨fun other holder hclaimed ↦ ?_, rfl, rfl, rfl, rfl, rfl, rfl⟩ rfl rfl rfl
      have hne : other ≠ execution := by
        rintro rfl
        rw [hfree] at hclaimed
        cases hclaimed
      show Function.update before.claimedBy execution (some thread) other = some holder
      rw [Function.update_of_ne hne]
      exact hclaimed
  | resolve execution =>
    obtain rfl : after = before := h
    exact .refl after
  | storeFailure execution =>
    obtain rfl : after = before := h
    exact .refl after
  | getReceipt execution =>
    obtain rfl : after = before := h
    exact .refl after
  | storeClosed result =>
    obtain rfl : after = before := h
    exact .refl after
  | preflight execution =>
    have hmade := fun now ↦ (purge_steady before now).trans (evicts_steady
      (before.makeReadSessionCapacity_evicts settings (records execution).target now))
    cases h with
    | admitted now =>
      exact (hmade now).trans (.of_same ⟨fun _ _ h ↦ h, rfl, rfl, rfl, rfl, rfl, rfl⟩ rfl rfl rfl)
    | refused now => exact hmade now
  | succeed execution =>
    obtain ⟨rfl, -⟩ := h
    exact .refl after
  | closeReadSession execution =>
    obtain rfl := h
    exact closeConnections_steady before _
  | hasBufferedRows result =>
    obtain ⟨rfl, -⟩ := h
    exact .refl after
  | markPendingClose execution =>
    obtain rfl := h
    exact markPendingClose_steady execution before
  | releaseLease result =>
    obtain ⟨now, rfl⟩ := h
    exact releaseLease_steady thread result now before
  | startExport owner workspace execution result =>
    obtain ⟨now, hstart⟩ := h
    obtain rfl : after = _ := congrArg Prod.snd hstart
    exact startExport_steady thread owner workspace execution result now before
  | fetchExport result offset pageSize => exact fetchExport_steady h
  | closeResult result =>
    obtain rfl := h
    exact closeResult_steady result before
  | requestCancel execution =>
    rcases h with ⟨problem, -, rfl⟩ | ⟨-, rfl⟩
    · exact .refl after
    · exact .of_same ⟨fun _ _ h ↦ h, rfl, rfl, rfl, rfl, rfl, rfl⟩ rfl rfl rfl
  | unprotect execution =>
    obtain ⟨rfl, -⟩ := h
    exact .of_same ⟨fun _ _ h ↦ h, rfl, rfl, rfl, rfl, rfl, rfl⟩ rfl rfl rfl
  | cancelReadSession execution =>
    rcases perform_cancelReadSession h with ⟨connection, hconnection, rfl⟩ | ⟨-, rfl⟩
    · refine ⟨⟨fun _ _ h ↦ h, rfl, rfl, rfl, rfl, rfl, rfl⟩, fun result ↦ .inr ?_,
        fun _ value hvalue ↦ ⟨value, hvalue, rfl, rfl, fun hclosing ↦ hclosing⟩,
        fun _ _ hcursor ↦ hcursor⟩
      rw [view_writeConnection]
      split
      · next hsame =>
        rw [Registry.view, hsame, hconnection]
        split <;> rfl
      · rfl
    · exact .refl after
  | clear =>
    obtain ⟨-, rfl⟩ := h
    exact clear_steady thread before
  | reclaim identity globalCapacity =>
    obtain ⟨now, hreclaim⟩ := h
    obtain rfl : after = _ := congrArg Prod.snd hreclaim
    exact (purge_steady before now).trans
      (evicts_steady (before.reclaimReadSession_evicts identity globalCapacity now))
  | protect execution =>
    obtain ⟨now, later, rfl⟩ := h
    exact (purge_steady before now).trans
      (.of_same ⟨fun _ _ h ↦ h, rfl, rfl, rfl, rfl, rfl, rfl⟩ rfl rfl rfl)
  | _ => exact hsteady.elim

end Schemii.ReadSessions
