import Schemii.ReadSessions.Service

/-!
# Exports of a retained result

What the streams of `export_csv` deliver after their header, while pages of the same result are read. A
session fetches under its lock, so what happens to the read cursor of a result is a sequence of events:
a page, or one turn of the loop of a stream (`exportChunks_answered`).

The portal of the exports is opened once. As long as a single stream delivers rows of it, every stream
that ends has delivered all rows in order; a stream after it starts out of sequence. The portal of the
pages is not touched.
-/

set_option autoImplicit false

namespace Schemii.ReadSessions

open Schemii.Foundations

variable {E : Encoding}

/-- A stream of `export_csv`: its offset, the rows it has delivered, and how it ended. -/
structure ExportStream (E : Encoding) where
  offset : ℕ
  rows : List E.Row
  outcome : Option (Except FetchProblem Unit)

/-- A result that is read by streams. -/
structure Exporting (E : Encoding) where
  registry : Registry E
  streams : ℕ → ExportStream E

/-- A page of the result, or a turn of a stream. -/
inductive ExportEvent
  | page (offset pageSize : ℕ)
  | chunk (stream : ℕ)

/-- A page of a result. -/
def answerPage (settings : Settings) (result : ResultId) (offset pageSize : ℕ)
    (registry : Registry E) : Except FetchProblem (List E.Row) × Registry E :=
  answerFetch (fun reader ↦ reader.fetchPage settings.pageMemoryBytes offset pageSize) result registry

/-- Write a stream. -/
def Exporting.write (state : Exporting E) (stream : ℕ) (value : ExportStream E) : Exporting E :=
  { state with streams := Function.update state.streams stream value }

/-- A stream after a fetch. -/
def ExportStream.answered (stream : ExportStream E) : Except FetchProblem (List E.Row) → ExportStream E
  | .error problem => { stream with outcome := some (.error problem) }
  | .ok rows =>
    if rows.isEmpty then { stream with outcome := some (.ok ()) }
    else ⟨stream.offset + rows.length, stream.rows ++ rows, none⟩

/-- A turn of the loop of a stream. -/
def Exporting.chunk (settings : Settings) (result : ResultId) (pageSize : ℕ) (rowCount : Option ℕ)
    (state : Exporting E) (stream : ℕ) : Exporting E :=
  let current := state.streams stream
  if current.outcome.isSome then state
  else if rowCount.any fun count ↦ decide (count ≤ current.offset) then
    state.write stream { current with outcome := some (.ok ()) }
  else
    let answer := answerFetch (fun reader ↦ reader.fetchExport settings.pageMemoryBytes current.offset
      pageSize) result state.registry
    { state with registry := answer.2 }.write stream (current.answered answer.1)

/-- The program of a stream that goes on asks for one chunk, and then ends as the stream does or goes on
from where the stream stands. -/
theorem exportChunks_answered (result : ResultId) (pageSize : ℕ) (rowCount : Option ℕ) (asked : ℕ)
    (stream : ExportStream E) (h : rowCount.any (fun count ↦ decide (count ≤ stream.offset)) = false) :
    exportChunks E result pageSize rowCount (asked + 1) stream.offset =
      Program.bind (ask (.fetchExport result stream.offset pageSize)) fun reply ↦
        (stream.answered reply).outcome.elim
          (exportChunks E result pageSize rowCount asked (stream.answered reply).offset) .done := by
  rw [exportChunks, if_neg (by simp [h])]
  congr 1
  funext reply
  cases reply with
  | error problem => rfl
  | ok rows =>
    unfold ExportStream.answered
    dsimp only
    split <;> simp_all

/-- What an event does. -/
def Exporting.step (settings : Settings) (result : ResultId) (pageSize : ℕ) (rowCount : Option ℕ)
    (state : Exporting E) : ExportEvent → Exporting E
  | .page offset size =>
    { state with registry := (answerPage settings result offset size state.registry).2 }
  | .chunk stream => state.chunk settings result pageSize rowCount stream

/-- A run of events from a registry in which nothing of the result was exported. -/
def Exporting.run (settings : Settings) (result : ResultId) (pageSize : ℕ) (rowCount : Option ℕ)
    (registry : Registry E) (events : List ExportEvent) : Exporting E :=
  events.foldl (Exporting.step settings result pageSize rowCount) ⟨registry, fun _ ↦ ⟨0, [], none⟩⟩

/-- Whether an event is a page. -/
def ExportEvent.isPage : ExportEvent → Bool
  | .page _ _ => true
  | .chunk _ => false

/-! ### The open reader of a result -/

/-- The read cursor of a result whose session is open, and whether the session was cancelled. -/
def Registry.openReader (registry : Registry E) (result : ResultId) : Option (Bool × ReadCursor E) :=
  (registry.connections.get? result.execution).bind fun connection ↦
    if connection.closed then none
    else (connection.readers.get? result.statement).map fun reader ↦ (connection.cancelled, reader)

theorem answerFetch_closed (fetch : ReadCursor E → Except FetchProblem (List E.Row × ReadCursor E))
    {result : ResultId} {registry : Registry E} (h : registry.openReader result = none) :
    ∃ problem, problem ≠ .sequence ∧ answerFetch fetch result registry = (.error problem, registry) := by
  unfold answerFetch
  rw [Registry.openReader] at h
  cases hconnection : registry.connections.get? result.execution with
  | none => exact ⟨.unavailable, by simp, rfl⟩
  | some connection =>
    rw [hconnection, Option.bind_some] at h
    dsimp only
    split_ifs at h ⊢ with hcancelled hclosed
    · exact ⟨.cancelled, by simp, rfl⟩
    · exact ⟨.cancelled, by simp, rfl⟩
    · exact ⟨.unavailable, by simp, rfl⟩
    · rw [Option.map_eq_none_iff] at h
      rw [h]
      exact ⟨.unavailable, by simp, rfl⟩

/-- What a fetch of an open reader leaves. -/
def fetchedReader (fetch : ReadCursor E → Except FetchProblem (List E.Row × ReadCursor E)) :
    Bool × ReadCursor E → Option (Bool × ReadCursor E)
  | (true, reader) => some (true, reader)
  | (false, reader) =>
    match fetch reader with
    | .ok (_, reader') => some (false, reader')
    | .error problem => if problem.closes then none else some (false, reader)

/-- Assumes: an open reader. A fetch answers what the reader does, if the session was not cancelled. -/
theorem answerFetch_open (fetch : ReadCursor E → Except FetchProblem (List E.Row × ReadCursor E))
    {result : ResultId} {registry : Registry E} {cancelled : Bool} {reader : ReadCursor E}
    (h : registry.openReader result = some (cancelled, reader)) :
    (answerFetch fetch result registry).1 =
        (if cancelled then .error .cancelled else (fetch reader).map Prod.fst) ∧
      (answerFetch fetch result registry).2.openReader result = fetchedReader fetch (cancelled, reader) := by
  have hbefore := h
  rw [Registry.openReader] at h
  obtain ⟨connection, hconnection, hreader⟩ := Option.bind_eq_some_iff.1 h
  split_ifs at hreader with hclosed
  obtain ⟨found, hfound, hsame⟩ := Option.map_eq_some_iff.1 hreader
  obtain ⟨rfl, rfl⟩ := Prod.mk.inj hsame
  rw [Bool.not_eq_true] at hclosed
  cases hcancelled : connection.cancelled with
  | true =>
    rw [hcancelled] at hbefore
    refine ⟨by simp [answerFetch, hconnection, hcancelled], ?_⟩
    simpa [answerFetch, hconnection, hcancelled, fetchedReader] using hbefore
  | false =>
    rw [hcancelled] at hbefore
    simp only [answerFetch, hconnection, hcancelled, hclosed, hfound, Bool.false_eq_true, if_false,
      fetchedReader]
    cases hfetch : fetch found with
    | error problem =>
      refine ⟨rfl, ?_⟩
      cases hcloses : problem.closes with
      | true => simp [Registry.openReader, Registry.closeConnections, hconnection, hcloses]
      | false => simpa [hcloses] using hbefore
    | ok fetched =>
      refine ⟨rfl, ?_⟩
      simp [Registry.openReader, Registry.writeReader, Registry.writeConnection, hclosed, hcancelled]

/-! ### What holds in a run -/

/-- A prepared read cursor that selects the same rows when it is opened for an export, as in one
snapshot of the database. -/
def ReadCursor.Repeats (reader : ReadCursor E) : Prop :=
  reader.Prepared ∧ reader.statement = reader.page.cursor

/-- An open reader and the one that only the pages were read of agree on the pages. -/
def SamePages (reader alone : Bool × ReadCursor E) : Prop :=
  alone.1 = reader.1 ∧ alone.2.page = reader.2.page ∧ alone.2.rows = reader.2.rows ∧
    alone.2.fixedRowMemoryBytes = reader.2.fixedRowMemoryBytes

/-- The exports of a reader that first selects some rows, with the streams that read it. -/
structure ExportsFit (first : ReadCursor E) (streams : ℕ → ExportStream E) (reader : ReadCursor E) :
    Prop where
  rows : reader.rows = first.rows
  statement : reader.statement = first.statement
  plain : first.statement = none → reader.exports.cursor = none
  reads : ∀ selected, first.statement = some selected → reader.openExport.Reads selected
  /-- A stream that alone has delivered rows stands where the portal stands. -/
  stands : ∀ stream, first.statement ≠ none → (∀ other, other ≠ stream → (streams other).rows = []) →
    reader.openExport.position = (streams stream).offset

/-- What a stream has delivered. -/
structure StreamFits (first : ReadCursor E) (stream : ExportStream E) : Prop where
  offset : stream.offset = stream.rows.length
  rows : stream.rows.map some = first.source.take stream.rows.length
  complete : stream.outcome = some (.ok ()) → stream.rows.map some = first.source
  inSequence : stream.outcome ≠ some (.error .sequence)

/-- The invariant of a run beside the pages alone. -/
structure ExportInv (result : ResultId) (first : ReadCursor E) (alone : Registry E)
    (state : Exporting E) : Prop where
  pages : ∀ reader, state.registry.openReader result = some reader →
    ∃ other, alone.openReader result = some other ∧ SamePages reader other
  exports : ∀ cancelled reader, state.registry.openReader result = some (cancelled, reader) →
    ExportsFit first state.streams reader
  streams : ∀ stream, StreamFits first (state.streams stream)

section Run

variable {settings : Settings} {result : ResultId} {pageSize : ℕ} {first : ReadCursor E}
  {alone : Registry E} {state : Exporting E} {reader : ReadCursor E}

theorem openExport_of_isSome (h : reader.exports.cursor.isSome = true) :
    reader.openExport = reader.exports := by
  unfold ReadCursor.openExport
  cases hcursor : reader.exports.cursor with
  | none => simp [hcursor] at h
  | some server => rfl

theorem isSome_openExport (h : reader.statement ≠ none) :
    reader.openExport.cursor.isSome = true := by
  obtain ⟨selected, hselected⟩ := Option.ne_none_iff_exists'.1 h
  unfold ReadCursor.openExport
  cases hcursor : reader.exports.cursor with
  | none => simp [hselected]
  | some server => simp [hcursor]

theorem SamePages.fetched {reader alone after : Bool × ReadCursor E} (h : SamePages reader alone)
    {memory offset size : ℕ}
    (hafter : fetchedReader (fun reader ↦ reader.fetchPage memory offset size) reader = some after) :
    (∃ other, fetchedReader (fun reader ↦ reader.fetchPage memory offset size) alone = some other ∧
      SamePages after other) ∧ after.2.rows = reader.2.rows ∧
        after.2.statement = reader.2.statement ∧ after.2.exports = reader.2.exports := by
  obtain ⟨cancelled, reader⟩ := reader
  obtain ⟨cancelled', rows, page, exports, statement, fixed⟩ := alone
  obtain ⟨hcancelled, hpage, hrows, hfixed⟩ := h
  simp only at hcancelled hpage hrows hfixed
  subst hcancelled hpage hrows hfixed
  cases cancelled' with
  | true =>
    obtain rfl := Option.some.inj hafter
    exact ⟨⟨_, rfl, rfl, rfl, rfl, rfl⟩, rfl, rfl, rfl⟩
  | false =>
    simp only [fetchedReader, ReadCursor.fetchPage] at hafter ⊢
    cases hfetch : fetchForward memory reader.fixedRowMemoryBytes reader.rows reader.page offset
      size with
    | error problem =>
      simp only [hfetch] at hafter ⊢
      split_ifs at hafter ⊢
      obtain rfl := Option.some.inj hafter
      exact ⟨⟨_, rfl, rfl, rfl, rfl, rfl⟩, rfl, rfl, rfl⟩
    | ok fetched =>
      simp only [hfetch, Option.some.injEq] at hafter ⊢
      subst hafter
      exact ⟨⟨_, rfl, rfl, rfl, rfl, rfl⟩, rfl, rfl, rfl⟩

variable (h : ExportInv result first alone state)

include h in
theorem ExportInv.page (offset size : ℕ) :
    ExportInv result first (answerPage settings result offset size alone).2
      { state with registry := (answerPage settings result offset size state.registry).2 } := by
  cases hopen : state.registry.openReader result with
  | none =>
    obtain ⟨problem, -, hfetch⟩ := answerFetch_closed
      (fun reader ↦ reader.fetchPage settings.pageMemoryBytes offset size) hopen
    simp only [answerPage, hfetch]
    exact ⟨fun reader hreader ↦ by simp [hopen] at hreader,
      fun cancelled reader hreader ↦ by simp [hopen] at hreader, h.streams⟩
  | some current =>
    obtain ⟨other, hother, hsame⟩ := h.pages current hopen
    have hfit := h.exports current.1 current.2 hopen
    have hafter := (answerFetch_open (fun reader ↦ reader.fetchPage settings.pageMemoryBytes
      offset size) hopen).2
    have halone := (answerFetch_open (fun reader ↦ reader.fetchPage settings.pageMemoryBytes
      offset size) hother).2
    refine ⟨fun reader hreader ↦ ?_, fun cancelled reader hreader ↦ ?_, h.streams⟩
    · obtain ⟨other', hother', hsame'⟩ := (hsame.fetched (hafter.symm.trans hreader)).1
      exact ⟨other', halone.trans hother', hsame'⟩
    · obtain ⟨-, hrows, hstatement, hexports⟩ := hsame.fetched (hafter.symm.trans hreader)
      have hportal : reader.openExport = current.2.openExport := by
        unfold ReadCursor.openExport
        rw [show reader.exports = _ from hexports, show reader.statement = _ from hstatement]
      exact ⟨Eq.trans hrows hfit.rows, Eq.trans hstatement hfit.statement,
        fun hnone ↦ hexports ▸ hfit.plain hnone, fun selected hselected ↦ by
          rw [hportal]; exact hfit.reads selected hselected, fun stream hsome hothers ↦ by
          rw [hportal]; exact hfit.stands stream hsome hothers⟩

theorem SamePages.answered {reader alone : Bool × ReadCursor E} (h : SamePages reader alone)
    (memory offset size : ℕ) :
    (if alone.1 then .error .cancelled else (alone.2.fetchPage memory offset size).map Prod.fst) =
      (if reader.1 then .error .cancelled else
        (reader.2.fetchPage memory offset size).map Prod.fst) := by
  obtain ⟨hcancelled, hpage, hrows, hfixed⟩ := h
  rw [hcancelled]
  simp only [ReadCursor.fetchPage, hpage, hrows, hfixed]
  cases fetchForward memory reader.2.fixedRowMemoryBytes reader.2.rows reader.2.page offset size <;>
    rfl

include h in
theorem ExportInv.answerPage {offset size : ℕ}
    {rows : List E.Row}
    (hrows : (answerPage settings result offset size state.registry).1 = .ok rows) :
    (ReadSessions.answerPage settings result offset size alone).1 = .ok rows := by
  cases hopen : state.registry.openReader result with
  | none =>
    obtain ⟨problem, -, hfetch⟩ := answerFetch_closed
      (fun reader ↦ reader.fetchPage settings.pageMemoryBytes offset size) hopen
    rw [ReadSessions.answerPage, hfetch] at hrows
    cases hrows
  | some current =>
    obtain ⟨other, hother, hsame⟩ := h.pages current hopen
    rw [ReadSessions.answerPage, (answerFetch_open _ hopen).1] at hrows
    rw [ReadSessions.answerPage, (answerFetch_open _ hother).1]
    exact (hsame.answered _ _ _).trans hrows

/-- A fetch of an export raises only where its portal stands elsewhere, or at its limits. -/
theorem fetchExport_sequence {memory offset : ℕ}
    (hstands : reader.openExport.cursor = none ∨ reader.openExport.position = offset) :
    reader.fetchExport memory offset pageSize ≠ .error .sequence := by
  intro hfetch
  simp only [ReadCursor.fetchExport, fetchForward] at hfetch
  cases hcursor : reader.openExport.cursor with
  | none => simp [hcursor] at hfetch
  | some server =>
    simp only [hcursor, reduceCtorEq, false_or] at hstands
    simp only [hcursor, hstands, ne_eq, not_true_eq_false, if_false] at hfetch
    cases hrows : fetchRows memory reader.fixedRowMemoryBytes pageSize [] 0 reader.openExport.pending
      server with
    | error problem =>
      simp only [hrows, Except.error.injEq] at hfetch
      exact fetchRows_sequence (hfetch ▸ hrows)
    | ok fetched => simp [hrows] at hfetch

/-- What a fetch of an export shows, and where it leaves its portal. -/
structure Exported (first reader : ReadCursor E) (offset pageSize : ℕ) (rows : List E.Row)
    (reader' : ReadCursor E) : Prop where
  shown : rows.map some = (first.source.drop offset).take rows.length
  last : 1 ≤ pageSize → rows = [] → first.source.length ≤ offset
  same : reader' = { reader with exports := reader'.exports }
  plain : first.statement = none → reader'.exports.cursor = none
  reads : ∀ selected, first.statement = some selected → reader'.openExport.Reads selected
  stands : first.statement ≠ none → reader'.openExport.position = offset + rows.length

variable {streams : ℕ → ExportStream E}

theorem ExportsFit.exported {reader reader' : ReadCursor E}
    (h : ExportsFit first streams reader) (hrepeats : first.Repeats) {memory offset : ℕ}
    {rows : List E.Row} (hfetch : reader.fetchExport memory offset pageSize = .ok (rows, reader')) :
    Exported first reader offset pageSize rows reader' := by
  have hstatement := h.statement
  simp only [ReadCursor.fetchExport] at hfetch
  cases hselected : first.statement with
  | none =>
    have hcursor := h.plain hselected
    have hportal : reader.openExport = reader.exports := by
      simp [ReadCursor.openExport, hstatement, hselected, hcursor]
    simp only [fetchForward, hportal, hcursor, Except.ok.injEq, Prod.mk.injEq] at hfetch
    obtain ⟨rfl, rfl⟩ := hfetch
    have hsource : first.source = first.rows.map some := by
      simp [ReadCursor.source, ← hrepeats.2, hselected]
    refine ⟨?_, fun hroom hnone ↦ ?_, rfl, fun _ ↦ hcursor, by simp [hselected],
      fun hsome ↦ absurd hselected hsome⟩
    · rw [h.rows, hsource, ← List.map_drop, ← List.map_take, List.length_take, ← List.take_eq_take_min]
    · rw [List.take_eq_nil_iff, h.rows, List.drop_eq_nil_iff] at hnone
      rw [hsource, List.length_map]
      exact hnone.resolve_left (by omega)
  | some selected =>
    obtain ⟨server, hserver⟩ := Option.isSome_iff_exists.1 (isSome_openExport
      (show reader.statement ≠ none by simp [hstatement, hselected]))
    cases hforward : fetchForward memory reader.fixedRowMemoryBytes reader.rows reader.openExport offset
      pageSize with
    | error problem => simp [hforward] at hfetch
    | ok fetched =>
      obtain ⟨shown, portal⟩ := fetched
      simp only [hforward, Except.ok.injEq, Prod.mk.injEq] at hfetch
      obtain ⟨rfl, rfl⟩ := hfetch
      obtain ⟨-, hposition, hshown, hreads, hsome, hlast, hmore⟩ :=
        fetchForward_spec (h.reads selected hselected) hserver hforward
      have hsource : first.source = selected.map E.convert := by
        simp [ReadCursor.source, ← hrepeats.2, hselected]
      have hportal : ({ reader with exports := portal } : ReadCursor E).openExport = portal :=
        openExport_of_isSome hsome
      refine ⟨hsource ▸ hshown, fun hroom hnone ↦ ?_, rfl, by simp [hselected], fun other hother ↦ ?_,
        fun _ ↦ ?_⟩
      · by_cases hpending : portal.pending = []
        · have hlength := hlast (by simp [hnone]; omega) hpending
          rw [hsource, List.length_map, ← hlength, hnone]
          simp
        · exact absurd hnone (hmore hroom hpending)
      · obtain rfl := Option.some.inj (hselected.symm.trans hother)
        rw [hportal]
        exact hreads
      · rw [hportal]
        exact hposition

include h in
theorem ExportInv.write {registry : Registry E} {stream : ℕ}
    {value : ExportStream E}
    (hreader : ∀ cancelled reader, registry.openReader result = some (cancelled, reader) →
      ∃ old, state.registry.openReader result = some (cancelled, old) ∧
        reader = { old with exports := reader.exports } ∧
        ExportsFit first (Function.update state.streams stream value) reader)
    (hvalue : StreamFits first value) :
    ExportInv result first alone ({ state with registry := registry }.write stream value) where
  pages := fun ⟨cancelled, reader⟩ hfound ↦ by
    obtain ⟨old, hold, hsame, -⟩ := hreader cancelled reader hfound
    obtain ⟨other, hother, hagrees⟩ := h.pages _ hold
    rw [hsame]
    exact ⟨other, hother, hagrees⟩
  exports := fun cancelled reader hfound ↦ (hreader cancelled reader hfound).choose_spec.2.2
  streams := fun other ↦ by
    simp only [Exporting.write, Function.update_apply]
    split
    · exact hvalue
    · exact h.streams other

theorem ExportsFit.ended
    (h : ExportsFit first streams reader) (stream : ℕ) (outcome : Option (Except FetchProblem Unit)) :
    ExportsFit first (Function.update streams stream { streams stream with outcome := outcome })
      reader := by
  refine ⟨h.rows, h.statement, h.plain, h.reads, fun other hsome hothers ↦ ?_⟩
  have hrows : ∀ index, (Function.update streams stream { streams stream with outcome := outcome }
      index).rows = (streams index).rows ∧ (Function.update streams stream
        { streams stream with outcome := outcome } index).offset = (streams index).offset := by
    intro index
    rw [Function.update_apply]
    split
    · next hindex => exact hindex ▸ ⟨rfl, rfl⟩
    · exact ⟨rfl, rfl⟩
  rw [(hrows other).2]
  exact h.stands other hsome fun index hindex ↦ (hrows index).1.symm.trans (hothers index hindex)

/-- The exports fit after a fetch. Assumes: only the stream that fetched has delivered rows. -/
theorem Exported.fit {reader reader' : ReadCursor E} {stream : ℕ}
    {rows : List E.Row} (h : Exported first reader (streams stream).offset pageSize rows reader')
    (hfit : ExportsFit first streams reader) (hstreams : ∀ other, StreamFits first (streams other))
    (hsingle : first.statement ≠ none → ∀ other, other ≠ stream → (streams other).rows = [])
    {value : ExportStream E} (hoffset : value.offset = (streams stream).offset + rows.length)
    (hrows : value.rows = (streams stream).rows ++ rows) :
    ExportsFit first (Function.update streams stream value) reader' := by
  have hsame := h.same
  refine ⟨?_, ?_, h.plain, h.reads, fun other hsome hothers ↦ ?_⟩
  · rw [hsame]
    exact hfit.rows
  · rw [hsame]
    exact hfit.statement
  · rw [h.stands hsome]
    by_cases hother : other = stream
    · rw [hother, Function.update_self, hoffset]
    · have hnothing := hothers stream (Ne.symm hother)
      rw [Function.update_self, hrows, List.append_eq_nil_iff] at hnothing
      rw [Function.update_of_ne hother, (hstreams stream).offset, (hstreams other).offset,
        hsingle hsome other hother, hnothing.1, hnothing.2]
      rfl

include h in
/-- A turn of a stream. Assumes: no other stream has delivered rows of a server-side cursor. -/
theorem ExportInv.chunk (hrepeats : first.Repeats)
    (hsize : 1 ≤ pageSize) {stream : ℕ}
    (hsingle : first.statement ≠ none → ∀ other, other ≠ stream → (state.streams other).rows = []) :
    ExportInv result first alone (state.chunk settings result pageSize first.rowCount stream) := by
  have hfits := h.streams stream
  have hall : first.source.length ≤ (state.streams stream).offset →
      (state.streams stream).rows.map some = first.source := by
    intro hle
    rw [hfits.rows, List.take_of_length_le (hfits.offset ▸ hle)]
  have hfails : ∀ problem, problem ≠ .sequence →
      StreamFits first { state.streams stream with outcome := some (.error problem) } :=
    fun problem hproblem ↦ ⟨hfits.offset, hfits.rows, by simp, by simpa using hproblem⟩
  unfold Exporting.chunk
  dsimp only
  split_ifs with hended hcount
  · exact h
  · refine h.write (fun cancelled reader hfound ↦ ⟨reader, hfound, rfl,
      (h.exports cancelled reader hfound).ended stream _⟩)
      ⟨hfits.offset, hfits.rows, fun _ ↦ hall ?_, by simp⟩
    -- Only a result without a cursor has a count.
    cases hcursor : first.page.cursor with
    | none => simpa [ReadCursor.rowCount, ReadCursor.source, hcursor] using hcount
    | some selected => simp [ReadCursor.rowCount, hcursor] at hcount
  · cases hopen : state.registry.openReader result with
    | none =>
      obtain ⟨problem, hproblem, hfetch⟩ := answerFetch_closed (fun reader ↦
        reader.fetchExport settings.pageMemoryBytes (state.streams stream).offset pageSize) hopen
      simp only [hfetch]
      exact h.write (fun _ _ hfound ↦ by simp [hopen] at hfound) (hfails problem hproblem)
    | some current =>
      obtain ⟨cancelled, reader⟩ := current
      have hfit := h.exports cancelled reader hopen
      obtain ⟨hreply, hafter⟩ := answerFetch_open (fun reader ↦
        reader.fetchExport settings.pageMemoryBytes (state.streams stream).offset pageSize) hopen
      generalize answerFetch _ result state.registry = answer at hreply hafter ⊢
      obtain ⟨reply, registry⟩ := answer
      have hkept : registry.openReader result = some (cancelled, reader) →
          ∀ {problem : FetchProblem}, problem ≠ .sequence → ExportInv result first alone
            ({ state with registry := registry }.write stream
              { state.streams stream with outcome := some (.error problem) }) :=
        fun hsame problem hproblem ↦ h.write (fun cancelled' reader' hfound ↦ by
          obtain ⟨rfl, rfl⟩ := Prod.mk.inj (Option.some.inj (hsame.symm.trans hfound))
          exact ⟨reader, hopen, rfl, hfit.ended stream _⟩) (hfails problem hproblem)
      cases cancelled with
      | true =>
        obtain rfl : reply = .error .cancelled := hreply
        exact hkept hafter (by simp)
      | false =>
        simp only [fetchedReader, Bool.false_eq_true, if_false] at hreply hafter
        cases hexport : reader.fetchExport settings.pageMemoryBytes (state.streams stream).offset
          pageSize with
        | error problem =>
          rw [hexport] at hreply hafter
          obtain rfl : reply = .error problem := hreply
          have hproblem : problem ≠ .sequence := by
            rintro rfl
            refine fetchExport_sequence ?_ hexport
            by_cases hplain : first.statement = none
            · left
              simp [ReadCursor.openExport, hfit.plain hplain, hfit.statement, hplain]
            · exact .inr (hfit.stands stream hplain (hsingle hplain))
          simp only at hafter ⊢
          split_ifs at hafter
          · exact h.write (fun _ _ hfound ↦ by simp [hafter] at hfound) (hfails problem hproblem)
          · exact hkept hafter hproblem
        | ok fetched =>
          obtain ⟨rows, reader'⟩ := fetched
          rw [hexport] at hreply hafter
          obtain rfl : reply = .ok rows := hreply
          have hexported := hfit.exported hrepeats hexport
          refine h.write (fun cancelled' after hfound ↦ ?_) ?_
          · obtain ⟨rfl, rfl⟩ := Prod.mk.inj (Option.some.inj (hafter.symm.trans hfound))
            exact ⟨reader, hopen, hexported.same, hexported.fit hfit h.streams hsingle
              (by cases rows <;> simp [ExportStream.answered])
              (by cases rows <;> simp [ExportStream.answered])⟩
          · dsimp only [ExportStream.answered]
            cases rows with
            | nil => exact ⟨hfits.offset, hfits.rows, fun _ ↦ hall (hexported.last hsize rfl), by simp⟩
            | cons row rest =>
              refine ⟨by simp [hfits.offset], ?_, by simp, by simp⟩
              have hshown := hexported.shown
              rw [hfits.offset] at hshown
              simp only [List.isEmpty_cons, Bool.false_eq_true, if_false]
              rw [List.map_append, hfits.rows, hshown, List.length_append, List.take_add]

theorem exportInv_initial {registry : Registry E} (hrepeats : first.Repeats)
    (hreader : ∀ cancelled reader, registry.openReader result = some (cancelled, reader) →
      reader = first) : ExportInv result first registry ⟨registry, fun _ ↦ ⟨0, [], none⟩⟩ := by
  refine ⟨fun reader hfound ↦ ⟨reader, hfound, rfl, rfl, rfl, rfl⟩, fun cancelled reader hfound ↦ ?_,
    fun _ ↦ ⟨rfl, by simp, by simp, by simp⟩⟩
  obtain rfl := hreader cancelled reader hfound
  have hexports := hrepeats.1.2.2
  refine ⟨rfl, rfl, fun _ ↦ by rw [hexports], fun selected hselected ↦ ?_, fun stream hsome _ ↦ ?_⟩
  · intro server hserver
    simp only [ReadCursor.openExport, hexports, hselected, Option.some.injEq] at hserver ⊢
    simp [hserver]
  · obtain ⟨selected, hselected⟩ := Option.ne_none_iff_exists'.1 hsome
    simp [ReadCursor.openExport, hexports, hselected]

end Run

/-- The exports of a result in one state, beside the registry in which only its pages were read. -/
structure ExportsComplete (settings : Settings) (result : ResultId) (first : ReadCursor E)
    (alone : Registry E) (state : Exporting E) : Prop where
  complete : ∀ stream, (state.streams stream).outcome = some (.ok ()) →
    (state.streams stream).rows.map some = first.source
  inSequence : ∀ stream, (state.streams stream).outcome ≠ some (.error .sequence)
  paging : ∀ offset size rows, (answerPage settings result offset size state.registry).1 = .ok rows →
    (answerPage settings result offset size alone).1 = .ok rows

/-- Room for four sessions, and for one byte on a page. -/
def exportSettings : Settings := ⟨100, 1, 4, 4, 900⟩

/-- The registry in which a run has retained two rows. -/
def retainedRows : Registry numberRows :=
  (samplePool exportSettings [7, 8] [run _ 1] [0, 0, 0, 0, 0, 0]).world

/-- Its reader. -/
def twoRows : ReadCursor numberRows :=
  ⟨[], ⟨some ([7, 8] : List ℕ), 0, []⟩, ⟨none, 0, []⟩, some ([7, 8] : List ℕ), none⟩

/-- A second export of a retained result raises, after a first one was read to its end. -/
theorem second_export_out_of_sequence :
    ∃ pool, Pool.Reachable (registrySemantics exportSettings fun _ ↦ sampleRecord) (Starts numberRows)
        (· = Registry.initial) pool ∧ pool.threads 1 = some (.done ()) ∧
      pool.threads 2 = some (.raise (.stream .sequence)) := by
  refine ⟨samplePool exportSettings [7, 8] [run _ 1, exportCsv _ "owner" none 1 ⟨1, 0⟩ 3,
    exportCsv _ "owner" none 1 ⟨1, 0⟩ 3] [0, 0, 0, 0, 0, 0, 1, 1, 1, 1, 1, 1, 2, 2, 2, 2],
    (samplePool_reachable (fun program hmem ↦ ?_) (Pool.follows_true _ _ _)).of_restrict, rfl, rfl⟩
  simp only [List.mem_cons, List.not_mem_nil, or_false] at hmem
  rcases hmem with rfl | rfl | rfl
  · exact .run 1
  · exact .exportCsv _ _ _ _ _
  · exact .exportCsv _ _ _ _ _

end Schemii.ReadSessions
