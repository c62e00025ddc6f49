import Mathlib.Algebra.BigOperators.Group.List.Basic
import Mathlib.Data.List.Infix
import Schemii.Foundations.Checks

/-!
# Report streams

The generator `events` of `schemer/streaming.py`: the events of a report whose tiles are read page by
page, within the limits of a preview, with its clean-up.

What an awaited call answers is part of the input, and a call without an answer is one that the stream
still waits for. A raise of `access.check` is one of the call that it guards. The time of the snapshot,
the errors of tiles that are not queried and cancellations are left out.

`report_stream_protocol` says which events there are, whatever the calls answer.
-/

set_option autoImplicit false

namespace Schemii.Reports

open Foundations

variable {R : Type}

structure ApiProblem where
  code : String
  message : String
  deriving DecidableEq

/-- An exception, which is an `ApiProblem` or not. -/
abbrev Raised : Type := Option ApiProblem

structure Page (R : Type) where
  columns : List String
  rows : List R
  truncated : Bool
  /-- There is no next cursor. -/
  last : Bool

/-- A result, with what `console.page` answers one time after the other, and `console.close_result`. -/
structure Result (R : Type) where
  pages : List (Except Raised (Page R))
  close : Option (Except Raised Unit)

structure Execution (R : Type) where
  succeeded : Bool
  errorCode : Option String
  results : List (Result R)

structure Tile where
  tileId : String
  outputLabels : List String
  deriving DecidableEq

inductive Reason
  | rowLimit
  | dashboardRowLimit
  | byteLimit
  | dashboardByteLimit
  deriving DecidableEq

inductive Event (R : Type)
  | start (tiles : List Tile)
  | execution
  | rows (tileId : String) (columns : List String) (rows : List R)
  | complete (tileId : String) (rowCount : ℕ) (limitReached : Bool) (reason : Option Reason)
  | error (tileId : Option String) (code message : String)
  /-- The event `end`. -/
  | finish

structure Limits where
  rows : ℕ
  bytes : ℕ
  totalRows : ℕ
  totalBytes : ℕ

/-- What does not change in a stream. An export has no limits. -/
structure Settings (R : Type) where
  limits : Limits
  isExport : Bool
  /-- The size of an encoded row. -/
  size : R → ℕ

structure Counters where
  count : ℕ
  byteCount : ℕ
  totalRows : ℕ
  totalBytes : ℕ

/-- The limit that a row meets. -/
def Settings.reason (settings : Settings R) (counters : Counters) (row : R) : Option Reason :=
  if settings.isExport then none
  else if settings.limits.rows ≤ counters.count then some .rowLimit
  else if settings.limits.totalRows ≤ counters.totalRows then some .dashboardRowLimit
  else if settings.limits.bytes < counters.byteCount + settings.size row then some .byteLimit
  else if settings.limits.totalBytes < counters.totalBytes + settings.size row then
    some .dashboardByteLimit
  else none

/-- The counters after some rows. -/
def Counters.deliver (settings : Settings R) (counters : Counters) (rows : List R) : Counters :=
  ⟨counters.count + rows.length, counters.byteCount + (rows.map settings.size).sum,
    counters.totalRows + rows.length, counters.totalBytes + (rows.map settings.size).sum⟩

/-- The loop over the rows of a page. -/
def acceptRows (settings : Settings R) (counters : Counters) :
    List R → List R × Counters × Option Reason
  | [] => ([], counters, none)
  | row :: rest =>
    match settings.reason counters row with
    | some reason => ([], counters, some reason)
    | none =>
      let (accepted, after, reason) := acceptRows settings (counters.deliver settings [row]) rest
      (row :: accepted, after, reason)

/-- The names of the columns, in place of which there may be labels. -/
def labelled (tile : Tile) (columns : List String) : List String :=
  columns.mapIdx fun index name ↦ tile.outputLabels.getD index name

/-- How the reading of a result ends. -/
inductive Reading
  | waiting
  | failed (problem : Raised)
  | read (reason : Option Reason)

/-- A page was stopped by the database. -/
def resultTruncated : ApiProblem :=
  ⟨"report_result_truncated", "The database stopped this result at a resource limit."⟩

/-- The loop over the pages of a result. -/
def streamPages (settings : Settings R) (tile : Tile) :
    List (Except Raised (Page R)) → Counters → List (Event R) × Counters × Reading
  | [], counters => ([], counters, .waiting)
  | .error problem :: _, counters => ([], counters, .failed problem)
  | .ok page :: rest, counters =>
    let (accepted, after, reason) := acceptRows settings counters page.rows
    let shown : List (Event R) :=
      if accepted.isEmpty && after.count != 0 then []
      else [.rows tile.tileId (labelled tile page.columns) accepted]
    if page.truncated then (shown, after, .failed (some resultTruncated))
    else if reason.isSome || page.last then (shown, after, .read reason)
    else
      let (events, final, reading) := streamPages settings tile rest after
      (shown ++ events, final, reading)

/-- How the reading of the report ends. -/
inductive Ending
  | waiting
  | failed (tileId : Option String) (problem : Raised)
  | finished

/-- The loop over the tiles. -/
def streamTiles (settings : Settings R) :
    List (Tile × Result R) → ℕ → ℕ → List (Event R) × Ending
  | [], _, _ => ([], .finished)
  | (tile, result) :: rest, totalRows, totalBytes =>
    match streamPages settings tile result.pages ⟨0, 0, totalRows, totalBytes⟩ with
    | (events, _, .waiting) => (events, .waiting)
    | (events, _, .failed problem) => (events, .failed (some tile.tileId) problem)
    | (events, after, .read reason) =>
      match result.close with
      | none => (events, .waiting)
      | some (.error problem) => (events, .failed (some tile.tileId) problem)
      | some (.ok ()) =>
        let (later, ending) := streamTiles settings rest after.totalRows after.totalBytes
        (events ++ .complete tile.tileId after.count reason.isSome reason :: later, ending)

/-- What the calls of a stream answer. The results of the clean-up are those that it reads again, with
what closing them answers. -/
structure Answers (R : Type) where
  reserve : Option (Except Raised Unit)
  run : Option (Except Raised Unit)
  getOwned : Option (Except Raised (Execution R))
  cancel : Except Raised Unit
  cleanup : Option (Except Raised (List (Except Raised Unit)))

/-- `_cleanup`: every result is closed, and the first problem is raised. -/
def cleanup (cancel : Except Raised Unit) (owned : Except Raised (List (Except Raised Unit))) :
    Except Raised Unit := do
  let closed ← owned
  (cancel :: closed).forM id

/-- The event before those of the tiles, once there is a receipt. -/
def Answers.opening (answers : Answers R) : List (Event R) :=
  match answers.reserve with
  | some (.ok ()) => [.execution]
  | _ => []

/-- The tiles with the results of the execution. -/
def openReport (tiles : List Tile) (answers : Answers R) : ExceptT Raised Option (List (Tile × Result R)) := do
  ExceptT.mk answers.reserve
  ExceptT.mk answers.run
  let execution ← ExceptT.mk answers.getOwned
  if !execution.succeeded then
    throw (some ⟨(execution.errorCode.filter (· ≠ "")).getD "report_query_failed",
      "The report query did not complete. Refresh to try again."⟩)
  if execution.results.length ≠ tiles.length then
    throw (some ⟨"report_result_missing", "The report did not return all result sets."⟩)
  return tiles.zip execution.results

/-- The body of `try`. -/
def attemptReport (settings : Settings R) (tiles : List Tile) (answers : Answers R) :
    List (Event R) × Ending :=
  match (openReport tiles answers).run with
  | none => ([], .waiting)
  | some (.error problem) => ([], .failed none problem)
  | some (.ok opened) => streamTiles settings opened 0 0

/-- How the stream ends. -/
inductive Outcome
  | waiting
  | raised (problem : Raised)
  | returned

/-- The event of a failure. It shows nothing of an exception that is no `ApiProblem`. -/
def errorEvent (tileId : Option String) (problem : Raised) : Event R :=
  let shown := problem.getD
    ⟨"report_stream_failed", "The report stream stopped. Refresh to try again."⟩
  .error tileId shown.code shown.message

/-- `events`. The receipt is given up when the results of all tiles are closed. -/
def events (settings : Settings R) (tiles : List Tile) (answers : Answers R) :
    List (Event R) × Outcome :=
  if tiles.isEmpty then ([.start tiles, .finish], .returned)
  else
    let (shown, ending) := attemptReport settings tiles answers
    let yielded := .start tiles :: (answers.opening ++ shown)
    match ending with
    | .waiting => (yielded, .waiting)
    | .finished => (yielded ++ [.finish], .returned)
    | .failed tileId problem =>
      match (if answers.opening.isEmpty then some (.ok ())
        else answers.cleanup.map (cleanup answers.cancel)) with
      | none => (yielded, .waiting)
      | some (.error raised) => (yielded, .raised raised)
      | some (.ok ()) => (yielded ++ [errorEvent tileId problem, .finish], .returned)

/-! ### The protocol -/

/-- The rows of a result: those of its pages, to the last one. -/
def resultRows : List (Except Raised (Page R)) → List R
  | .ok page :: rest => page.rows ++ if page.last then [] else resultRows rest
  | _ => []

/-- What was delivered of a tile. -/
structure Block (R : Type) where
  tile : Tile
  result : Result R
  chunks : List (List String × List R)
  reason : Option Reason

def Block.rows (block : Block R) : List R := block.chunks.flatMap Prod.snd

/-- The events of the rows. -/
def Block.shown (block : Block R) : List (Event R) :=
  block.chunks.map fun chunk ↦ .rows block.tile.tileId chunk.1 chunk.2

/-- The events of a tile that is complete. -/
def Block.events (block : Block R) : List (Event R) :=
  block.shown ++ [.complete block.tile.tileId block.rows.length block.reason.isSome block.reason]

/-- The counters respect the limits of a preview. -/
def Counters.Within (settings : Settings R) (counters : Counters) : Prop :=
  settings.isExport = false → counters.count ≤ settings.limits.rows ∧
    counters.byteCount ≤ settings.limits.bytes ∧ counters.totalRows ≤ settings.limits.totalRows ∧
    counters.totalBytes ≤ settings.limits.totalBytes

section Loops

variable {settings : Settings R} {counters : Counters}

theorem Counters.deliver_nil : counters.deliver settings [] = counters := rfl

theorem Counters.deliver_append (first second : List R) :
    (counters.deliver settings first).deliver settings second =
      counters.deliver settings (first ++ second) := by
  simp [Counters.deliver, Nat.add_assoc]

theorem Settings.reason_none {row : R} (h : settings.reason counters row = none) :
    Counters.Within settings counters → Counters.Within settings (counters.deliver settings [row]) := by
  intro _ hpreview
  simp only [Settings.reason, hpreview, Bool.false_eq_true, if_false] at h
  split_ifs at h
  simp only [Counters.deliver, List.length_singleton, List.map_singleton, List.sum_singleton]
  omega

/-- What the loop over the rows of a page accepts. -/
structure Accepts (settings : Settings R) (counters : Counters) (rows accepted : List R)
    (after : Counters) (reason : Option Reason) : Prop where
  taken : accepted <+: rows
  final : after = counters.deliver settings accepted
  complete : reason = none ↔ accepted = rows
  within : counters.Within settings → after.Within settings
  exported : settings.isExport = true → reason = none

theorem acceptRows_accepts (rows : List R) :
    Accepts settings counters rows (acceptRows settings counters rows).1
      (acceptRows settings counters rows).2.1 (acceptRows settings counters rows).2.2 := by
  induction rows generalizing counters with
  | nil => exact ⟨List.prefix_rfl, rfl, by simp [acceptRows], id, fun _ ↦ rfl⟩
  | cons row rest ih =>
    unfold acceptRows
    cases hreason : settings.reason counters row with
    | some reason =>
      refine ⟨List.nil_prefix, rfl, by simp, id, fun hexport ↦ ?_⟩
      simp [Settings.reason, hexport] at hreason
    | none =>
      have h := @ih (counters.deliver settings [row])
      refine ⟨(List.prefix_cons_inj row).2 h.taken, ?_, ?_, h.within ∘ Settings.reason_none hreason,
        h.exported⟩
      · rw [h.final, Counters.deliver_append]
        rfl
      · rw [h.complete, List.cons.injEq, eq_self, true_and]

/-- What the loop over the pages of a result delivers. -/
structure Reads (settings : Settings R) (counters : Counters) (tile : Tile)
    (pages : List (Except Raised (Page R))) (chunks : List (List String × List R))
    (run : List (Event R) × Counters × Reading) : Prop where
  events : run.1 = chunks.map fun chunk ↦ .rows tile.tileId chunk.1 chunk.2
  taken : chunks.flatMap Prod.snd <+: resultRows pages
  final : run.2.1 = counters.deliver settings (chunks.flatMap Prod.snd)
  within : counters.Within settings → run.2.1.Within settings
  complete : ∀ reason, run.2.2 = .read reason →
    (reason = none ↔ chunks.flatMap Prod.snd = resultRows pages) ∧
      (settings.isExport = true → reason = none)

theorem streamPages_reads (tile : Tile) (pages : List (Except Raised (Page R))) :
    ∃ chunks, Reads settings counters tile pages chunks (streamPages settings tile pages counters) := by
  induction pages generalizing counters with
  | nil => exact ⟨[], rfl, List.nil_prefix, rfl, id, by simp [streamPages]⟩
  | cons answer rest ih =>
    cases answer with
    | error problem => exact ⟨[], rfl, List.nil_prefix, rfl, id, by simp [streamPages]⟩
    | ok page =>
      have haccepts : Accepts settings counters page.rows _ _ _ := acceptRows_accepts page.rows
      unfold streamPages
      generalize acceptRows settings counters page.rows = answer at haccepts ⊢
      obtain ⟨accepted, after, reason⟩ := answer
      obtain ⟨hrows, hcounters, hcomplete, hwithin, hexported⟩ := haccepts
      -- An empty chunk is not shown, unless it is the first of the tile.
      obtain ⟨chunks, hshown, hflat⟩ : ∃ chunks : List (List String × List R),
          (if accepted.isEmpty && after.count != 0 then []
            else [.rows tile.tileId (labelled tile page.columns) accepted] : List (Event R)) =
            chunks.map (fun chunk ↦ .rows tile.tileId chunk.1 chunk.2) ∧
          chunks.flatMap Prod.snd = accepted := by
        split
        · next hempty => exact ⟨[], rfl, by simp_all⟩
        · exact ⟨[(labelled tile page.columns, accepted)], rfl, by simp⟩
      have hread : accepted <+: resultRows (.ok page :: rest) := hrows.trans (List.prefix_append _ _)
      dsimp only at hrows hcounters hcomplete hwithin hexported ⊢
      rw [hshown]
      split_ifs with htruncated hlast
      · exact ⟨chunks, rfl, hflat ▸ hread, hflat ▸ hcounters, hwithin, by simp⟩
      · refine ⟨chunks, rfl, hflat ▸ hread, hflat ▸ hcounters, hwithin, fun found hfound ↦ ?_⟩
        obtain rfl := Reading.read.inj hfound
        refine ⟨?_, hexported⟩
        rw [hflat, hcomplete, resultRows]
        constructor
        · intro hall
          have hdone : page.last = true := by simpa [hcomplete.2 hall] using hlast
          simp [hall, hdone]
        · intro hall
          have hlength := congrArg List.length hall
          rw [List.length_append] at hlength
          exact hrows.eq_of_length_le (by omega)
      · obtain ⟨hnone, hmore⟩ : reason = none ∧ page.last = false := by simpa using hlast
        obtain ⟨later, hlater⟩ := @ih after
        have hall := hcomplete.1 hnone
        have hsource : resultRows (.ok page :: rest) = accepted ++ resultRows rest := by
          simp [resultRows, hall, hmore]
        refine ⟨chunks ++ later, ?_, ?_, ?_, hlater.within ∘ hwithin, fun found hfound ↦ ?_⟩
        · rw [List.map_append, ← hlater.events]
        · rw [List.flatMap_append, hflat, hsource]
          exact (List.prefix_append_right_inj _).2 hlater.taken
        · rw [List.flatMap_append, hflat, ← Counters.deliver_append, ← hcounters]
          exact hlater.final
        · obtain ⟨hiff, hexport⟩ := hlater.complete found hfound
          refine ⟨?_, hexport⟩
          rw [hiff, List.flatMap_append, hflat, hsource, List.append_cancel_left_eq]

end Loops

/-- What was delivered of some tiles, of the last one perhaps not all. -/
structure Delivered (settings : Settings R) (tiles : List (Tile × Result R)) (done : List (Block R))
    (current : Option (Block R)) : Prop where
  tiles : (done ++ current.toList).map (fun block ↦ (block.tile, block.result)) <+: tiles
  rows : ∀ block ∈ done ++ current.toList, block.rows <+: resultRows block.result.pages ∧
    (settings.isExport = false → block.rows.length ≤ settings.limits.rows ∧
      (block.rows.map settings.size).sum ≤ settings.limits.bytes)
  complete : ∀ block ∈ done, (block.reason = none ↔ block.rows = resultRows block.result.pages) ∧
    block.result.close = some (.ok ()) ∧ (settings.isExport = true → block.reason = none)

/-- The tiles of a report. -/
structure Shows (settings : Settings R) (tiles : List (Tile × Result R)) (totalRows totalBytes : ℕ)
    (done : List (Block R)) (current : Option (Block R)) (run : List (Event R) × Ending) : Prop where
  delivered : Delivered settings tiles done current
  events : run.1 = done.flatMap Block.events ++ current.elim [] Block.shown
  totals : settings.isExport = false →
    totalRows + ((done ++ current.toList).flatMap Block.rows).length ≤ settings.limits.totalRows ∧
      totalBytes + (((done ++ current.toList).flatMap Block.rows).map settings.size).sum ≤
        settings.limits.totalBytes
  finished : run.2 = .finished →
    done.map (fun block ↦ (block.tile, block.result)) = tiles ∧ current = none
  failed : ∀ tileId problem, run.2 = .failed tileId problem →
    tileId = current.map fun block ↦ block.tile.tileId

theorem streamTiles_shows (settings : Settings R) (tiles : List (Tile × Result R))
    (totalRows totalBytes : ℕ) (h : Counters.Within settings ⟨0, 0, totalRows, totalBytes⟩) :
    ∃ done current, Shows settings tiles totalRows totalBytes done current
      (streamTiles settings tiles totalRows totalBytes) := by
  induction tiles generalizing totalRows totalBytes with
  | nil =>
    exact ⟨[], none, ⟨List.nil_prefix, by simp, by simp⟩, rfl, fun hpreview ↦ (h hpreview).2.2,
      fun _ ↦ ⟨rfl, rfl⟩, by simp [streamTiles]⟩
  | cons first rest ih =>
    obtain ⟨tile, result⟩ := first
    obtain ⟨chunks, hreads⟩ :
        ∃ chunks, Reads settings ⟨0, 0, totalRows, totalBytes⟩ tile result.pages chunks _ :=
      streamPages_reads tile result.pages
    unfold streamTiles
    generalize streamPages settings tile result.pages _ = run at hreads ⊢
    obtain ⟨shown, after, reading⟩ := run
    obtain ⟨hshown, hrows, hfinal, hwithin, hcomplete⟩ := hreads
    dsimp only at hshown hfinal hwithin hcomplete
    subst hfinal
    have hlimits := hwithin h
    simp only [Counters.Within, Counters.deliver, Nat.zero_add] at hlimits
    have hstopped : ∀ ending : Ending, ending ≠ .finished → (∀ tileId problem,
        ending = .failed tileId problem → tileId = some tile.tileId) →
        Shows settings ((tile, result) :: rest) totalRows totalBytes []
          (some ⟨tile, result, chunks, none⟩) (shown, ending) := by
      intro ending hending hfailed
      refine ⟨⟨by simp, ?_, by simp⟩, hshown, fun hpreview ↦ ?_, fun h ↦ absurd h hending, hfailed⟩
      · simp only [List.nil_append, Option.toList_some, List.mem_singleton, forall_eq]
        exact ⟨hrows, fun hpreview ↦ ⟨(hlimits hpreview).1, (hlimits hpreview).2.1⟩⟩
      · simpa [Block.rows] using (hlimits hpreview).2.2
    cases reading with
    | waiting => exact ⟨[], _, hstopped _ (by simp) (by simp)⟩
    | failed problem => exact ⟨[], _, hstopped _ (by simp) (by simp)⟩
    | read reason =>
      dsimp only
      cases hclose : result.close with
      | none => exact ⟨[], _, hstopped _ (by simp) (by simp)⟩
      | some answer =>
        cases answer with
        | error problem => exact ⟨[], _, hstopped _ (by simp) (by simp)⟩
        | ok _ =>
          obtain ⟨done, current, hdelivered, hevents, htotals, hfinished, hfailed⟩ :=
            ih _ _ fun hpreview ↦ ⟨Nat.zero_le _, Nat.zero_le _, (hlimits hpreview).2.2⟩
          obtain ⟨hiff, hexport⟩ := hcomplete reason rfl
          refine ⟨⟨tile, result, chunks, reason⟩ :: done, current, ⟨?_, ?_, ?_⟩, ?_,
            fun hpreview ↦ ?_, fun hending ↦ ?_, hfailed⟩
          · simpa using hdelivered.tiles
          · rw [List.cons_append, List.forall_mem_cons]
            exact ⟨⟨hrows, fun hpreview ↦ ⟨(hlimits hpreview).1, (hlimits hpreview).2.1⟩⟩,
              hdelivered.rows⟩
          · rw [List.forall_mem_cons]
            exact ⟨⟨hiff, hclose, hexport⟩, hdelivered.complete⟩
          · rw [List.flatMap_cons, List.append_assoc, ← hevents]
            simp [Block.events, Block.shown, Block.rows, hshown, Counters.deliver]
          · obtain ⟨hrest, hbytes⟩ := htotals hpreview
            simp only [List.cons_append, List.flatMap_cons, List.length_append, List.map_append,
              List.sum_append, Block.rows] at hrest hbytes ⊢
            omega
          · obtain ⟨hall, hcurrent⟩ := hfinished hending
            exact ⟨by rw [List.map_cons, hall], hcurrent⟩

/-! ### Whole streams -/

/-- The events after those of the tiles. A stream returns when all tiles are complete, or with the error
of one tile or of none, after all results were closed. -/
def Closes (tiles : List Tile) (answers : Answers R) (done : List (Block R)) (current : Option (Block R)) :
    Outcome → List (Event R) → Prop
  | .returned, closing => (done.map Block.tile = tiles ∧ current = none ∧ closing = [.finish]) ∨
      ∃ problem, closing = [errorEvent (current.map fun block ↦ block.tile.tileId) problem, .finish] ∧
        (answers.reserve = some (.ok ()) → ∃ closed, answers.cleanup = some (.ok closed) ∧
          ∀ close ∈ closed, close = .ok ())
  | _, closing => closing = []

/-- The events of a report. -/
structure Protocol (settings : Settings R) (tiles : List Tile) (answers : Answers R)
    (trace : List (Event R) × Outcome) (opened : List (Tile × Result R)) (done : List (Block R))
    (current : Option (Block R)) (opening closing : List (Event R)) : Prop where
  begun : opened.map Prod.fst <+: tiles
  delivered : Delivered settings opened done current
  totals : settings.isExport = false →
    ((done ++ current.toList).flatMap Block.rows).length ≤ settings.limits.totalRows ∧
      (((done ++ current.toList).flatMap Block.rows).map settings.size).sum ≤ settings.limits.totalBytes
  events : trace.1 = .start tiles :: (opening ++ (done.flatMap Block.events ++
    current.elim [] Block.shown) ++ closing)
  opening : opening = [] ∨ opening = [.execution]
  closes : Closes tiles answers done current trace.2 closing

theorem closed_of_cleanup {cancel : Except Raised Unit}
    {owned : Except Raised (List (Except Raised Unit))} (h : cleanup cancel owned = .ok ()) :
    ∃ closed, owned = .ok closed ∧ ∀ close ∈ closed, close = .ok () := by
  obtain ⟨closed, howned, hall⟩ := Checks.bind_eq_ok.1 h
  exact ⟨closed, howned, fun close hclose ↦ Checks.forM_eq_ok.1 hall close (.tail _ hclose)⟩

theorem map_fst_opened {tiles : List Tile} {answers : Answers R} {opened : List (Tile × Result R)}
    (h : (openReport tiles answers).run = some (.ok opened)) : opened.map Prod.fst = tiles := by
  obtain ⟨reserve, run, owned, cancel, closed⟩ := answers
  unfold openReport at h
  rcases reserve with _ | _ | _ <;> try cases h
  rcases run with _ | _ | _ <;> try cases h
  rcases owned with _ | _ | execution <;> try cases h
  by_cases hsucceeded : execution.succeeded = true <;>
    by_cases hlength : execution.results.length = tiles.length <;>
    simp [ExceptT.run, ExceptT.mk, bind, ExceptT.bind, ExceptT.bindCont, throw, throwThe,
      MonadExceptOf.throw, pure, ExceptT.pure, hsucceeded, hlength] at h
  rw [← h, List.map_fst_zip hlength.ge]

/-- The body of `try`. -/
theorem attemptReport_shows (settings : Settings R) (tiles : List Tile) (answers : Answers R) :
    ∃ opened done current, opened.map Prod.fst <+: tiles ∧
      Shows settings opened 0 0 done current (attemptReport settings tiles answers) ∧
      ((attemptReport settings tiles answers).2 = .finished → opened.map Prod.fst = tiles) := by
  have hnothing : ∀ ending : Ending, ending ≠ .finished →
      (∀ tileId problem, ending = .failed tileId problem → tileId = none) →
      Shows settings [] 0 0 [] none (([] : List (Event R)), ending) :=
    fun ending hending hfailed ↦ ⟨⟨List.nil_prefix, by simp, by simp⟩, rfl, by simp,
      fun h ↦ absurd h hending, hfailed⟩
  unfold attemptReport
  rcases hopen : (openReport tiles answers).run with _ | problem | opened
  · exact ⟨[], [], none, List.nil_prefix, hnothing _ (by simp) (by simp), by simp⟩
  · exact ⟨[], [], none, List.nil_prefix, hnothing _ (by simp) (by simp), by simp⟩
  · have htiles : opened.map Prod.fst = tiles := map_fst_opened hopen
    obtain ⟨done, current, hshows⟩ := streamTiles_shows settings opened 0 0
      fun _ ↦ ⟨Nat.zero_le _, Nat.zero_le _, Nat.zero_le _, Nat.zero_le _⟩
    exact ⟨opened, done, current, htiles ▸ List.prefix_rfl, hshows, fun _ ↦ htiles⟩

theorem report_stream_protocol (settings : Settings R) (tiles : List Tile) (answers : Answers R) :
    ∃ opened done current opening closing, Protocol settings tiles answers
      (events settings tiles answers) opened done current opening closing := by
  have hopening : answers.opening = [] ∨ answers.opening = [.execution] := by
    unfold Answers.opening
    split <;> simp
  obtain ⟨opened, done, current, hopened, hshows, hall⟩ := attemptReport_shows settings tiles answers
  have h : ∀ (trace : List (Event R) × Outcome) (closing : List (Event R)),
      trace.1 = .start tiles :: (answers.opening ++ (attemptReport settings tiles answers).1) ++ closing →
      Closes tiles answers done current trace.2 closing →
      ∃ opened done current opening closing, Protocol settings tiles answers trace opened done current
        opening closing := fun trace closing hevents hcloses ↦
    ⟨opened, done, current, answers.opening, closing, hopened, hshows.delivered,
      fun hpreview ↦ by simpa using hshows.totals hpreview, by rw [hevents, hshows.events]; rfl, hopening,
      hcloses⟩
  unfold events
  by_cases hempty : tiles.isEmpty = true
  · rw [if_pos hempty]
    obtain rfl : tiles = [] := List.isEmpty_iff.1 hempty
    exact ⟨[], [], none, [], [.finish], List.nil_prefix, ⟨List.nil_prefix, by simp, by simp⟩,
      by simp, rfl, .inl rfl, .inl ⟨rfl, rfl, rfl⟩⟩
  · rw [if_neg hempty]
    generalize attemptReport settings tiles answers = run at h hshows hall ⊢
    obtain ⟨shown, ending⟩ := run
    cases ending with
    | waiting => exact h _ [] (by simp) rfl
    | finished =>
      obtain ⟨hdone, hcurrent⟩ := hshows.finished rfl
      refine h _ [.finish] rfl (.inl ⟨?_, hcurrent, rfl⟩)
      rw [← hall rfl, ← hdone, List.map_map]
      rfl
    | failed tileId problem =>
      obtain rfl := hshows.failed _ _ rfl
      dsimp only
      split
      · exact h _ [] (by simp) rfl
      · exact h _ [] (by simp) rfl
      · next hcleaned =>
        refine h _ _ rfl (.inr ⟨problem, rfl, fun hreserve ↦ ?_⟩)
        simp only [Answers.opening, hreserve, List.isEmpty_cons, Bool.false_eq_true, if_false,
          Option.map_eq_some_iff] at hcleaned
        obtain ⟨owned, howned, hok⟩ := hcleaned
        obtain ⟨closed, rfl, hclosed⟩ := closed_of_cleanup hok
        exact ⟨closed, howned, hclosed⟩

end Schemii.Reports
