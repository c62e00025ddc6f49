import Mathlib.Tactic
import Schemii.Foundations.Dictionary

/-!
# Fetching rows forward

The cursors of `PsycopgConsoleReadSession` (`common/postgres/console/gateway.py`). A page is filled row
by row: a batch is fetched from the server-side cursor when nothing is pending, and a page that
reaches its byte budget keeps the rows it fetched and did not show for the next page.

FETCH FORWARD answers the next rows of the cursor in order, as many as are asked for or as there are.
How a row is converted and how long its JSON text is are parameters (`Encoding`); a value above the
cell limit has no conversion.

* `fetchRows_spec`: what one page takes of the pending rows and of the cursor, and why it stops.
* `fetchForward_spec`: a page shows the rows from its offset on, and leaves the ones after it.
-/

set_option autoImplicit false

namespace Schemii.ReadSessions

open Schemii.Foundations

/-- The rows of PostgreSQL and the rows of the Console: `json_console_value` on every value, or none
when a value is above the cell limit, and the bytes of the JSON text. -/
structure Encoding where
  Raw : Type
  Row : Type
  convert : Raw → Option Row
  bytes : Row → ℕ

/-- Why a fetch raises. -/
inductive FetchProblem
  /-- The session is closed, or the arguments are invalid. -/
  | unavailable
  /-- "Result pages must be read in sequence; rerun the query to restart this result" -/
  | sequence
  | cancelled
  | query
  | cellLimit
  | rowLimit (limit observed : ℕ)
  deriving DecidableEq, Repr

/-- Whether the fetch closes its session, which `PostgresConsoleLimitError` does. -/
def FetchProblem.closes : FetchProblem → Bool
  | .cellLimit | .rowLimit _ _ => true
  | _ => false

/-- Whether the service gives the results of the execution up: `PostgresConsoleCancelledError`,
`PostgresConsoleQueryError` and `PostgresConsoleLimitError`. -/
def FetchProblem.givesUp : FetchProblem → Bool
  | .cancelled | .query | .cellLimit | .rowLimit _ _ => true
  | _ => false

/-- A position in a result: the rows that the server-side cursor has not sent, if there is one, the
number of rows that were shown, and the rows that were sent and not shown. -/
structure Portal (E : Encoding) where
  cursor : Option (List E.Raw)
  position : ℕ
  pending : List E.Raw

/-- `_ReadCursor`: the rows of a statement that was not a SELECT, the portals of the pages and of the
exports, the rows that the statement selects when it is opened for an export, and
`fixed_row_memory_bytes`. -/
structure ReadCursor (E : Encoding) where
  rows : List E.Row
  page : Portal E
  exports : Portal E
  statement : Option (List E.Raw)
  fixedRowMemoryBytes : Option ℕ

section Fetch

variable {E : Encoding}

/-- How many rows are fetched at once, with room for some rows on the page. -/
def batchSize (pageMemoryBytes : ℕ) (fixed : Option ℕ) (room used : ℕ) : ℕ :=
  match fixed with
  | none => 1
  | some bytes => max 1 (min room ((pageMemoryBytes - used) / bytes))

/-- The loop of `_fetch_forward`, with room for some more rows: the rows of the page so far and their
bytes, the pending rows, and the rows of the server. It answers the rows, and what remains. -/
def fetchRows (pageMemoryBytes : ℕ) (fixed : Option ℕ) :
    ℕ → List E.Row → ℕ → List E.Raw → List E.Raw →
      Except FetchProblem (List E.Row × List E.Raw × List E.Raw)
  | 0, rows, _, pending, server => .ok (rows, pending, server)
  | room + 1, rows, used, pending, server =>
    let size := batchSize pageMemoryBytes fixed (room + 1) used
    let fetched := if pending.isEmpty then (server.take size, server.drop size)
      else (pending, server)
    match fetched.1 with
    | [] => .ok (rows, [], fetched.2)
    | raw :: rest =>
      match E.convert raw with
      | none => .error .cellLimit
      | some converted =>
        if rows ≠ [] ∧ pageMemoryBytes < used + E.bytes converted then
          .ok (rows, raw :: rest, fetched.2)
        else if pageMemoryBytes < E.bytes converted then
          .error (.rowLimit pageMemoryBytes (E.bytes converted))
        else
          fetchRows pageMemoryBytes fixed room (rows ++ [converted]) (used + E.bytes converted)
            rest fetched.2

/-- `_fetch_forward` on a portal; a statement without a cursor has its rows. -/
def fetchForward (pageMemoryBytes : ℕ) (fixed : Option ℕ) (rows : List E.Row) (portal : Portal E)
    (offset pageSize : ℕ) : Except FetchProblem (List E.Row × Portal E) :=
  match portal.cursor with
  | none => .ok ((rows.drop offset).take pageSize, portal)
  | some server =>
    if offset ≠ portal.position then .error .sequence
    else
      match fetchRows pageMemoryBytes fixed pageSize [] 0 portal.pending server with
      | .error problem => .error problem
      | .ok (fetched, pending, remaining) =>
        .ok (fetched, ⟨some remaining, portal.position + fetched.length, pending⟩)

/-- `_fetch_forward` for a page. -/
def ReadCursor.fetchPage (pageMemoryBytes : ℕ) (reader : ReadCursor E) (offset pageSize : ℕ) :
    Except FetchProblem (List E.Row × ReadCursor E) :=
  match fetchForward pageMemoryBytes reader.fixedRowMemoryBytes reader.rows reader.page offset
    pageSize with
  | .error problem => .error problem
  | .ok (rows, portal) => .ok (rows, { reader with page := portal })

/-- The portal of an export, which is opened when it is first used. -/
def ReadCursor.openExport (reader : ReadCursor E) : Portal E :=
  match reader.exports.cursor, reader.statement with
  | none, some selected => { reader.exports with cursor := some selected }
  | _, _ => reader.exports

/-- `_fetch_forward` for an export. -/
def ReadCursor.fetchExport (pageMemoryBytes : ℕ) (reader : ReadCursor E) (offset pageSize : ℕ) :
    Except FetchProblem (List E.Row × ReadCursor E) :=
  match fetchForward pageMemoryBytes reader.fixedRowMemoryBytes reader.rows reader.openExport offset
    pageSize with
  | .error problem => .error problem
  | .ok (rows, portal) => .ok (rows, { reader with exports := portal })

/-! ### What a page takes -/

theorem batchSize_pos (pageMemoryBytes : ℕ) (fixed : Option ℕ) (room used : ℕ) :
    1 ≤ batchSize pageMemoryBytes fixed room used := by
  cases fixed with
  | none => exact le_rfl
  | some bytes => exact le_max_left _ _

theorem fetched_append (pending server : List E.Raw) (size : ℕ) :
    (if pending.isEmpty then (server.take size, server.drop size) else (pending, server)).1 ++
      (if pending.isEmpty then (server.take size, server.drop size) else (pending, server)).2 =
        pending ++ server := by
  cases pending with
  | nil => simp
  | cons raw rest => simp

/-- Why a page stopped: it is full, it keeps rows for the next page, or nothing is left. -/
inductive Stops (E : Encoding) (room : ℕ) : List E.Row → List E.Raw → List E.Raw → Prop
  | full {rows : List E.Row} {pending server : List E.Raw} (hfull : rows.length = room) :
      Stops E room rows pending server
  | budget {rows : List E.Row} {pending server : List E.Raw} (hpending : pending ≠ []) :
      Stops E room rows pending server
  | exhausted {rows : List E.Row} : Stops E room rows [] []

/-- The loop of a page. Assumes: it ends with some rows. They are the ones it had and then the next
rows, pending or of the server, and the rest remains; it stopped for one of the three reasons. -/
theorem fetchRows_spec (pageMemoryBytes : ℕ) (fixed : Option ℕ) (room : ℕ) (rows : List E.Row)
    (used : ℕ) (pending server : List E.Raw) {rows' : List E.Row} {pending' server' : List E.Raw}
    (h : fetchRows pageMemoryBytes fixed room rows used pending server =
      .ok (rows', pending', server')) :
    ∃ taken shown, pending ++ server = taken ++ (pending' ++ server') ∧
      taken.map E.convert = shown.map some ∧ rows' = rows ++ shown ∧ shown.length ≤ room ∧
      Stops E room shown pending' server' := by
  induction room generalizing rows used pending server with
  | zero =>
    simp only [fetchRows, Except.ok.injEq, Prod.mk.injEq] at h
    obtain ⟨rfl, rfl, rfl⟩ := h
    exact ⟨[], [], by simp, rfl, by simp, le_rfl, .full rfl⟩
  | succ room ih =>
    have happend := fetched_append pending server (batchSize pageMemoryBytes fixed (room + 1) used)
    simp only [fetchRows] at h
    generalize hfetched : (if pending.isEmpty then
      (server.take (batchSize pageMemoryBytes fixed (room + 1) used),
        server.drop (batchSize pageMemoryBytes fixed (room + 1) used))
      else (pending, server)) = fetched at h happend
    obtain ⟨batch, remaining⟩ := fetched
    rw [← happend]
    cases batch with
    | nil =>
      simp only [Except.ok.injEq, Prod.mk.injEq] at h
      obtain ⟨rfl, rfl, rfl⟩ := h
      -- An empty batch comes from an empty cursor.
      have hremaining : remaining = [] := by
        cases pending with
        | cons raw rest => simp at hfetched
        | nil =>
          simp only [List.isEmpty_nil, if_true, Prod.mk.injEq] at hfetched
          have hpos := batchSize_pos pageMemoryBytes fixed (room + 1) used
          cases server with
          | nil => simpa using hfetched.2.symm
          | cons raw rest =>
            obtain ⟨size, hsize⟩ := Nat.exists_eq_succ_of_ne_zero (Nat.one_le_iff_ne_zero.1 hpos)
            rw [hsize] at hfetched
            simp at hfetched
      subst hremaining
      exact ⟨[], [], by simp, rfl, by simp, by simp, .exhausted⟩
    | cons raw rest =>
      simp only at h
      cases hconvert : E.convert raw with
      | none => simp [hconvert] at h
      | some converted =>
        simp only [hconvert] at h
        split at h
        · simp only [Except.ok.injEq, Prod.mk.injEq] at h
          obtain ⟨rfl, rfl, rfl⟩ := h
          exact ⟨[], [], by simp, rfl, by simp, by simp, .budget (by simp)⟩
        · split at h
          · cases h
          · obtain ⟨taken, shown, htaken, hshown, hrows, hlength, hstops⟩ := ih _ _ _ _ h
            refine ⟨raw :: taken, converted :: shown, by simp [htaken], by simp [hconvert, hshown],
              by simp [hrows], by simpa using hlength, ?_⟩
            cases hstops with
            | full hfull => exact .full (by simp [hfull])
            | budget hpending => exact .budget hpending
            | exhausted => exact .exhausted

theorem fetchRows_nil {pageMemoryBytes : ℕ} {fixed : Option ℕ} {room used : ℕ}
    {pending server pending' server' : List E.Raw}
    (h : fetchRows pageMemoryBytes fixed (room + 1) [] used pending server =
      .ok ([], pending', server')) : pending' = [] := by
  simp only [fetchRows] at h
  split at h
  · simp only [Except.ok.injEq, Prod.mk.injEq, true_and] at h
    exact h.1.symm
  · next raw rest hbatch =>
    cases hconvert : E.convert raw with
    | none => simp [hconvert] at h
    | some converted =>
      simp only [hconvert, ne_eq, not_true_eq_false, false_and, if_false] at h
      split at h
      · cases h
      · obtain ⟨taken, shown, -, -, hrows, -⟩ := fetchRows_spec _ _ _ _ _ _ _ h
        simp at hrows

theorem fetchRows_sequence {pageMemoryBytes : ℕ} {fixed : Option ℕ} {room : ℕ} {rows : List E.Row}
    {used : ℕ} {pending server : List E.Raw} :
    fetchRows pageMemoryBytes fixed room rows used pending server ≠ .error .sequence := by
  induction room generalizing rows used pending server with
  | zero => exact nofun
  | succ room ih =>
    simp only [fetchRows]
    split
    · exact nofun
    · split
      · exact nofun
      · split
        · exact nofun
        · split
          · exact nofun
          · exact ih

/-- A portal reads some rows: what is pending and what the server has are the rows that were not
shown. -/
def Portal.Reads (portal : Portal E) (source : List E.Raw) : Prop :=
  ∀ server, portal.cursor = some server →
    portal.position ≤ source.length ∧ source.drop portal.position = portal.pending ++ server

/-- A page of a cursor. Assumes: a portal that reads some rows, and a fetch that does not raise. It
shows the rows from its offset on, which is the position of the portal, and the portal reads the rest;
a page that is not full and keeps nothing is the last one, and a page that keeps rows shows some. -/
theorem fetchForward_spec {pageMemoryBytes : ℕ} {fixed : Option ℕ} {rows shown : List E.Row}
    {portal portal' : Portal E} {offset pageSize : ℕ} {source server : List E.Raw}
    (hreads : portal.Reads source) (hserver : portal.cursor = some server)
    (h : fetchForward pageMemoryBytes fixed rows portal offset pageSize = .ok (shown, portal')) :
    offset = portal.position ∧ portal'.position = offset + shown.length ∧
      shown.map some = ((source.map E.convert).drop offset).take shown.length ∧
      portal'.Reads source ∧ portal'.cursor.isSome ∧
      (shown.length ≠ pageSize → portal'.pending = [] →
        offset + shown.length = source.length) ∧
      (1 ≤ pageSize → portal'.pending ≠ [] → shown ≠ []) := by
  simp only [fetchForward, hserver] at h
  split at h
  · cases h
  · next hoffset =>
    rw [not_not] at hoffset
    subst hoffset
    cases hfetch : fetchRows pageMemoryBytes fixed pageSize [] 0 portal.pending server with
    | error problem => simp [hfetch] at h
    | ok fetched =>
      obtain ⟨fetched, pending, remaining⟩ := fetched
      simp only [hfetch, Except.ok.injEq, Prod.mk.injEq] at h
      obtain ⟨rfl, rfl⟩ := h
      obtain ⟨taken, shown, htaken, hshown, hrows, hlength, hstops⟩ := fetchRows_spec _ _ _ _ _ _ _
        hfetch
      obtain rfl : fetched = shown := by simpa using hrows
      obtain ⟨hle, hdrop⟩ := hreads server hserver
      rw [htaken] at hdrop
      have hsame : taken.length = fetched.length := by
        simpa using congrArg List.length hshown
      have hrest : source.drop (portal.position + fetched.length) = pending ++ remaining := by
        rw [← List.drop_drop, hdrop, ← hsame, List.drop_left]
      have htotal : portal.position + fetched.length ≤ source.length := by
        have hlen := congrArg List.length hdrop
        simp only [List.length_drop, List.length_append] at hlen
        omega
      refine ⟨rfl, rfl, ?_, fun server' hserver' ↦ ?_, rfl, fun hnotfull hnone ↦ ?_,
        fun hroom hkept hnothing ↦ ?_⟩
      · rw [← List.map_drop, hdrop, List.map_append, hshown]
        simp
      · obtain rfl := Option.some.inj hserver'
        exact ⟨htotal, hrest⟩
      · cases hstops with
        | full hfull => exact absurd hfull hnotfull
        | budget hpending => exact absurd hnone hpending
        | exhausted =>
          have hlen := congrArg List.length hrest
          simp only [List.length_drop, List.append_nil, List.length_nil] at hlen
          omega
      · obtain ⟨room, rfl⟩ := Nat.exists_eq_add_of_le' hroom
        subst hnothing
        exact hkept (fetchRows_nil hfetch)

end Fetch

end Schemii.ReadSessions
