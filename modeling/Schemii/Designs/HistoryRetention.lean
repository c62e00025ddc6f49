import Mathlib.Tactic

/-!
# Bounded design history

The retention rules of `designs/history_retention.py`. A design history is a list of immutable
snapshots from the workspace's root to the tip, and the snapshots that share a `historyGroup` are
one logical action. `historyBoundaryIndex` walks back over the retained number of actions,
`historyTargetIndex` resolves where an undo or a redo lands, and `retainedHistoryEntries` is what a
save keeps: the root, one snapshot for each action, and the snapshots from the boundary on.

The functions are stated over any type of entries that has an id and a group, as the source's
protocol `HistoryEntry` does, because the in-memory store and the PostgreSQL store call them on
different records.

A list in which neighbouring snapshots after the root belong to different actions is `Compact`.
Retention keeps lists compact (`compact_retainedHistoryEntries`), and on a compact list every rule
is arithmetic on positions: the boundary is at `length - 1 - limit`
(`historyBoundaryIndex_of_compact`), an undo goes back one position when the boundary allows it
(`historyTargetIndex_undo_of_compact`), a redo goes forward one position
(`historyTargetIndex_redo_of_compact`), and retention after a save either keeps the list or keeps
its root and its last `limit + 1` snapshots (`retainedHistoryEntries_of_compact`).

Note that `historyTargetIndex` calls the boundary at its default limit, whatever limit the
store was configured with.
-/

set_option autoImplicit false

namespace Schemii.Designs

/-- `MAX_RETAINED_HISTORY_ACTIONS`. -/
def maxRetainedHistoryActions : ℕ := 100

/-- The protocol `HistoryEntry`: what retention reads of a snapshot. -/
class HistoryEntry (E : Type) where
  /-- The identity of the snapshot. -/
  entryId : E → ℕ
  /-- The gesture the snapshot was saved in, when the client named one. -/
  operationGroupId : E → Option String

/-- The direction of a history move. -/
inductive HistoryAction
  | undo
  | redo
  deriving DecidableEq, Repr

section Rules

variable {E : Type} [HistoryEntry E]

/-- The logical action identity of a snapshot with the given id and group id. An absent or empty
group id makes the snapshot an action of its own. -/
def actionIdentity (id : ℕ) : Option String → String
  | some group => if group = "" then s!"entry:{id}" else group
  | none => s!"entry:{id}"

/-- `history_group`: the logical action identity of one snapshot. -/
def historyGroup (entry : E) : String :=
  actionIdentity (HistoryEntry.entryId entry) (HistoryEntry.operationGroupId entry)

/-- The logical action of the snapshot at a position. -/
def groupAt (entries : List E) (index : ℕ) : Option String :=
  entries[index]?.map historyGroup

/-- The inner loop of both walks back: step towards the root while the snapshot belongs to
`group`, and stop at the root. -/
def retreatGroup (entries : List E) (group : Option String) : ℕ → ℕ
  | 0 => 0
  | index + 1 =>
    if groupAt entries (index + 1) = group then retreatGroup entries group index else index + 1

/-- The outer loop of `history_boundary_index`, with the number of actions still to walk over. -/
def boundaryLoop (entries : List E) : ℕ → ℕ → ℕ
  | 0, index => index
  | _ + 1, 0 => 0
  | remaining + 1, index + 1 =>
    boundaryLoop entries remaining (retreatGroup entries (groupAt entries (index + 1)) (index + 1))

/-- `history_boundary_index`: the oldest position needed to undo the retained actions. -/
def historyBoundaryIndex (entries : List E)
    (retainedLimit : ℕ := maxRetainedHistoryActions) : ℕ :=
  boundaryLoop entries retainedLimit (entries.length - 1)

/-- The loop of a redo: step towards the tip while the next snapshot belongs to `group`. The fuel
is the number of positions after the start. -/
def advanceGroup (entries : List E) (group : Option String) : ℕ → ℕ → ℕ
  | 0, target => target
  | fuel + 1, target =>
    if groupAt entries (target + 1) = group then advanceGroup entries group fuel (target + 1)
    else target

/-- `history_target_index`: the destination of a grouped undo or redo. The undo compares with the
boundary at its default limit. -/
def historyTargetIndex (entries : List E) (cursorIndex : ℕ) : HistoryAction → Option ℕ
  | .undo =>
    if cursorIndex = 0 then none
    else
      let target := retreatGroup entries (groupAt entries cursorIndex) (cursorIndex - 1)
      if historyBoundaryIndex entries ≤ target then some target else none
  | .redo =>
    if entries.length - 1 ≤ cursorIndex then none
    else
      some (advanceGroup entries (groupAt entries (cursorIndex + 1))
        (entries.length - 1 - (cursorIndex + 1)) (cursorIndex + 1))

/-- One turn of the compaction loop: a snapshot of the same action replaces the last one, unless
the last one is the root. -/
def compactStep (compacted : List E) (entry : E) : List E :=
  if 1 < compacted.length ∧ compacted.getLast?.map historyGroup = some (historyGroup entry) then
    compacted.dropLast ++ [entry]
  else compacted ++ [entry]

/-- `retained_history_entries`: the root, one snapshot for each action, and the snapshots from the
undo boundary on. -/
def retainedHistoryEntries (entries : List E)
    (retainedLimit : ℕ := maxRetainedHistoryActions) : List E :=
  match entries with
  | [] => []
  | root :: rest =>
    let compacted := rest.foldl compactStep [root]
    let boundary := historyBoundaryIndex compacted retainedLimit
    if boundary = 0 then compacted else compacted.take 1 ++ compacted.drop boundary

end Rules

/-! ### Compact lists -/

section Compact

variable {E : Type} [HistoryEntry E]

/-- Neighbouring snapshots after the root belong to different logical actions. -/
def Compact (entries : List E) : Prop :=
  ∀ index, 0 < index → index + 1 < entries.length →
    groupAt entries index ≠ groupAt entries (index + 1)

variable {entries : List E}

theorem groupAt_take {count index : ℕ} (hindex : index < count) :
    groupAt (entries.take count) index = groupAt entries index := by
  unfold groupAt
  rw [List.getElem?_take_of_lt hindex]

theorem groupAt_append_left {entries rest : List E} {index : ℕ} (hindex : index < entries.length) :
    groupAt (entries ++ rest) index = groupAt entries index := by
  unfold groupAt
  rw [List.getElem?_append_left hindex]

theorem groupAt_append_length (entries : List E) (entry : E) :
    groupAt (entries ++ [entry]) entries.length = some (historyGroup entry) := by
  simp [groupAt]

theorem Compact.take (h : Compact entries) (count : ℕ) :
    Compact (entries.take count) := by
  intro index hpos hlt
  rw [List.length_take] at hlt
  rw [groupAt_take (by omega), groupAt_take (by omega)]
  exact h index hpos (by omega)

/-- Assumes: a compact list whose last snapshot is the root or belongs to another action than the
new snapshot. Appending the new snapshot keeps the list compact. -/
theorem Compact.append (h : Compact entries) (entry : E)
    (hlast : 1 < entries.length → groupAt entries (entries.length - 1) ≠ some (historyGroup entry)) :
    Compact (entries ++ [entry]) := by
  intro index hpos hlt
  rw [List.length_append, List.length_singleton] at hlt
  by_cases hinner : index + 1 < entries.length
  · rw [groupAt_append_left (by omega), groupAt_append_left hinner]
    exact h index hpos hinner
  · have hend : index + 1 = entries.length := by omega
    rw [hend, groupAt_append_length, groupAt_append_left (by omega)]
    have hindex : index = entries.length - 1 := by omega
    rw [hindex]
    exact hlast (by omega)

/-- Assumes: a compact list. Its root followed by any suffix past the root is compact. -/
theorem Compact.rootAndDrop (h : Compact entries) {boundary : ℕ}
    (hboundary : 0 < boundary) : Compact (entries.take 1 ++ entries.drop boundary) := by
  intro index hpos hlt
  have htake : (entries.take 1).length ≤ 1 := by
    rw [List.length_take]
    omega
  rw [List.length_append, List.length_drop] at hlt
  have hlength : (entries.take 1).length = 1 := by
    rw [List.length_take] at hlt ⊢
    omega
  have hshift (position : ℕ) (hposition : 0 < position) :
      groupAt (entries.take 1 ++ entries.drop boundary) position =
        groupAt entries (boundary + (position - 1)) := by
    unfold groupAt
    rw [List.getElem?_append_right (by omega), hlength, List.getElem?_drop]
  rw [hshift index hpos, hshift (index + 1) (by omega)]
  have hnext : boundary + (index + 1 - 1) = boundary + (index - 1) + 1 := by omega
  rw [hnext]
  exact h _ (by omega) (by omega)

/-- Assumes: a compact list and a position of it past the root. Walking back over the action of
that position moves one step. -/
theorem retreatGroup_of_compact (h : Compact entries) {index : ℕ}
    (hindex : index + 1 < entries.length) :
    retreatGroup entries (groupAt entries (index + 1)) index = index := by
  cases index with
  | zero => rfl
  | succ index => rw [retreatGroup, if_neg (h (index + 1) (by omega) hindex)]

/-- Assumes: a compact list and a position of it. The boundary loop moves back one position for
each action. -/
theorem boundaryLoop_of_compact (h : Compact entries) :
    ∀ (remaining index : ℕ), index < entries.length →
      boundaryLoop entries remaining index = index - remaining := by
  intro remaining
  induction remaining with
  | zero => intro index _; rfl
  | succ remaining ih =>
    intro index hindex
    cases index with
    | zero => simp [boundaryLoop]
    | succ index =>
      rw [boundaryLoop, retreatGroup, if_pos rfl, retreatGroup_of_compact h hindex,
        ih index (by omega)]
      omega

/-- Assumes: a compact list. The boundary of a compact list lies `limit` positions before its
tip. -/
theorem historyBoundaryIndex_of_compact (h : Compact entries) (limit : ℕ) :
    historyBoundaryIndex entries limit = entries.length - 1 - limit := by
  unfold historyBoundaryIndex
  cases entries with
  | nil => cases limit <;> simp [boundaryLoop]
  | cons root rest => exact boundaryLoop_of_compact h limit _ (by simp)

/-- Assumes: a compact list and a position of it. An undo moves back one position, unless it
stands on the root or the default boundary lies after the destination. -/
theorem historyTargetIndex_undo_of_compact (h : Compact entries) {cursor : ℕ}
    (hcursor : cursor < entries.length) :
    historyTargetIndex entries cursor .undo =
      if cursor ≠ 0 ∧ entries.length - 1 - maxRetainedHistoryActions ≤ cursor - 1 then
        some (cursor - 1)
      else none := by
  cases cursor with
  | zero => simp [historyTargetIndex]
  | succ cursor =>
    have hboundary : historyBoundaryIndex entries =
        entries.length - 1 - maxRetainedHistoryActions := historyBoundaryIndex_of_compact h _
    simp only [historyTargetIndex, Nat.add_one_sub_one, Nat.add_eq_zero_iff, one_ne_zero,
      and_false, if_false, retreatGroup_of_compact h hcursor, hboundary, ne_eq, not_false_eq_true,
      true_and]

/-- Assumes: a compact list and a position of it. A redo moves forward one position, unless it
stands on the tip. -/
theorem historyTargetIndex_redo_of_compact (h : Compact entries) {cursor : ℕ} :
    historyTargetIndex entries cursor .redo =
      if cursor + 1 < entries.length then some (cursor + 1) else none := by
  rw [historyTargetIndex]
  by_cases hnext : cursor + 1 < entries.length
  · rw [if_neg (by omega), if_pos hnext]
    cases hfuel : entries.length - 1 - (cursor + 1) with
    | zero => rfl
    | succ fuel =>
      have hdifferent := h (cursor + 1) (by omega) (by omega)
      rw [advanceGroup, if_neg (Ne.symm hdifferent)]
  · rw [if_pos (by omega), if_neg hnext]

/-- The destination of a move on a compact list, by its length and the position of the cursor. -/
def moveTarget (length cursor : ℕ) : HistoryAction → Option ℕ
  | .undo =>
    if cursor ≠ 0 ∧ length - 1 - maxRetainedHistoryActions ≤ cursor - 1 then some (cursor - 1)
    else none
  | .redo => if cursor + 1 < length then some (cursor + 1) else none

/-- Assumes: a compact list and a position of it. Every move is arithmetic on positions. -/
theorem historyTargetIndex_of_compact (h : Compact entries) {cursor : ℕ}
    (hcursor : cursor < entries.length) (action : HistoryAction) :
    historyTargetIndex entries cursor action = moveTarget entries.length cursor action := by
  cases action with
  | undo => exact historyTargetIndex_undo_of_compact h hcursor
  | redo => exact historyTargetIndex_redo_of_compact h

end Compact

/-- Assumes: a position of a list that the undo boundary allows. The destination of a move from it
is another such position, one step away in the direction of the move. -/
theorem moveTarget_spec {length cursor target : ℕ} {action : HistoryAction}
    (hcursor : cursor < length) (h : moveTarget length cursor action = some target) :
    target < length ∧
      (length - 1 - maxRetainedHistoryActions ≤ cursor →
        length - 1 - maxRetainedHistoryActions ≤ target) ∧
      (action = .undo ∧ cursor = target + 1 ∨ action = .redo ∧ target = cursor + 1) := by
  cases action with
  | undo =>
    simp only [moveTarget] at h
    split_ifs at h with hallowed
    obtain rfl := Option.some.inj h
    exact ⟨by omega, fun _ ↦ hallowed.2, Or.inl ⟨rfl, by omega⟩⟩
  | redo =>
    simp only [moveTarget] at h
    split_ifs at h with hallowed
    obtain rfl := Option.some.inj h
    exact ⟨hallowed, fun hle ↦ by omega, Or.inr ⟨rfl, rfl⟩⟩

/-! ### Retention of a saved snapshot -/

section Retention

variable {E : Type} [HistoryEntry E]

theorem getLast?_map_historyGroup (entries : List E) :
    entries.getLast?.map historyGroup = groupAt entries (entries.length - 1) := by
  unfold groupAt
  rw [List.getLast?_eq_getElem?]

/-- Assumes: a compact list that begins with the accumulated snapshots. The compaction loop
appends the remaining ones unchanged. -/
theorem foldl_compactStep_of_compact (rest : List E) :
    ∀ done : List E, done ≠ [] → Compact (done ++ rest) → rest.foldl compactStep done = done ++ rest := by
  induction rest with
  | nil => intro done _ _; simp
  | cons entry rest ih =>
    intro done hdone hcompact
    have hpos : 0 < done.length := List.length_pos_of_ne_nil hdone
    have hstep : compactStep done entry = done ++ [entry] := by
      unfold compactStep
      rw [if_neg]
      rintro ⟨hlong, hsame⟩
      rw [getLast?_map_historyGroup] at hsame
      refine hcompact (done.length - 1) (by omega) (by simp; omega) ?_
      have hnext : done.length - 1 + 1 = done.length := by omega
      rw [hnext, groupAt_append_left (by omega), hsame]
      simp [groupAt]
    rw [List.foldl_cons, hstep, ih (done ++ [entry]) (by simp) (by simpa using hcompact)]
    simp

theorem compact_compactStep {entries : List E} (h : Compact entries) (entry : E) :
    Compact (compactStep entries entry) := by
  unfold compactStep
  split_ifs with hmerge
  · have hdrop : entries.dropLast = entries.take (entries.length - 1) := List.dropLast_eq_take
    rw [hdrop]
    refine (h.take _).append entry fun hlong ↦ ?_
    rw [List.length_take, min_eq_left (by omega)] at hlong ⊢
    rw [groupAt_take (by omega)]
    intro hsame
    have hlast := hmerge.2
    rw [getLast?_map_historyGroup] at hlast
    refine h (entries.length - 1 - 1) (by omega) (by omega) ?_
    have hnext : entries.length - 1 - 1 + 1 = entries.length - 1 := by omega
    rw [hnext, hlast, hsame]
  · refine h.append entry fun hlong hsame ↦ hmerge ⟨hlong, ?_⟩
    rw [getLast?_map_historyGroup, hsame]

/-- Assumes: a nonempty compact list. Retention of the list with a new snapshot keeps the
compacted list while it holds at most `limit` actions, and its root and its last `limit + 1`
snapshots beyond that. -/
theorem retainedHistoryEntries_of_compact {entries : List E} (hne : entries ≠ [])
    (h : Compact entries) (entry : E) (limit : ℕ) :
    retainedHistoryEntries (entries ++ [entry]) limit =
      let compacted := compactStep entries entry
      let boundary := compacted.length - 1 - limit
      if boundary = 0 then compacted else compacted.take 1 ++ compacted.drop boundary := by
  cases entries with
  | nil => exact absurd rfl hne
  | cons root rest =>
    have hfold : (rest ++ [entry]).foldl compactStep [root] =
        compactStep (root :: rest) entry := by
      rw [List.foldl_append, foldl_compactStep_of_compact rest [root] (by simp) (by simpa using h)]
      rfl
    have hboundary := historyBoundaryIndex_of_compact (compact_compactStep h entry) limit
    simp only [retainedHistoryEntries, List.cons_append, hfold, hboundary]

/-- Assumes: a nonempty compact list. Retention of the list with a new snapshot is compact. -/
theorem compact_retainedHistoryEntries {entries : List E} (hne : entries ≠ [])
    (h : Compact entries) (entry : E) (limit : ℕ) :
    Compact (retainedHistoryEntries (entries ++ [entry]) limit) := by
  rw [retainedHistoryEntries_of_compact hne h]
  have hcompacted := compact_compactStep h entry
  dsimp only
  split_ifs with hzero
  · exact hcompacted
  · exact hcompacted.rootAndDrop (Nat.pos_of_ne_zero hzero)

end Retention

end Schemii.Designs
