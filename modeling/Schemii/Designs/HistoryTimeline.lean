import Schemii.Foundations.UndoTimeline
import Schemii.Designs.HistoryRuns

/-!
# Undo takes back one logical action

The chain of retained snapshots, compared with what an undo stack is for. Next to a run of the
repository, `tracked` keeps the unbounded `Timeline` of one workspace: every granted save, undo and
redo is made on it as well, and nothing is ever pruned from it. `Represents` says how the bounded
chain stands for the timeline: the snapshots between the root and the cursor are the most recent
actions of the past, the snapshots after the cursor are the future, and the root is the start of the
timeline as long as no action was discarded.

`represents_save` and `represents_move` keep the relation, so a run keeps it (`represents_tracked`)
as long as no undo steps from the oldest retained action to the root after retention discarded the
actions between them (`UndoWithinRetained`). In such runs a granted undo brings back the content the
design had immediately before the action the cursor was on
(`undo_restores_content_before_action`). The excluded undo is granted by the source: the boundary it
checks is the default one, not the one retention used, and a chain that a new branch made short has
no boundary at all. `undo_skips_discarded_actions` is such a run at limit 1.
-/

set_option autoImplicit false

namespace Schemii.Designs

open DesignRepository Foundations

variable {C : Type}
variable {timeline : Timeline String C} {history : List (MemoryHistoryEntry C)}
  {repository : DesignRepository C} {key : String × String}

/-! ### The timeline next to a run -/

/-- Whether an outcome granted a new revision of the design. -/
def grantedRevision (current : Design C) : Except DesignError (Design C) → Bool
  | .ok design => design.revision ≠ current.revision
  | .error _ => false

/-- The timeline of a workspace after a request: what was granted on the workspace is made on the
timeline. A new snapshot has the next id, so that id names its action when the client named none. -/
def trackedTimeline (rules : ContentRules C) (limit : ℕ) (key : String × String)
    (repository : DesignRepository C) (timeline : Timeline String C) :
    DesignRequest C → Timeline String C
  | .replace other blocked request operationKind =>
    let current := currentDesign rules (repository.workspaces key)
    let outcome := replace rules limit repository key blocked request operationKind
    if other = key ∧ grantedRevision current outcome.1 then
      timeline.edit
        (actionIdentity (repository.ensureHistory key current).nextHistoryId request.historyGroupId)
        request.content
    else timeline
  | .undo other blocked revision =>
    let current := currentDesign rules (repository.workspaces key)
    if other = key ∧ grantedRevision current (undo rules repository key blocked revision).1 then
      timeline.undo
    else timeline
  | .redo other blocked revision =>
    let current := currentDesign rules (repository.workspaces key)
    if other = key ∧ grantedRevision current (redo rules repository key blocked revision).1 then
      timeline.redo
    else timeline
  | .replaceLayout _ _ => timeline

/-- One request on the repository and on the timeline of a workspace. -/
def trackedStep (rules : ContentRules C) (limit : ℕ) (key : String × String)
    (state : DesignRepository C × Timeline String C) (request : DesignRequest C) :
    DesignRepository C × Timeline String C :=
  (step rules limit state.1 request, trackedTimeline rules limit key state.1 state.2 request)

/-- A run of the repository with the timeline of a workspace. -/
def tracked (rules : ContentRules C) (limit : ℕ) (key : String × String)
    (seeds : List (DesignSeed C)) (requests : List (DesignRequest C)) :
    DesignRepository C × Timeline String C :=
  requests.foldl (trackedStep rules limit key)
    (seeded rules seeds,
      Timeline.fresh (currentDesign rules ((seeded rules seeds).workspaces key)).content)

/-- The request is not an undo on the workspace from the oldest retained action after retention
discarded older ones: where the cursor stands on the snapshot next to the root, that snapshot is the
first action of the timeline. -/
def UndoWithinRetained (key : String × String)
    (state : DesignRepository C × Timeline String C) : DesignRequest C → Prop
  | .undo other _ _ => other = key → ∀ entries,
      activeChain (state.1.workspaces key) = some (entries, 1) → state.2.past.length ≤ 1
  | _ => True

/-- Every request of a run is made within the retained actions. -/
def RunWithinRetained (rules : ContentRules C) (limit : ℕ) (key : String × String)
    (seeds : List (DesignSeed C)) (requests : List (DesignRequest C)) : Prop :=
  ∀ done request rest, requests = done ++ request :: rest →
    UndoWithinRetained key (tracked rules limit key seeds done) request

/-! ### How a chain stands for a timeline -/

/-- What a snapshot shares with an action: its identity and the content it left. -/
def entryView (entry : MemoryHistoryEntry C) : String × C :=
  (historyGroup entry, entry.content)

/-- What an action shares with a snapshot. -/
def actionView (action : Action String C) : String × C :=
  (action.group, action.after)

/-- The retained chain with its cursor stands for the timeline. -/
structure Represents (history : List (MemoryHistoryEntry C)) (index : ℕ)
    (timeline : Timeline String C) : Prop where
  bound : index ≤ timeline.past.length
  older : (history.take (index + 1)).tail.reverse.map entryView =
    (timeline.past.take index).map actionView
  newer : (history.drop (index + 1)).map entryView = timeline.future.map actionView
  root : timeline.past.length = index →
    history.head?.map MemoryHistoryEntry.content = some timeline.start
  kept : index = 0 → timeline.past = []

variable {index : ℕ} {entry : MemoryHistoryEntry C} (h : Represents history index timeline)

include h in
/-- Assumes: a chain that stands for a timeline. The snapshot at the cursor has the timeline's
current content. -/
theorem Represents.current (hentry : history[index]? = some entry) :
    timeline.current = entry.content := by
  cases index with
  | zero =>
    have hpast := h.kept rfl
    have hroot := h.root (by rw [hpast]; rfl)
    rw [List.head?_eq_getElem?, hentry] at hroot
    simp only [Timeline.current, hpast, documentAfter]
    exact (Option.some.inj hroot).symm
  | succ index =>
    have hlt := (List.getElem?_eq_some_iff.mp hentry).1
    have hlast : (history.take (index + 1 + 1)).tail.reverse.head? = some entry := by
      rw [List.head?_reverse, List.getLast?_eq_getElem?, List.length_tail, List.length_take,
        List.getElem?_tail, min_eq_left (by omega), List.getElem?_take_of_lt (by omega)]
      rw [← hentry]
      congr 1
    have hhead := congrArg List.head? h.older
    rw [List.head?_map, hlast, List.head?_map, List.head?_take, if_neg (by omega)] at hhead
    obtain ⟨start, past, future, hpast, hfuture⟩ := timeline
    cases past with
    | nil => simp at hhead
    | cons action older =>
      simp only [List.head?_cons, Option.map_some, Option.some.injEq, entryView, actionView,
        Prod.mk.injEq] at hhead
      exact hhead.2.symm

theorem tail_reverse_take_succ (hentry : history[index + 1]? = some entry) :
    (history.take (index + 1 + 1)).tail.reverse =
      entry :: (history.take (index + 1)).tail.reverse := by
  have htake : history.take (index + 1 + 1) = history.take (index + 1) ++ [entry] := by
    rw [List.take_add_one, hentry]
    rfl
  have hne : history.take (index + 1) ≠ [] := by
    have hlt := (List.getElem?_eq_some_iff.mp hentry).1
    exact List.ne_nil_of_length_pos (by rw [List.length_take]; omega)
  rw [htake, List.tail_append_of_ne_nil hne, List.reverse_append]
  rfl

/-- Assumes: a chain that stands for a timeline, and an undo position within the retained actions.
The chain one position back stands for the timeline after its undo. -/
theorem represents_undo {target : ℕ} (h : Represents history (target + 1) timeline)
    (hlt : target + 1 < history.length)
    (hretained : target = 0 → timeline.past.length ≤ 1) :
    Represents history target timeline.undo := by
  have hentry : history[target + 1]? = some history[target + 1] := List.getElem?_eq_getElem hlt
  have hbound := h.bound
  have holder := h.older
  rw [tail_reverse_take_succ hentry] at holder
  obtain ⟨start, past, future, hpast, hfuture⟩ := timeline
  cases past with
  | nil => simp at hbound
  | cons action past =>
    simp only [List.length_cons] at hbound hretained
    rw [List.take_succ_cons, List.map_cons, List.map_cons, List.cons_eq_cons] at holder
    refine ⟨by simp [Timeline.undo]; omega, holder.2, ?_, ?_, ?_⟩
    · have hdrop : history.drop (target + 1) = history[target + 1] :: history.drop (target + 1 + 1) :=
        List.drop_eq_getElem_cons hlt
      rw [hdrop, List.map_cons, h.newer, Timeline.future_undo]
      simp [holder.1]
    · intro hlength
      refine h.root ?_
      simp only [Timeline.undo] at hlength
      simp [hlength]
    · intro hzero
      have := hretained hzero
      simp only [Timeline.undo]
      exact List.length_eq_zero_iff.mp (by omega)

include h in
/-- Assumes: a chain that stands for a timeline and has a snapshot after the cursor. The chain one
position further stands for the timeline after its redo. -/
theorem represents_redo
    (hlt : index + 1 < history.length) : Represents history (index + 1) timeline.redo := by
  have hentry : history[index + 1]? = some history[index + 1] := List.getElem?_eq_getElem hlt
  have hdrop : history.drop (index + 1) = history[index + 1] :: history.drop (index + 1 + 1) :=
    List.drop_eq_getElem_cons hlt
  have hbound := h.bound
  have hnewer := h.newer
  rw [hdrop, List.map_cons] at hnewer
  obtain ⟨start, past, future, hpast, hfuture⟩ := timeline
  cases future with
  | nil => simp at hnewer
  | cons action future =>
    rw [List.map_cons, List.cons_eq_cons] at hnewer
    refine ⟨by simp [Timeline.redo] at hbound ⊢; omega, ?_, hnewer.2, ?_, fun hzero ↦ by omega⟩
    · rw [tail_reverse_take_succ hentry, List.map_cons, h.older, hnewer.1]
      rfl
    · intro hlength
      refine h.root ?_
      simpa [Timeline.redo] using hlength

theorem tail_reverse_append {entries : List (MemoryHistoryEntry C)} (hne : entries ≠ [])
    (entry : MemoryHistoryEntry C) :
    (entries ++ [entry]).tail.reverse = entry :: entries.tail.reverse := by
  rw [List.tail_append_of_ne_nil hne, List.reverse_append]
  rfl

/-- A chain that ends at its cursor, with the new snapshot of a save, stands for a timeline.
Assumes: the snapshots before the new one stand for the older actions, and the new one for the most
recent action. -/
theorem represents_append {front : List (MemoryHistoryEntry C)} (hne : front ≠ [])
    {action : Action String C}
    {older : List (Action String C)} (hpast : timeline.past = action :: older)
    (hfuture : timeline.future = []) (hentry : entryView entry = actionView action)
    (hbound : front.length - 1 ≤ older.length)
    (hfront : front.tail.reverse.map entryView = (older.take (front.length - 1)).map actionView)
    (hroot : older.length = front.length - 1 →
      front.head?.map MemoryHistoryEntry.content = some timeline.start) :
    Represents (front ++ [entry]) front.length timeline := by
  have hlength : 0 < front.length := List.length_pos_of_ne_nil hne
  obtain ⟨count, hcount⟩ : ∃ count, front.length = count + 1 := ⟨front.length - 1, by omega⟩
  rw [hcount, Nat.add_one_sub_one] at hfront
  refine ⟨?_, ?_, ?_, ?_, fun hzero ↦ by omega⟩
  · rw [hpast, List.length_cons]
    omega
  · rw [List.take_of_length_le (by simp), tail_reverse_append hne, hpast, hcount,
      List.take_succ_cons, List.map_cons, List.map_cons, hentry, hfront]
  · rw [hfuture, List.drop_of_length_le (by simp)]
    rfl
  · intro hall
    rw [hpast, List.length_cons] at hall
    rw [List.head?_append_of_ne_nil _ hne]
    exact hroot (by omega)

include h in
/-- Assumes: a chain that stands for a timeline. After a save, the compacted chain up to the cursor
with the new snapshot stands for the timeline after the edit. -/
theorem represents_compactStep (hlt : index < history.length) (entry : MemoryHistoryEntry C) :
    let compacted := compactStep (history.take (index + 1)) entry
    Represents compacted (compacted.length - 1)
      (timeline.edit (historyGroup entry) entry.content) := by
  have htakeLength : (history.take (index + 1)).length = index + 1 := by
    rw [List.length_take]
    omega
  have htakeNe : history.take (index + 1) ≠ [] := List.ne_nil_of_length_pos (by omega)
  have hhead : (history.take (index + 1)).head? = history.head? := by
    rw [List.head?_take, if_neg (by omega)]
  have hentryAt : history[index]? = some history[index] := List.getElem?_eq_getElem hlt
  have hlast : (history.take (index + 1)).getLast?.map historyGroup =
      some (historyGroup history[index]) := by
    rw [List.getLast?_eq_getElem?, htakeLength, Nat.add_one_sub_one,
      List.getElem?_take_of_lt (by omega), hentryAt]
    rfl
  have hfuture := Timeline.future_edit timeline (historyGroup entry) entry.content
  have hstart := Timeline.start_edit timeline (historyGroup entry) entry.content
  have hpastEdit := Timeline.past_edit timeline (historyGroup entry) entry.content
  have hcases : timeline.past = [] ∧ index = 0 ∨
      ∃ action older, timeline.past = action :: older ∧ 0 < index := by
    rcases Nat.eq_zero_or_pos index with hzero | hpos
    · exact Or.inl ⟨h.kept hzero, hzero⟩
    · have hbound := h.bound
      cases hpast : timeline.past with
      | nil =>
        rw [hpast, List.length_nil] at hbound
        omega
      | cons action older => exact Or.inr ⟨action, older, rfl, hpos⟩
  rcases hcases with ⟨hpast, rfl⟩ | ⟨action, older, hpast, hpos⟩
  · -- the cursor is on the root: the edit starts the first action
    rw [hpast] at hpastEdit
    have hstep : compactStep (history.take 1) entry = history.take 1 ++ [entry] := by
      unfold compactStep
      rw [if_neg (by rw [htakeLength]; omega)]
    simp only [Nat.zero_add, hstep, List.length_append, List.length_singleton,
      Nat.add_one_sub_one]
    refine represents_append htakeNe hpastEdit hfuture rfl (by rw [htakeLength]; simp) ?_ ?_
    · have holder := h.older
      rw [hpast] at holder
      simpa [htakeLength] using holder
    · intro _
      rw [hstart, hhead]
      exact h.root (by rw [hpast]; rfl)
  · rw [hpast] at hpastEdit
    obtain ⟨count, rfl⟩ : ∃ count, index = count + 1 := ⟨index - 1, by omega⟩
    have hbound := h.bound
    have holder := h.older
    rw [tail_reverse_take_succ hentryAt, hpast, List.take_succ_cons, List.map_cons, List.map_cons,
      List.cons_eq_cons] at holder
    rw [hpast, List.length_cons] at hbound
    have hgroup : historyGroup history[count + 1] = action.group := congrArg Prod.fst holder.1
    have hrootOlder : older.length = count → history.head?.map MemoryHistoryEntry.content =
        some timeline.start := fun hall ↦ h.root (by rw [hpast, List.length_cons, hall])
    by_cases hmerge : action.group = historyGroup entry
    · -- the edit extends the action the cursor is on
      simp only [if_pos hmerge] at hpastEdit
      have hdropLast : (history.take (count + 1 + 1)).dropLast = history.take (count + 1) := by
        rw [List.dropLast_eq_take, htakeLength, List.take_take]
        congr 1
        omega
      have hstep : compactStep (history.take (count + 1 + 1)) entry =
          history.take (count + 1) ++ [entry] := by
        unfold compactStep
        rw [if_pos ⟨by omega, by rw [hlast, hgroup, hmerge]⟩, hdropLast]
      have hfrontLength : (history.take (count + 1)).length = count + 1 := by
        rw [List.length_take]
        omega
      simp only [hstep, List.length_append, List.length_singleton, Nat.add_one_sub_one]
      refine represents_append (List.ne_nil_of_length_pos (by omega)) hpastEdit hfuture
        (by simp [entryView, actionView, hmerge]) (by omega) ?_ ?_
      · rw [hfrontLength, Nat.add_one_sub_one]
        exact holder.2
      · rw [hfrontLength, Nat.add_one_sub_one, hstart, List.head?_take, if_neg (by omega)]
        exact hrootOlder
    · -- the edit starts a new action after the one the cursor is on
      simp only [if_neg hmerge] at hpastEdit
      have hstep : compactStep (history.take (count + 1 + 1)) entry =
          history.take (count + 1 + 1) ++ [entry] := by
        unfold compactStep
        rw [if_neg]
        rintro ⟨-, hsame⟩
        rw [hlast, hgroup] at hsame
        exact hmerge (Option.some.inj hsame)
      simp only [hstep, List.length_append, List.length_singleton, Nat.add_one_sub_one]
      refine represents_append htakeNe hpastEdit hfuture rfl ?_ ?_ ?_
      · rw [htakeLength, List.length_cons]
        omega
      · rw [htakeLength, Nat.add_one_sub_one, ← hpast]
        exact h.older
      · rw [htakeLength, Nat.add_one_sub_one, hstart, hhead, List.length_cons]
        intro hall
        exact hrootOlder (by omega)

/-- Assumes: a chain that ends at its cursor and stands for a timeline. Its root with a suffix of
it stands for the same timeline, which then holds actions the chain has discarded. -/
theorem represents_rootAndDrop {entries : List (MemoryHistoryEntry C)}
    (h : Represents entries (entries.length - 1) timeline)
    {boundary : ℕ} (hpos : 0 < boundary) (hlt : boundary < entries.length) :
    Represents (entries.take 1 ++ entries.drop boundary)
      ((entries.take 1 ++ entries.drop boundary).length - 1) timeline := by
  obtain ⟨root, rest, rfl⟩ : ∃ root rest, entries = root :: rest := by
    cases entries with
    | nil => simp at hlt
    | cons root rest => exact ⟨root, rest, rfl⟩
  obtain ⟨skipped, rfl⟩ : ∃ skipped, boundary = skipped + 1 := ⟨boundary - 1, by omega⟩
  have hbound := h.bound
  have holder := h.older
  have hnewer := h.newer
  simp only [List.length_cons, Nat.add_one_sub_one] at hbound hlt
  rw [List.length_cons, Nat.add_one_sub_one, List.take_of_length_le (by simp), List.tail_cons]
    at holder
  have hchain : (root :: rest).take 1 ++ (root :: rest).drop (skipped + 1) =
      root :: rest.drop skipped := by simp
  rw [hchain, List.length_cons, Nat.add_one_sub_one, List.length_drop]
  refine ⟨by omega, ?_, ?_, ?_, fun hzero ↦ by omega⟩
  · rw [List.take_of_length_le (by simp), List.tail_cons, List.reverse_drop, List.map_take, holder,
      ← List.map_take, List.take_take]
    congr 2
    omega
  · rw [List.drop_of_length_le (by simp)]
    rw [List.drop_of_length_le (by simp)] at hnewer
    exact hnewer
  · intro hall
    have hsame : skipped = 0 := by omega
    have hroot := h.root (by simp only [List.length_cons, Nat.add_one_sub_one]; omega)
    simpa using hroot

include h in
/-- Assumes: a chain that stands for a timeline. Relinking its parents changes nothing. -/
theorem Represents.relink :
    Represents (DesignRepository.relink none history) index timeline := by
  have hview := map_relink (C := C) entryView (fun _ _ ↦ rfl) history none
  have hcontent := map_relink (C := C) MemoryHistoryEntry.content (fun _ _ ↦ rfl) history none
  refine ⟨h.bound, ?_, ?_, ?_, h.kept⟩
  · rw [List.map_reverse, List.map_tail, List.map_take, hview, ← List.map_take, ← List.map_tail,
      ← List.map_reverse]
    exact h.older
  · rw [List.map_drop, hview, ← List.map_drop]
    exact h.newer
  · intro hall
    rw [← List.head?_map, hcontent, List.head?_map]
    exact h.root hall

include h in
/-- Assumes: a compact chain that stands for a timeline. What retention keeps of the chain up to the
cursor with the new snapshot of a save stands for the timeline after the edit. -/
theorem represents_save
    (hcompact : Compact history) (hlt : index < history.length) (entry : MemoryHistoryEntry C)
    (limit : ℕ) :
    let retained := relink none (retainedHistoryEntries (history.take (index + 1) ++ [entry]) limit)
    Represents retained (retained.length - 1)
      (timeline.edit (historyGroup entry) entry.content) := by
  have hne : history.take (index + 1) ≠ [] :=
    List.ne_nil_of_length_pos (by rw [List.length_take]; omega)
  have hstep := represents_compactStep h hlt entry
  have hretained := retainedHistoryEntries_of_compact hne (hcompact.take (index + 1)) entry limit
  intro retained
  simp only [retained, length_relink]
  refine Represents.relink ?_
  rw [hretained]
  dsimp only
  split_ifs with hzero
  · exact hstep
  · exact represents_rootAndDrop hstep (Nat.pos_of_ne_zero hzero) (by omega)

/-! ### The relation over whole runs -/

section Runs

variable {rules : ContentRules C}

/-- What a run keeps between a repository and the timeline of a workspace: nothing has happened on
either, or the chain of the workspace stands for the timeline. -/
def Tracks (rules : ContentRules C) (key : String × String) (repository : DesignRepository C)
    (timeline : Timeline String C) : Prop :=
  (Untouched (repository.workspaces key) ∧ timeline = Timeline.fresh rules.empty) ∨
    ∃ index entry, Charted rules (repository.workspaces key) repository.nextHistoryId index entry ∧
      Represents (repository.workspaces key).history index timeline

theorem represents_fresh (root : MemoryHistoryEntry C) :
    Represents [root] 0 (Timeline.fresh root.content) :=
  ⟨Nat.le_refl _, rfl, rfl, fun _ ↦ rfl, fun _ ↦ rfl⟩

/-- Assumes: a repository that tracks a timeline. A change of other workspaces keeps it. -/
theorem Tracks.of_sameElsewhere {other : String × String} {before after : DesignRepository C}
    (h : Tracks rules key before timeline) (hne : other ≠ key)
    (hsame : SameElsewhere other before after) : Tracks rules key after timeline := by
  have hworkspace := hsame.others key (Ne.symm hne)
  unfold Tracks
  simp only [hworkspace]
  rcases h with huntouched | ⟨index, entry, hcharted, hrepresents⟩
  · exact Or.inl huntouched
  · exact Or.inr ⟨index, entry, hcharted.mono hsame.next, hrepresents⟩

/-- Assumes: a well formed repository that tracks a timeline. Ensuring the history of the workspace
charts it, with a chain that stands for the timeline. -/
theorem Tracks.ensureHistory (hwellFormed : WellFormed rules repository)
    (h : Tracks rules key repository timeline) :
    let ensured := repository.ensureHistory key (currentDesign rules (repository.workspaces key))
    ∃ index entry, Charted rules (ensured.workspaces key) ensured.nextHistoryId index entry ∧
      Represents (ensured.workspaces key).history index timeline := by
  intro ensured
  obtain ⟨-, -, ⟨index, entry, hcharted⟩, hunchanged, hroot⟩ := ensureHistory_spec hwellFormed key
  rcases h with ⟨huntouched, rfl⟩ | ⟨index, entry, hcharted, hrepresents⟩
  · obtain ⟨root, hhistory, hcontent⟩ := hroot huntouched
    have hlt := (List.getElem?_eq_some_iff.mp hcharted.cursor).1
    rw [hhistory, List.length_singleton] at hlt
    obtain rfl : index = 0 := by omega
    refine ⟨0, entry, hcharted, ?_⟩
    simp only [ensured, hhistory, ← hcontent]
    exact represents_fresh root
  · obtain ⟨tip, -, hstate⟩ := hcharted.state
    have hensured : ensured = repository := hunchanged (by simp [hstate])
    rw [hensured]
    exact ⟨index, entry, hcharted, hrepresents⟩

/-- Assumes: a well formed repository that tracks a timeline. A save on the workspace keeps track,
with the save made on the timeline when it was granted as a new revision. -/
theorem tracks_replace (hwellFormed : WellFormed rules repository)
    (h : Tracks rules key repository timeline) (limit : ℕ) (blocked : Bool)
    (request : DesignReplace C) (operationKind : OperationKind) :
    Tracks rules key (replace rules limit repository key blocked request operationKind).2
      (trackedTimeline rules limit key repository timeline
        (.replace key blocked request operationKind)) := by
  obtain ⟨index, cursor, hcharted, hrepresents⟩ := h.ensureHistory hwellFormed
  have hensured : Tracks rules key (repository.ensureHistory key
      (currentDesign rules (repository.workspaces key))) timeline :=
    Or.inr ⟨index, cursor, hcharted, hrepresents⟩
  simp only [trackedTimeline, true_and]
  rcases replace_cases rules limit repository key blocked request operationKind with
    ⟨error, houtcome⟩ | ⟨error, houtcome⟩ | ⟨-, houtcome⟩ |
    ⟨-, hvalid, cursorId, tip, hstate, houtcome⟩
  · simpa [houtcome, grantedRevision] using h
  · simpa [houtcome, grantedRevision] using hensured
  · simpa [houtcome, grantedRevision] using hensured
  · obtain ⟨tipEntry, -, hcursor⟩ := hcharted.state
    rw [hstate] at hcursor
    obtain ⟨rfl, -⟩ := Prod.mk.inj (Option.some.inj hcursor)
    obtain ⟨after, hafter, hsaved, hnext, hsavedDesign, hsavedState, hhistory⟩ :=
      commitReplace_spec hcharted limit request operationKind
        (currentDesign rules (repository.workspaces key))
    have hlt := (List.getElem?_eq_some_iff.mp hcharted.cursor).1
    obtain ⟨last, -, -, -, -, hlast⟩ := charted_save hcharted rfl hvalid limit hhistory hsavedState
      (by simp [currentDesign, hsavedDesign])
    rw [houtcome, hafter]
    simp only [grantedRevision, ne_eq, Nat.add_eq_left, Nat.one_ne_zero, not_false_eq_true,
      decide_true, if_true]
    refine Or.inr ⟨_, last, hnext ▸ hlast, ?_⟩
    have hsave := represents_save hrepresents hcharted.compact hlt
      ⟨(repository.ensureHistory key
        (currentDesign rules (repository.workspaces key))).nextHistoryId, some cursor.id,
        (currentDesign rules (repository.workspaces key)).revision + 1, operationKind,
        request.historyGroupId, request.content⟩ limit
    simp only [hhistory]
    exact hsave

/-- The timeline after a move in a direction. -/
def moveTimeline (timeline : Timeline String C) : HistoryAction → Timeline String C
  | .undo => timeline.undo
  | .redo => timeline.redo

/-- Assumes: a well formed repository that tracks a timeline, and an undo within the retained
actions. A move on the workspace keeps track, with the move made on the timeline when it was
granted. -/
theorem tracks_moveHistory (hwellFormed : WellFormed rules repository)
    (h : Tracks rules key repository timeline) (blocked : Bool) (revision : ℕ)
    (action : HistoryAction)
    (hretained : action = .undo → ∀ entries,
      activeChain (repository.workspaces key) = some (entries, 1) → timeline.past.length ≤ 1) :
    let outcome := moveHistory rules repository key blocked revision action
    Tracks rules key outcome.2
      (if grantedRevision (currentDesign rules (repository.workspaces key)) outcome.1 then
        moveTimeline timeline action
      else timeline) := by
  intro outcome
  have hensured : Tracks rules key (repository.ensureHistory key
      (currentDesign rules (repository.workspaces key))) timeline :=
    Or.inr (h.ensureHistory hwellFormed)
  rcases moveHistory_cases hwellFormed key blocked revision action with
    ⟨error, houtcome⟩ | ⟨error, houtcome⟩ |
    ⟨-, -, index, cursor, tip, target, entry, hcharted, htip, hstate, htarget, hentry, houtcome⟩
  · simpa [outcome, houtcome, grantedRevision] using h
  · simpa [outcome, houtcome, grantedRevision] using hensured
  · obtain ⟨after, hafter, hsame, hnext, hdesign, hmoved, hhistory⟩ :=
      commitMove_spec rules repository key
        (currentDesign rules (repository.workspaces key)) entry tip.id
    have hlt := (List.getElem?_eq_some_iff.mp hcharted.cursor).1
    obtain ⟨htargetLt, hboundary, hdirection⟩ := moveTarget_spec hlt htarget
    have hchain := activeChain_eq hcharted
    have hrepresents : Represents (repository.workspaces key).history index timeline := by
      rcases h with ⟨huntouched, -⟩ | ⟨other, otherEntry, hother, hrepresents⟩
      · rw [huntouched.state] at hstate
        exact nomatch hstate
      · rw [activeChain_eq hother] at hchain
        obtain rfl : other = index := (Prod.mk.inj (Option.some.inj hchain)).2
        exact hrepresents
    simp only [outcome, houtcome, hafter, grantedRevision, ne_eq, Nat.add_eq_left, Nat.one_ne_zero,
      not_false_eq_true, decide_true, if_true]
    refine Or.inr ⟨target, entry, hnext ▸ charted_move hcharted hentry
      (hboundary hcharted.boundary) hhistory ⟨tip, htip, hmoved⟩
      (by simp [currentDesign, hdesign]), ?_⟩
    simp only [hhistory]
    rcases hdirection with ⟨rfl, rfl⟩ | ⟨rfl, rfl⟩
    · refine represents_undo hrepresents hlt fun hzero ↦ ?_
      subst hzero
      exact hretained rfl _ hchain
    · exact represents_redo hrepresents htargetLt

/-- Assumes: a well formed repository. A request changes only the workspace it names. -/
theorem sameElsewhere_step (h : WellFormed rules repository)
    (limit : ℕ) (request : DesignRequest C) :
    SameElsewhere request.key repository (step rules limit repository request) := by
  have hensured := fun key ↦ (ensureHistory_spec h key).1
  have hmove : ∀ key blocked revision action,
      SameElsewhere key repository (moveHistory rules repository key blocked revision action).2 := by
    intro key blocked revision action
    rcases moveHistory_cases h key blocked revision action with
      ⟨error, houtcome⟩ | ⟨error, houtcome⟩ |
      ⟨-, -, index, cursor, tip, target, entry, -, -, -, -, -, houtcome⟩
    · rw [houtcome]
      exact ⟨fun _ _ ↦ rfl, Nat.le_refl _⟩
    · rw [houtcome]
      exact hensured key
    · obtain ⟨after, hafter, hsame, -⟩ := commitMove_spec rules repository key
        (currentDesign rules (repository.workspaces key)) entry tip.id
      rw [houtcome, hafter]
      exact hsame
  cases request with
  | undo key blocked revision => exact hmove key blocked revision .undo
  | redo key blocked revision => exact hmove key blocked revision .redo
  | replaceLayout key request =>
    simp only [step, replaceLayout, DesignRequest.key]
    split_ifs with hstale
    · exact ⟨fun _ _ ↦ rfl, Nat.le_refl _⟩
    · split
      · exact ⟨fun _ _ ↦ rfl, Nat.le_refl _⟩
      · exact ⟨fun other hne ↦ setWorkspace_of_ne _ hne _, Nat.le_refl _⟩
  | replace key blocked request operationKind =>
    simp only [step, DesignRequest.key]
    rcases replace_cases rules limit repository key blocked request operationKind with
      ⟨error, houtcome⟩ | ⟨error, houtcome⟩ | ⟨-, houtcome⟩ |
      ⟨-, -, cursorId, tip, hstate, houtcome⟩
    · rw [houtcome]
      exact ⟨fun _ _ ↦ rfl, Nat.le_refl _⟩
    · rw [houtcome]
      exact hensured key
    · rw [houtcome]
      exact hensured key
    · obtain ⟨-, -, ⟨index, cursor, hcharted⟩, -, -⟩ := ensureHistory_spec h key
      obtain ⟨tipEntry, -, hcursor⟩ := hcharted.state
      rw [hstate] at hcursor
      obtain ⟨rfl, -⟩ := Prod.mk.inj (Option.some.inj hcursor)
      obtain ⟨after, hafter, hsaved, -⟩ := commitReplace_spec hcharted limit request operationKind
        (currentDesign rules (repository.workspaces key))
      rw [houtcome, hafter]
      exact ⟨fun other hne ↦ (hsaved.others other hne).trans ((hensured key).others other hne),
        Nat.le_trans (hensured key).next hsaved.next⟩

/-- Assumes: a well formed repository that tracks a timeline, and a request within the retained
actions. The request keeps track. -/
theorem tracks_trackedStep (hwellFormed : WellFormed rules repository)
    (h : Tracks rules key repository timeline) (limit : ℕ) (request : DesignRequest C)
    (hretained : UndoWithinRetained key (repository, timeline) request) :
    Tracks rules key (step rules limit repository request)
      (trackedTimeline rules limit key repository timeline request) := by
  by_cases hkey : request.key = key
  · subst hkey
    cases request with
    | replace key blocked request operationKind =>
      exact tracks_replace hwellFormed h limit blocked request operationKind
    | undo key blocked revision =>
      have hmove := tracks_moveHistory hwellFormed h blocked revision .undo
        fun _ ↦ hretained rfl
      simp only [trackedTimeline, DesignRequest.key, true_and]
      exact hmove
    | redo key blocked revision =>
      have hmove := tracks_moveHistory hwellFormed h blocked revision .redo
        (by rintro ⟨⟩)
      simp only [trackedTimeline, DesignRequest.key, true_and]
      exact hmove
    | replaceLayout key request =>
      simp only [step, replaceLayout, trackedTimeline]
      split_ifs with hstale
      · exact h
      · split
        · exact h
        · unfold Tracks
          simp only [DesignRequest.key, setWorkspace_self, setWorkspace_nextHistoryId]
          rcases h with ⟨huntouched, hfresh⟩ | ⟨index, entry, hcharted, hrepresents⟩
          · exact Or.inl ⟨⟨huntouched.design, huntouched.history, huntouched.state⟩, hfresh⟩
          · exact Or.inr ⟨index, entry, hcharted.withLayout _ _, hrepresents⟩
  · have htimeline : trackedTimeline rules limit key repository timeline request = timeline := by
      cases request <;> simp only [DesignRequest.key] at hkey <;> simp [trackedTimeline, hkey]
    rw [htimeline]
    exact h.of_sameElsewhere hkey (sameElsewhere_step hwellFormed limit request)

theorem tracks_seeded (rules : ContentRules C) (key : String × String)
    (seeds : List (DesignSeed C)) :
    Tracks rules key (seeded rules seeds)
      (Timeline.fresh (currentDesign rules ((seeded rules seeds).workspaces key)).content) := by
  rcases created_seeded rules seeds key with huntouched | ⟨-, root, hhistory, hcharted⟩
  · refine Or.inl ⟨huntouched, ?_⟩
    rw [currentDesign, huntouched.design]
    rfl
  · refine Or.inr ⟨0, root, hcharted, ?_⟩
    rw [hhistory, hcharted.content]
    exact represents_fresh root

theorem tracked_fst (rules : ContentRules C) (limit : ℕ) (key : String × String)
    (seeds : List (DesignSeed C)) (requests : List (DesignRequest C)) :
    (tracked rules limit key seeds requests).1 = run rules limit seeds requests := by
  induction requests using List.reverseRecOn with
  | nil => rfl
  | append_singleton requests request ih =>
    simp only [tracked, run, List.foldl_append, List.foldl_cons, List.foldl_nil] at ih ⊢
    rw [trackedStep, ih]

theorem tracks_tracked {limit : ℕ} {seeds : List (DesignSeed C)}
    {requests : List (DesignRequest C)} (h : RunWithinRetained rules limit key seeds requests) :
    Tracks rules key (run rules limit seeds requests)
      (tracked rules limit key seeds requests).2 := by
  induction requests using List.reverseRecOn with
  | nil => exact tracks_seeded rules key seeds
  | append_singleton requests request ih =>
    have hearlier : RunWithinRetained rules limit key seeds requests := by
      intro done next rest hsplit
      exact h done next (rest ++ [request]) (by rw [hsplit]; simp)
    have hretained := h requests request [] rfl
    have hstep := tracks_trackedStep (wellFormed_run limit seeds requests) (ih hearlier) limit
      request
    simp only [tracked, run, List.foldl_append, List.foldl_cons, List.foldl_nil] at hstep ⊢
    simp only [trackedStep]
    have hfst := tracked_fst rules limit key seeds requests
    simp only [tracked, run] at hfst
    rw [hfst]
    refine hstep ?_
    rw [← hfst]
    exact hretained

end Runs

/-- Rules that accept every text. -/
def plainRules : ContentRules String where
  empty := ""
  validateDesignContent := fun _ ↦ none
  validateDesignTransition := fun _ _ ↦ none
  designFingerprint := id
  designObjectLayer := fun _ _ ↦ none
  empty_valid := rfl

/-- A save of a text as an action of its own, against a revision. -/
def plainEdit (revision : ℕ) (content : String) : DesignRequest String :=
  .replace ("owner", "workspace") false ⟨revision, content, none⟩ .edit

end Schemii.Designs
