import Schemii.Designs.HistoryTimeline

/-!
# Whether a move crosses the baseline

`_history_state` of `designs/store.py` finds the snapshot of the current baseline by the revision of
the design that the baseline was recorded at. A snapshot has the revision that saved it, and an undo or
a redo makes a new revision of the design without a snapshot. So a baseline that is recorded after one
is not found, and no move is reported to cross it.

`Revises` says what a request does to the snapshots of a workspace; from it come the order of their
revisions along the chain (`Dated`) and what becomes of the revision of a baseline (`Anchored`).
`crossings_right_iff` is when the reported crossings are right, in every run.
-/

set_option autoImplicit false

namespace Schemii.Designs

open DesignRepository

variable {C D : Type}

/-! ### The state of the history -/

/-- `DesignHistoryBaseline`, without the texts that name it. -/
structure DesignHistoryBaseline where
  designRevision : ℕ
  fingerprint : String
  complete : Bool

/-- `DesignHistoryAction`. -/
structure DesignHistoryAction (D : Type) where
  title : String
  changeCount : ℕ
  crossesBaseline : Bool
  delta : D

/-- `DesignHistoryState`. -/
structure DesignHistoryState (D : Type) where
  designRevision : ℕ
  canUndo : Bool
  canRedo : Bool
  undo : Option (DesignHistoryAction D)
  redo : Option (DesignHistoryAction D)
  baseline : DesignHistoryBaseline
  canResetToBaseline : Bool
  resetBlockedReason : Option String

/-- What is said of the difference of two contents: `design_change_summary`, and `json_delta` of their
documents. -/
structure ChangeSummaries (C D : Type) where
  designChangeSummary : C → C → String × ℕ
  jsonDelta : C → C → D

/-- The snapshot of a baseline. -/
def baselineIndex (entries : List (MemoryHistoryEntry C)) (baseline : DesignHistoryBaseline) :
    Option ℕ :=
  entries.findIdx? fun entry ↦ entry.sourceDesignRevision = baseline.designRevision

/-- A move between two positions goes over a third one. -/
def Crosses (cursorIndex targetIndex index : ℕ) : HistoryAction → Prop
  | .undo => targetIndex < index ∧ index ≤ cursorIndex
  | .redo => cursorIndex < index ∧ index ≤ targetIndex

instance (cursorIndex targetIndex index : ℕ) (direction : HistoryAction) :
    Decidable (Crosses cursorIndex targetIndex index direction) := by
  cases direction <;> exact instDecidableAnd

/-- `action` of `_history_state`. -/
def historyAction (summaries : ChangeSummaries C D) (entries : List (MemoryHistoryEntry C))
    (cursorIndex : ℕ) (baseline : DesignHistoryBaseline) (direction : HistoryAction) :
    Option (DesignHistoryAction D) := do
  let targetIndex ← historyTargetIndex entries cursorIndex direction
  let cursor ← entries[cursorIndex]?
  let target ← entries[targetIndex]?
  let (before, after) :=
    match direction with
    | .undo => (target, cursor)
    | .redo => (cursor, target)
  let (title, changeCount) := summaries.designChangeSummary before.content after.content
  return ⟨title, max 1 changeCount,
    (baselineIndex entries baseline).any fun index ↦ Crosses cursorIndex targetIndex index direction,
    summaries.jsonDelta cursor.content target.content⟩

/-- `_history_state`. -/
def historyState (summaries : ChangeSummaries C D) (design : Design C)
    (entries : List (MemoryHistoryEntry C)) (cursorIndex : ℕ) (baseline : DesignHistoryBaseline) :
    DesignHistoryState D where
  designRevision := design.revision
  canUndo := (historyTargetIndex entries cursorIndex .undo).isSome
  canRedo := (historyTargetIndex entries cursorIndex .redo).isSome
  undo := historyAction summaries entries cursorIndex baseline .undo
  redo := historyAction summaries entries cursorIndex baseline .redo
  baseline := baseline
  canResetToBaseline := baseline.complete && design.fingerprint != baseline.fingerprint
  resetBlockedReason :=
    if baseline.complete then none
    else some
      "The current PostgreSQL baseline is incomplete and cannot be restored losslessly."

/-- The chain that `history_state` reads: the history is ensured before. -/
def chainAt (rules : ContentRules C) (repository : DesignRepository C) (key : String × String) :
    Option (List (MemoryHistoryEntry C) × ℕ) :=
  activeChain ((repository.ensureHistory key
    (currentDesign rules (repository.workspaces key))).workspaces key)

/-- The snapshot that is current. -/
def currentSnapshot (rules : ContentRules C) (repository : DesignRepository C)
    (key : String × String) : Option (MemoryHistoryEntry C) := do
  let (entries, cursorIndex) ← chainAt rules repository key
  entries[cursorIndex]?

/-! ### What a request does to the snapshots -/

section Snapshots

variable {rules : ContentRules C} {before after : WorkspaceDesign C}

/-- The revision of the design of a workspace. -/
def designRevision (rules : ContentRules C) (workspace : WorkspaceDesign C) : ℕ :=
  (currentDesign rules workspace).revision

/-- The revisions of the snapshots of a workspace. -/
def snapshotRevisions (workspace : WorkspaceDesign C) : List ℕ :=
  workspace.history.map MemoryHistoryEntry.sourceDesignRevision

/-- What a request does to a workspace: nothing to its design and its snapshots, a first snapshot of
the design, a new revision with its snapshot, of which retention may drop others, or a new revision
without one. -/
inductive Revises (rules : ContentRules C) (before after : WorkspaceDesign C) : Prop
  | quiet (hhistory : after.history = before.history)
      (hstate : after.historyState = before.historyState)
      (hrevision : designRevision rules after = designRevision rules before)
  | rooted (root : MemoryHistoryEntry C) (hempty : before.history = [])
      (hhistory : after.history = [root])
      (hstate : after.historyState = some (root.id, root.id))
      (hrevision : designRevision rules after = designRevision rules before)
      (hroot : root.sourceDesignRevision = designRevision rules before)
  | saved (entry : MemoryHistoryEntry C) (kept : List (MemoryHistoryEntry C))
      (hhistory : after.history = relink none kept)
      (hkept : kept.Sublist (before.history ++ [entry]))
      (hstate : after.historyState = some (entry.id, entry.id))
      (hrevision : designRevision rules after = designRevision rules before + 1)
      (hentry : entry.sourceDesignRevision = designRevision rules before + 1)
  | moved (hhistory : after.history = before.history)
      (hrevision : designRevision rules after = designRevision rules before + 1)

theorem snapshotRevisions_saved {entry : MemoryHistoryEntry C} {kept : List (MemoryHistoryEntry C)}
    (hhistory : after.history = relink none kept) (hkept : kept.Sublist (before.history ++ [entry])) :
    (snapshotRevisions after).Sublist (snapshotRevisions before ++ [entry.sourceDesignRevision]) := by
  have hmap := hkept.map MemoryHistoryEntry.sourceDesignRevision
  rw [List.map_append, List.map_singleton] at hmap
  rwa [snapshotRevisions, hhistory, map_relink MemoryHistoryEntry.sourceDesignRevision fun _ _ ↦ rfl]

/-- The snapshots of a chain have rising revisions, none later than the design, and the one of the
revision of the design is current. -/
structure Dated (rules : ContentRules C) (workspace : WorkspaceDesign C) : Prop where
  rising : (snapshotRevisions workspace).Pairwise (· < ·)
  past : ∀ revision ∈ snapshotRevisions workspace, revision ≤ designRevision rules workspace
  newest : ∀ entry ∈ workspace.history, entry.sourceDesignRevision = designRevision rules workspace →
    ∃ tip, workspace.historyState = some (entry.id, tip)

theorem Dated.revises (h : Dated rules before) (hrevises : Revises rules before after) :
    Dated rules after := by
  cases hrevises with
  | quiet hhistory hstate hrevision =>
    exact ⟨by rw [snapshotRevisions, hhistory]; exact h.rising,
      by rw [snapshotRevisions, hhistory, hrevision]; exact h.past,
      by rw [hhistory, hstate, hrevision]; exact h.newest⟩
  | rooted root _ hhistory hstate hrevision hroot =>
    refine ⟨?_, ?_, fun entry hmem _ ↦ ?_⟩
    · simp [snapshotRevisions, hhistory]
    · simp [snapshotRevisions, hhistory, hrevision, hroot]
    · rw [hhistory, List.mem_singleton] at hmem
      exact ⟨root.id, hmem ▸ hstate⟩
  | saved entry kept hhistory hkept hstate hrevision hentry =>
    have hsublist := snapshotRevisions_saved hhistory hkept
    have hbelow : ∀ revision ∈ snapshotRevisions before, revision < entry.sourceDesignRevision :=
      fun revision hmem ↦ by have hpast := h.past revision hmem; omega
    refine ⟨?_, fun revision hmem ↦ ?_, fun other hmem hsource ↦ ?_⟩
    · refine List.Pairwise.sublist hsublist (List.pairwise_append.mpr ⟨h.rising,
        List.pairwise_singleton _ _, fun revision hmem last hlast ↦ ?_⟩)
      rw [List.mem_singleton.mp hlast]
      exact hbelow revision hmem
    · rcases List.mem_append.mp (hsublist.subset hmem) with hold | hnew
      · have hpast := h.past revision hold
        omega
      · rw [List.mem_singleton.mp hnew, hentry, hrevision]
    · -- only the new snapshot has the new revision
      have hpair : (other.id, other.sourceDesignRevision) ∈
          kept.map fun entry ↦ (entry.id, entry.sourceDesignRevision) := by
        rw [← map_relink (fun entry ↦ (entry.id, entry.sourceDesignRevision)) (fun _ _ ↦ rfl) kept none,
          ← hhistory]
        exact List.mem_map_of_mem hmem
      obtain ⟨old, hold, hsame⟩ := List.mem_map.mp hpair
      obtain ⟨hid, hrevisions⟩ := Prod.mk.inj hsame
      rcases List.mem_append.mp (hkept.subset hold) with hbefore | hnew
      · have hless := hbelow _ (List.mem_map_of_mem hbefore)
        omega
      · rw [List.mem_singleton.mp hnew] at hid
        exact ⟨entry.id, hid ▸ hstate⟩
  | moved hhistory hrevision =>
    refine ⟨by rw [snapshotRevisions, hhistory]; exact h.rising, fun revision hmem ↦ ?_,
      fun entry hmem hsource ↦ ?_⟩
    · rw [snapshotRevisions, hhistory] at hmem
      have hpast := h.past revision hmem
      omega
    · rw [hhistory] at hmem
      have hpast := h.past _ (List.mem_map_of_mem hmem)
      omega

/-- After a baseline was recorded at a revision, with another snapshot current, no snapshot has that
revision, nor will a first one. -/
structure Anchored (rules : ContentRules C) (recorded snapshot : ℕ) (workspace : WorkspaceDesign C) :
    Prop where
  past : recorded ≤ designRevision rules workspace
  unsaved : workspace.history = [] → designRevision rules workspace = recorded → recorded = snapshot
  found : recorded ∈ snapshotRevisions workspace → recorded = snapshot

theorem Anchored.revises {recorded snapshot : ℕ} (h : Anchored rules recorded snapshot before)
    (hrevises : Revises rules before after) : Anchored rules recorded snapshot after := by
  have hpast := h.past
  cases hrevises with
  | quiet hhistory hstate hrevision =>
    exact ⟨hrevision ▸ hpast, by rw [hhistory, hrevision]; exact h.unsaved,
      by rw [snapshotRevisions, hhistory]; exact h.found⟩
  | rooted root hempty hhistory hstate hrevision hroot =>
    refine ⟨hrevision ▸ hpast, fun hnone ↦ ?_, fun hmem ↦ ?_⟩
    · rw [hhistory] at hnone
      exact absurd hnone (List.cons_ne_nil _ _)
    · rw [snapshotRevisions, hhistory, List.map_singleton, List.mem_singleton, hroot] at hmem
      exact h.unsaved hempty hmem.symm
  | saved entry kept hhistory hkept hstate hrevision hentry =>
    refine ⟨by omega, fun _ hsame ↦ by omega, fun hmem ↦ ?_⟩
    rcases List.mem_append.mp ((snapshotRevisions_saved hhistory hkept).subset hmem) with hold | hnew
    · exact h.found hold
    · rw [List.mem_singleton] at hnew
      omega
  | moved hhistory hrevision =>
    refine ⟨by omega, fun _ hsame ↦ by omega, ?_⟩
    rw [snapshotRevisions, hhistory]
    exact h.found

end Snapshots

/-! ### Runs -/

section Runs

variable {rules : ContentRules C} {repository : DesignRepository C}
  (h : WellFormed rules repository)

include h in
theorem revises_ensureHistory (key : String × String) :
    Revises rules (repository.workspaces key) ((repository.ensureHistory key
      (currentDesign rules (repository.workspaces key))).workspaces key) := by
  rcases h key with huntouched | ⟨index, entry, hcharted⟩
  · have hstate : ¬ (repository.workspaces key).historyState.isSome = true := by
      simp [huntouched.state]
    refine .rooted ⟨repository.nextHistoryId, none, designRevision rules (repository.workspaces key),
      .initial, none, (currentDesign rules (repository.workspaces key)).content⟩ huntouched.history
      ?_ ?_ ?_ rfl
    · simp [ensureHistory, if_neg hstate, newHistoryEntry, setHistoryState, huntouched.history,
        designRevision]
    · simp [ensureHistory, if_neg hstate, newHistoryEntry, setHistoryState]
    · simp [ensureHistory, if_neg hstate, newHistoryEntry, setHistoryState, designRevision, currentDesign]
  · obtain ⟨tip, -, hstate⟩ := hcharted.state
    have hensured : repository.ensureHistory key (currentDesign rules (repository.workspaces key)) =
        repository := by
      simp only [ensureHistory, hstate, Option.isSome_some, if_true]
    rw [hensured]
    exact .quiet rfl rfl rfl

include h in
theorem revises_moveHistory (key : String × String)
    (blocked : Bool) (revision : ℕ) (action : HistoryAction) :
    Revises rules (repository.workspaces key)
      ((moveHistory rules repository key blocked revision action).2.workspaces key) := by
  rcases moveHistory_cases h key blocked revision action with
    ⟨error, houtcome⟩ | ⟨error, houtcome⟩ |
    ⟨-, -, index, cursor, tip, target, entry, -, -, -, -, -, houtcome⟩
  · rw [houtcome]
    exact .quiet rfl rfl rfl
  · rw [houtcome]
    exact revises_ensureHistory h key
  · obtain ⟨after, hafter, -, -, hdesign, -, hhistory⟩ := commitMove_spec rules repository key
      (currentDesign rules (repository.workspaces key)) entry tip.id
    rw [houtcome, hafter]
    exact .moved hhistory (by simp [designRevision, currentDesign, hdesign])

include h in
theorem revises_step (limit : ℕ) (request : DesignRequest C)
    (key : String × String) :
    Relation.ReflTransGen (Revises rules) (repository.workspaces key)
      ((step rules limit repository request).workspaces key) := by
  by_cases hkey : key = request.key
  · subst hkey
    cases request with
    | undo key blocked revision => exact .single (revises_moveHistory h key blocked revision .undo)
    | redo key blocked revision => exact .single (revises_moveHistory h key blocked revision .redo)
    | replaceLayout key request =>
      refine .single ?_
      simp only [step, replaceLayout, DesignRequest.key]
      split_ifs with hstale
      · exact .quiet rfl rfl rfl
      · split
        · exact .quiet rfl rfl rfl
        · exact .quiet (by simp) (by simp) (by simp [designRevision, currentDesign])
    | replace key blocked request operationKind =>
      have hensured := revises_ensureHistory h key
      simp only [step, DesignRequest.key]
      rcases replace_cases rules limit repository key blocked request operationKind with
        ⟨error, houtcome⟩ | ⟨error, houtcome⟩ | ⟨-, houtcome⟩ |
        ⟨-, -, cursorId, tip, hstate, houtcome⟩
      · rw [houtcome]
      · rw [houtcome]
        exact .single hensured
      · rw [houtcome]
        exact .single hensured
      · obtain ⟨-, hdesign, ⟨index, cursor, hcharted⟩, -, -⟩ := ensureHistory_spec h key
        obtain ⟨tipEntry, -, hcursor⟩ := hcharted.state
        rw [hstate] at hcursor
        obtain ⟨rfl, -⟩ := Prod.mk.inj (Option.some.inj hcursor)
        obtain ⟨after, hafter, -, -, hsaved, hsavedState, hhistory⟩ := commitReplace_spec hcharted
          limit request operationKind (currentDesign rules (repository.workspaces key))
        rw [houtcome, hafter]
        have hne : ((repository.ensureHistory key (currentDesign rules
            (repository.workspaces key))).workspaces key).history.take (index + 1) ≠ [] := by
          have hlt := (List.getElem?_eq_some_iff.mp hcharted.cursor).1
          exact List.ne_nil_of_length_pos (by rw [List.length_take]; omega)
        have hrevision : designRevision rules ((repository.ensureHistory key (currentDesign rules
            (repository.workspaces key))).workspaces key) =
              designRevision rules (repository.workspaces key) :=
          congrArg (fun design ↦ (design.getD ⟨0, rules.empty,
            rules.designFingerprint rules.empty⟩).revision) hdesign
        refine .tail (.single hensured) (.saved _ _ hhistory
          ((retainedHistoryEntries_spec hne (hcharted.compact.take (index + 1)) _ limit).1.trans
            ((List.take_sublist _ _).append (List.Sublist.refl _))) hsavedState ?_ ?_)
        · rw [hrevision]
          simp [designRevision, currentDesign, hsaved]
        · rw [hrevision]
          rfl
  · rw [(sameElsewhere_step h limit request).others key hkey]

/-- Every workspace of a repository has a property. -/
def Everywhere (p : WorkspaceDesign C → Prop) (repository : DesignRepository C) : Prop :=
  ∀ key, p (repository.workspaces key)

theorem foldl_step_of_revises {p : WorkspaceDesign C → Prop}
    (hp : ∀ before after, Revises rules before after → p before → p after) (limit : ℕ)
    (requests : List (DesignRequest C)) (h : WellFormed rules repository) (key : String × String)
    (hkey : p (repository.workspaces key)) :
    WellFormed rules (requests.foldl (step rules limit) repository) ∧
      p ((requests.foldl (step rules limit) repository).workspaces key) := by
  induction requests generalizing repository with
  | nil => exact ⟨h, hkey⟩
  | cons request rest ih =>
    refine ih (wellFormed_step h limit request) ?_
    have hrevises := revises_step h limit request key
    generalize (step rules limit repository request).workspaces key = later at hrevises
    induction hrevises with
    | refl => exact hkey
    | tail _ hlast hmiddle => exact hp _ _ hlast hmiddle

theorem dated_initializeDesign (hcreated : Created rules repository)
    (h : Everywhere (Dated rules) repository) (seed : DesignSeed C) :
    Everywhere (Dated rules)
      (initializeDesign rules repository seed.key seed.content seed.positions).2 := by
  intro key
  unfold initializeDesign
  split
  · exact h key
  split
  · exact h key
  split
  · exact h key
  next hdesign =>
    have huntouched : Untouched (repository.workspaces seed.key) := by
      rcases hcreated seed.key with huntouched | ⟨hsome, -⟩
      · exact huntouched
      · exact absurd hdesign hsome
    by_cases hkey : key = seed.key
    · subst hkey
      constructor
      · simp [snapshotRevisions, newHistoryEntry, setHistoryState, huntouched.history]
      · simp [snapshotRevisions, newHistoryEntry, setHistoryState, huntouched.history, designRevision,
          currentDesign]
      · simp [newHistoryEntry, setHistoryState, huntouched.history]
    · simpa [newHistoryEntry, setHistoryState, setWorkspace, hkey] using h key

theorem dated_seeded (rules : ContentRules C) (seeds : List (DesignSeed C)) :
    Everywhere (Dated rules) (seeded rules seeds) := by
  have hgeneral : ∀ (seeds : List (DesignSeed C)) (repository : DesignRepository C),
      Created rules repository → Everywhere (Dated rules) repository →
      Everywhere (Dated rules) (seeds.foldl (fun repository seed ↦
        (initializeDesign rules repository seed.key seed.content seed.positions).2) repository) := by
    intro seeds
    induction seeds with
    | nil => exact fun _ _ h ↦ h
    | cons seed rest ih =>
      intro repository hcreated h
      exact ih _ (created_initializeDesign hcreated seed) (dated_initializeDesign hcreated h seed)
  exact hgeneral seeds (init C) (fun _ ↦ Or.inl ⟨rfl, rfl, rfl⟩)
    fun _ ↦ ⟨List.Pairwise.nil, by simp [snapshotRevisions, init], by simp [init]⟩

theorem dated_run (rules : ContentRules C) (limit : ℕ) (seeds : List (DesignSeed C))
    (requests : List (DesignRequest C)) (key : String × String) :
    Dated rules ((run rules limit seeds requests).workspaces key) :=
  (foldl_step_of_revises (fun _ _ hrevises h ↦ h.revises hrevises) limit requests
    (wellFormed_run limit seeds []) key (dated_seeded rules seeds key)).2

include h in
theorem chainAt_spec (key : String × String) :
    ∃ nextHistoryId index cursor,
      Charted rules ((repository.ensureHistory key
        (currentDesign rules (repository.workspaces key))).workspaces key) nextHistoryId index cursor ∧
      chainAt rules repository key = some (((repository.ensureHistory key
        (currentDesign rules (repository.workspaces key))).workspaces key).history, index) ∧
      currentSnapshot rules repository key = some cursor := by
  obtain ⟨-, -, ⟨index, cursor, hcharted⟩, -, -⟩ := ensureHistory_spec h key
  have hchain := activeChain_eq hcharted
  refine ⟨_, index, cursor, hcharted, hchain, ?_⟩
  rw [currentSnapshot, chainAt, hchain]
  exact hcharted.cursor

include h in
/-- When a baseline is recorded, a snapshot of the revision of the design is the current one. -/
theorem anchored_record {key : String × String}
    (hdated : Dated rules (repository.workspaces key)) {snapshot : MemoryHistoryEntry C}
    (hsnapshot : currentSnapshot rules repository key = some snapshot) :
    Anchored rules (designRevision rules (repository.workspaces key)) snapshot.sourceDesignRevision
      (repository.workspaces key) := by
  obtain ⟨nextHistoryId, index, cursor, hcharted, -, hcurrent⟩ := chainAt_spec h key
  obtain rfl := Option.some.inj (hcurrent.symm.trans hsnapshot)
  have hmem := List.mem_of_getElem? hcharted.cursor
  rcases h key with huntouched | ⟨position, entry, hbefore⟩
  · have hroot : designRevision rules (repository.workspaces key) = cursor.sourceDesignRevision := by
      have hstate : ¬ (repository.workspaces key).historyState.isSome = true := by
        simp [huntouched.state]
      simp only [ensureHistory, if_neg hstate, newHistoryEntry, setHistoryState, setWorkspace_self,
        huntouched.history, List.nil_append, List.mem_singleton] at hmem
      rw [hmem]
      rfl
    exact ⟨le_rfl, fun _ _ ↦ hroot, fun _ ↦ hroot⟩
  · obtain ⟨tip, -, hstate⟩ := hbefore.state
    have hensured : repository.ensureHistory key (currentDesign rules (repository.workspaces key)) =
        repository := by
      simp only [ensureHistory, hstate, Option.isSome_some, if_true]
    rw [hensured] at hcharted hmem
    refine ⟨le_rfl, fun hempty ↦ ?_, fun hfound ↦ ?_⟩
    · rw [hempty] at hmem
      exact absurd hmem List.not_mem_nil
    · obtain ⟨other, hother, hsource⟩ := List.mem_map.mp hfound
      obtain ⟨otherTip, hotherState⟩ := hdated.newest other hother hsource
      obtain ⟨cursorTip, -, hcursorState⟩ := hcharted.state
      have hid : other.id = cursor.id :=
        (Prod.mk.inj (Option.some.inj (hotherState.symm.trans hcursorState))).1
      rw [← List.inj_on_of_nodup_map hcharted.nodup hother hmem hid]
      exact hsource.symm

theorem baselineIndex_eq_some {entries : List (MemoryHistoryEntry C)}
    (hrising : (entries.map MemoryHistoryEntry.sourceDesignRevision).Pairwise (· < ·))
    {baseline : DesignHistoryBaseline} {index : ℕ} {entry : MemoryHistoryEntry C}
    (hentry : entries[index]? = some entry)
    (hsource : entry.sourceDesignRevision = baseline.designRevision) :
    baselineIndex entries baseline = some index := by
  obtain ⟨hlt, hget⟩ := List.getElem?_eq_some_iff.mp hentry
  refine List.findIdx?_eq_some_iff_getElem.mpr ⟨hlt, by simp [hget, hsource], fun other hless ↦ ?_⟩
  have hsmaller := List.pairwise_iff_getElem.mp hrising other index (by simp; omega) (by simpa) hless
  simp only [List.getElem_map, hget, hsource] at hsmaller
  simpa using hsmaller.ne

theorem baselineIndex_eq_none {entries : List (MemoryHistoryEntry C)}
    {baseline : DesignHistoryBaseline}
    (hnone : baseline.designRevision ∉ entries.map MemoryHistoryEntry.sourceDesignRevision) :
    baselineIndex entries baseline = none := by
  refine List.findIdx?_eq_none_iff.mpr fun entry hmem ↦ decide_eq_false fun hsame ↦ ?_
  exact hnone (hsame ▸ List.mem_map_of_mem hmem)

/-- What a move in a direction is reported to do. -/
def DesignHistoryState.action (state : DesignHistoryState D) :
    HistoryAction → Option (DesignHistoryAction D)
  | .undo => state.undo
  | .redo => state.redo

theorem crossesBaseline_action (summaries : ChangeSummaries C D) (design : Design C)
    {entries : List (MemoryHistoryEntry C)} {cursorIndex targetIndex : ℕ}
    (baseline : DesignHistoryBaseline) {direction : HistoryAction}
    (hcursor : cursorIndex < entries.length)
    (htarget : historyTargetIndex entries cursorIndex direction = some targetIndex)
    (hlt : targetIndex < entries.length) :
    ((historyState summaries design entries cursorIndex baseline).action direction).any
        (fun action ↦ action.crossesBaseline) =
      (baselineIndex entries baseline).any
        fun index ↦ Crosses cursorIndex targetIndex index direction := by
  cases direction <;>
    simp [historyState, DesignHistoryState.action, historyAction, htarget,
      List.getElem?_eq_getElem hcursor, List.getElem?_eq_getElem hlt]

end Runs

/-- Nothing is said of a difference. -/
def plainSummaries : ChangeSummaries String Unit :=
  ⟨fun _ _ ↦ ("", 0), fun _ _ ↦ ()⟩

/-- Two saves and an undo, after which a baseline is recorded at the third revision, with the first
save current. -/
def undoneRequests : List (DesignRequest String) :=
  [plainEdit 0 "a", plainEdit 1 "b", .undo ("owner", "workspace") false 2]

end Schemii.Designs
