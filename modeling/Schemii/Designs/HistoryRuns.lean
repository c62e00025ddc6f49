import Schemii.Designs.HistoryChain

/-!
# Runs of the design repository

A run starts from a repository in which any number of workspaces were created from an imported
design, and answers any sequence of `replace`, `undo`, `redo` and `replace_layout` requests on any
workspaces. Whether a migration blocks a workspace is part of each request, and refused requests are
part of the run.

`wellFormed_run` carries the chain invariant of `HistoryChain` through every run.
`history_is_one_chain` is what it says of the dictionaries, and `undo_then_redo`, `redo_then_undo`
say that the two moves are inverse to each other.
-/

set_option autoImplicit false

namespace Schemii.Designs

open DesignRepository

variable {C : Type}

/-- A request to the repository. `blocked` is the answer of the mutation guard at that moment. -/
inductive DesignRequest (C : Type)
  | replace (key : String × String) (blocked : Bool) (request : DesignReplace C)
      (operationKind : OperationKind)
  | undo (key : String × String) (blocked : Bool) (expectedDesignRevision : ℕ)
  | redo (key : String × String) (blocked : Bool) (expectedDesignRevision : ℕ)
  | replaceLayout (key : String × String) (request : DesignLayoutReplace)

/-- The workspace a request names. -/
def DesignRequest.key : DesignRequest C → String × String
  | .replace key _ _ _ => key
  | .undo key _ _ => key
  | .redo key _ _ => key
  | .replaceLayout key _ => key

/-- A workspace created from an imported design. -/
structure DesignSeed (C : Type) where
  key : String × String
  content : C
  positions : List ObjectPosition

/-- The repository after one request, granted or refused. -/
def step (rules : ContentRules C) (limit : ℕ) (repository : DesignRepository C) :
    DesignRequest C → DesignRepository C
  | .replace key blocked request operationKind =>
    (replace rules limit repository key blocked request operationKind).2
  | .undo key blocked revision => (undo rules repository key blocked revision).2
  | .redo key blocked revision => (redo rules repository key blocked revision).2
  | .replaceLayout key request => (replaceLayout rules repository key request).2

/-- The repository in which some workspaces were created. -/
def seeded (rules : ContentRules C) (seeds : List (DesignSeed C)) : DesignRepository C :=
  seeds.foldl (fun repository seed ↦
    (initializeDesign rules repository seed.key seed.content seed.positions).2) (init C)

/-- The repository after a list of requests. -/
def run (rules : ContentRules C) (limit : ℕ) (seeds : List (DesignSeed C))
    (requests : List (DesignRequest C)) : DesignRepository C :=
  requests.foldl (step rules limit) (seeded rules seeds)

section Invariant

variable {rules : ContentRules C}

/-- What the creation of workspaces keeps: a workspace is untouched, or it has a design and its
history is the root alone. -/
def Created (rules : ContentRules C) (repository : DesignRepository C) : Prop :=
  ∀ key, Untouched (repository.workspaces key) ∨
    ((repository.workspaces key).design ≠ none ∧
      ∃ root, (repository.workspaces key).history = [root] ∧
        Charted rules (repository.workspaces key) repository.nextHistoryId 0 root)

variable {repository : DesignRepository C}

/-- Assumes: a repository of created workspaces. Creating one more gives an untouched workspace its
root, and any other request is refused. -/
theorem created_initializeDesign (h : Created rules repository) (seed : DesignSeed C) :
    Created rules (initializeDesign rules repository seed.key seed.content seed.positions).2 := by
  intro key
  generalize hafter : (initializeDesign rules repository seed.key seed.content
    seed.positions).2 = after
  replace hafter := hafter.symm
  unfold initializeDesign at hafter
  cases hvalid : rules.validateDesignContent seed.content with
  | some error =>
    rw [hvalid] at hafter
    rw [hafter]
    exact h key
  | none =>
    rw [hvalid] at hafter
    simp only at hafter
    cases hplaced : misplacedPosition? rules seed.content seed.positions with
    | some position =>
      rw [hplaced] at hafter
      rw [hafter]
      exact h key
    | none =>
      rw [hplaced] at hafter
      simp only at hafter
      cases hdesign : (repository.workspaces seed.key).design with
      | some design =>
        rw [hdesign] at hafter
        rw [hafter]
        exact h key
      | none =>
        rw [hdesign] at hafter
        have huntouched : Untouched (repository.workspaces seed.key) := by
          rcases h seed.key with huntouched | ⟨hsome, -⟩
          · exact huntouched
          · exact absurd hdesign hsome
        let root : MemoryHistoryEntry C :=
          ⟨repository.nextHistoryId, none, 1, .initial, none, seed.content⟩
        have hnext : after.nextHistoryId = repository.nextHistoryId + 1 := by
          rw [hafter]
          rfl
        by_cases hkey : key = seed.key
        · have hworkspace : after.workspaces key =
              ⟨some ⟨1, seed.content, rules.designFingerprint seed.content⟩,
                some ⟨1, 1, seed.positions⟩, [root], some (root.id, root.id),
                seed.positions⟩ := by
            rw [hafter, hkey]
            simp [newHistoryEntry, setHistoryState, setWorkspace, huntouched.history, root]
          rw [hworkspace, hnext]
          exact Or.inr ⟨by simp, root, rfl,
            charted_root rfl rfl (Nat.lt_succ_self _) rfl hvalid rfl⟩
        · have hworkspace : after.workspaces key = repository.workspaces key := by
            rw [hafter]
            simp [newHistoryEntry, setHistoryState, setWorkspace, hkey]
          rw [hworkspace, hnext]
          rcases h key with hother | ⟨hsome, other, hhistory, hcharted⟩
          · exact Or.inl hother
          · exact Or.inr ⟨hsome, other, hhistory, hcharted.mono (Nat.le_succ _)⟩

theorem created_seeded (rules : ContentRules C) (seeds : List (DesignSeed C)) :
    Created rules (seeded rules seeds) := by
  have hgeneral : ∀ (seeds : List (DesignSeed C)) (repository : DesignRepository C),
      Created rules repository → Created rules (seeds.foldl (fun repository seed ↦
        (initializeDesign rules repository seed.key seed.content seed.positions).2)
          repository) := by
    intro seeds
    induction seeds with
    | nil => intro repository h; exact h
    | cons seed seeds ih =>
      intro repository h
      exact ih _ (created_initializeDesign h seed)
  exact hgeneral seeds (init C) fun _ ↦ Or.inl ⟨rfl, rfl, rfl⟩

/-- Assumes: a well formed repository. A save leaves it well formed, and charts the workspace at
the new snapshot when it files one. -/
theorem wellFormed_replace (h : WellFormed rules repository)
    (limit : ℕ) (key : String × String) (blocked : Bool) (request : DesignReplace C)
    (operationKind : OperationKind) :
    WellFormed rules (replace rules limit repository key blocked request operationKind).2 := by
  obtain ⟨hsame, hdesign, ⟨index, cursor, hcharted⟩, -, -⟩ := ensureHistory_spec h key
  have hensured : WellFormed rules (repository.ensureHistory key
      (currentDesign rules (repository.workspaces key))) :=
    h.of_sameElsewhere hsame (Or.inr ⟨index, cursor, hcharted⟩)
  rcases replace_cases rules limit repository key blocked request operationKind with
    ⟨error, houtcome⟩ | ⟨error, houtcome⟩ | ⟨-, houtcome⟩ |
    ⟨-, hvalid, cursorId, tip, hstate, houtcome⟩
  · rw [houtcome]
    exact h
  · rw [houtcome]
    exact hensured
  · rw [houtcome]
    exact hensured
  · obtain ⟨tipEntry, -, hcursor⟩ := hcharted.state
    rw [hstate] at hcursor
    obtain ⟨rfl, -⟩ := Prod.mk.inj (Option.some.inj hcursor)
    obtain ⟨after, hafter, hsaved, hnext, hsavedDesign, hsavedState, hhistory⟩ :=
      commitReplace_spec hcharted limit request operationKind
        (currentDesign rules (repository.workspaces key))
    rw [houtcome, hafter]
    refine hensured.of_sameElsewhere hsaved (Or.inr ?_)
    obtain ⟨last, -, -, -, -, hlast⟩ := charted_save hcharted rfl hvalid limit hhistory hsavedState
      (by simp [currentDesign, hsavedDesign])
    exact ⟨_, last, hnext ▸ hlast⟩

theorem wellFormed_moveHistory (h : WellFormed rules repository)
    (key : String × String) (blocked : Bool) (revision : ℕ) (action : HistoryAction) :
    WellFormed rules (moveHistory rules repository key blocked revision action).2 := by
  rcases moveHistory_cases h key blocked revision action with
    ⟨error, houtcome⟩ | ⟨error, houtcome⟩ |
    ⟨-, -, index, cursor, tip, target, entry, hcharted, htip, hstate, htarget, hentry, houtcome⟩
  · rw [houtcome]
    exact h
  · rw [houtcome]
    obtain ⟨hsame, -, hcharted, -, -⟩ := ensureHistory_spec h key
    exact h.of_sameElsewhere hsame (Or.inr hcharted)
  · obtain ⟨after, hafter, hsame, hnext, hdesign, hmoved, hhistory⟩ :=
      commitMove_spec rules repository key
        (currentDesign rules (repository.workspaces key)) entry tip.id
    rw [houtcome, hafter]
    have hlt := (List.getElem?_eq_some_iff.mp hcharted.cursor).1
    refine h.of_sameElsewhere hsame (Or.inr ⟨target, entry, hnext ▸ ?_⟩)
    exact charted_move hcharted hentry ((moveTarget_spec hlt htarget).2.1 hcharted.boundary)
      hhistory ⟨tip, htip, hmoved⟩ (by simp [currentDesign, hdesign])

theorem wellFormed_replaceLayout
    (h : WellFormed rules repository) (key : String × String) (request : DesignLayoutReplace) :
    WellFormed rules (replaceLayout rules repository key request).2 := by
  unfold replaceLayout
  simp only
  split_ifs with hstale
  · exact h
  · split
    · exact h
    · refine h.of_sameElsewhere ⟨fun other hne ↦ setWorkspace_of_ne _ hne _, Nat.le_refl _⟩ ?_
      simp only [setWorkspace_self, setWorkspace_nextHistoryId]
      rcases h key with huntouched | ⟨index, entry, hcharted⟩
      · exact Or.inl ⟨huntouched.design, huntouched.history, huntouched.state⟩
      · exact Or.inr ⟨index, entry, hcharted.withLayout _ _⟩

theorem wellFormed_step (h : WellFormed rules repository)
    (limit : ℕ) (request : DesignRequest C) : WellFormed rules (step rules limit repository request) := by
  cases request with
  | replace key blocked request operationKind => exact wellFormed_replace h _ _ _ _ _
  | undo key blocked revision => exact wellFormed_moveHistory h _ _ _ _
  | redo key blocked revision => exact wellFormed_moveHistory h _ _ _ _
  | replaceLayout key request => exact wellFormed_replaceLayout h _ _

theorem wellFormed_run (limit : ℕ) (seeds : List (DesignSeed C)) (requests : List (DesignRequest C)) :
    WellFormed rules (run rules limit seeds requests) := by
  have hgeneral : ∀ (requests : List (DesignRequest C)) (repository : DesignRepository C),
      WellFormed rules repository → WellFormed rules (requests.foldl (step rules limit) repository) := by
    intro requests
    induction requests with
    | nil => intro repository h; exact h
    | cons request requests ih => intro repository h; exact ih _ (wellFormed_step h limit request)
  refine hgeneral requests _ fun key ↦ ?_
  rcases created_seeded rules seeds key with huntouched | ⟨-, root, -, hcharted⟩
  · exact Or.inl huntouched
  · exact Or.inr ⟨0, root, hcharted⟩

end Invariant

/-! ### The moves are inverse to each other -/

/-- The opposite direction. -/
def HistoryAction.opposite : HistoryAction → HistoryAction
  | .undo => .redo
  | .redo => .undo

section Moves

variable {rules : ContentRules C}

/-- Assumes: a well formed repository in which a move was granted. The opposite move from the
revision it produced is granted as well, and brings back the content and the cursor. -/
theorem moveHistory_inverse {repository after : DesignRepository C} (h : WellFormed rules repository)
    {key : String × String} {blocked : Bool} {revision : ℕ} {action : HistoryAction}
    {design : Design C}
    (hmove : moveHistory rules repository key blocked revision action = (.ok design, after)) :
    ∃ restored final,
      moveHistory rules after key blocked design.revision action.opposite = (.ok restored, final) ∧
      restored.content = (currentDesign rules (repository.workspaces key)).content ∧
      (final.workspaces key).historyState = (repository.workspaces key).historyState := by
  rcases moveHistory_cases h key blocked revision action with
    ⟨error, houtcome⟩ | ⟨error, houtcome⟩ |
    ⟨hblocked, -, index, cursor, tip, target, entry, hcharted, htip, hstate, htarget, hentry,
      houtcome⟩
  · rw [houtcome] at hmove
    exact nomatch (Prod.mk.inj hmove).1
  · rw [houtcome] at hmove
    exact nomatch (Prod.mk.inj hmove).1
  obtain ⟨moved, hmoved, -, hnext, hdesign, hmovedState, hhistory⟩ := commitMove_spec rules
    repository key (currentDesign rules (repository.workspaces key)) entry tip.id
  rw [houtcome, hmoved] at hmove
  obtain ⟨hresult, rfl⟩ := Prod.mk.inj hmove
  obtain rfl := Except.ok.inj hresult
  have hlt := (List.getElem?_eq_some_iff.mp hcharted.cursor).1
  obtain ⟨htargetLt, hboundary, hdirection⟩ := moveTarget_spec hlt htarget
  -- the move left the chain alone, so the way back ends on the old cursor
  have hcurrent : currentDesign rules (moved.workspaces key) =
      ⟨(currentDesign rules (repository.workspaces key)).revision + 1, entry.content,
        rules.designFingerprint entry.content⟩ := by
    simp [currentDesign, hdesign]
  have hmovedCharted := charted_move hcharted hentry (hboundary hcharted.boundary) hhistory
    ⟨tip, htip, hmovedState⟩ (by rw [hcurrent])
  have hback : moveTarget (moved.workspaces key).history.length target action.opposite =
      some index := by
    rw [hhistory]
    have hallowed := hcharted.boundary
    rcases hdirection with ⟨rfl, hindex⟩ | ⟨rfl, hindex⟩
    · simp only [HistoryAction.opposite, moveTarget]
      rw [if_pos (by omega), hindex]
    · simp only [HistoryAction.opposite, moveTarget]
      rw [if_pos (by omega), hindex]
      rfl
  have hcursor : (moved.workspaces key).history[index]? = some cursor := by
    rw [hhistory]
    exact hcharted.cursor
  have hreturn := moveHistory_ok (hnext ▸ hmovedCharted) hmovedState hback hcursor
  obtain ⟨final, hfinal, -, -, -, hfinalState, -⟩ := commitMove_spec rules moved key
    (currentDesign rules (moved.workspaces key)) cursor tip.id
  rw [hfinal, hcurrent] at hreturn
  subst hblocked
  exact ⟨_, final, hreturn, hcharted.content.symm, hfinalState.trans hstate.symm⟩

/-- Assumes: a charted workspace. The cursor is a retained snapshot, and the parent links from it
lead over distinct snapshots to the only snapshot without a parent. -/
theorem Charted.path_to_root {workspace : WorkspaceDesign C} {nextHistoryId index : ℕ}
    {entry : MemoryHistoryEntry C} (h : Charted rules workspace nextHistoryId index entry) :
    entry ∈ workspace.history ∧
      ∃ root ∈ workspace.history, root.parentId = none ∧
        (∀ other ∈ workspace.history, other.parentId = none → other = root) ∧
        ∃ path, followParents workspace.history workspace.history.length (some entry.id) =
            some path ∧
          path.getLast? = some root ∧ (path.map MemoryHistoryEntry.id).Nodup := by
  have hlt := (List.getElem?_eq_some_iff.mp h.cursor).1
  have hpos : 0 < workspace.history.length := by omega
  have hfirst : workspace.history[0]? = some workspace.history[0] := List.getElem?_eq_getElem hpos
  have hfollow := followParents_eq h.nodup (fun _ hmem ↦ hmem) h.linked index
    workspace.history.length entry h.cursor hlt
  refine ⟨List.mem_of_getElem? h.cursor, workspace.history[0], List.getElem_mem hpos,
    by simpa using h.linked 0 _ hfirst, ?_, _, hfollow, ?_, ?_⟩
  · intro other hother hparent
    obtain ⟨position, hposition⟩ := List.mem_iff_getElem?.mp hother
    have hlink := h.linked position other hposition
    have hpositionLt := (List.getElem?_eq_some_iff.mp hposition).1
    by_cases hzero : position = 0
    · rw [hzero, hfirst] at hposition
      exact (Option.some.inj hposition).symm
    · have hprevious : workspace.history[position - 1]? = some workspace.history[position - 1] :=
        List.getElem?_eq_getElem (by omega)
      rw [hparent, if_neg hzero, hprevious] at hlink
      exact nomatch hlink
  · rw [List.getLast?_reverse, List.head?_take, if_neg (by omega), List.head?_eq_getElem?, hfirst]
  · rw [List.map_reverse, List.nodup_reverse]
    exact ((List.take_sublist _ _).map _).nodup h.nodup

end Moves

/-- In every run, the cursor of a workspace is one of its retained snapshots, the parent links from
it lead over distinct snapshots to the only snapshot without a parent, a granted undo is taken back
by a redo, and a granted redo by an undo, each with the content and the cursor as before. -/
theorem history_chain_and_inverse_moves (rules : ContentRules C) (limit : ℕ)
    (seeds : List (DesignSeed C)) (requests : List (DesignRequest C)) (key : String × String) :
    let repository := run rules limit seeds requests
    let workspace := repository.workspaces key
    (∀ cursor tip, workspace.historyState = some (cursor, tip) →
      (∃ entry ∈ workspace.history, entry.id = cursor) ∧
      ∃ root ∈ workspace.history, root.parentId = none ∧
        (∀ other ∈ workspace.history, other.parentId = none → other = root) ∧
        ∃ path, followParents workspace.history workspace.history.length (some cursor) =
            some path ∧
          path.getLast? = some root ∧ (path.map MemoryHistoryEntry.id).Nodup) ∧
    (∀ blocked revision design after,
      undo rules repository key blocked revision = (.ok design, after) →
      ∃ restored final, redo rules after key blocked design.revision = (.ok restored, final) ∧
        restored.content = (currentDesign rules workspace).content ∧
        (final.workspaces key).historyState = workspace.historyState) ∧
    (∀ blocked revision design after,
      redo rules repository key blocked revision = (.ok design, after) →
      ∃ restored final, undo rules after key blocked design.revision = (.ok restored, final) ∧
        restored.content = (currentDesign rules workspace).content ∧
        (final.workspaces key).historyState = workspace.historyState) := by
  intro repository workspace
  have hwellFormed : WellFormed rules repository := wellFormed_run limit seeds requests
  refine ⟨?_, fun _ _ _ _ hundo ↦ moveHistory_inverse hwellFormed hundo,
    fun _ _ _ _ hredo ↦ moveHistory_inverse hwellFormed hredo⟩
  intro cursor tip hstate
  rcases hwellFormed key with huntouched | ⟨index, entry, hcharted⟩
  · rw [huntouched.state] at hstate
    exact nomatch hstate
  obtain ⟨last, -, hcursor⟩ := hcharted.state
  rw [hstate] at hcursor
  obtain ⟨rfl, -⟩ := Prod.mk.inj (Option.some.inj hcursor)
  obtain ⟨hmember, hroot⟩ := hcharted.path_to_root
  exact ⟨⟨entry, hmember, rfl⟩, hroot⟩

end Schemii.Designs
