import Schemii.Designs.HistoryTimeline
import Schemii.Designs.SavedRevisions

/-!
# Optimistic concurrency on designs

Several clients send `replace`, `undo`, `redo` and `replace_layout` requests for a design. Every
request runs under the lock of the repository, so an interleaving is a list of requests, each of
which names the revisions its client read.

`served_step` says once what a request can do: it is refused, it finds the design saved already, it
saves the next revision of the design and carries the layout over, or it saves the next revision of
the layout. A refused request leaves the design, the layout and the history, except that a workspace
without a history has been given its root snapshot, as every read of the history does. A save names
the revision that is current (`requests_are_serialised`). An edit that brings the content that is
saved already is granted and saves nothing (`repeated_edit_saves_nothing`).

The layout that is stored after any run is a layout of the current revision and places only objects
of the current content on their layers (`LayoutsCurrent`): a save of the design, by an edit or by a
move through the history, filters the positions with the objects of the content that it saves.
-/

set_option autoImplicit false

namespace Schemii.Designs

open DesignRepository

variable {C : Type}

/-! ### Requests and what they name -/

/-- Whether a request is granted. -/
def DesignRequest.granted (rules : ContentRules C) (limit : ℕ) (repository : DesignRepository C) :
    DesignRequest C → Bool
  | .replace key blocked request operationKind =>
    (DesignRepository.replace rules limit repository key blocked request operationKind).1.toBool
  | .undo key blocked revision =>
    (DesignRepository.undo rules repository key blocked revision).1.toBool
  | .redo key blocked revision =>
    (DesignRepository.redo rules repository key blocked revision).1.toBool
  | .replaceLayout key request =>
    (DesignRepository.replaceLayout rules repository key request).1.toBool

/-- The revision of the design that a request names. -/
def DesignRequest.namedRevision : DesignRequest C → ℕ
  | .replace _ _ request _ => request.expectedDesignRevision
  | .undo _ _ revision => revision
  | .redo _ _ revision => revision
  | .replaceLayout _ request => request.expectedDesignRevision

/-- Whether a request is an edit with the content that is saved already. -/
def DesignRequest.repeats (rules : ContentRules C) (repository : DesignRepository C) :
    DesignRequest C → Bool
  | .replace key _ request operationKind =>
    operationKind = .edit ∧ (currentDesign rules (repository.workspaces key)).fingerprint =
      rules.designFingerprint request.content
  | _ => false

/-- The revision of the layout of a workspace. -/
def layoutRevisionOf (repository : DesignRepository C) (key : String × String) : ℕ :=
  (currentLayout (repository.workspaces key) 0).revision

/-- A layout is one of the current design: it has its revision, and places only objects of its
content, on their layers. -/
def LayoutCurrent (rules : ContentRules C) (workspace : WorkspaceDesign C) : Prop :=
  ∀ layout ∈ workspace.layout,
    layout.designRevision = (currentDesign rules workspace).revision ∧
      ∀ position ∈ layout.objects,
        rules.designObjectLayer (currentDesign rules workspace).content position.objectId =
          some position.layer

/-- Every stored layout is one of the current design. -/
def LayoutsCurrent (rules : ContentRules C) (repository : DesignRepository C) : Prop :=
  ∀ key, LayoutCurrent rules (repository.workspaces key)

/-! ### What a request can do -/

/-- The next revision of a design was saved with its layout carried over, and nothing else
changed. -/
structure Advances (rules : ContentRules C) (key : String × String)
    (before after : DesignRepository C) : Prop where
  others : ∀ other, other ≠ key → after.workspaces other = before.workspaces other
  revision : revisionOf rules after key = revisionOf rules before key + 1
  layoutRevision : layoutRevisionOf after key = layoutRevisionOf before key + 1
  current : LayoutCurrent rules (after.workspaces key)

variable {rules : ContentRules C}

/-- Assumes: a repository that differs in one workspace, which has a new design and the layout that
it had. Carrying the layout over gives the next revision of both. -/
theorem advances_advanceLayout {key : String × String}
    {before middle : DesignRepository C} {design : Design C}
    (hothers : ∀ other, other ≠ key → middle.workspaces other = before.workspaces other)
    (hdesign : (middle.workspaces key).design = some design)
    (hrevision : design.revision = revisionOf rules before key + 1)
    (hlayout : (middle.workspaces key).layout = (before.workspaces key).layout) :
    Advances rules key before (advanceLayout rules middle key design) := by
  have hcurrent : currentDesign rules ((advanceLayout rules middle key design).workspaces key) =
      design := by
    unfold advanceLayout currentDesign
    rw [setWorkspace_self, hdesign]
    rfl
  constructor
  · intro other hne
    unfold advanceLayout
    rw [setWorkspace_of_ne middle hne]
    exact hothers other hne
  · unfold revisionOf
    rw [hcurrent, hrevision]
    rfl
  · unfold layoutRevisionOf advanceLayout
    rw [setWorkspace_self]
    unfold currentLayout
    rw [hlayout]
    cases (before.workspaces key).layout with
    | none => rfl
    | some layout => rfl
  · intro layout hmember
    rw [hcurrent]
    unfold advanceLayout at hmember
    rw [setWorkspace_self] at hmember
    obtain rfl := Option.some.inj hmember
    refine ⟨rfl, ?_⟩
    intro position hposition
    rcases List.mem_append.mp hposition with hkept | hremembered
    · exact of_decide_eq_true (List.mem_filter.mp hkept).2
    · exact (of_decide_eq_true (List.mem_filter.mp hremembered).2).2

/-- What a request does to a repository that it is granted or refused by. -/
inductive Served (rules : ContentRules C) (before after : DesignRepository C) :
    DesignRequest C → Bool → Prop
  /-- The request is refused, before or after the history is ensured. -/
  | refused (request : DesignRequest C)
      (hafter : after = before ∨ after = before.ensureHistory request.key
        (currentDesign rules (before.workspaces request.key))) :
      Served rules before after request false
  /-- An edit brings the content that is saved already. -/
  | repeated (request : DesignRequest C) (hrepeats : request.repeats rules before = true)
      (hnamed : revisionOf rules before request.key = request.namedRevision)
      (hafter : after = before.ensureHistory request.key
        (currentDesign rules (before.workspaces request.key))) :
      Served rules before after request true
  /-- The next revision of the design is saved. -/
  | saved (request : DesignRequest C) (hdesign : ∀ key layout, request ≠ .replaceLayout key layout)
      (hrepeats : request.repeats rules before = false)
      (hnamed : revisionOf rules before request.key = request.namedRevision)
      (hadvances : Advances rules request.key before after) :
      Served rules before after request true
  /-- The next revision of the layout is saved. -/
  | placed (key : String × String) (request : DesignLayoutReplace)
      (hnamed : revisionOf rules before key = request.expectedDesignRevision)
      (hlayout : layoutRevisionOf before key = request.expectedLayoutRevision)
      (hplaced : misplacedPosition? rules
        (currentDesign rules (before.workspaces key)).content request.objects = none)
      (hafter : after = before.setWorkspace key { before.workspaces key with
        layout := some ⟨request.expectedLayoutRevision + 1, request.expectedDesignRevision,
          request.objects⟩
        positionMemory := request.objects.foldl remember
          (before.workspaces key).positionMemory }) :
      Served rules before after (.replaceLayout key request) true

/-- Ensuring a history leaves the design, the layout and the remembered positions of every
workspace. -/
theorem ensureHistory_workspace (repository : DesignRepository C) (key other : String × String)
    (design : Design C) :
    ((repository.ensureHistory key design).workspaces other).design =
        (repository.workspaces other).design ∧
      ((repository.ensureHistory key design).workspaces other).layout =
        (repository.workspaces other).layout ∧
      ((repository.ensureHistory key design).workspaces other).positionMemory =
        (repository.workspaces other).positionMemory := by
  unfold ensureHistory
  split_ifs with hstate
  · exact ⟨rfl, rfl, rfl⟩
  · by_cases hother : other = key
    · subst hother
      simp [newHistoryEntry, setHistoryState]
    · simp [newHistoryEntry, setHistoryState, setWorkspace, hother]

theorem ensureHistory_of_ne (repository : DesignRepository C) {key other : String × String}
    (hne : other ≠ key) (design : Design C) :
    (repository.ensureHistory key design).workspaces other = repository.workspaces other := by
  unfold ensureHistory
  split_ifs with hstate
  · rfl
  · simp [newHistoryEntry, setHistoryState, setWorkspace, hne]

/-- Pruning a history leaves every other workspace, and the design and the layout of its own. -/
theorem pruneHistory_workspace (limit : ℕ) (repository : DesignRepository C)
    (key : String × String) :
    (∀ other, other ≠ key →
        (pruneHistory limit repository key).workspaces other = repository.workspaces other) ∧
      ((pruneHistory limit repository key).workspaces key).design =
        (repository.workspaces key).design ∧
      ((pruneHistory limit repository key).workspaces key).layout =
        (repository.workspaces key).layout := by
  unfold pruneHistory
  split
  · exact ⟨fun _ _ ↦ rfl, rfl, rfl⟩
  · refine ⟨fun other hne ↦ setWorkspace_of_ne repository hne _, ?_, ?_⟩
    · rw [setWorkspace_self]
    · rw [setWorkspace_self]

theorem advances_commitReplace (rules : ContentRules C) (limit : ℕ)
    (repository : DesignRepository C) (key : String × String) (request : DesignReplace C)
    (operationKind : OperationKind) (cursor : ℕ) :
    let current := currentDesign rules (repository.workspaces key)
    Advances rules key repository (commitReplace rules limit (repository.ensureHistory key current)
      key request operationKind cursor current).2 := by
  intro current
  obtain ⟨hdesign, hlayout, -⟩ := ensureHistory_workspace repository key key current
  unfold commitReplace
  dsimp only
  generalize hmoved : setHistoryState _ key _ _ = moved
  obtain ⟨hothers, hpruned, hkept⟩ := pruneHistory_workspace limit moved key
  refine advances_advanceLayout ?_ ?_ ?_ ?_
  · intro other hne
    rw [hothers other hne, ← hmoved]
    simp only [setHistoryState, newHistoryEntry, setWorkspace, Function.update_of_ne hne]
    exact ensureHistory_of_ne repository hne current
  · rw [hpruned, ← hmoved]
    simp only [setHistoryState, newHistoryEntry, setWorkspace, Function.update_self]
  · rfl
  · rw [hkept, ← hmoved]
    simp only [setHistoryState, newHistoryEntry, setWorkspace, Function.update_self]
    exact hlayout

theorem advances_commitMove (rules : ContentRules C) (repository : DesignRepository C)
    (key : String × String) (target : MemoryHistoryEntry C) (tip : ℕ) :
    let current := currentDesign rules (repository.workspaces key)
    Advances rules key repository (commitMove rules (repository.ensureHistory key current) key
      current target tip).2 := by
  intro current
  obtain ⟨hdesign, hlayout, -⟩ := ensureHistory_workspace repository key key current
  unfold commitMove
  dsimp only
  refine advances_advanceLayout ?_ ?_ rfl ?_
  · intro other hne
    simp only [setHistoryState, setWorkspace, Function.update_of_ne hne]
    exact ensureHistory_of_ne repository hne current
  · simp only [setHistoryState, setWorkspace, Function.update_self]
  · simp only [setHistoryState, setWorkspace, Function.update_self]
    exact hlayout

/-- What a `replace` can do. -/
theorem served_replace (rules : ContentRules C) (limit : ℕ) (repository : DesignRepository C)
    (key : String × String) (blocked : Bool) (request : DesignReplace C)
    (operationKind : OperationKind) :
    Served rules repository (replace rules limit repository key blocked request operationKind).2
      (.replace key blocked request operationKind)
      (replace rules limit repository key blocked request operationKind).1.toBool := by
  generalize houtcome : replace rules limit repository key blocked request operationKind = outcome
  replace houtcome := houtcome.symm
  unfold replace at houtcome
  dsimp only at houtcome
  split at houtcome
  · rw [houtcome]
    exact .refused _ (Or.inl rfl)
  split at houtcome
  · rw [houtcome]
    exact .refused _ (Or.inl rfl)
  split at houtcome
  · rw [houtcome]
    exact .refused _ (Or.inr rfl)
  next hrevision =>
  have hnamed : revisionOf rules repository key = request.expectedDesignRevision :=
    not_not.mp hrevision
  split at houtcome
  · next hsame =>
    rw [houtcome]
    exact .repeated _ (decide_eq_true hsame) hnamed rfl
  next hnew =>
  split at houtcome
  · rw [houtcome]
    exact .refused _ (Or.inr rfl)
  split at houtcome
  · rw [houtcome]
    exact .refused _ (Or.inr rfl)
  · next cursor tip hstate =>
    have hadvances := advances_commitReplace rules limit repository key request operationKind cursor
    dsimp only at hadvances
    rw [← houtcome] at hadvances
    have hgranted : outcome.1.toBool = true := by
      rw [houtcome]
      rfl
    rw [hgranted]
    exact .saved _ (fun _ _ ↦ nofun) (decide_eq_false hnew) hnamed hadvances

/-- What an `undo` or a `redo` can do. -/
theorem served_moveHistory (rules : ContentRules C) (repository : DesignRepository C)
    (key : String × String) (blocked : Bool) (revision : ℕ) (action : HistoryAction)
    {request : DesignRequest C} (hkey : request.key = key)
    (hnamed : request.namedRevision = revision)
    (hdesign : ∀ other layout, request ≠ .replaceLayout other layout)
    (hrepeats : request.repeats rules repository = false) :
    Served rules repository (moveHistory rules repository key blocked revision action).2 request
      (moveHistory rules repository key blocked revision action).1.toBool := by
  subst hkey
  generalize houtcome : moveHistory rules repository request.key blocked revision action = outcome
  replace houtcome := houtcome.symm
  unfold moveHistory at houtcome
  dsimp only at houtcome
  split at houtcome
  · rw [houtcome]
    exact .refused _ (Or.inl rfl)
  split at houtcome
  · rw [houtcome]
    exact .refused _ (Or.inl rfl)
  next hrevision =>
  have hcurrent : revisionOf rules repository request.key = request.namedRevision :=
    (not_not.mp hrevision).trans hnamed.symm
  split at houtcome
  · next entries cursorIndex cursor tip hchain hstate =>
    split at houtcome
    · rw [houtcome]
      exact .refused _ (Or.inr rfl)
    split at houtcome
    · rw [houtcome]
      exact .refused _ (Or.inr rfl)
    next target htarget =>
    split at houtcome
    · rw [houtcome]
      exact .refused _ (Or.inr rfl)
    · have hadvances := advances_commitMove rules repository request.key target tip
      dsimp only at hadvances
      rw [← houtcome] at hadvances
      have hgranted : outcome.1.toBool = true := by
        rw [houtcome]
        rfl
      rw [hgranted]
      exact .saved _ hdesign hrepeats hcurrent hadvances
  · rw [houtcome]
    exact .refused _ (Or.inr rfl)

/-- What a `replace_layout` can do. -/
theorem served_replaceLayout (rules : ContentRules C) (repository : DesignRepository C)
    (key : String × String) (request : DesignLayoutReplace) :
    Served rules repository (replaceLayout rules repository key request).2
      (.replaceLayout key request) (replaceLayout rules repository key request).1.toBool := by
  generalize houtcome : replaceLayout rules repository key request = outcome
  replace houtcome := houtcome.symm
  unfold replaceLayout at houtcome
  dsimp only at houtcome
  split at houtcome
  · rw [houtcome]
    exact .refused _ (Or.inl rfl)
  next hrevisions =>
  push Not at hrevisions
  obtain ⟨hlayout, hdesign⟩ := hrevisions
  split at houtcome
  · rw [houtcome]
    exact .refused _ (Or.inl rfl)
  next hplaced =>
  have hsame : layoutRevisionOf repository key = request.expectedLayoutRevision := by
    rw [← hlayout]
    unfold layoutRevisionOf currentLayout
    cases (repository.workspaces key).layout with
    | none => rfl
    | some layout => rfl
  rw [hlayout, hdesign] at houtcome
  rw [houtcome]
  exact .placed key request hdesign hsame hplaced rfl

theorem served_step (rules : ContentRules C) (limit : ℕ) (repository : DesignRepository C)
    (request : DesignRequest C) :
    Served rules repository (step rules limit repository request) request
      (request.granted rules limit repository) := by
  cases request with
  | replace key blocked request operationKind =>
    exact served_replace rules limit repository key blocked request operationKind
  | undo key blocked revision =>
    exact served_moveHistory rules repository key blocked revision .undo rfl rfl (fun _ _ ↦ nofun)
      rfl
  | redo key blocked revision =>
    exact served_moveHistory rules repository key blocked revision .redo rfl rfl (fun _ _ ↦ nofun)
      rfl
  | replaceLayout key request => exact served_replaceLayout rules repository key request

/-! ### Every run -/

theorem LayoutCurrent.congr {before after : WorkspaceDesign C}
    (h : LayoutCurrent rules before) (hdesign : after.design = before.design)
    (hlayout : after.layout = before.layout) : LayoutCurrent rules after := by
  unfold LayoutCurrent currentDesign at h ⊢
  rw [hdesign, hlayout]
  exact h

theorem LayoutsCurrent.served {before after : DesignRepository C}
    {request : DesignRequest C} {granted : Bool} (h : LayoutsCurrent rules before)
    (hserved : Served rules before after request granted) : LayoutsCurrent rules after := by
  have hensured : ∀ key design, LayoutsCurrent rules (before.ensureHistory key design) := by
    intro key design other
    obtain ⟨hdesign, hlayout, -⟩ := ensureHistory_workspace before key other design
    exact (h other).congr hdesign hlayout
  cases hserved with
  | refused _ hafter =>
    rcases hafter with rfl | rfl
    · exact h
    · exact hensured _ _
  | repeated _ _ _ hafter =>
    rw [hafter]
    exact hensured _ _
  | saved _ _ _ _ hadvances =>
    intro other
    by_cases hother : other = request.key
    · rw [hother]
      exact hadvances.current
    · rw [hadvances.others other hother]
      exact h other
  | placed key layout hnamed _ hplaced hafter =>
    intro other
    rw [hafter]
    by_cases hother : other = key
    · subst hother
      rw [setWorkspace_self]
      intro saved hsaved
      obtain rfl := Option.some.inj hsaved
      refine ⟨hnamed.symm, ?_⟩
      intro position hposition
      have hlayer := List.find?_eq_none.mp hplaced position hposition
      change rules.designObjectLayer (currentDesign rules (before.workspaces other)).content
        position.objectId = some position.layer
      simpa using hlayer
    · rw [setWorkspace_of_ne before hother]
      exact h other

theorem LayoutsCurrent.initializeDesign {repository : DesignRepository C}
    (h : LayoutsCurrent rules repository) (key : String × String) (content : C)
    (positions : List ObjectPosition) :
    LayoutsCurrent rules
      (DesignRepository.initializeDesign rules repository key content positions).2 := by
  unfold DesignRepository.initializeDesign
  split
  · exact h
  split
  · exact h
  next hplaced =>
  split
  · exact h
  · intro other
    by_cases hother : other = key
    · subst hother
      simp only [newHistoryEntry, setHistoryState, setWorkspace_self]
      intro saved hsaved
      obtain rfl := Option.some.inj hsaved
      refine ⟨rfl, ?_⟩
      intro position hposition
      have hlayer := List.find?_eq_none.mp hplaced position hposition
      change rules.designObjectLayer content position.objectId = some position.layer
      simpa using hlayer
    · simp only [newHistoryEntry, setHistoryState]
      rw [setWorkspace_of_ne _ hother]
      simp only [setWorkspace, Function.update_of_ne hother]
      exact h other

theorem layoutsCurrent_seeded (rules : ContentRules C) (seeds : List (DesignSeed C)) :
    LayoutsCurrent rules (seeded rules seeds) := by
  have hgeneral : ∀ (seeds : List (DesignSeed C)) (repository : DesignRepository C),
      LayoutsCurrent rules repository → LayoutsCurrent rules (seeds.foldl (fun repository seed ↦
        (initializeDesign rules repository seed.key seed.content seed.positions).2)
          repository) := by
    intro seeds
    induction seeds with
    | nil => intro repository h; exact h
    | cons seed seeds ih =>
      intro repository h
      exact ih _ (h.initializeDesign seed.key seed.content seed.positions)
  exact hgeneral seeds (init C) fun _ _ hlayout ↦ nomatch hlayout

theorem layoutsCurrent_run (rules : ContentRules C) (limit : ℕ) (seeds : List (DesignSeed C))
    (requests : List (DesignRequest C)) : LayoutsCurrent rules (run rules limit seeds requests) := by
  unfold run
  generalize hstart : seeded rules seeds = start
  have h : LayoutsCurrent rules start := hstart ▸ layoutsCurrent_seeded rules seeds
  clear hstart
  induction requests generalizing start with
  | nil => exact h
  | cons request requests ih =>
    rw [List.foldl_cons]
    exact ih _ (h.served (served_step rules limit start request))

/-- What holds of a request in a repository. -/
structure RequestSound (rules : ContentRules C) (limit : ℕ) (before : DesignRepository C)
    (request : DesignRequest C) : Prop where
  /-- Every other workspace is as it was. -/
  others : ∀ other, other ≠ request.key →
    (step rules limit before request).workspaces other = before.workspaces other
  /-- A refused request leaves everything, or ensures the history of a workspace without one. -/
  refused : request.granted rules limit before = false →
    (step rules limit before request = before ∨
      ((before.workspaces request.key).historyState = none ∧
        step rules limit before request = before.ensureHistory request.key
          (currentDesign rules (before.workspaces request.key)))) ∧
    ((step rules limit before request).workspaces request.key).design =
      (before.workspaces request.key).design ∧
    ((step rules limit before request).workspaces request.key).layout =
      (before.workspaces request.key).layout
  /-- A granted request was computed against the revision that it names. -/
  named : request.granted rules limit before = true →
    revisionOf rules before request.key = request.namedRevision
  /-- A granted `replace`, `undo` or `redo` saves the next revision of the design and of the layout,
  unless it is an edit with the content that is saved already. -/
  saved : request.granted rules limit before = true →
    (∀ key layout, request ≠ .replaceLayout key layout) → request.repeats rules before = false →
      revisionOf rules (step rules limit before request) request.key =
          request.namedRevision + 1 ∧
        layoutRevisionOf (step rules limit before request) request.key =
          layoutRevisionOf before request.key + 1
  /-- An edit with the content that is saved already leaves the design and the layout. -/
  repeated : request.granted rules limit before = true → request.repeats rules before = true →
    ((step rules limit before request).workspaces request.key).design =
        (before.workspaces request.key).design ∧
      ((step rules limit before request).workspaces request.key).layout =
        (before.workspaces request.key).layout
  /-- A granted `replace_layout` names the revision of the layout too, saves the next one, and
  leaves the design and the history. -/
  placed : ∀ key layout, request = .replaceLayout key layout →
    request.granted rules limit before = true →
      layoutRevisionOf before key = layout.expectedLayoutRevision ∧
        layoutRevisionOf (step rules limit before request) key =
          layout.expectedLayoutRevision + 1 ∧
        ((step rules limit before request).workspaces key).design =
          (before.workspaces key).design ∧
        ((step rules limit before request).workspaces key).history =
          (before.workspaces key).history ∧
        ((step rules limit before request).workspaces key).historyState =
          (before.workspaces key).historyState

theorem requestSound_step (rules : ContentRules C) (limit : ℕ) (before : DesignRepository C)
    (request : DesignRequest C) : RequestSound rules limit before request := by
  have hserved := served_step rules limit before request
  have hensured := ensureHistory_workspace before request.key request.key
    (currentDesign rules (before.workspaces request.key))
  generalize hgranted : request.granted rules limit before = granted at hserved
  generalize hafter : step rules limit before request = after at hserved
  cases hserved with
  | refused _ hleft =>
    have hno : ∀ {p : Prop}, request.granted rules limit before = true → p := by
      intro p htrue
      rw [hgranted] at htrue
      cases htrue
    refine ⟨?_, ?_, hno, fun htrue ↦ hno htrue, fun htrue ↦ hno htrue,
      fun _ _ _ htrue ↦ hno htrue⟩
    · intro other hne
      rw [hafter]
      rcases hleft with rfl | rfl
      · rfl
      · exact ensureHistory_of_ne before hne _
    · intro _
      rw [hafter]
      rcases hleft with rfl | rfl
      · exact ⟨Or.inl rfl, rfl, rfl⟩
      · refine ⟨?_, hensured.1, hensured.2.1⟩
        cases hstate : (before.workspaces request.key).historyState with
        | none => exact Or.inr ⟨rfl, rfl⟩
        | some state =>
          refine Or.inl ?_
          simp only [ensureHistory, hstate, Option.isSome_some, if_true]
  | repeated _ hrepeats hnamed hleft =>
    refine ⟨?_, ?_, fun _ ↦ hnamed, ?_, ?_, ?_⟩
    · intro other hne
      rw [hafter, hleft]
      exact ensureHistory_of_ne before hne _
    · intro hfalse
      rw [hgranted] at hfalse
      cases hfalse
    · intro _ _ hfalse
      rw [hrepeats] at hfalse
      cases hfalse
    · intro _ _
      rw [hafter, hleft]
      exact ⟨hensured.1, hensured.2.1⟩
    · rintro key layout rfl _
      cases hrepeats
  | saved _ hdesign hrepeats hnamed hadvances =>
    refine ⟨?_, ?_, fun _ ↦ hnamed, ?_, ?_, ?_⟩
    · intro other hne
      rw [hafter]
      exact hadvances.others other hne
    · intro hfalse
      rw [hgranted] at hfalse
      cases hfalse
    · intro _ _ _
      rw [hafter, ← hnamed]
      exact ⟨hadvances.revision, hadvances.layoutRevision⟩
    · intro _ htrue
      rw [hrepeats] at htrue
      cases htrue
    · intro key layout hsame _
      exact absurd hsame (hdesign key layout)
  | placed key layout hnamed hlayout hplaced hleft =>
    refine ⟨?_, ?_, fun _ ↦ hnamed, ?_, ?_, ?_⟩
    · intro other hne
      rw [hafter, hleft]
      exact setWorkspace_of_ne before hne _
    · intro hfalse
      rw [hgranted] at hfalse
      cases hfalse
    · intro _ hnone
      exact absurd rfl (hnone key layout)
    · intro _ hfalse
      cases hfalse
    · rintro other placed hsame _
      obtain ⟨rfl, rfl⟩ := DesignRequest.replaceLayout.inj hsame
      rw [hafter, hleft]
      unfold layoutRevisionOf
      rw [setWorkspace_self]
      exact ⟨hlayout, rfl, rfl, rfl, rfl⟩

end Schemii.Designs
