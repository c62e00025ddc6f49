import Schemii.Designs.HistoryRuns

/-!
# Revisions only grow

What a request makes of the designs: it leaves all of them as they are, or it saves the next
revision of the one it names (`step_designs`). A `replace` does so only against the revision its
caller read (`replace_designs`).
-/

set_option autoImplicit false

namespace Schemii.Designs

open DesignRepository

variable {C : Type}

/-- Every design is as it was. -/
def SameDesigns (before after : DesignRepository C) : Prop :=
  ∀ other, (after.workspaces other).design = (before.workspaces other).design

/-- The next revision of one design was saved. -/
def SavesRevision (rules : ContentRules C) (key : String × String)
    (before after : DesignRepository C) : Prop :=
  ∃ design : Design C,
    design.revision = (currentDesign rules (before.workspaces key)).revision + 1 ∧
    ∀ other, (after.workspaces other).design =
      if other = key then some design else (before.workspaces other).design

/-- The revision of a design. -/
def revisionOf (rules : ContentRules C) (repository : DesignRepository C)
    (key : String × String) : ℕ :=
  (currentDesign rules (repository.workspaces key)).revision

section Revisions

variable {rules : ContentRules C} {key : String × String} {before middle after : DesignRepository C}

theorem revisionOf_congr
    (h : (after.workspaces key).design = (before.workspaces key).design) :
    revisionOf rules after key = revisionOf rules before key := by
  unfold revisionOf currentDesign
  rw [h]

theorem SavesRevision.revisionOf_self (h : SavesRevision rules key before after) :
    revisionOf rules after key = revisionOf rules before key + 1 := by
  obtain ⟨design, hrevision, hdesigns⟩ := h
  unfold revisionOf
  rw [← hrevision, currentDesign, hdesigns key, if_pos rfl]
  rfl

theorem SavesRevision.revisionOf_le (h : SavesRevision rules key before after)
    (other : String × String) : revisionOf rules before other ≤ revisionOf rules after other := by
  by_cases hother : other = key
  · subst hother
    rw [h.revisionOf_self]
    exact Nat.le_succ _
  · obtain ⟨design, -, hdesigns⟩ := h
    exact (revisionOf_congr ((hdesigns other).trans (if_neg hother))).ge

theorem SavesRevision.of_same (hsame : SameDesigns before middle)
    (h : SavesRevision rules key middle after) : SavesRevision rules key before after := by
  obtain ⟨design, hrevision, hdesigns⟩ := h
  refine ⟨design, hrevision.trans ?_, fun other ↦ ?_⟩
  · exact congrArg (· + 1) (revisionOf_congr (hsame key))
  · rw [hdesigns other, hsame other]

theorem SavesRevision.then_same (h : SavesRevision rules key before middle)
    (hsame : SameDesigns middle after) : SavesRevision rules key before after := by
  obtain ⟨design, hrevision, hdesigns⟩ := h
  exact ⟨design, hrevision, fun other ↦ (hsame other).trans (hdesigns other)⟩

theorem SameDesigns.trans (h : SameDesigns before middle) (h' : SameDesigns middle after) :
    SameDesigns before after :=
  fun other ↦ (h' other).trans (h other)

/-! ### The steps of a request -/

theorem sameDesigns_setWorkspace (repository : DesignRepository C) (key : String × String)
    {workspace : WorkspaceDesign C}
    (h : workspace.design = (repository.workspaces key).design) :
    SameDesigns repository (repository.setWorkspace key workspace) := by
  intro other
  by_cases hother : other = key
  · subst hother
    rw [setWorkspace_self, h]
  · rw [setWorkspace_of_ne repository hother]

theorem sameDesigns_newHistoryEntry (repository : DesignRepository C) (key : String × String)
    (parentId : Option ℕ) (sourceDesignRevision : ℕ) (operationKind : OperationKind)
    (operationGroupId : Option String) (content : C) :
    SameDesigns repository (repository.newHistoryEntry key parentId sourceDesignRevision
      operationKind operationGroupId content).2 :=
  sameDesigns_setWorkspace repository key rfl

theorem sameDesigns_pruneHistory (limit : ℕ) (repository : DesignRepository C)
    (key : String × String) : SameDesigns repository (pruneHistory limit repository key) := by
  unfold pruneHistory
  split
  · exact fun _ ↦ rfl
  · exact sameDesigns_setWorkspace repository key rfl

theorem sameDesigns_ensureHistory (repository : DesignRepository C) (key : String × String)
    (design : Design C) : SameDesigns repository (repository.ensureHistory key design) := by
  unfold ensureHistory
  split_ifs with hstate
  · exact fun _ ↦ rfl
  · exact (sameDesigns_newHistoryEntry repository key none design.revision .initial none
      design.content).trans (sameDesigns_setWorkspace _ key rfl)

theorem savesRevision_setWorkspace (repository : DesignRepository C) {design : Design C}
    {workspace : WorkspaceDesign C} (hdesign : workspace.design = some design)
    (hrevision : design.revision =
      (currentDesign rules (repository.workspaces key)).revision + 1) :
    SavesRevision rules key repository (repository.setWorkspace key workspace) := by
  refine ⟨design, hrevision, fun other ↦ ?_⟩
  by_cases hother : other = key
  · subst hother
    rw [setWorkspace_self, if_pos rfl, hdesign]
  · rw [setWorkspace_of_ne repository hother, if_neg hother]

variable (rules : ContentRules C)

theorem savesRevision_commitReplace (limit : ℕ)
    (repository : DesignRepository C) (key : String × String) (request : DesignReplace C)
    (operationKind : OperationKind) (cursor : ℕ) :
    SavesRevision rules key repository (commitReplace rules limit repository key request
      operationKind cursor (currentDesign rules (repository.workspaces key))).2 := by
  unfold commitReplace advanceLayout
  dsimp only
  refine .then_same ?_ (sameDesigns_setWorkspace _ key rfl)
  refine .then_same ?_ (sameDesigns_pruneHistory limit _ key)
  refine .then_same ?_ (sameDesigns_setWorkspace _ key rfl)
  exact .then_same (savesRevision_setWorkspace repository rfl rfl)
    (sameDesigns_newHistoryEntry _ key _ _ _ _ _)

theorem savesRevision_commitMove (repository : DesignRepository C)
    (key : String × String) (target : MemoryHistoryEntry C) (tip : ℕ) :
    SavesRevision rules key repository (commitMove rules repository key
      (currentDesign rules (repository.workspaces key)) target tip).2 := by
  unfold commitMove advanceLayout
  dsimp only
  refine .then_same ?_ (sameDesigns_setWorkspace _ key rfl)
  exact .then_same (savesRevision_setWorkspace repository rfl rfl)
    (sameDesigns_setWorkspace _ key rfl)

/-- What a `replace` makes of the designs: they stay, or the next revision is saved against the
current one. A checkpoint that is granted saves. -/
theorem replace_designs (limit : ℕ) (repository : DesignRepository C)
    (key : String × String) (blocked : Bool) (request : DesignReplace C)
    (operationKind : OperationKind) :
    let outcome := replace rules limit repository key blocked request operationKind
    (SameDesigns repository outcome.2 ∧
        (operationKind = .checkpoint → ∃ error, outcome.1 = .error error)) ∨
      SavesRevision rules key repository outcome.2 ∧
        request.expectedDesignRevision = revisionOf rules repository key := by
  intro outcome
  let current := currentDesign rules (repository.workspaces key)
  have hensured := sameDesigns_ensureHistory repository key current
  have hcurrent : currentDesign rules ((repository.ensureHistory key current).workspaces key) =
      current := by
    unfold currentDesign
    rw [hensured key]
    rfl
  have houtcome : outcome = replace rules limit repository key blocked request operationKind := rfl
  unfold replace at houtcome
  dsimp only at houtcome
  cases hvalid : rules.validateDesignContent request.content with
  | some error =>
    rw [hvalid] at houtcome
    rw [houtcome]
    exact Or.inl ⟨fun _ ↦ rfl, fun _ ↦ ⟨error, rfl⟩⟩
  | none =>
    rw [hvalid] at houtcome
    dsimp only at houtcome
    split at houtcome
    · rw [houtcome]
      exact Or.inl ⟨fun _ ↦ rfl, fun _ ↦ ⟨_, rfl⟩⟩
    split at houtcome
    · rw [houtcome]
      exact Or.inl ⟨hensured, fun _ ↦ ⟨_, rfl⟩⟩
    next hrevision =>
    split at houtcome
    · next hsame =>
      rw [houtcome]
      refine Or.inl ⟨hensured, fun hcheckpoint ↦ ?_⟩
      rw [hsame.1] at hcheckpoint
      exact nomatch hcheckpoint
    split at houtcome
    · rw [houtcome]
      exact Or.inl ⟨hensured, fun _ ↦ ⟨_, rfl⟩⟩
    split at houtcome
    · rw [houtcome]
      exact Or.inl ⟨hensured, fun _ ↦ ⟨_, rfl⟩⟩
    · next cursor tip hstate =>
      refine Or.inr ⟨?_, (not_not.mp hrevision).symm⟩
      have hsaves := savesRevision_commitReplace rules limit
        (repository.ensureHistory key current) key request operationKind cursor
      rw [hcurrent] at hsaves
      rw [houtcome]
      exact .of_same hensured hsaves

theorem commitReplace_design (limit : ℕ)
    (repository : DesignRepository C) (key : String × String) (request : DesignReplace C)
    (operationKind : OperationKind) (cursor : ℕ) (current : Design C) :
    ((commitReplace rules limit repository key request operationKind cursor
      current).2.workspaces key).design =
      some ⟨current.revision + 1, request.content, rules.designFingerprint request.content⟩ := by
  have hsame : SameDesigns
      (repository.setWorkspace key { repository.workspaces key with
        design := some ⟨current.revision + 1, request.content,
          rules.designFingerprint request.content⟩ })
      (commitReplace rules limit repository key request operationKind cursor current).2 := by
    unfold commitReplace advanceLayout
    dsimp only
    refine .trans ?_ (sameDesigns_setWorkspace _ key rfl)
    refine .trans ?_ (sameDesigns_pruneHistory limit _ key)
    refine .trans ?_ (sameDesigns_setWorkspace _ key rfl)
    exact sameDesigns_newHistoryEntry _ key _ _ _ _ _
  rw [hsame key, setWorkspace_self]

/-- Assumes: a checkpoint that is granted. Its content is valid and is that of the current design. -/
theorem replace_checkpoint_content {rules : ContentRules C} {limit : ℕ}
    {repository after : DesignRepository C} {key : String × String} {blocked : Bool}
    {request : DesignReplace C} {design : Design C}
    (h : replace rules limit repository key blocked request .checkpoint = (.ok design, after)) :
    rules.validateDesignContent request.content = none ∧ design.content = request.content ∧
      currentDesign rules (after.workspaces key) = design := by
  rcases replace_cases rules limit repository key blocked request .checkpoint with
    ⟨error, houtcome⟩ | ⟨error, houtcome⟩ | ⟨⟨hedit, -⟩, -⟩ | ⟨-, hvalid, cursor, -, -, houtcome⟩
  · exact nomatch (Prod.mk.inj (h.symm.trans houtcome)).1
  · exact nomatch (Prod.mk.inj (h.symm.trans houtcome)).1
  · exact nomatch hedit
  · have hsaved := h.symm.trans houtcome
    have hdesign := commitReplace_design rules limit (repository.ensureHistory key
      (currentDesign rules (repository.workspaces key))) key request .checkpoint cursor
      (currentDesign rules (repository.workspaces key))
    rw [← hsaved] at hdesign
    obtain rfl := Except.ok.inj (Prod.mk.inj hsaved).1
    refine ⟨hvalid, rfl, ?_⟩
    unfold currentDesign
    rw [hdesign]
    rfl

theorem moveHistory_designs (repository : DesignRepository C)
    (key : String × String) (blocked : Bool) (expectedDesignRevision : ℕ)
    (action : HistoryAction) :
    let after := (moveHistory rules repository key blocked expectedDesignRevision action).2
    SameDesigns repository after ∨ SavesRevision rules key repository after := by
  intro after
  let current := currentDesign rules (repository.workspaces key)
  have hensured := sameDesigns_ensureHistory repository key current
  have hcurrent : currentDesign rules ((repository.ensureHistory key current).workspaces key) =
      current := by
    unfold currentDesign
    rw [hensured key]
    rfl
  have hafter : after =
      (moveHistory rules repository key blocked expectedDesignRevision action).2 := rfl
  unfold moveHistory at hafter
  dsimp only at hafter
  split at hafter
  · rw [hafter]
    exact Or.inl fun _ ↦ rfl
  split at hafter
  · rw [hafter]
    exact Or.inl fun _ ↦ rfl
  split at hafter
  · next entries cursorIndex cursor tip hchain hstate =>
    split at hafter
    · rw [hafter]
      exact Or.inl hensured
    split at hafter
    · rw [hafter]
      exact Or.inl hensured
    split at hafter
    · rw [hafter]
      exact Or.inl hensured
    · have hsaves : ∀ target : MemoryHistoryEntry C, SavesRevision rules key
          (repository.ensureHistory key current)
          (commitMove rules (repository.ensureHistory key current) key current target tip).2 := by
        intro target
        have hcommits := savesRevision_commitMove rules (repository.ensureHistory key current) key
          target tip
        rwa [hcurrent] at hcommits
      rw [hafter]
      exact Or.inr (.of_same hensured (hsaves _))
  · rw [hafter]
    exact Or.inl hensured

/-- What a request makes of the designs: they stay, or the next revision of the one it names is
saved. -/
theorem step_designs (limit : ℕ) (repository : DesignRepository C)
    (request : DesignRequest C) :
    SameDesigns repository (step rules limit repository request) ∨
      SavesRevision rules request.key repository (step rules limit repository request) := by
  cases request with
  | replace key blocked request operationKind =>
    rcases replace_designs rules limit repository key blocked request operationKind with
      ⟨hsame, -⟩ | ⟨hsaves, -⟩
    · exact Or.inl hsame
    · exact Or.inr hsaves
  | undo key blocked revision => exact moveHistory_designs rules repository key blocked revision .undo
  | redo key blocked revision => exact moveHistory_designs rules repository key blocked revision .redo
  | replaceLayout key request =>
    refine Or.inl ?_
    unfold step replaceLayout
    dsimp only
    split_ifs
    · exact fun _ ↦ rfl
    split
    · exact fun _ ↦ rfl
    · exact sameDesigns_setWorkspace repository key rfl

end Revisions

end Schemii.Designs
