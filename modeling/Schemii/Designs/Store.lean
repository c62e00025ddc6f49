import Schemii.Designs.HistoryRetention

/-!
# The in-memory design repository

The owner-scoped store of desired designs of `designs/store.py`: the design, its layout, the chain
of history snapshots with its cursor and tip, and the remembered canvas positions. Every method runs
under the repository's lock, so it is one function from the repository to its outcome and the
repository it leaves. A refused request returns the error together with the repository as it stands
then: `ensureHistory` may already have created the root snapshot before a revision is found stale.

The content of a design is a type parameter. What the store asks of it is collected in
`ContentRules`: the checks of `validate_design_content` and `validate_design_transition`, the
fingerprint, and the layer of each placed object. The empty design passes its own check.

`history` is the dictionary of snapshots of one workspace, in insertion order and keyed by the
snapshots' own ids. `activeChain` follows the parent links from the tip; a link that leads nowhere,
or a chain longer than the dictionary, is the `KeyError` or the endless loop of the source, and the
invariants of `HistoryChain` exclude both. The creation times of snapshots are left out.
-/

set_option autoImplicit false

namespace Schemii.Designs

/-- What a save records about itself. -/
inductive OperationKind
  | initial
  | edit
  | checkpoint
  | baselineReset
  deriving DecidableEq, Repr

/-- The canvas layer of a placed object. -/
inductive Layer
  | tables
  | views
  deriving DecidableEq, Repr

/-- `_MemoryHistoryEntry`: one immutable snapshot. -/
structure MemoryHistoryEntry (C : Type) where
  id : ℕ
  parentId : Option ℕ
  sourceDesignRevision : ℕ
  operationKind : OperationKind
  operationGroupId : Option String
  content : C

instance (C : Type) : HistoryEntry (MemoryHistoryEntry C) where
  entryId := MemoryHistoryEntry.id
  operationGroupId := MemoryHistoryEntry.operationGroupId

/-- `SchemiiDesign`, keyed by its workspace. -/
structure Design (C : Type) where
  revision : ℕ
  content : C
  fingerprint : String

/-- `DesignObjectPosition`. -/
structure ObjectPosition where
  objectId : String
  layer : Layer
  x : Float
  y : Float

/-- `SchemiiDesignLayout`, keyed by its workspace. -/
structure DesignLayout where
  revision : ℕ
  designRevision : ℕ
  objects : List ObjectPosition

/-- The errors of the design repository. `brokenChain` is the lookup failure of `_active_chain`. -/
inductive DesignError
  | conflict (currentRevision : ℕ)
  | layoutConflict (currentLayoutRevision currentDesignRevision : ℕ)
  | validation (message : String) (details : List (String × String))
  | historyBoundary (action : HistoryAction)
  | mutationBlocked
  | brokenChain
  deriving DecidableEq, Repr

/-- What the repository asks of the content of a design. -/
structure ContentRules (C : Type) where
  /-- `EMPTY_DESIGN_CONTENT`. -/
  empty : C
  /-- `validate_design_content`: the error it raises, if any. -/
  validateDesignContent : C → Option DesignError
  /-- `validate_design_transition`: the message it raises, if any. -/
  validateDesignTransition : C → C → Option String
  /-- `design_fingerprint`. -/
  designFingerprint : C → String
  /-- `design_object_ids`: the layer of each table and view. -/
  designObjectLayer : C → String → Option Layer
  /-- The empty design is valid. -/
  empty_valid : validateDesignContent empty = none

/-- What the repository's dictionaries hold for one workspace. -/
structure WorkspaceDesign (C : Type) where
  design : Option (Design C)
  layout : Option DesignLayout
  history : List (MemoryHistoryEntry C)
  historyState : Option (ℕ × ℕ)
  positionMemory : List ObjectPosition

/-- The dictionaries of the repository, by owner and workspace, and the next snapshot id. -/
structure DesignRepository (C : Type) where
  workspaces : String × String → WorkspaceDesign C
  nextHistoryId : ℕ

/-- `SchemiiDesignReplace`. -/
structure DesignReplace (C : Type) where
  expectedDesignRevision : ℕ
  content : C
  historyGroupId : Option String

/-- `SchemiiDesignLayoutReplace`. -/
structure DesignLayoutReplace where
  expectedLayoutRevision : ℕ
  expectedDesignRevision : ℕ
  objects : List ObjectPosition

/-- An outcome and the repository it leaves. -/
abbrev Outcome (C α : Type) : Type := Except DesignError α × DesignRepository C

namespace DesignRepository

variable {C : Type} (rules : ContentRules C)

/-- A repository that stores nothing. -/
def init (C : Type) : DesignRepository C where
  workspaces := fun _ ↦ ⟨none, none, [], none, []⟩
  nextHistoryId := 1

/-- Replace what the dictionaries hold for one workspace. -/
def setWorkspace (repository : DesignRepository C) (key : String × String)
    (workspace : WorkspaceDesign C) : DesignRepository C :=
  { repository with workspaces := Function.update repository.workspaces key workspace }

/-- `_design`: the saved design, or revision 0 of the empty one. -/
def currentDesign (workspace : WorkspaceDesign C) : Design C :=
  workspace.design.getD ⟨0, rules.empty, rules.designFingerprint rules.empty⟩

/-- `_layout`: the saved layout, or revision 0 of the empty one. -/
def currentLayout (workspace : WorkspaceDesign C) (designRevision : ℕ) : DesignLayout :=
  workspace.layout.getD ⟨0, designRevision, []⟩

/-- `_new_history_entry`: file a snapshot under the next id. -/
def newHistoryEntry (repository : DesignRepository C) (key : String × String)
    (parentId : Option ℕ) (sourceDesignRevision : ℕ) (operationKind : OperationKind)
    (operationGroupId : Option String) (content : C) :
    MemoryHistoryEntry C × DesignRepository C :=
  let entry : MemoryHistoryEntry C :=
    ⟨repository.nextHistoryId, parentId, sourceDesignRevision, operationKind, operationGroupId,
      content⟩
  let workspace := repository.workspaces key
  (entry, { repository.setWorkspace key { workspace with history := workspace.history ++ [entry] }
    with nextHistoryId := repository.nextHistoryId + 1 })

/-- Set the cursor and the tip of a workspace. -/
def setHistoryState (repository : DesignRepository C) (key : String × String) (cursor tip : ℕ) :
    DesignRepository C :=
  repository.setWorkspace key
    { repository.workspaces key with historyState := some (cursor, tip) }

/-- `_ensure_history`: file the design at hand as the root snapshot, unless there is a history. -/
def ensureHistory (repository : DesignRepository C) (key : String × String) (design : Design C) :
    DesignRepository C :=
  if (repository.workspaces key).historyState.isSome then repository
  else
    let (entry, filed) := repository.newHistoryEntry key none design.revision .initial none
      design.content
    filed.setHistoryState key entry.id entry.id

/-- The parent links of `_active_chain`, followed from a snapshot id to the root. The fuel is the
number of snapshots the walk may still visit. -/
def followParents (history : List (MemoryHistoryEntry C)) :
    ℕ → Option ℕ → Option (List (MemoryHistoryEntry C))
  | _, none => some []
  | 0, some _ => none
  | fuel + 1, some current =>
    match history.find? (fun entry ↦ entry.id = current) with
    | none => none
    | some entry => (followParents history fuel entry.parentId).map (entry :: ·)

/-- `_active_chain`: the snapshots from the root to the tip, and the position of the cursor. -/
def activeChain (workspace : WorkspaceDesign C) : Option (List (MemoryHistoryEntry C) × ℕ) :=
  match workspace.historyState with
  | none => none
  | some (cursor, tip) =>
    match followParents workspace.history workspace.history.length (some tip) with
    | none => none
    | some visited =>
      let chain := visited.reverse
      match chain.findIdx? (fun entry ↦ entry.id = cursor) with
      | none => none
      | some index => some (chain, index)

/-- The relinking loop of `_prune_history`: every kept snapshot gets its kept predecessor as
parent. -/
def relink (previous : Option ℕ) : List (MemoryHistoryEntry C) → List (MemoryHistoryEntry C)
  | [] => []
  | entry :: rest => { entry with parentId := previous } :: relink (some entry.id) rest

/-- `_prune_history`: keep the retained snapshots of the active chain, relinked. -/
def pruneHistory (limit : ℕ) (repository : DesignRepository C) (key : String × String) :
    DesignRepository C :=
  match activeChain (repository.workspaces key) with
  | none => repository
  | some (entries, _) =>
    repository.setWorkspace key { repository.workspaces key with
      history := relink none (retainedHistoryEntries entries limit) }

/-- `_advance_layout`: keep the positions whose object is still there, then bring back the
remembered positions of the objects that reappeared. -/
def advanceLayout (repository : DesignRepository C) (key : String × String) (design : Design C) :
    DesignRepository C :=
  let workspace := repository.workspaces key
  let current := currentLayout workspace (design.revision - 1)
  let allowed := rules.designObjectLayer design.content
  let objects := current.objects.filter fun position ↦
    allowed position.objectId = some position.layer
  let remembered := workspace.positionMemory.filter fun position ↦
    position.objectId ∉ objects.map ObjectPosition.objectId ∧
      allowed position.objectId = some position.layer
  repository.setWorkspace key { workspace with
    layout := some ⟨current.revision + 1, design.revision, objects ++ remembered⟩ }

/-- `_guard_mutation`: a checkpoint passes, every other save is refused while the guard answers
that a migration owns the workspace. -/
def guardMutation (blocked : Bool) (operationKind : OperationKind) : Option DesignError :=
  if operationKind ≠ .checkpoint ∧ blocked = true then some .mutationBlocked else none

/-- The position check of a submitted layout. -/
def misplacedPosition? (content : C) (positions : List ObjectPosition) : Option ObjectPosition :=
  positions.find? fun position ↦
    rules.designObjectLayer content position.objectId ≠ some position.layer

/-- `initialize`: the first revision of a design and its layout. -/
def initializeDesign (repository : DesignRepository C) (key : String × String) (content : C)
    (positions : List ObjectPosition) : Outcome C (Design C × DesignLayout) :=
  match rules.validateDesignContent content with
  | some error => (.error error, repository)
  | none =>
    match misplacedPosition? rules content positions with
    | some position =>
      (.error (.validation "Initial layout positions must reference imported design objects"
        [("objectId", position.objectId)]), repository)
    | none =>
      match (repository.workspaces key).design with
      | some current => (.error (.conflict current.revision), repository)
      | none =>
        let design : Design C := ⟨1, content, rules.designFingerprint content⟩
        let layout : DesignLayout := ⟨1, 1, positions⟩
        let saved := repository.setWorkspace key
          { repository.workspaces key with design := some design, layout := some layout }
        let (entry, filed) := saved.newHistoryEntry key none design.revision .initial none
          design.content
        let moved := filed.setHistoryState key entry.id entry.id
        (.ok (design, layout), moved.setWorkspace key
          { moved.workspaces key with positionMemory := positions })

/-- The part of `replace` after its checks: file the new revision as a snapshot after the cursor,
prune the history and carry the layout over. -/
def commitReplace (limit : ℕ) (repository : DesignRepository C) (key : String × String)
    (request : DesignReplace C) (operationKind : OperationKind) (cursor : ℕ)
    (current : Design C) : Outcome C (Design C) :=
  let revised : Design C :=
    ⟨current.revision + 1, request.content, rules.designFingerprint request.content⟩
  let saved := repository.setWorkspace key
    { repository.workspaces key with design := some revised }
  let (entry, filed) := saved.newHistoryEntry key (some cursor) revised.revision operationKind
    request.historyGroupId revised.content
  let moved := filed.setHistoryState key entry.id entry.id
  (.ok revised, advanceLayout rules (pruneHistory limit moved key) key revised)

/-- `replace`: save a complete design against the revision the caller read. -/
def replace (limit : ℕ) (repository : DesignRepository C) (key : String × String) (blocked : Bool)
    (request : DesignReplace C) (operationKind : OperationKind) : Outcome C (Design C) :=
  match rules.validateDesignContent request.content with
  | some error => (.error error, repository)
  | none =>
    match guardMutation blocked operationKind with
    | some error => (.error error, repository)
    | none =>
      let current := currentDesign rules (repository.workspaces key)
      let ensured := repository.ensureHistory key current
      if current.revision ≠ request.expectedDesignRevision then
        (.error (.conflict current.revision), ensured)
      else if operationKind = .edit ∧
          current.fingerprint = rules.designFingerprint request.content then
        (.ok current, ensured)
      else
        match rules.validateDesignTransition current.content request.content with
        | some message => (.error (.validation message [("reason", "dependent_object")]), ensured)
        | none =>
          match (ensured.workspaces key).historyState with
          | none => (.error .brokenChain, ensured)
          | some (cursor, _) =>
            commitReplace rules limit ensured key request operationKind cursor current

/-- The part of `_move_history` after its checks: save the target snapshot as a new revision and
move the cursor to it. -/
def commitMove (repository : DesignRepository C) (key : String × String) (current : Design C)
    (target : MemoryHistoryEntry C) (tip : ℕ) : Outcome C (Design C) :=
  let revised : Design C :=
    ⟨current.revision + 1, target.content, rules.designFingerprint target.content⟩
  let saved := repository.setWorkspace key
    { repository.workspaces key with design := some revised }
  (.ok revised, advanceLayout rules (saved.setHistoryState key target.id tip) key revised)

/-- `_move_history`: undo or redo one logical action. -/
def moveHistory (repository : DesignRepository C) (key : String × String) (blocked : Bool)
    (expectedDesignRevision : ℕ) (action : HistoryAction) : Outcome C (Design C) :=
  match guardMutation blocked .edit with
  | some error => (.error error, repository)
  | none =>
    let current := currentDesign rules (repository.workspaces key)
    if current.revision ≠ expectedDesignRevision then
      (.error (.conflict current.revision), repository)
    else
      let ensured := repository.ensureHistory key current
      match activeChain (ensured.workspaces key), (ensured.workspaces key).historyState with
      | some (entries, cursorIndex), some (_, tip) =>
        match historyTargetIndex entries cursorIndex action with
        | none => (.error (.historyBoundary action), ensured)
        | some targetIndex =>
          match entries[targetIndex]? with
          | none => (.error .brokenChain, ensured)
          | some target =>
            match rules.validateDesignContent target.content with
            | some error => (.error error, ensured)
            | none => commitMove rules ensured key current target tip
      | _, _ => (.error .brokenChain, ensured)

/-- `undo`. -/
def undo (repository : DesignRepository C) (key : String × String) (blocked : Bool)
    (expectedDesignRevision : ℕ) : Outcome C (Design C) :=
  moveHistory rules repository key blocked expectedDesignRevision .undo

/-- `redo`. -/
def redo (repository : DesignRepository C) (key : String × String) (blocked : Bool)
    (expectedDesignRevision : ℕ) : Outcome C (Design C) :=
  moveHistory rules repository key blocked expectedDesignRevision .redo

/-- Remember a position under its object, in place when the object is remembered already. -/
def remember (memory : List ObjectPosition) (position : ObjectPosition) : List ObjectPosition :=
  if position.objectId ∈ memory.map ObjectPosition.objectId then
    memory.map fun old ↦ if old.objectId = position.objectId then position else old
  else memory ++ [position]

/-- `replace_layout`: save the placement against the two revisions the caller read. -/
def replaceLayout (repository : DesignRepository C) (key : String × String)
    (request : DesignLayoutReplace) : Outcome C DesignLayout :=
  let workspace := repository.workspaces key
  let design := currentDesign rules workspace
  let current := currentLayout workspace design.revision
  if current.revision ≠ request.expectedLayoutRevision ∨
      design.revision ≠ request.expectedDesignRevision then
    (.error (.layoutConflict current.revision design.revision), repository)
  else
    match misplacedPosition? rules design.content request.objects with
    | some position =>
      (.error (.validation "Layout positions must reference a design object on its correct layer"
        [("objectId", position.objectId)]), repository)
    | none =>
      let revised : DesignLayout := ⟨current.revision + 1, design.revision, request.objects⟩
      (.ok revised, repository.setWorkspace key { workspace with
        layout := some revised
        positionMemory := request.objects.foldl remember workspace.positionMemory })

end DesignRepository

end Schemii.Designs
