import Schemii.Designs.Content
import Schemii.Foundations.KeyedChanges

/-!
# The permissions of a design edit

`design_permission_ids` of `ai/design_permissions.py`: what an edit of a design does, as the sorted
identifiers `collection.verb` of its effects.

`permission_ids_exact`: for contents whose objects have unique identifiers, the identifiers are those of
the effects of the edit (`Affects`), where an object of a table is identified by its table and its
identifier; there are none exactly when the contents are the same up to the order of their objects, the
columns of a table aside (`SameUpToOrder`). `_authorize_action` demands all of them.
-/

set_option autoImplicit false

namespace Schemii.Designs

open Foundations Foundations.KeyedChanges

/-! ### Effects -/

/-- `TOP_LEVEL_COLLECTIONS` and `TABLE_COLLECTIONS`. -/
inductive DesignCollection
  | types
  | tables
  | relationships
  | functions
  | views
  | triggers
  | columns
  | keys
  | checks
  | indexes
  deriving DecidableEq, Repr

/-- What happens to an object. -/
inductive EffectVerb
  | create
  | update
  | delete
  deriving DecidableEq, Repr

/-- The name of a collection. -/
def DesignCollection.word : DesignCollection → String
  | .types => "types"
  | .tables => "tables"
  | .relationships => "relationships"
  | .functions => "functions"
  | .views => "views"
  | .triggers => "triggers"
  | .columns => "columns"
  | .keys => "keys"
  | .checks => "checks"
  | .indexes => "indexes"

/-- The name of a verb. -/
def EffectVerb.word : EffectVerb → String
  | .create => "create"
  | .update => "update"
  | .delete => "delete"

/-- What an edit does to the objects of a collection. -/
abbrev DesignEffect := DesignCollection × EffectVerb

/-- `f"{collection}.{verb}"`. -/
def permissionId (effect : DesignEffect) : String :=
  effect.1.word ++ "." ++ effect.2.word

theorem permissionId_injective : Function.Injective permissionId := by
  rintro ⟨collection, verb⟩ ⟨otherCollection, otherVerb⟩ hsame
  have hplain : ∀ collection : DesignCollection, '.' ∉ collection.word.toList := by
    rintro (_ | _ | _ | _ | _ | _ | _ | _ | _ | _) <;> decide
  have hverb : ∀ verb : EffectVerb, '.' ∉ verb.word.toList := by
    rintro (_ | _ | _) <;> decide
  have hchars := congrArg String.toList hsame
  simp only [permissionId, String.toList_append] at hchars
  have hdot : ("." : String).toList = ['.'] := rfl
  rw [hdot, List.append_assoc, List.append_assoc, List.singleton_append, List.singleton_append,
    List.append_cons_inj_of_notMem (hplain collection) (hverb verb)] at hchars
  have hcollection : collection = otherCollection := by
    have hword := String.toList_injective hchars.1
    cases collection <;> cases otherCollection <;> first | rfl | exact absurd hword (by decide)
  have hsameVerb : verb = otherVerb := by
    have hword := String.toList_injective hchars.2.2
    cases verb <;> cases otherVerb <;> first | rfl | exact absurd hword (by decide)
  rw [hcollection, hsameVerb]

/-! ### The comparison -/

/-- `ValueError`. -/
inductive PermissionError
  | notUnique
  deriving DecidableEq, Repr

/-- `_objects`: items with identifiers that are texts and differ. -/
def identified {α : Type} (id : α → String) (items : List α) : Except PermissionError (List α) :=
  if (∀ item ∈ items, id item ≠ "") ∧ (items.map id).Nodup then .ok items else .error .notUnique

section Compare

variable {α β : Type} [DecidableEq β] (collection : DesignCollection) (id : α → String)
  (own : α → β)

/-- `compare`, for the objects of one collection and their own fields. -/
def compareObjects (oldItems newItems : List α) : Except PermissionError (List DesignEffect) := do
  let old ← identified id oldItems
  let new ← identified id newItems
  let deleted := if ∃ item ∈ old, id item ∉ new.map id then [(collection, .delete)] else []
  let created := if ∃ item ∈ new, id item ∉ old.map id then [(collection, .create)] else []
  let moved := if collection = .columns ∧ survivors id old new ≠ survivors id new old then
    [(collection, .update)] else []
  let updated := if ∃ item ∈ old, ∃ other ∈ new, id item = id other ∧ own item ≠ own other then
    [(collection, .update)] else []
  .ok (deleted ++ created ++ moved ++ updated)

end Compare

/-- The objects of a table, if it is there. -/
def ownedBy {α : Type} (tables : List DesignTable) (parent : String)
    (objects : DesignTable → List α) : List α :=
  ((tables.find? fun table ↦ table.id = parent).map objects).getD []

/-- A table without the objects that it owns. -/
def tableOwn (table : DesignTable) : DesignTable :=
  { table with columns := [], keys := [], checks := [], indexes := [] }

/-- `compare`, for the collections of one table. -/
def compareTable (old new : List DesignTable) (parent : String) :
    Except PermissionError (List DesignEffect) := do
  let columns ← compareObjects .columns (fun column ↦ column.id) (fun column ↦ column)
    (ownedBy old parent fun table ↦ table.columns) (ownedBy new parent fun table ↦ table.columns)
  let keys ← compareObjects .keys (fun key ↦ key.id) (fun key ↦ key)
    (ownedBy old parent fun table ↦ table.keys) (ownedBy new parent fun table ↦ table.keys)
  let checks ← compareObjects .checks (fun check ↦ check.id) (fun check ↦ check)
    (ownedBy old parent fun table ↦ table.checks) (ownedBy new parent fun table ↦ table.checks)
  let indexes ← compareObjects .indexes (fun index ↦ index.id) (fun index ↦ index)
    (ownedBy old parent fun table ↦ table.indexes) (ownedBy new parent fun table ↦ table.indexes)
  .ok (columns ++ keys ++ checks ++ indexes)

/-- `design_permission_ids`. -/
def designPermissionIds (before after : SchemiiDesignContent) :
    Except PermissionError (List String) := do
  let types ← compareObjects .types (fun type ↦ type.id) id before.types after.types
  let tables ← compareObjects .tables (fun table ↦ table.id) tableOwn before.tables after.tables
  let owned ← ((before.tables ++ after.tables).map fun table ↦ table.id).dedup.mapM
    (compareTable before.tables after.tables)
  let relationships ← compareObjects .relationships (fun relationship ↦ relationship.id) id
    before.relationships after.relationships
  let functions ← compareObjects .functions (fun routine ↦ routine.id) id
    before.functions after.functions
  let views ← compareObjects .views (fun view ↦ view.id) id before.views after.views
  let triggers ← compareObjects .triggers (fun trigger ↦ trigger.id) id
    before.triggers after.triggers
  .ok ((((types ++ tables ++ owned.flatten ++ relationships ++ functions ++ views ++ triggers).map
    permissionId).dedup).insertionSort (· ≤ ·))

/-! ### Authority -/

/-- What the settings of an assistant say about an action. -/
inductive ActionMode
  | disabled
  | ask
  | automatic
  deriving DecidableEq, Repr

/-- `disabled_action_ids`, for the permissions of a design edit. -/
def disabledActionIds (modes : String → Option ActionMode) (required : List String) : List String :=
  required.filter fun key ↦ (modes key).getD .disabled = .disabled

/-- Why an edit is not authorized. -/
inductive AuthorityError
  | comparison (error : PermissionError)
  | permissionRequired (disabled : List String)
  deriving DecidableEq, Repr

/-- `_authorize_action`, for a design and the candidate that an action makes of it: the permissions that
are demanded. -/
def authorizeDesign (modes : String → Option ActionMode) (design candidate : SchemiiDesignContent) :
    Except AuthorityError (List String) :=
  match designPermissionIds design candidate with
  | .error error => .error (.comparison error)
  | .ok required =>
    if disabledActionIds modes required = [] then .ok required
    else .error (.permissionRequired (disabledActionIds modes required))

/-! ### What an edit does -/

/-- The objects of a list have identifiers that are texts and differ. -/
def Identified {α : Type} (id : α → String) (items : List α) : Prop :=
  (∀ item ∈ items, id item ≠ "") ∧ (items.map id).Nodup

/-- What happens to the objects of a list. In an ordered one, another order is an update. -/
def Effected {α β : Type} (id : α → String) (own : α → β) (ordered : Prop) (old new : List α) :
    EffectVerb → Prop
  | .create => KeyedChanges.Created id old new
  | .delete => Deleted id old new
  | .update => Updated id own old new ∨ ordered ∧ Reordered id old new

/-- What an edit does to the objects of a table. -/
def OwnedAffects (before after : List DesignTable) (parent : String) :
    DesignCollection → EffectVerb → Prop
  | .columns => Effected (fun column ↦ column.id) (fun column ↦ column) True
      (ownedBy before parent fun table ↦ table.columns)
      (ownedBy after parent fun table ↦ table.columns)
  | .keys => Effected (fun key ↦ key.id) (fun key ↦ key) False
      (ownedBy before parent fun table ↦ table.keys) (ownedBy after parent fun table ↦ table.keys)
  | .checks => Effected (fun check ↦ check.id) (fun check ↦ check) False
      (ownedBy before parent fun table ↦ table.checks)
      (ownedBy after parent fun table ↦ table.checks)
  | .indexes => Effected (fun index ↦ index.id) (fun index ↦ index) False
      (ownedBy before parent fun table ↦ table.indexes)
      (ownedBy after parent fun table ↦ table.indexes)
  | _ => fun _ ↦ False

/-- What an edit does to the objects of a collection. The objects of tables are compared table by
table. -/
def Affects (before after : SchemiiDesignContent) : DesignCollection → EffectVerb → Prop
  | .types => Effected (fun type ↦ type.id) id False before.types after.types
  | .tables => Effected (fun table ↦ table.id) tableOwn False before.tables after.tables
  | .relationships => Effected (fun relationship ↦ relationship.id) id False
      before.relationships after.relationships
  | .functions => Effected (fun routine ↦ routine.id) id False before.functions after.functions
  | .views => Effected (fun view ↦ view.id) id False before.views after.views
  | .triggers => Effected (fun trigger ↦ trigger.id) id False before.triggers after.triggers
  | collection => fun verb ↦
      ∃ parent, OwnedAffects before.tables after.tables parent collection verb

/-- The objects of every list of a content have identifiers that are texts and differ. -/
structure StableIds (content : SchemiiDesignContent) : Prop where
  types : Identified (fun type ↦ type.id) content.types
  tables : Identified (fun table ↦ table.id) content.tables
  relationships : Identified (fun relationship ↦ relationship.id) content.relationships
  functions : Identified (fun routine ↦ routine.id) content.functions
  views : Identified (fun view ↦ view.id) content.views
  triggers : Identified (fun trigger ↦ trigger.id) content.triggers
  columns : ∀ table ∈ content.tables, Identified (fun column ↦ column.id) table.columns
  keys : ∀ table ∈ content.tables, Identified (fun key ↦ key.id) table.keys
  checks : ∀ table ∈ content.tables, Identified (fun check ↦ check.id) table.checks
  indexes : ∀ table ∈ content.tables, Identified (fun index ↦ index.id) table.indexes

/-! ### The comparison finds the effects -/

section Compare

variable {α β : Type} [DecidableEq β] {id : α → String}

omit [DecidableEq β] in
theorem identified_ok {items : List α} (h : Identified id items) : identified id items = .ok items :=
  if_pos h

theorem compareObjects_ok (collection : DesignCollection) (own : α → β) {old new : List α}
    (hold : Identified id old) (hnew : Identified id new) :
    ∃ effects, compareObjects collection id own old new = .ok effects ∧ ∀ effect,
      effect ∈ effects ↔ effect.1 = collection ∧
        Effected id own (collection = .columns) old new effect.2 := by
  refine ⟨_, by rw [compareObjects, identified_ok hold, identified_ok hnew]; rfl, ?_⟩
  have hcreated : (∃ item ∈ new, id item ∉ old.map id) ↔ KeyedChanges.Created id old new := by
    simp only [KeyedChanges.Created, List.mem_map, not_exists, not_and]
  have hdeleted : (∃ item ∈ old, id item ∉ new.map id) ↔ Deleted id old new := by
    simp only [Deleted, List.mem_map, not_exists, not_and]
  have hone : ∀ (condition : Prop) [Decidable condition] (effect known : DesignEffect),
      effect ∈ (if condition then [known] else []) ↔ condition ∧ effect = known := by
    intro condition _ effect known
    split_ifs with hcondition <;> simp [hcondition]
  rintro ⟨found, verb⟩
  rw [List.mem_append, List.mem_append, List.mem_append, hone, hone, hone, hone, hcreated, hdeleted]
  cases verb with
  | create =>
    simp only [Effected, Prod.mk.injEq, reduceCtorEq, and_false, and_true, or_false, false_or]
    exact and_comm
  | delete =>
    simp only [Effected, Prod.mk.injEq, reduceCtorEq, and_false, and_true, or_false]
    exact and_comm
  | update =>
    simp only [Prod.mk.injEq, reduceCtorEq, and_false, and_true, false_or]
    rw [← or_and_right, and_comm, or_comm]
    rfl

end Compare

theorem not_effected_nil {α β : Type} (id : α → String) (own : α → β) (ordered : Prop)
    (verb : EffectVerb) : ¬ Effected id own ordered [] [] verb := by
  cases verb <;> simp [Effected, KeyedChanges.Created, Deleted, Updated, Reordered, survivors]

theorem ownedBy_cases {α : Type} (tables : List DesignTable) (parent : String)
    (objects : DesignTable → List α) :
    ownedBy tables parent objects = [] ∧ parent ∉ tables.map (fun table ↦ table.id) ∨
      ∃ table ∈ tables, table.id = parent ∧ ownedBy tables parent objects = objects table := by
  unfold ownedBy
  cases hfound : tables.find? fun table ↦ table.id = parent with
  | none =>
    refine .inl ⟨rfl, fun hparent ↦ ?_⟩
    obtain ⟨table, htable, hid⟩ := List.mem_map.mp hparent
    exact absurd hid (by simpa using List.find?_eq_none.mp hfound table htable)
  | some table =>
    exact .inr ⟨table, List.mem_of_find?_eq_some hfound, by simpa using List.find?_some hfound, rfl⟩

/-- Assumes: tables whose objects have identifiers. So have the objects of a table that may be there. -/
theorem identified_ownedBy {α : Type} {id : α → String} {tables : List DesignTable}
    {objects : DesignTable → List α} (h : ∀ table ∈ tables, Identified id (objects table))
    (parent : String) : Identified id (ownedBy tables parent objects) := by
  rcases ownedBy_cases tables parent objects with ⟨hnone, -⟩ | ⟨table, htable, -, hsome⟩
  · rw [hnone]
    exact ⟨List.forall_mem_nil _, List.nodup_nil⟩
  · rw [hsome]
    exact h table htable

theorem ownedBy_of_not_mem {α : Type} {tables : List DesignTable} {parent : String}
    (h : parent ∉ tables.map fun table ↦ table.id) (objects : DesignTable → List α) :
    ownedBy tables parent objects = [] := by
  rcases ownedBy_cases tables parent objects with ⟨hnone, -⟩ | ⟨table, htable, hid, -⟩
  · exact hnone
  · exact absurd (List.mem_map.mpr ⟨table, htable, hid⟩) h

theorem not_ownedAffects {before after : List DesignTable} {parent : String}
    {collection : DesignCollection} {verb : EffectVerb}
    (hbefore : parent ∉ before.map fun table ↦ table.id)
    (hafter : parent ∉ after.map fun table ↦ table.id) :
    ¬ OwnedAffects before after parent collection verb := by
  cases collection with
  | columns | keys | checks | indexes =>
    rw [OwnedAffects, ownedBy_of_not_mem hbefore, ownedBy_of_not_mem hafter]
    exact not_effected_nil _ _ _ _
  | _ => exact id

section Contents

variable {before after : SchemiiDesignContent} (hbefore : StableIds before)
  (hafter : StableIds after)
include hbefore hafter

/-- Assumes: contents with identifiers. The comparison of a table finds what happened to its objects. -/
theorem compareTable_ok (parent : String) :
    ∃ effects, compareTable before.tables after.tables parent = .ok effects ∧ ∀ effect,
      effect ∈ effects ↔
        OwnedAffects before.tables after.tables parent effect.1 effect.2 := by
  obtain ⟨columns, hcolumns, hcolumnsIff⟩ := compareObjects_ok .columns (fun column ↦ column)
    (identified_ownedBy hbefore.columns parent) (identified_ownedBy hafter.columns parent)
  obtain ⟨keys, hkeys, hkeysIff⟩ := compareObjects_ok .keys (fun key ↦ key)
    (identified_ownedBy hbefore.keys parent) (identified_ownedBy hafter.keys parent)
  obtain ⟨checks, hchecks, hchecksIff⟩ := compareObjects_ok .checks (fun check ↦ check)
    (identified_ownedBy hbefore.checks parent) (identified_ownedBy hafter.checks parent)
  obtain ⟨indexes, hindexes, hindexesIff⟩ := compareObjects_ok .indexes (fun index ↦ index)
    (identified_ownedBy hbefore.indexes parent) (identified_ownedBy hafter.indexes parent)
  refine ⟨columns ++ keys ++ checks ++ indexes, ?_, ?_⟩
  · simp only [compareTable, hcolumns, hkeys, hchecks, hindexes]
    rfl
  · rintro ⟨collection, verb⟩
    simp only [List.mem_append, hcolumnsIff, hkeysIff, hchecksIff, hindexesIff]
    cases collection <;>
      simp only [reduceCtorEq, false_and, true_and, or_false, false_or, OwnedAffects]

/-- Assumes: contents with identifiers. The comparison finds the effects of the edit. -/
theorem designPermissionIds_ok :
    ∃ effects : List DesignEffect, designPermissionIds before after =
        .ok ((effects.map permissionId).dedup.insertionSort (· ≤ ·)) ∧
      ∀ collection verb, (collection, verb) ∈ effects ↔ Affects before after collection verb := by
  obtain ⟨types, htypes, htypesIff⟩ := compareObjects_ok .types id hbefore.types hafter.types
  obtain ⟨tables, htables, htablesIff⟩ :=
    compareObjects_ok .tables tableOwn hbefore.tables hafter.tables
  obtain ⟨relationships, hrelationships, hrelationshipsIff⟩ :=
    compareObjects_ok .relationships id hbefore.relationships hafter.relationships
  obtain ⟨functions, hfunctions, hfunctionsIff⟩ :=
    compareObjects_ok .functions id hbefore.functions hafter.functions
  obtain ⟨views, hviews, hviewsIff⟩ := compareObjects_ok .views id hbefore.views hafter.views
  obtain ⟨triggers, htriggers, htriggersIff⟩ :=
    compareObjects_ok .triggers id hbefore.triggers hafter.triggers
  obtain ⟨owned, howned, hownedAll⟩ := Checks.mapM_ok
    ((before.tables ++ after.tables).map fun table ↦ table.id).dedup
    fun parent _ ↦ compareTable_ok hbefore hafter parent
  refine ⟨types ++ tables ++ owned.flatten ++ relationships ++ functions ++ views ++ triggers, ?_, ?_⟩
  · simp only [designPermissionIds, htypes, htables, howned, hrelationships, hfunctions, hviews,
      htriggers]
    rfl
  · intro collection verb
    have hownedIff : (collection, verb) ∈ owned.flatten ↔
        ∃ parent, OwnedAffects before.tables after.tables parent collection verb := by
      constructor
      · intro hmem
        obtain ⟨effects, heffects, heffect⟩ := List.mem_flatten.mp hmem
        obtain ⟨parent, -, hparent⟩ := Checks.exists_of_mem_right hownedAll heffects
        exact ⟨parent, (hparent (collection, verb)).mp heffect⟩
      · rintro ⟨parent, haffects⟩
        have hknown : parent ∈ ((before.tables ++ after.tables).map fun table ↦ table.id).dedup := by
          rw [List.mem_dedup, List.map_append, List.mem_append]
          by_contra hunknown
          exact not_ownedAffects (not_or.mp hunknown).1 (not_or.mp hunknown).2 haffects
        obtain ⟨effects, heffects, hparent⟩ := Checks.exists_of_mem_left hownedAll hknown
        exact List.mem_flatten.mpr ⟨effects, heffects, (hparent (collection, verb)).mpr haffects⟩
    simp only [List.mem_append, htypesIff, htablesIff, hrelationshipsIff, hfunctionsIff, hviewsIff,
      htriggersIff, hownedIff]
    cases collection <;>
      simp only [reduceCtorEq, false_and, true_and, or_false, false_or, OwnedAffects, Affects,
        exists_false]

end Contents

/-! ### Edits without effects -/

/-- Two tables are the same up to the order of their keys, checks and indexes. -/
structure SameTable (first second : DesignTable) : Prop where
  id : first.id = second.id
  name : first.name = second.name
  columns : first.columns = second.columns
  keys : first.keys.Perm second.keys
  checks : first.checks.Perm second.checks
  indexes : first.indexes.Perm second.indexes

/-- Two contents are the same up to the order of their objects, other than columns. -/
structure SameUpToOrder (before after : SchemiiDesignContent) : Prop where
  types : before.types.Perm after.types
  tables : ∃ others, others.Perm after.tables ∧ List.Forall₂ SameTable before.tables others
  relationships : before.relationships.Perm after.relationships
  functions : before.functions.Perm after.functions
  views : before.views.Perm after.views
  triggers : before.triggers.Perm after.triggers

section Unchanged

variable {α β : Type} {id : α → String} {old new : List α}

theorem not_effected_iff (own : α → β) (ordered : Prop) :
    (∀ verb, ¬ Effected id own ordered old new verb) ↔ ¬ KeyedChanges.Created id old new ∧ ¬ Deleted id old new ∧
      ¬ Updated id own old new ∧ ¬ (ordered ∧ Reordered id old new) := by
  constructor
  · intro hnone
    exact ⟨hnone .create, hnone .delete, not_or.mp (hnone .update)⟩
  · rintro ⟨hcreated, hdeleted, hupdated, hordered⟩ (_ | _ | _)
    · exact hcreated
    · exact not_or.mpr ⟨hupdated, hordered⟩
    · exact hdeleted

/-- Assumes: objects with identifiers, in no order. Nothing happened to them exactly when they are the
same. -/
theorem unordered_iff (hold : Identified id old) (hnew : Identified id new) :
    (∀ verb, ¬ Effected id (fun object ↦ object) False old new verb) ↔ old.Perm new := by
  rw [not_effected_iff, perm_iff_unchanged hold.2 hnew.2, false_and, not_false_iff, and_true]
  rfl

/-- Assumes: objects with identifiers, in an order. Nothing happened to them exactly when the lists are
the same. -/
theorem ordered_iff (hold : Identified id old) (hnew : Identified id new) :
    (∀ verb, ¬ Effected id (fun object ↦ object) True old new verb) ↔ old = new := by
  rw [not_effected_iff, eq_iff_unchanged hold.2 hnew.2, true_and]
  rfl

end Unchanged

/-- Assumes: tables with identifiers. The objects of one of them are found under its identifier. -/
theorem ownedBy_of_mem {α : Type} {tables : List DesignTable}
    (h : Identified (fun table ↦ table.id) tables) {table : DesignTable} (htable : table ∈ tables)
    (objects : DesignTable → List α) : ownedBy tables table.id objects = objects table := by
  rcases ownedBy_cases tables table.id objects with ⟨-, hnone⟩ | ⟨found, hfound, hid, hsome⟩
  · exact absurd (List.mem_map_of_mem htable) hnone
  · rw [hsome, List.inj_on_of_nodup_map h.2 hfound htable hid]

section Contents

variable {before after : SchemiiDesignContent} (hbefore : StableIds before)
  (hafter : StableIds after)
include hbefore hafter

/-- Assumes: a table of both contents. Nothing happened to it or its objects exactly when it is the
same up to order. -/
theorem sameTable_iff {first second : DesignTable} (hfirst : first ∈ before.tables)
    (hsecond : second ∈ after.tables) (hid : first.id = second.id) :
    SameTable first second ↔ tableOwn first = tableOwn second ∧ ∀ collection verb,
      ¬ OwnedAffects before.tables after.tables first.id collection verb := by
  have hcolumns := ordered_iff (hbefore.columns first hfirst) (hafter.columns second hsecond)
  have hkeys := unordered_iff (hbefore.keys first hfirst) (hafter.keys second hsecond)
  have hchecks := unordered_iff (hbefore.checks first hfirst) (hafter.checks second hsecond)
  have hindexes := unordered_iff (hbefore.indexes first hfirst) (hafter.indexes second hsecond)
  have hold : ∀ {α : Type} (objects : DesignTable → List α),
      ownedBy before.tables first.id objects = objects first := ownedBy_of_mem hbefore.tables hfirst
  have hnew : ∀ {α : Type} (objects : DesignTable → List α),
      ownedBy after.tables first.id objects = objects second := by
    rw [hid]
    exact ownedBy_of_mem hafter.tables hsecond
  constructor
  · intro hsame
    refine ⟨?_, fun collection verb haffects ↦ ?_⟩
    · rw [tableOwn, tableOwn, hsame.id, hsame.name]
    · cases collection with
      | columns =>
        rw [OwnedAffects, hold, hnew] at haffects
        exact hcolumns.mpr hsame.columns verb haffects
      | keys =>
        rw [OwnedAffects, hold, hnew] at haffects
        exact hkeys.mpr hsame.keys verb haffects
      | checks =>
        rw [OwnedAffects, hold, hnew] at haffects
        exact hchecks.mpr hsame.checks verb haffects
      | indexes =>
        rw [OwnedAffects, hold, hnew] at haffects
        exact hindexes.mpr hsame.indexes verb haffects
      | _ => exact haffects
  · rintro ⟨hown, hnone⟩
    have hname := congrArg (fun table : DesignTable ↦ table.name) hown
    refine ⟨hid, hname, hcolumns.mp fun verb heffected ↦ ?_,
      hkeys.mp fun verb heffected ↦ ?_, hchecks.mp fun verb heffected ↦ ?_,
      hindexes.mp fun verb heffected ↦ ?_⟩
    · refine hnone .columns verb ?_
      rwa [OwnedAffects, hold, hnew]
    · refine hnone .keys verb ?_
      rwa [OwnedAffects, hold, hnew]
    · refine hnone .checks verb ?_
      rwa [OwnedAffects, hold, hnew]
    · refine hnone .indexes verb ?_
      rwa [OwnedAffects, hold, hnew]

omit hbefore hafter in
theorem affects_of_owned {parent : String} {collection : DesignCollection} {verb : EffectVerb}
    (h : OwnedAffects before.tables after.tables parent collection verb) :
    Affects before after collection verb := by
  cases collection with
  | columns | keys | checks | indexes => exact ⟨parent, h⟩
  | _ => exact h.elim

/-- Assumes: tables that are the same up to order. Nothing happened to their objects. -/
theorem not_owned_of_same
    (h : ∃ others, others.Perm after.tables ∧ List.Forall₂ SameTable before.tables others)
    (parent : String) (collection : DesignCollection) (verb : EffectVerb) :
    ¬ OwnedAffects before.tables after.tables parent collection verb := by
  obtain ⟨hcreated, hdeleted, hsame⟩ := (unchanged_iff (fun _ _ hsame ↦ hsame.id)
    hbefore.tables.2 hafter.tables.2).mp h
  by_cases hknown : parent ∈ before.tables.map fun table ↦ table.id
  · obtain ⟨first, hfirst, rfl⟩ := List.mem_map.mp hknown
    by_cases hstays : ∃ second ∈ after.tables, second.id = first.id
    · obtain ⟨second, hsecond, hid⟩ := hstays
      exact ((sameTable_iff hbefore hafter hfirst hsecond hid.symm).mp
        (hsame first hfirst second hsecond hid.symm)).2 collection verb
    · push Not at hstays
      exact absurd ⟨first, hfirst, hstays⟩ hdeleted
  · refine not_ownedAffects hknown fun hlater ↦ hcreated ?_
    obtain ⟨second, hsecond, rfl⟩ := List.mem_map.mp hlater
    exact ⟨second, hsecond, fun first hfirst hid ↦
      hknown (List.mem_map.mpr ⟨first, hfirst, hid⟩)⟩

/-- Assumes: contents with identifiers. An edit has no effect exactly when the contents are the same up
to order. -/
theorem no_effect_iff :
    (∀ collection verb, ¬ Affects before after collection verb) ↔ SameUpToOrder before after := by
  constructor
  · intro hnone
    obtain ⟨hcreated, hdeleted, hupdated, -⟩ := (not_effected_iff tableOwn False).mp (hnone .tables)
    refine ⟨(unordered_iff hbefore.types hafter.types).mp (hnone .types), ?_,
      (unordered_iff hbefore.relationships hafter.relationships).mp (hnone .relationships),
      (unordered_iff hbefore.functions hafter.functions).mp (hnone .functions),
      (unordered_iff hbefore.views hafter.views).mp (hnone .views),
      (unordered_iff hbefore.triggers hafter.triggers).mp (hnone .triggers)⟩
    refine (unchanged_iff (fun _ _ hsame ↦ hsame.id) hbefore.tables.2 hafter.tables.2).mpr
      ⟨hcreated, hdeleted, fun first hfirst second hsecond hid ↦ ?_⟩
    refine (sameTable_iff hbefore hafter hfirst hsecond hid).mpr ⟨?_, fun collection verb howned ↦
      hnone collection verb (affects_of_owned howned)⟩
    by_contra hown
    exact hupdated ⟨first, hfirst, second, hsecond, hid, hown⟩
  · intro hsame collection verb
    cases collection with
    | types => exact (unordered_iff hbefore.types hafter.types).mpr hsame.types verb
    | relationships =>
      exact (unordered_iff hbefore.relationships hafter.relationships).mpr hsame.relationships verb
    | functions => exact (unordered_iff hbefore.functions hafter.functions).mpr hsame.functions verb
    | views => exact (unordered_iff hbefore.views hafter.views).mpr hsame.views verb
    | triggers => exact (unordered_iff hbefore.triggers hafter.triggers).mpr hsame.triggers verb
    | tables =>
      obtain ⟨hcreated, hdeleted, htables⟩ := (unchanged_iff (fun _ _ hsame ↦ hsame.id)
        hbefore.tables.2 hafter.tables.2).mp hsame.tables
      refine (not_effected_iff tableOwn False).mpr ⟨hcreated, hdeleted, ?_, fun hordered ↦ hordered.1⟩ verb
      rintro ⟨first, hfirst, second, hsecond, hid, hown⟩
      exact hown ((sameTable_iff hbefore hafter hfirst hsecond hid).mp
        (htables first hfirst second hsecond hid)).1
    | columns | keys | checks | indexes =>
      rintro ⟨parent, howned⟩
      exact not_owned_of_same hbefore hafter hsame.tables parent _ verb howned

/-- Assumes: contents whose objects have unique identifiers. The permissions of an edit are those of its
effects, and there are none exactly when the contents are the same up to the order of their objects,
columns aside. An edit is authorized only with all of them. -/
theorem permission_ids_exact :
    ∃ permissions, designPermissionIds before after = .ok permissions ∧
      (∀ collection verb, permissionId (collection, verb) ∈ permissions ↔
        Affects before after collection verb) ∧
      (∀ permission ∈ permissions, ∃ effect, permission = permissionId effect) ∧
      (permissions = [] ↔ SameUpToOrder before after) ∧
      ∀ modes, (authorizeDesign modes before after).isOk ↔ ∀ collection verb,
        Affects before after collection verb →
          (modes (permissionId (collection, verb))).getD .disabled ≠ .disabled := by
  obtain ⟨effects, hpermissions, heffects⟩ := designPermissionIds_ok hbefore hafter
  have hmem : ∀ permission, permission ∈
      (effects.map permissionId).dedup.insertionSort (· ≤ ·) ↔ ∃ effect ∈ effects,
        permissionId effect = permission := by
    intro permission
    rw [List.mem_insertionSort, List.mem_dedup, List.mem_map]
  refine ⟨_, hpermissions, fun collection verb ↦ ?_, fun permission hpermission ↦ ?_, ?_,
    fun modes ↦ ?_⟩
  · rw [hmem, ← heffects]
    constructor
    · rintro ⟨effect, heffect, hsame⟩
      exact permissionId_injective hsame ▸ heffect
    · exact fun heffect ↦ ⟨_, heffect, rfl⟩
  · obtain ⟨effect, -, hsame⟩ := (hmem permission).mp hpermission
    exact ⟨effect, hsame.symm⟩
  · rw [← no_effect_iff hbefore hafter, List.eq_nil_iff_forall_not_mem]
    constructor
    · intro hnone collection verb haffects
      exact hnone _ ((hmem _).mpr ⟨_, (heffects collection verb).mpr haffects, rfl⟩)
    · intro hnone permission hpermission
      obtain ⟨⟨collection, verb⟩, heffect, -⟩ := (hmem permission).mp hpermission
      exact hnone collection verb ((heffects collection verb).mp heffect)
  · have hok : (authorizeDesign modes before after).isOk ↔ disabledActionIds modes
        ((effects.map permissionId).dedup.insertionSort (· ≤ ·)) = [] := by
      rw [authorizeDesign, hpermissions]
      simp only
      split_ifs with hall
      · exact iff_of_true rfl hall
      · exact iff_of_false nofun hall
    rw [hok, disabledActionIds, List.filter_eq_nil_iff]
    constructor
    · intro hall collection verb haffects hdisabled
      refine hall _ ((hmem _).mpr ⟨_, (heffects collection verb).mpr haffects, rfl⟩) ?_
      exact decide_eq_true hdisabled
    · intro hall permission hpermission hdisabled
      obtain ⟨⟨collection, verb⟩, heffect, rfl⟩ := (hmem permission).mp hpermission
      exact hall collection verb ((heffects collection verb).mp heffect) (of_decide_eq_true hdisabled)

end Contents

/-! ### A column that moves -/

/-- A column of text. -/
def textColumn (id name : String) : DesignColumn where
  id := id
  name := name
  dataType := "text"
  nullable := true
  defaultExpression := none
  identity := none
  generatedExpression := none
  generatedSourceColumnIds := []

/-- A table of columns only. -/
def columnsOnly (columns : List DesignColumn) : SchemiiDesignContent :=
  ⟨[], [⟨"tbl_1", "people", columns, [], [], []⟩], [], [], [], []⟩

/-- An edit that puts a new column before two others that change places. -/
theorem columns_move :
    ∃ permissions, designPermissionIds
        (columnsOnly [textColumn "col_1" "name", textColumn "col_2" "city"])
        (columnsOnly [textColumn "col_3" "id", textColumn "col_2" "city", textColumn "col_1" "name"]) =
          .ok permissions ∧ permissionId (.columns, .update) ∈ permissions := by
  have hstable : ∀ columns : List DesignColumn, Identified (fun column ↦ column.id) columns →
      StableIds (columnsOnly columns) := by
    intro columns hcolumns
    refine ⟨?_, ?_, ?_, ?_, ?_, ?_, ?_, ?_, ?_, ?_⟩ <;>
      simp [Identified, columnsOnly]
    exact hcolumns
  obtain ⟨permissions, hpermissions, haffects, -⟩ := permission_ids_exact
    (hstable [textColumn "col_1" "name", textColumn "col_2" "city"] ⟨by decide, by decide⟩)
    (hstable [textColumn "col_3" "id", textColumn "col_2" "city", textColumn "col_1" "name"]
      ⟨by decide, by decide⟩)
  refine ⟨permissions, hpermissions, (haffects .columns .update).mpr ⟨"tbl_1", .inr ⟨trivial, ?_⟩⟩⟩
  unfold Reordered
  decide

end Schemii.Designs
