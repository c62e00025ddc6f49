import Schemii.Migrations.Planner

/-!
# What the planner plans

Inversion lemmas for the passes of `Migrations.Planner`: which pass a pending step comes from, and from
which objects. `mem_planned_iff` names the passes; `Rebuilt` says what is known of a table that a plan
without blockers rebuilds. The texts of the statements of a phase tell their objects apart.
-/

set_option autoImplicit false

namespace Schemii.Migrations.Planning

open Foundations
open Designs hiding quote columnDefinition

/-! ### Lookups -/

section Lookups

variable {α : Type} {id : α → String} {items : List α} {key : String} {item : α}

theorem byId_eq_some (h : byId id items key = some item) : item ∈ items ∧ id item = key := by
  unfold byId at h
  exact ⟨List.mem_reverse.mp (List.mem_of_find?_eq_some h), by simpa using List.find?_some h⟩

theorem byId_of_mem (hids : (items.map id).Nodup) (h : item ∈ items) :
    byId id items (id item) = some item := by
  unfold byId
  obtain ⟨found, hfound⟩ : ∃ found, (items.reverse.find? fun other ↦ id other = id item) =
      some found := by
    refine Option.isSome_iff_exists.mp (List.find?_isSome.mpr ⟨item, List.mem_reverse.mpr h, ?_⟩)
    simp
  have hsame : id found = id item := by simpa using List.find?_some hfound
  rw [hfound, List.inj_on_of_nodup_map hids (List.mem_reverse.mp (List.mem_of_find?_eq_some hfound))
    h hsame]

theorem mem_ids_of_byId (h : byId id items key = some item) : key ∈ items.map id := by
  obtain ⟨hmem, rfl⟩ := byId_eq_some h
  exact List.mem_map_of_mem hmem

theorem mem_sortedIds {first second : List String} :
    key ∈ sortedIds first second ↔ key ∈ first ∨ key ∈ second := by
  simp [sortedIds]

theorem mem_sortedNames {names : List String} : key ∈ sortedNames names ↔ key ∈ names := by
  simp [sortedNames]

end Lookups

/-! ### Contents -/

/-- The identifiers of the kinds of objects of an accepted content do not repeat. -/
structure DistinctIds (content : SchemiiDesignContent) : Prop where
  types : (content.types.map DesignType.id).Nodup
  tables : (content.tables.map DesignTable.id).Nodup
  relationships : (content.relationships.map DesignRelationship.id).Nodup
  functions : (content.functions.map DesignFunction.id).Nodup
  views : (content.views.map DesignView.id).Nodup
  triggers : (content.triggers.map DesignTrigger.id).Nodup
  parts : ∀ table ∈ content.tables, (tableObjectIds table).Nodup

theorem distinctIds {content : SchemiiDesignContent} (h : AcceptedContent content) :
    DistinctIds content := by
  have hids := h.ids
  have htableIds := h.tableIds
  simp only [allIds, List.nodup_append] at hids
  obtain ⟨⟨⟨⟨⟨htypes, hparts, -⟩, hrelationships, -⟩, hfunctions, -⟩, hviews, -⟩, htriggers, -⟩ := hids
  exact ⟨htypes, htableIds, hrelationships, hfunctions, hviews, htriggers,
    fun table htable ↦ (List.nodup_flatMap.mp hparts).1 table htable⟩

section Parts

variable {table : DesignTable} (h : (tableObjectIds table).Nodup)
include h

theorem nodup_keyIds : (table.keys.map DesignKeyConstraint.id).Nodup := by
  simp only [tableObjectIds, List.cons_append, List.nodup_cons, List.nodup_append] at h
  exact h.2.1.1.2.1

end Parts

theorem table_of_name {content : SchemiiDesignContent} (h : AcceptedContent content)
    {first second : DesignTable} (hfirst : first ∈ content.tables) (hsecond : second ∈ content.tables)
    (hname : first.name = second.name) : first = second := by
  have hnames := h.names
  rw [List.nodup_append, List.nodup_append] at hnames
  exact List.inj_on_of_nodup_map hnames.2.1.1 hfirst hsecond hname

/-- Relationships of an accepted content with one source and one name are one relationship. -/
theorem relationship_of_name {content : SchemiiDesignContent} (h : AcceptedContent content)
    {first second : DesignRelationship} (hfirst : first ∈ content.relationships)
    (hsecond : second ∈ content.relationships) (hsource : first.sourceTableId = second.sourceTableId)
    (hname : first.name = second.name) : first = second :=
  List.inj_on_of_nodup_map h.relationshipNames hfirst hsecond (Prod.ext hsource hname)

/-! ### Phases -/

/-- The phases in which a statement is planned. -/
def MigrationStatement.phases : MigrationStatement → List ℕ
  | .lockTable .. => [1, 5]
  | .stageRows .. => [2]
  | .dropForeignKey .. => [5, 10]
  | .dropConstraint .. => [8, 15]
  | .dropTrigger .. => [6, 11]
  | .dropIndex .. => [7, 12]
  | .dropColumn .. => [9, 20]
  | .truncateTable .. => [10]
  | .addColumn .. => [40, 45]
  | .restoreRows .. => [45]
  | .synchronizeIdentity .. => [46]
  | .addConstraint .. => [60]
  | .createIndex .. => [65]
  | .addForeignKey .. => [70]
  | .createTrigger .. => [80]
  | .createTable .. => [40]
  | .dropTable .. => [30]
  | .renameTable .. => [35]
  | .renameColumn .. => [42]
  | .validateConversion .. => [46]
  | .alterType .. => [48]
  | .alterDefault .. => [47, 50]
  | .alterNullability .. => [52]
  | .createType .. => [38]
  | .dropType .. => [32]
  | .createRoutine .. => [55]
  | .replaceRoutine .. => [55]
  | .dropRoutine .. => [18]
  | .createView .. => [75]
  | .dropView .. => [14]

/-- A step stands in a phase of its statement. -/
def PendingStep.InPhase (item : PendingStep) : Prop :=
  item.phase ∈ item.statement.phases

/-! ### Passes -/

section Passes

variable {A : PlannerAnalysis} {inputs : PlanInputs} {item : PendingStep}

theorem mem_pendingSteps {entries : List PlanEntry} :
    item ∈ pendingSteps entries ↔ PlanEntry.step item ∈ entries := by
  unfold pendingSteps
  rw [List.mem_filterMap]
  constructor
  · rintro ⟨entry, hentry, hsome⟩
    cases entry with
    | step other => exact Option.some.inj hsome ▸ hentry
    | blocked warning => exact nomatch hsome
  · intro hentry
    exact ⟨.step item, hentry, rfl⟩

theorem blockingWarnings_eq_nil {entries : List PlanEntry} :
    blockingWarnings entries = [] ↔ ∀ warning, PlanEntry.blocked warning ∉ entries := by
  unfold blockingWarnings
  rw [List.filterMap_eq_nil_iff]
  constructor
  · intro h warning hentry
    exact nomatch h _ hentry
  · intro h entry hentry
    cases entry with
    | step other => rfl
    | blocked warning => exact absurd hentry (h warning)

theorem mem_planned_iff : item ∈ pendingSteps (planEntries A inputs) ↔
    (∃ id ∈ inputs.rebuildTableIds, .step item ∈ planPhysicalColumnRebuild A inputs id) ∨
    (∃ id, .step item ∈ planRelationshipChange A inputs id ∧
      id ∈ sortedIds (inputs.live.relationships.map DesignRelationship.id)
        (inputs.desired.relationships.map DesignRelationship.id)) ∨
    (∃ id, .step item ∈ planTableChange A inputs id ∧
      id ∈ sortedIds (inputs.live.tables.map DesignTable.id)
        (inputs.desired.tables.map DesignTable.id)) ∨
    (∃ id, .step item ∈ planTypeChange inputs id ∧
      id ∈ sortedIds (inputs.live.types.map DesignType.id) (inputs.desired.types.map DesignType.id)) ∨
    (∃ id, .step item ∈ planFunctionChange A inputs id ∧
      id ∈ sortedIds (inputs.live.functions.map DesignFunction.id)
        (inputs.desired.functions.map DesignFunction.id)) ∨
    (∃ id, .step item ∈ planViewChange inputs id ∧
      id ∈ sortedIds (inputs.live.views.map DesignView.id) (inputs.desired.views.map DesignView.id)) ∨
    ∃ id, .step item ∈ planTriggerChange inputs id ∧
      id ∈ sortedIds (inputs.live.triggers.map DesignTrigger.id)
        (inputs.desired.triggers.map DesignTrigger.id) := by
  rw [mem_pendingSteps]
  simp only [planEntries, planPhysicalColumnRebuilds, planRelationshipChanges, planTableChanges,
    planTypeChanges, planFunctionChanges, planViewChanges, planTriggerChanges, List.mem_append,
    List.mem_flatMap, mem_sortedNames, or_assoc, and_comm]

end Passes

/-! ### Rebuilds -/

/-- What is known of a table that is rebuilt: it differs from the desired one only in the order of its
columns, and so do the relationships and triggers on it. -/
structure Rebuilt (A : PlannerAnalysis) (inputs : PlanInputs) (before after : DesignTable) : Prop where
  live : inputs.liveTable before.id = some before
  desired : inputs.desiredTable before.id = some after
  reorders : before.columns.map DesignColumn.id ≠ after.columns.map DesignColumn.id
  sameIds : ∀ id, id ∈ before.columns.map DesignColumn.id ↔ id ∈ after.columns.map DesignColumn.id
  columns : ∀ id ∈ before.columns.map DesignColumn.id,
    byId DesignColumn.id before.columns id = byId DesignColumn.id after.columns id
  name : before.name = after.name
  keys : before.keys = after.keys
  checks : before.checks = after.checks
  indexes : before.indexes = after.indexes
  relationships : ∀ id,
    (involves before.id (byId DesignRelationship.id inputs.live.relationships id) = true ∨
      involves before.id (byId DesignRelationship.id inputs.desired.relationships id) = true) →
    byId DesignRelationship.id inputs.live.relationships id =
      byId DesignRelationship.id inputs.desired.relationships id
  triggers : ∀ id,
    (firesOn before.name after.name (byId DesignTrigger.id inputs.live.triggers id) = true ∨
      firesOn before.name after.name (byId DesignTrigger.id inputs.desired.triggers id) = true) →
    byId DesignTrigger.id inputs.live.triggers id = byId DesignTrigger.id inputs.desired.triggers id
  generated : ∀ column ∈ after.columns, column.generatedExpression = none

section Rebuilds

variable {A : PlannerAnalysis} {inputs : PlanInputs}

theorem eq_nil_of_ite {p : Prop} [Decidable p] {reason : String}
    (h : (if p then [reason] else []) = []) : ¬ p := by
  intro hp
  rw [if_pos hp] at h
  exact nomatch h

/-- Assumes: something on either side that is looked up by an identifier, and no difference of what is
involved. The two sides agree on what is involved. -/
theorem agree_of_not_any {β : Type} [DecidableEq β] {id : β → String} {first second : List β}
    {involved : Option β → Bool} (hnone : involved none = false)
    (h : ¬ ((sortedIds (first.map id) (second.map id)).any fun key ↦
      (involved (byId id first key) || involved (byId id second key)) &&
        decide (byId id first key ≠ byId id second key)) = true) (key : String)
    (hinvolved : involved (byId id first key) = true ∨ involved (byId id second key) = true) :
    byId id first key = byId id second key := by
  have hmem : key ∈ sortedIds (first.map id) (second.map id) := by
    rw [mem_sortedIds]
    rcases hinvolved with hleft | hright
    · obtain ⟨item, hitem⟩ : ∃ item, byId id first key = some item := by
        cases hfound : byId id first key with
        | none => rw [hfound, hnone] at hleft; exact nomatch hleft
        | some item => exact ⟨item, rfl⟩
      exact .inl (mem_ids_of_byId hitem)
    · obtain ⟨item, hitem⟩ : ∃ item, byId id second key = some item := by
        cases hfound : byId id second key with
        | none => rw [hfound, hnone] at hright; exact nomatch hright
        | some item => exact ⟨item, rfl⟩
      exact .inr (mem_ids_of_byId hitem)
  by_contra hne
  refine h (List.any_eq_true.mpr ⟨key, hmem, ?_⟩)
  simp only [ne_eq, hne, not_false_eq_true, decide_true, Bool.and_true, Bool.or_eq_true]
  exact hinvolved

/-- Assumes: a table on both sides in another order of columns, and no reason against its rebuild. -/
theorem rebuilt_of_reasons {before after : DesignTable} {id : String}
    (hlive : inputs.liveTable id = some before) (hdesired : inputs.desiredTable id = some after)
    (horder : before.columns.map DesignColumn.id ≠ after.columns.map DesignColumn.id)
    (h : rebuildReasons A inputs before after = []) : Rebuilt A inputs before after := by
  obtain rfl : before.id = id := (byId_eq_some hlive).2
  simp only [rebuildReasons, List.append_eq_nil_iff] at h
  obtain ⟨⟨⟨⟨⟨⟨⟨hcolumns, hname⟩, hparts⟩, hrelationships⟩, htriggers⟩, -⟩, hgenerated⟩, -⟩ := h
  split_ifs at hcolumns with hids hedits
  have hparts := eq_nil_of_ite hparts
  rw [not_or, not_or, not_not, not_not, not_not] at hparts
  have hsame : before.columns.map DesignColumn.id ⊆ after.columns.map DesignColumn.id ∧
      after.columns.map DesignColumn.id ⊆ before.columns.map DesignColumn.id := by
    simpa [sameDependencySet] using hids
  exact
    { live := hlive
      desired := hdesired
      reorders := horder
      sameIds := fun key ↦ ⟨fun hkey ↦ hsame.1 hkey, fun hkey ↦ hsame.2 hkey⟩
      columns := fun key hkey ↦ by
        by_contra hne
        exact hedits (List.any_eq_true.mpr ⟨key, hkey, decide_eq_true hne⟩)
      name := not_not.mp (eq_nil_of_ite hname)
      keys := hparts.1
      checks := hparts.2.1
      indexes := hparts.2.2
      relationships := agree_of_not_any rfl (eq_nil_of_ite hrelationships)
      triggers := agree_of_not_any rfl (eq_nil_of_ite htriggers)
      generated := fun column hcolumn ↦ by
        by_contra hsome
        refine eq_nil_of_ite hgenerated (List.any_eq_true.mpr ⟨column, hcolumn, ?_⟩)
        exact Option.isSome_iff_ne_none.mpr hsome }

theorem columnOrderDifference_eq_some {id : String} {difference : ColumnOrderDifference}
    (h : columnOrderDifference A inputs id = some difference) : difference.tableId = id ∧
      ∃ before after, inputs.liveTable id = some before ∧ inputs.desiredTable id = some after ∧
        before.columns.map DesignColumn.id ≠ after.columns.map DesignColumn.id ∧
        difference.blockingReasons = rebuildReasons A inputs before after := by
  unfold columnOrderDifference at h
  cases hlive : inputs.liveTable id with
  | none => simp [hlive] at h
  | some before =>
    cases hdesired : inputs.desiredTable id with
    | none => simp [hlive, hdesired] at h
    | some after =>
      simp only [hlive, hdesired] at h
      split_ifs at h with horder
      obtain rfl := Option.some.inj h
      exact ⟨rfl, before, after, rfl, rfl, horder, rfl⟩

/-- What the pass plans for a table that is selected: the steps of a rebuild, or a warning. -/
theorem planPhysicalColumnRebuild_cases (A : PlannerAnalysis) (inputs : PlanInputs) (id : String) :
    (∃ before after, Rebuilt A inputs before after ∧ before.id = id ∧
      planPhysicalColumnRebuild A inputs id = (appendColumnOrderRebuild A inputs before after
        (id ∈ inputs.populatedRebuildTableIds)).map .step) ∨
    ∃ warning, planPhysicalColumnRebuild A inputs id = [.blocked warning] := by
  unfold planPhysicalColumnRebuild
  cases hfind : (columnOrderDifferences A inputs).find? fun item ↦ item.tableId = id with
  | none => exact .inr ⟨_, rfl⟩
  | some difference =>
    obtain ⟨tableId, -, hdifference⟩ := List.mem_filterMap.mp (List.mem_of_find?_eq_some hfind)
    obtain ⟨hid, before, after, hlive, hdesired, horder, hreasons⟩ :=
      columnOrderDifference_eq_some hdifference
    obtain rfl : tableId = id := hid.symm.trans (by simpa using List.find?_some hfind)
    dsimp only
    split_ifs with hempty
    · simp only [hlive, hdesired]
      refine .inl ⟨before, after, rebuilt_of_reasons hlive hdesired horder ?_,
        (byId_eq_some hlive).2, rfl⟩
      rw [← hreasons]
      exact List.isEmpty_iff.mp hempty
    · exact .inr ⟨_, rfl⟩

theorem mem_planPhysicalColumnRebuild {id : String} {item : PendingStep}
    (h : .step item ∈ planPhysicalColumnRebuild A inputs id) :
    ∃ before after, Rebuilt A inputs before after ∧ before.id = id ∧
      item ∈ appendColumnOrderRebuild A inputs before after (id ∈ inputs.populatedRebuildTableIds) := by
  rcases planPhysicalColumnRebuild_cases A inputs id with
    ⟨before, after, hrebuilt, hid, heq⟩ | ⟨warning, heq⟩
  · rw [heq] at h
    obtain ⟨other, hother, hsame⟩ := List.mem_map.mp h
    exact ⟨before, after, hrebuilt, hid, PlanEntry.step.inj hsame ▸ hother⟩
  · rw [heq] at h
    exact nomatch List.mem_singleton.mp h

theorem rebuilt_of_selected (hblocking : blockingWarnings (planEntries A inputs) = []) {id : String}
    (hid : id ∈ inputs.rebuildTableIds) :
    ∃ before after, Rebuilt A inputs before after ∧ before.id = id ∧
      ∀ item ∈ appendColumnOrderRebuild A inputs before after (id ∈ inputs.populatedRebuildTableIds),
        item ∈ pendingSteps (planEntries A inputs) := by
  rcases planPhysicalColumnRebuild_cases A inputs id with
    ⟨before, after, hrebuilt, hsame, heq⟩ | ⟨warning, heq⟩
  · refine ⟨before, after, hrebuilt, hsame, fun item hitem ↦ mem_planned_iff.mpr (.inl ⟨id, hid, ?_⟩)⟩
    rw [heq]
    exact List.mem_map_of_mem hitem
  · refine absurd ?_ (blockingWarnings_eq_nil.mp hblocking warning)
    simp only [planEntries, planPhysicalColumnRebuilds, List.mem_append, List.mem_flatMap,
      mem_sortedNames]
    refine .inl (.inl (.inl (.inl (.inl (.inl ⟨id, hid, ?_⟩)))))
    rw [heq]
    exact List.mem_singleton_self _

theorem mem_appendColumnOrderRebuild {before after : DesignTable} {containsData : Bool}
    {item : PendingStep} (h : item ∈ appendColumnOrderRebuild A inputs before after containsData) :
    (item.kind = .relationship ∧
      ((∃ relationship ∈ inputs.live.relationships, involves before.id (some relationship) = true ∧
        item.phase = 5 ∧ item.statement = .dropForeignKey
          ((inputs.liveTable relationship.sourceTableId).map DesignTable.name) relationship.name) ∨
      ∃ relationship ∈ inputs.desired.relationships, involves before.id (some relationship) = true ∧
        item.phase = 70 ∧ item.statement = .addForeignKey relationship)) ∨
    (item.kind = .constraint ∧
      ((∃ constraint ∈ constraintItems before, item.phase = 8 ∧
        item.statement = .dropConstraint before.name constraint.name) ∨
      ∃ constraint ∈ constraintItems after, item.phase = 60 ∧
        item.statement = .addConstraint after.name constraint)) ∨
    (item.kind = .table ∧
      ((item.phase = 1 ∧ item.statement = .lockTable before.name) ∨
      (item.phase = 2 ∧ ∃ backup columns, item.statement = .stageRows backup columns before.name) ∨
      (item.phase = 10 ∧ item.statement = .truncateTable before.name) ∨
      item.phase = 45 ∧ ∃ columns overriding backup,
        item.statement = .restoreRows before.name columns overriding backup)) ∨
    (item.kind = .column ∧
      ((item.phase = 9 ∧ ∃ column ∈ before.columns,
        item.statement = .dropColumn before.name column.name) ∨
      (item.phase = 46 ∧ ∃ column, item.statement = .synchronizeIdentity after.name column) ∨
      item.phase = 40 ∧ ∃ column, item.statement = .addColumn before.name column)) ∨
    (item.kind = .index ∧
      ((item.phase = 7 ∧ ∃ index, item.statement = .dropIndex index) ∨
      item.phase = 65 ∧ ∃ index, item.statement = .createIndex after.name index)) ∨
    item.kind = .trigger ∧
      ((item.phase = 6 ∧ ∃ trigger ∈ inputs.live.triggers, trigger.relationName = before.name ∧
        item.statement = .dropTrigger trigger.name before.name) ∨
      item.phase = 80 ∧ ∃ trigger, item.statement = .createTrigger trigger) := by
  simp only [appendColumnOrderRebuild, List.mem_append, List.mem_map, List.mem_filter,
    List.mem_singleton, List.mem_ite_nil_right] at h
  rcases h with (((((((((((((rfl | ⟨-, rfl⟩) | ⟨relationship, ⟨hmem, hinvolves⟩, rfl⟩) |
    ⟨trigger, ⟨hmem, hname⟩, rfl⟩) | ⟨_, -, rfl⟩) | ⟨constraint, hconstraint, rfl⟩) |
    ⟨⟨column, ordinal⟩, hcolumn, rfl⟩) | ⟨-, rfl⟩) | ⟨column, -, rfl⟩) | ⟨-, rfl⟩) | ⟨_, -, rfl⟩) |
    ⟨constraint, hconstraint, rfl⟩) | ⟨_, -, rfl⟩) | ⟨relationship, ⟨hmem, hinvolves⟩, rfl⟩) |
    ⟨_, -, rfl⟩
  · exact .inr (.inr (.inl ⟨rfl, .inl ⟨rfl, rfl⟩⟩))
  · exact .inr (.inr (.inl ⟨rfl, .inr (.inl ⟨rfl, _, _, rfl⟩)⟩))
  · exact .inl ⟨rfl, .inl ⟨relationship, hmem, hinvolves, rfl, rfl⟩⟩
  · exact .inr (.inr (.inr (.inr (.inr ⟨rfl, .inl ⟨rfl, trigger, hmem, of_decide_eq_true hname, rfl⟩⟩))))
  · exact .inr (.inr (.inr (.inr (.inl ⟨rfl, .inl ⟨rfl, _, rfl⟩⟩))))
  · exact .inr (.inl ⟨rfl, .inl ⟨constraint, hconstraint, rfl, rfl⟩⟩)
  · exact .inr (.inr (.inr (.inl ⟨rfl, .inl ⟨rfl, column, List.fst_mem_of_mem_zipIdx hcolumn, rfl⟩⟩)))
  · exact .inr (.inr (.inl ⟨rfl, .inr (.inr (.inl ⟨rfl, rfl⟩))⟩))
  · exact .inr (.inr (.inr (.inl ⟨rfl, .inr (.inr ⟨rfl, _, rfl⟩)⟩)))
  · exact .inr (.inr (.inl ⟨rfl, .inr (.inr (.inr ⟨rfl, _, _, _, rfl⟩))⟩))
  · exact .inr (.inr (.inr (.inl ⟨rfl, .inr (.inl ⟨rfl, _, rfl⟩)⟩)))
  · exact .inr (.inl ⟨rfl, .inr ⟨constraint, hconstraint, rfl, rfl⟩⟩)
  · exact .inr (.inr (.inr (.inr (.inl ⟨rfl, .inr ⟨rfl, _, rfl⟩⟩))))
  · exact .inl ⟨rfl, .inr ⟨relationship, hmem, hinvolves, rfl, rfl⟩⟩
  · exact .inr (.inr (.inr (.inr (.inr ⟨rfl, .inr ⟨rfl, _, rfl⟩⟩))))

end Rebuilds

/-! ### Relationships -/

section Relationships

variable {A : PlannerAnalysis} {inputs : PlanInputs}

/-- A relationship is dropped and created by its pass: it differs, or the type of one of its columns
changes. -/
def RelationshipChanges (A : PlannerAnalysis) (inputs : PlanInputs) (id : String) : Prop :=
  byId DesignRelationship.id inputs.live.relationships id ≠
      byId DesignRelationship.id inputs.desired.relationships id ∨
    changedRelationshipColumn (safeTypeChangeIds A inputs)
        (byId DesignRelationship.id inputs.live.relationships id) = true ∨
      changedRelationshipColumn (safeTypeChangeIds A inputs)
        (byId DesignRelationship.id inputs.desired.relationships id) = true

/-- The step that drops the foreign key of a relationship that changes. -/
def relationshipDrop (inputs : PlanInputs) (relationship : DesignRelationship) : PendingStep where
  phase := 10
  kind := .relationship
  path := "relationships." ++ relationship.name
  operation := .drop
  statement := .dropForeignKey ((inputs.liveTable relationship.sourceTableId).map DesignTable.name)
    relationship.name
  destructive := (byId DesignRelationship.id inputs.desired.relationships relationship.id).isNone

/-- The step that creates the foreign key of a relationship that changes. -/
def relationshipCreation (relationship : DesignRelationship) : PendingStep where
  phase := 70
  kind := .relationship
  path := "relationships." ++ relationship.name
  operation := .create
  statement := .addForeignKey relationship

theorem mem_planRelationshipChange {id : String} {item : PendingStep} :
    .step item ∈ planRelationshipChange A inputs id ↔ RelationshipChanges A inputs id ∧
      ((∃ relationship, byId DesignRelationship.id inputs.live.relationships id = some relationship ∧
        item = relationshipDrop inputs relationship) ∨
      ∃ relationship, byId DesignRelationship.id inputs.desired.relationships id = some relationship ∧
        item = relationshipCreation relationship) := by
  unfold planRelationshipChange RelationshipChanges
  dsimp only
  split_ifs with hsame
  · refine iff_of_false (by simp) ?_
    rintro ⟨hchanges, -⟩
    obtain ⟨heq, hleft, hright⟩ := hsame
    rcases hchanges with hne | hchanged | hchanged
    · exact hne heq
    · exact hleft hchanged
    · exact hright hchanged
  · have hchanges : byId DesignRelationship.id inputs.live.relationships id ≠
        byId DesignRelationship.id inputs.desired.relationships id ∨
        changedRelationshipColumn (safeTypeChangeIds A inputs)
          (byId DesignRelationship.id inputs.live.relationships id) = true ∨
        changedRelationshipColumn (safeTypeChangeIds A inputs)
          (byId DesignRelationship.id inputs.desired.relationships id) = true := by
      by_contra hno
      rw [not_or, not_or, not_not] at hno
      exact hsame hno
    rw [and_iff_right hchanges, List.mem_append, List.mem_map, List.mem_map]
    refine or_congr ?_ ?_
    · constructor
      · rintro ⟨relationship, hrelationship, hitem⟩
        have hfound := Option.mem_toList.mp hrelationship
        refine ⟨relationship, hfound, (PlanEntry.step.inj hitem).symm.trans ?_⟩
        rw [relationshipDrop, (byId_eq_some hfound).2]
      · rintro ⟨relationship, hfound, rfl⟩
        refine ⟨relationship, Option.mem_toList.mpr hfound, congrArg PlanEntry.step ?_⟩
        rw [relationshipDrop, (byId_eq_some hfound).2]
    · constructor
      · rintro ⟨relationship, hrelationship, hitem⟩
        exact ⟨relationship, Option.mem_toList.mp hrelationship, (PlanEntry.step.inj hitem).symm⟩
      · rintro ⟨relationship, hfound, rfl⟩
        exact ⟨relationship, Option.mem_toList.mpr hfound, rfl⟩

end Relationships

/-! ### Tables -/

section Tables

variable {A : PlannerAnalysis} {inputs : PlanInputs} {before after : DesignTable} {id : String}
  {item : PendingStep}

/-- What the pass plans for a column: a lock, the drop of a column that is not desired, or a later
step. -/
theorem mem_planColumnChange (h : .step item ∈ planColumnChange A inputs before after id) :
    (item.kind = .table ∧ item.phase = 5 ∧ item.statement = .lockTable before.name) ∨
      item.kind = .column ∧
        ((item.phase = 20 ∧ ∃ old, byId DesignColumn.id before.columns id = some old ∧
          byId DesignColumn.id after.columns id = none ∧
            item.statement = .dropColumn after.name old.name) ∨
          42 ≤ item.phase ∧ item.phase ≤ 52 ∧ item.InPhase) := by
  unfold planColumnChange at h
  cases hold : byId DesignColumn.id before.columns id with
  | none =>
    cases hnew : byId DesignColumn.id after.columns id with
    | none => simp [hold, hnew] at h
    | some new =>
      simp only [hold, hnew, planColumnAddition] at h
      split_ifs at h
      · simp at h
      · obtain rfl := PlanEntry.step.inj (List.mem_singleton.mp h)
        exact .inr ⟨rfl, .inr ⟨by simp, by simp, by simp [PendingStep.InPhase, MigrationStatement.phases]⟩⟩
  | some old =>
    cases hnew : byId DesignColumn.id after.columns id with
    | none =>
      simp only [hold, hnew] at h
      obtain rfl := PlanEntry.step.inj (List.mem_singleton.mp h)
      exact .inr ⟨rfl, .inl ⟨rfl, old, rfl, rfl, rfl⟩⟩
    | some new =>
      simp only [hold, hnew, planColumnAlteration, planColumnType, List.mem_append,
        List.mem_ite_nil_right] at h
      rcases h with (((⟨-, h⟩ | h) | ⟨-, h⟩) | ⟨-, h⟩) | ⟨-, h⟩
      · obtain rfl := PlanEntry.step.inj (List.mem_singleton.mp h)
        exact .inr ⟨rfl, .inr ⟨by simp, by simp, by simp [PendingStep.InPhase, MigrationStatement.phases]⟩⟩
      · split_ifs at h
        · simp at h
        · rcases List.mem_append.mp h with h | h
          · obtain ⟨conversion, -, h⟩ := List.mem_flatMap.mp h
            simp only [List.mem_append, List.mem_map, List.mem_singleton, PlanEntry.step.injEq] at h
            rcases h with (rfl | ⟨_, -, rfl⟩) | ⟨_, -, rfl⟩
            · exact .inl ⟨rfl, rfl, rfl⟩
            · exact .inr ⟨rfl, .inr ⟨by simp, by simp, by simp [PendingStep.InPhase, MigrationStatement.phases]⟩⟩
            · exact .inr ⟨rfl, .inr ⟨by simp, by simp, by simp [PendingStep.InPhase, MigrationStatement.phases]⟩⟩
          · obtain rfl := PlanEntry.step.inj (List.mem_singleton.mp h)
            exact .inr ⟨rfl, .inr ⟨by simp, by simp, by simp [PendingStep.InPhase, MigrationStatement.phases]⟩⟩
        · simp at h
        · simp at h
      · simp at h
      · obtain rfl := PlanEntry.step.inj (List.mem_singleton.mp h)
        exact .inr ⟨rfl, .inr ⟨by simp, by simp, by simp [PendingStep.InPhase, MigrationStatement.phases]⟩⟩
      · obtain rfl := PlanEntry.step.inj (List.mem_singleton.mp h)
        exact .inr ⟨rfl, .inr ⟨by simp, by simp, by simp [PendingStep.InPhase, MigrationStatement.phases]⟩⟩

/-- The step that drops a constraint of a category. -/
def constraintDrop (after : DesignTable) (category : String) (item : ConstraintItem) (last : Bool) :
    PendingStep where
  phase := 15
  kind := .constraint
  path := "tables." ++ after.name ++ "." ++ category ++ "." ++ item.name
  operation := .drop
  statement := .dropConstraint after.name item.name
  destructive := last

/-- The step that creates a constraint of a category. -/
def constraintCreation (after : DesignTable) (category : String) (item : ConstraintItem) :
    PendingStep where
  phase := 60
  kind := .constraint
  path := "tables." ++ after.name ++ "." ++ category ++ "." ++ item.name
  operation := .create
  statement := .addConstraint after.name item

theorem mem_planConstraintChange {category : String} {old new : Option ConstraintItem} :
    .step item ∈ planConstraintChange after category old new ↔
      (∃ constraint, old = some constraint ∧
        item = constraintDrop after category constraint new.isNone) ∨
      ∃ constraint, new = some constraint ∧ item = constraintCreation after category constraint := by
  unfold planConstraintChange
  rw [List.mem_append, List.mem_map, List.mem_map]
  simp only [Option.mem_toList, PlanEntry.step.injEq]
  refine or_congr ?_ ?_
  · exact exists_congr fun constraint ↦ and_congr_right fun _ ↦ eq_comm
  · exact exists_congr fun constraint ↦ and_congr_right fun _ ↦ eq_comm

theorem mem_planKeyChange : .step item ∈ planKeyChange before after id ↔
    byId DesignKeyConstraint.id before.keys id ≠ byId DesignKeyConstraint.id after.keys id ∧
      ((∃ key, byId DesignKeyConstraint.id before.keys id = some key ∧ item =
        constraintDrop after "keys" (.key key) (byId DesignKeyConstraint.id after.keys id).isNone) ∨
      ∃ key, byId DesignKeyConstraint.id after.keys id = some key ∧
        item = constraintCreation after "keys" (.key key)) := by
  unfold planKeyChange
  dsimp only
  split_ifs with hsame
  · exact iff_of_false (by simp) fun h ↦ h.1 hsame
  · rw [and_iff_right hsame, mem_planConstraintChange]
    simp only [Option.map_eq_some_iff, Option.isNone_map]
    refine or_congr ?_ ?_
    · constructor
      · rintro ⟨_, ⟨key, hkey, rfl⟩, hitem⟩
        exact ⟨key, hkey, hitem⟩
      · rintro ⟨key, hkey, hitem⟩
        exact ⟨_, ⟨key, hkey, rfl⟩, hitem⟩
    · constructor
      · rintro ⟨_, ⟨key, hkey, rfl⟩, hitem⟩
        exact ⟨key, hkey, hitem⟩
      · rintro ⟨key, hkey, hitem⟩
        exact ⟨_, ⟨key, hkey, rfl⟩, hitem⟩

theorem mem_planCheckChange (h : .step item ∈ planCheckChange A before after id) :
    (∃ check ∈ before.checks, ∃ last, item = constraintDrop after "checks" (.check check) last) ∨
      ∃ check ∈ after.checks, item = constraintCreation after "checks" (.check check) := by
  unfold planCheckChange at h
  dsimp only at h
  split_ifs at h with hsame
  · simp at h
  · rcases mem_planConstraintChange.mp h with ⟨constraint, hold, rfl⟩ | ⟨constraint, hnew, rfl⟩
    · obtain ⟨check, hcheck, rfl⟩ := Option.map_eq_some_iff.mp hold
      exact .inl ⟨check, (byId_eq_some hcheck).1, _, rfl⟩
    · obtain ⟨check, hcheck, rfl⟩ := Option.map_eq_some_iff.mp hnew
      exact .inr ⟨check, (byId_eq_some hcheck).1, rfl⟩

theorem mem_planIndexChange (h : .step item ∈ planIndexChange before after id) :
    item.kind = .index ∧ (item.phase = 12 ∨ item.phase = 65) ∧ item.InPhase := by
  unfold planIndexChange at h
  dsimp only at h
  split_ifs at h with hsame
  · simp at h
  · simp only [List.mem_append, List.mem_map, PlanEntry.step.injEq] at h
    rcases h with ⟨_, -, rfl⟩ | ⟨_, -, rfl⟩
    · exact ⟨rfl, .inl rfl, by simp [PendingStep.InPhase, MigrationStatement.phases]⟩
    · exact ⟨rfl, .inr rfl, by simp [PendingStep.InPhase, MigrationStatement.phases]⟩

/-- The step that creates a table. -/
def tableCreation (after : DesignTable) : PendingStep where
  phase := 40
  kind := .table
  path := "tables." ++ after.name
  operation := .create
  statement := .createTable after

/-- The step that drops a table. -/
def tableDrop (before : DesignTable) : PendingStep where
  phase := 30
  kind := .table
  path := "tables." ++ before.name
  operation := .drop
  statement := .dropTable before.name
  destructive := true
  dataMovement := true

/-- The steps of the pass for a table that is created or dropped, or of the passes for its parts. -/
theorem mem_planTableChange (h : .step item ∈ planTableChange A inputs id) :
    (∃ after, inputs.liveTable id = none ∧ inputs.desiredTable id = some after ∧
      (item = tableCreation after ∨ item.kind = .index ∧ item.phase = 65 ∧ item.InPhase)) ∨
    (∃ before, inputs.liveTable id = some before ∧ inputs.desiredTable id = none ∧
      item = tableDrop before) ∨
    ∃ before after, inputs.liveTable id = some before ∧ inputs.desiredTable id = some after ∧
      ((item.kind = .table ∧ item.phase = 35 ∧
          item.statement = .renameTable before.name after.name) ∨
        (∃ part, .step item ∈ planColumnChange A inputs before after part) ∨
        (∃ part, .step item ∈ planKeyChange before after part) ∨
        (∃ part, .step item ∈ planCheckChange A before after part) ∨
        item.kind = .index ∧ (item.phase = 12 ∨ item.phase = 65) ∧ item.InPhase) := by
  unfold planTableChange at h
  cases hlive : inputs.liveTable id with
  | none =>
    cases hdesired : inputs.desiredTable id with
    | none => simp [hlive, hdesired] at h
    | some after =>
      simp only [hlive, hdesired, List.mem_cons, List.mem_map, PlanEntry.step.injEq] at h
      rcases h with rfl | ⟨_, -, rfl⟩
      · exact .inl ⟨after, rfl, rfl, .inl rfl⟩
      · exact .inl ⟨after, rfl, rfl, .inr ⟨rfl, rfl,
          by simp [PendingStep.InPhase, MigrationStatement.phases]⟩⟩
  | some before =>
    cases hdesired : inputs.desiredTable id with
    | none =>
      simp only [hlive, hdesired, List.mem_singleton, PlanEntry.step.injEq] at h
      exact .inr (.inl ⟨before, rfl, rfl, h⟩)
    | some after =>
      refine .inr (.inr ⟨before, after, rfl, rfl, ?_⟩)
      simp only [hlive, hdesired, List.mem_append, List.mem_ite_nil_right, List.mem_singleton,
        PlanEntry.step.injEq, planTableColumnChanges, planTableConstraintChanges,
        planTableIndexChanges, List.mem_flatMap] at h
      rcases h with ((⟨-, rfl⟩ | ⟨part, -, h⟩) | ⟨part, -, h⟩ | ⟨part, -, h⟩) | ⟨part, -, h⟩
      · exact .inl ⟨rfl, rfl, rfl⟩
      · exact .inr (.inl ⟨part, h⟩)
      · exact .inr (.inr (.inl ⟨part, h⟩))
      · exact .inr (.inr (.inr (.inl ⟨part, h⟩)))
      · exact .inr (.inr (.inr (.inr (mem_planIndexChange h))))

end Tables

/-! ### Types, routines, views and triggers -/

section Others

variable {A : PlannerAnalysis} {inputs : PlanInputs} {id : String} {item : PendingStep}

/-- The step that creates a type. -/
def typeCreation (type : DesignType) : PendingStep where
  phase := 38
  kind := .type
  path := "types." ++ type.name
  operation := .create
  statement := .createType type

/-- The step that drops a type. -/
def typeDrop (type : DesignType) : PendingStep where
  phase := 32
  kind := .type
  path := "types." ++ type.name
  operation := .drop
  statement := .dropType type.kind type.name
  destructive := true

theorem mem_planTypeChange : .step item ∈ planTypeChange inputs id ↔
    (∃ type, byId DesignType.id inputs.live.types id = none ∧
      byId DesignType.id inputs.desired.types id = some type ∧ item = typeCreation type) ∨
    ∃ type, byId DesignType.id inputs.live.types id = some type ∧
      byId DesignType.id inputs.desired.types id = none ∧ item = typeDrop type := by
  unfold planTypeChange
  cases hlive : byId DesignType.id inputs.live.types id with
  | none =>
    cases hdesired : byId DesignType.id inputs.desired.types id with
    | none => simp
    | some type => simp [typeCreation]
  | some old =>
    cases hdesired : byId DesignType.id inputs.desired.types id with
    | none => simp [typeDrop]
    | some type =>
      simp only [Option.some.injEq]
      split_ifs <;> simp

/-- The step that drops a routine. -/
def routineDrop (routine : DesignFunction) : PendingStep where
  phase := 18
  kind := routineStepKind routine.kind
  path := routinePath routine
  operation := .drop
  statement := .dropRoutine routine.kind routine.name (strip routine.identityArguments)
  destructive := true

theorem mem_planFunctionChange (h : .step item ∈ planFunctionChange A inputs id) :
    (∃ kind, item.kind = routineStepKind kind) ∧ ((item.phase = 55 ∧ item.InPhase) ∨
      ∃ routine, byId DesignFunction.id inputs.live.functions id = some routine ∧
        byId DesignFunction.id inputs.desired.functions id = none ∧ item = routineDrop routine) := by
  unfold planFunctionChange at h
  dsimp only at h
  cases hlive : byId DesignFunction.id inputs.live.functions id with
  | none =>
    cases hdesired : byId DesignFunction.id inputs.desired.functions id with
    | none => simp [hlive, hdesired] at h
    | some new =>
      simp only [hlive, hdesired, reduceCtorEq, if_false, List.mem_singleton,
        PlanEntry.step.injEq] at h
      subst h
      exact ⟨⟨_, rfl⟩, .inl ⟨rfl, by simp [PendingStep.InPhase, MigrationStatement.phases]⟩⟩
  | some old =>
    cases hdesired : byId DesignFunction.id inputs.desired.functions id with
    | none =>
      simp only [hlive, hdesired, reduceCtorEq, if_false, List.mem_singleton,
        PlanEntry.step.injEq] at h
      subst h
      exact ⟨⟨_, rfl⟩, .inr ⟨old, rfl, rfl, rfl⟩⟩
    | some new =>
      simp only [hlive, hdesired, routineWarning] at h
      split_ifs at h
      · simp at h
      · simp at h
      · simp at h
      · simp at h
      · obtain rfl := PlanEntry.step.inj (List.mem_singleton.mp h)
        exact ⟨⟨_, rfl⟩, .inl ⟨rfl, by simp [PendingStep.InPhase, MigrationStatement.phases]⟩⟩

/-- The step that drops a view. -/
def viewDrop (view : DesignView) : PendingStep where
  phase := 14
  kind := viewStepKind view.kind
  path := "views." ++ view.name
  operation := .drop
  statement := .dropView view.kind view.name
  destructive := true

/-- The step that creates or replaces a view. -/
def viewCreation (view : DesignView) (replaces : Bool) : PendingStep where
  phase := 75
  kind := viewStepKind view.kind
  path := "views." ++ view.name
  operation := if replaces then .replace else .create
  statement := .createView view replaces

theorem mem_planViewChange : .step item ∈ planViewChange inputs id ↔
    (∃ view, byId DesignView.id inputs.live.views id = none ∧
      byId DesignView.id inputs.desired.views id = some view ∧ item = viewCreation view false) ∨
    (∃ view, byId DesignView.id inputs.live.views id = some view ∧
      byId DesignView.id inputs.desired.views id = none ∧ item = viewDrop view) ∨
    ∃ old view, byId DesignView.id inputs.live.views id = some old ∧
      byId DesignView.id inputs.desired.views id = some view ∧ old ≠ view ∧
      (old.kind, old.name) = (view.kind, view.name) ∧ view.kind ≠ .materializedView ∧
        item = viewCreation view true := by
  unfold planViewChange
  cases hlive : byId DesignView.id inputs.live.views id with
  | none =>
    cases hdesired : byId DesignView.id inputs.desired.views id with
    | none => simp
    | some view => simp [viewCreation]
  | some old =>
    cases hdesired : byId DesignView.id inputs.desired.views id with
    | none => simp [viewDrop]
    | some view =>
      simp only [Option.some.injEq, reduceCtorEq, false_and, exists_false, and_false, false_or]
      split_ifs with hsame hidentity hkind
      · refine iff_of_false (by simp) ?_
        rintro ⟨_, _, rfl, rfl, hne, -⟩
        exact hne hsame
      · refine iff_of_false (by simp) ?_
        rintro ⟨_, _, rfl, rfl, -, hequal, -⟩
        exact hidentity hequal
      · refine iff_of_false (by simp) ?_
        rintro ⟨_, _, rfl, rfl, -, -, hother, -⟩
        exact hother hkind
      · constructor
        · intro h
          refine ⟨old, view, rfl, rfl, hsame, not_not.mp hidentity, hkind, ?_⟩
          exact PlanEntry.step.inj (List.mem_singleton.mp h)
        · rintro ⟨_, _, rfl, rfl, -, -, -, rfl⟩
          exact List.mem_singleton.mpr rfl

/-- The step that drops a trigger. -/
def triggerDrop (trigger : DesignTrigger) (last : Bool) : PendingStep where
  phase := 11
  kind := .trigger
  path := "triggers." ++ trigger.relationName ++ "." ++ trigger.name
  operation := .drop
  statement := .dropTrigger trigger.name trigger.relationName
  destructive := last

theorem mem_planTriggerChange (h : .step item ∈ planTriggerChange inputs id) :
    byId DesignTrigger.id inputs.live.triggers id ≠ byId DesignTrigger.id inputs.desired.triggers id ∧
      item.kind = .trigger ∧ ((item.phase = 80 ∧ item.InPhase) ∨ ∃ trigger last,
        byId DesignTrigger.id inputs.live.triggers id = some trigger ∧
          item = triggerDrop trigger last) := by
  unfold planTriggerChange at h
  dsimp only at h
  split_ifs at h with hsame
  · simp at h
  · refine ⟨hsame, ?_⟩
    simp only [List.mem_append, List.mem_map, Option.mem_toList, PlanEntry.step.injEq] at h
    rcases h with ⟨trigger, htrigger, rfl⟩ | ⟨trigger, -, rfl⟩
    · exact ⟨rfl, .inr ⟨trigger, _, htrigger, rfl⟩⟩
    · exact ⟨rfl, .inl ⟨rfl, by simp [PendingStep.InPhase, MigrationStatement.phases]⟩⟩

end Others

/-! ### Steps by their phases -/

section Phases

variable {A : PlannerAnalysis} {inputs : PlanInputs} {id : String} {item : PendingStep}

end Phases

/-! ### Compiled plans -/

theorem compileMigrationSteps_eq_some {A : PlannerAnalysis} {inputs : PlanInputs}
    {steps : List MigrationStep} {warnings : List MigrationWarning} :
    compileMigrationSteps A inputs = some (steps, warnings) ↔
      (∀ item ∈ pendingSteps (planEntries A inputs),
        (item.sql A inputs.schema inputs.desired).isSome) ∧
      steps = compiledSteps A inputs.schema inputs.desired (pendingSteps (planEntries A inputs)) ∧
      warnings = blockingWarnings (planEntries A inputs) := by
  unfold compileMigrationSteps finalizeMigrationPlan
  dsimp only
  split_ifs with h
  · have hall := List.all_eq_true.mp h
    rw [Option.some.injEq, Prod.mk.injEq]
    constructor
    · rintro ⟨rfl, rfl⟩
      exact ⟨hall, rfl, rfl⟩
    · rintro ⟨-, rfl, rfl⟩
      exact ⟨rfl, rfl⟩
  · refine iff_of_false (by simp) fun hsome ↦ h (List.all_eq_true.mpr hsome.1)

section Compiled

variable {A : PlannerAnalysis} {inputs : PlanInputs}

/-- The ordered pending steps of a plan. -/
def orderedPlan (A : PlannerAnalysis) (inputs : PlanInputs) : List PendingStep :=
  orderedSteps A inputs.schema inputs.desired (pendingSteps (planEntries A inputs))

/-- Assumes: a compiled plan, and a pending step whose text tells its kind and statement among the steps
of its phase. It is compiled. -/
theorem exists_compiled {item : PendingStep} (h : item ∈ pendingSteps (planEntries A inputs))
    (hsame : ∀ other ∈ pendingSteps (planEntries A inputs), other.phase = item.phase →
      other.sql A inputs.schema inputs.desired = item.sql A inputs.schema inputs.desired →
        other.kind = item.kind ∧ other.statement = item.statement) :
    ∃ (position : ℕ) (kept : PendingStep), (orderedPlan A inputs)[position]? = some kept ∧
      kept.phase = item.phase ∧ kept.kind = item.kind ∧ kept.statement = item.statement := by
  obtain ⟨position, kept, hposition, hkept, hphase, hsql⟩ :=
    exists_ordered (A := A) h
  obtain ⟨hkind, hstatement⟩ := hsame kept hkept hphase hsql
  exact ⟨position, kept, hposition, hphase, hkind, hstatement⟩

end Compiled

/-- The steps of a plan. -/
def planSteps (A : PlannerAnalysis) (inputs : PlanInputs) : List MigrationStep :=
  compiledSteps A inputs.schema inputs.desired (pendingSteps (planEntries A inputs))

/-- The step that an ordered pending step is compiled to. -/
def PlanInputs.compiled (A : PlannerAnalysis) (inputs : PlanInputs) (item : PendingStep)
    (position : ℕ) : MigrationStep :=
  item.compiled A inputs.schema inputs.desired (position + 1)

section Order

variable {A : PlannerAnalysis} {inputs : PlanInputs}

theorem mem_planSteps {step : MigrationStep} : step ∈ planSteps A inputs ↔
    ∃ (position : ℕ) (item : PendingStep), (orderedPlan A inputs)[position]? = some item ∧
      step = inputs.compiled A item position :=
  mem_compiledSteps

theorem compiled_mem {position : ℕ} {item : PendingStep}
    (h : (orderedPlan A inputs)[position]? = some item) :
    inputs.compiled A item position ∈ planSteps A inputs :=
  mem_planSteps.mpr ⟨position, item, h, rfl⟩

/-- Assumes: two compiled steps, the first of an earlier phase. It stands before the second. -/
theorem index_lt_of_phase_lt {first second : ℕ} {item other : PendingStep}
    (hfirst : (orderedPlan A inputs)[first]? = some item)
    (hsecond : (orderedPlan A inputs)[second]? = some other) (hphase : item.phase < other.phase) :
    (inputs.compiled A item first).index < (inputs.compiled A other second).index :=
  Nat.succ_lt_succ (position_lt_of_place_lt hfirst hsecond (place_lt_of_phase_lt hphase))

end Order

/-- A plan without blockers between contents that are accepted, whose texts can be written. -/
structure UnblockedPlan (A : PlannerAnalysis) (inputs : PlanInputs) : Prop where
  live : AcceptedContent inputs.live
  desired : AcceptedContent inputs.desired
  references : ∀ relationship ∈ inputs.desired.relationships, ∃ table key,
    inputs.desiredTable relationship.targetTableId = some table ∧ targetKey table relationship = some key
  texts : ∀ item ∈ pendingSteps (planEntries A inputs),
    (item.sql A inputs.schema inputs.desired).isSome
  unblocked : blockingWarnings (planEntries A inputs) = []

theorem unblockedPlan {A : PlannerAnalysis} {inputs : PlanInputs} {analysis : SqlAnalysis}
    (hlive : validateDesignContent analysis inputs.live = .ok ())
    (hdesired : validateDesignContent analysis inputs.desired = .ok ()) {steps : List MigrationStep}
    (h : compileMigrationSteps A inputs = some (steps, [])) :
    UnblockedPlan A inputs ∧ steps = planSteps A inputs := by
  obtain ⟨htexts, hsteps, hwarnings⟩ := compileMigrationSteps_eq_some.mp h
  have hreferences := validReferences hdesired
  refine ⟨⟨(validReferences hlive).accepted, hreferences.accepted, ?_, htexts, hwarnings.symm⟩, hsteps⟩
  intro relationship hmem
  obtain ⟨_, table, key, -, htable, hkey, -, -⟩ := hreferences.relationships relationship hmem
  exact ⟨table, key, htable, hkey⟩

end Schemii.Migrations.Planning
