import Schemii.Migrations.PlannerCases

/-!
# The empty plan

A plan has neither steps nor warnings exactly when the live content agrees with the desired one, object
by object under their identifiers (`SameContent`). The worker takes an empty plan as the sign that the
live schema has reached the design.

What an agreement leaves open is the order of objects and columns, the spelling of a type, the text of a
check, the order of the columns that a check, an index or a generated column depends on, and the default
of a generated column.
-/

set_option autoImplicit false

namespace Schemii.Migrations.Planning

open Designs

/-- Two lists have items under the same identifiers, which agree. -/
def AgreeById {α : Type} (id : α → String) (same : α → α → Prop) (first second : List α) : Prop :=
  ∀ key, Option.Rel same (byId id first key) (byId id second key)

/-- Two columns of one identifier agree. -/
structure SameColumn (A : PlannerAnalysis) (old new : DesignColumn) : Prop where
  name : old.name = new.name
  type : (classifyTypeChange A.unicode old.dataType new.dataType).disposition = .equivalent
  identity : old.identity = new.identity
  generated : old.generatedExpression = new.generatedExpression
  sources : sameDependencySet old.generatedSourceColumnIds new.generatedSourceColumnIds = true
  default : old.defaultExpression = new.defaultExpression ∨ new.generatedExpression.isSome = true
  nullable : old.nullable = new.nullable

/-- Two tables of one identifier agree. -/
structure SameTable (A : PlannerAnalysis) (before after : DesignTable) : Prop where
  name : before.name = after.name
  columns : AgreeById DesignColumn.id (SameColumn A) before.columns after.columns
  keys : AgreeById DesignKeyConstraint.id Eq before.keys after.keys
  checks : AgreeById DesignCheckConstraint.id (fun old new ↦ old = new ∨ sameCheck A old new
    (after.columns.map fun column ↦ (column.name, column.dataType)) = true) before.checks after.checks
  indexes : AgreeById DesignIndex.id (fun old new ↦ old = new ∨ sameIndex old new = true)
    before.indexes after.indexes

/-- Two contents agree. -/
structure SameContent (A : PlannerAnalysis) (live desired : SchemiiDesignContent) : Prop where
  tables : AgreeById DesignTable.id (SameTable A) live.tables desired.tables
  relationships : AgreeById DesignRelationship.id Eq live.relationships desired.relationships
  types : AgreeById DesignType.id Eq live.types desired.types
  functions : AgreeById DesignFunction.id Eq live.functions desired.functions
  views : AgreeById DesignView.id Eq live.views desired.views
  triggers : AgreeById DesignTrigger.id Eq live.triggers desired.triggers

section Passes

variable {A : PlannerAnalysis} {inputs : PlanInputs} {before after : DesignTable} {id : String}

/-- Assumes: a pass plans nothing for an identifier exactly when its items agree. It plans nothing
exactly when all items agree. -/
theorem flatMap_sortedIds_eq_nil {α β : Type} {idOf : α → String} {same : α → α → Prop}
    {first second : List α} {plan : String → List β}
    (h : ∀ key, plan key = [] ↔ Option.Rel same (byId idOf first key) (byId idOf second key)) :
    (sortedIds (first.map idOf) (second.map idOf)).flatMap plan = [] ↔
      AgreeById idOf same first second := by
  rw [List.flatMap_eq_nil_iff]
  refine ⟨fun hall key ↦ ?_, fun hall key _ ↦ (h key).2 (hall key)⟩
  by_cases hkey : key ∈ sortedIds (first.map idOf) (second.map idOf)
  · exact (h key).1 (hall key hkey)
  · rw [mem_sortedIds, not_or] at hkey
    have hnone : ∀ items : List α, key ∉ items.map idOf → byId idOf items key = none := by
      intro items hnot
      by_contra hsome
      obtain ⟨item, hitem⟩ := Option.ne_none_iff_exists'.1 hsome
      exact hnot (mem_ids_of_byId hitem)
    rw [hnone _ hkey.1, hnone _ hkey.2]
    exact .none

theorem rel_eq_iff {α : Type} {first second : Option α} :
    Option.Rel Eq first second ↔ first = second := by
  cases first <;> cases second <;> simp

variable (hplain : inputs.conversions = fun _ ↦ none)

include hplain in
theorem planColumnType_eq_nil {old new : DesignColumn} {path : String} :
    planColumnType A inputs before after old new path = [] ↔
      (classifyTypeChange A.unicode old.dataType new.dataType).disposition = .equivalent := by
  unfold planColumnType
  rw [hplain]
  cases hdecision : (classifyTypeChange A.unicode old.dataType new.dataType).disposition with
  | equivalent => simp [hdecision]
  | blocked => simp [hdecision]
  | safe =>
    simp only [hdecision, true_or, if_true]
    split <;> simp

theorem ite_singleton_eq_nil {p : Prop} [Decidable p] {entry : PlanEntry} :
    (if p then [entry] else []) = [] ↔ ¬ p := by
  split <;> simp [*]

/-- Assumes: entries that are missing when both items are. They are planned when the items differ. -/
theorem ite_eq_nil_iff_rel {α : Type} [DecidableEq α] {first second : Option α}
    {entries : List PlanEntry} (h : entries = [] → first = none ∧ second = none) :
    (if first = second then [] else entries) = [] ↔ Option.Rel Eq first second := by
  rw [rel_eq_iff]
  split_ifs with hsame
  · exact iff_of_true rfl hsame
  · refine iff_of_false (fun hnil ↦ ?_) hsame
    obtain ⟨hfirst, hsecond⟩ := h hnil
    exact hsame (hfirst.trans hsecond.symm)

include hplain in
theorem planColumnAlteration_eq_nil {old new : DesignColumn} {path : String} :
    planColumnAlteration A inputs before after old new path = [] ↔ SameColumn A old new := by
  unfold planColumnAlteration
  simp only [List.append_eq_nil_iff, planColumnType_eq_nil hplain, ite_singleton_eq_nil, hplain,
    Option.isSome_none, Bool.false_eq_true, false_and, or_false, not_or, not_not, not_and_or]
  constructor
  · rintro ⟨⟨⟨⟨hname, htype⟩, hidentity, hgenerated, hsources⟩, hdefault⟩, hnullable⟩
    exact ⟨hname, htype, hidentity, hgenerated, hsources,
      by simpa [Option.isSome_iff_ne_none] using hdefault, hnullable⟩
  · rintro ⟨hname, htype, hidentity, hgenerated, hsources, hdefault, hnullable⟩
    exact ⟨⟨⟨⟨hname, htype⟩, hidentity, hgenerated, hsources⟩,
      by simpa [Option.isSome_iff_ne_none] using hdefault⟩, hnullable⟩

include hplain in
theorem planColumnChange_eq_nil :
    planColumnChange A inputs before after id = [] ↔ Option.Rel (SameColumn A)
      (byId DesignColumn.id before.columns id) (byId DesignColumn.id after.columns id) := by
  unfold planColumnChange planColumnAddition
  cases byId DesignColumn.id before.columns id with
  | none =>
    cases byId DesignColumn.id after.columns id with
    | none => exact iff_of_true rfl Option.rel_none_none
    | some new =>
      refine iff_of_false ?_ Option.not_rel_none_some
      dsimp only
      split <;> simp
  | some old =>
    cases byId DesignColumn.id after.columns id with
    | none => exact iff_of_false (by simp) Option.not_rel_some_none
    | some new => rw [Option.rel_some_some, ← planColumnAlteration_eq_nil hplain]

theorem planConstraintChange_eq_nil {category : String} {old new : Option ConstraintItem} :
    planConstraintChange after category old new = [] ↔ old = none ∧ new = none := by
  cases old <;> cases new <;> simp [planConstraintChange]

theorem planKeyChange_eq_nil : planKeyChange before after id = [] ↔ Option.Rel Eq
    (byId DesignKeyConstraint.id before.keys id) (byId DesignKeyConstraint.id after.keys id) := by
  refine ite_eq_nil_iff_rel fun hnil ↦ ?_
  simpa only [planConstraintChange_eq_nil, Option.map_eq_none_iff] using hnil

theorem planCheckChange_eq_nil : planCheckChange A before after id = [] ↔
    Option.Rel (fun old new ↦ old = new ∨ sameCheck A old new
      (after.columns.map fun column ↦ (column.name, column.dataType)) = true)
      (byId DesignCheckConstraint.id before.checks id)
      (byId DesignCheckConstraint.id after.checks id) := by
  unfold planCheckChange
  cases byId DesignCheckConstraint.id before.checks id with
  | none =>
    cases byId DesignCheckConstraint.id after.checks id with
    | none => exact iff_of_true rfl Option.rel_none_none
    | some new => exact iff_of_false (by simp [planConstraintChange_eq_nil]) Option.not_rel_none_some
  | some old =>
    cases byId DesignCheckConstraint.id after.checks id with
    | none => exact iff_of_false (by simp [planConstraintChange_eq_nil]) Option.not_rel_some_none
    | some new => rw [Option.rel_some_some]; simp [planConstraintChange_eq_nil, or_iff_not_imp_left]

theorem planIndexChange_eq_nil : planIndexChange before after id = [] ↔
    Option.Rel (fun old new ↦ old = new ∨ sameIndex old new = true)
      (byId DesignIndex.id before.indexes id) (byId DesignIndex.id after.indexes id) := by
  unfold planIndexChange
  cases byId DesignIndex.id before.indexes id with
  | none =>
    cases byId DesignIndex.id after.indexes id with
    | none => exact iff_of_true rfl Option.rel_none_none
    | some new => exact iff_of_false (by simp) Option.not_rel_none_some
  | some old =>
    cases byId DesignIndex.id after.indexes id with
    | none => exact iff_of_false (by simp) Option.not_rel_some_none
    | some new => rw [Option.rel_some_some]; simp [or_iff_not_imp_left]

include hplain in
theorem planTableChange_eq_nil :
    planTableChange A inputs id = [] ↔ Option.Rel (SameTable A)
      (byId DesignTable.id inputs.live.tables id) (byId DesignTable.id inputs.desired.tables id) := by
  unfold planTableChange PlanInputs.liveTable PlanInputs.desiredTable
  cases byId DesignTable.id inputs.live.tables id with
  | none =>
    cases byId DesignTable.id inputs.desired.tables id with
    | none => exact iff_of_true rfl Option.rel_none_none
    | some after => exact iff_of_false (by simp) Option.not_rel_none_some
  | some before =>
    cases byId DesignTable.id inputs.desired.tables id with
    | none => exact iff_of_false (by simp) Option.not_rel_some_none
    | some after =>
      simp only [List.append_eq_nil_iff, ite_singleton_eq_nil, not_not, planTableColumnChanges,
        planTableConstraintChanges, planTableIndexChanges, Option.rel_some_some,
        flatMap_sortedIds_eq_nil fun _ ↦ planColumnChange_eq_nil hplain,
        flatMap_sortedIds_eq_nil fun _ ↦ planKeyChange_eq_nil,
        flatMap_sortedIds_eq_nil fun _ ↦ planCheckChange_eq_nil,
        flatMap_sortedIds_eq_nil fun _ ↦ planIndexChange_eq_nil]
      constructor
      · rintro ⟨⟨⟨hname, hcolumns⟩, hkeys, hchecks⟩, hindexes⟩
        exact ⟨hname, hcolumns, hkeys, hchecks, hindexes⟩
      · rintro ⟨hname, hcolumns, hkeys, hchecks, hindexes⟩
        exact ⟨⟨⟨hname, hcolumns⟩, hkeys, hchecks⟩, hindexes⟩

theorem safeTypeChangeIds_eq_nil
    (h : AgreeById DesignTable.id (SameTable A) inputs.live.tables inputs.desired.tables) :
    safeTypeChangeIds A inputs = [] := by
  have hnone : columnTypeChanges A inputs = [] := by
    unfold columnTypeChanges PlanInputs.liveTable PlanInputs.desiredTable
    rw [List.flatMap_eq_nil_iff]
    intro tableId _
    have htable := h tableId
    generalize byId DesignTable.id inputs.live.tables tableId = live at htable ⊢
    generalize byId DesignTable.id inputs.desired.tables tableId = desired at htable ⊢
    cases htable with
    | none => rfl
    | some hsame =>
      rw [List.filterMap_eq_nil_iff]
      intro id _
      have hcolumn := hsame.columns id
      dsimp only
      generalize byId DesignColumn.id _ id = old at hcolumn ⊢
      generalize byId DesignColumn.id _ id = new at hcolumn ⊢
      cases hcolumn with
      | none => rfl
      | some hcolumn => exact if_pos hcolumn.type
  rw [safeTypeChangeIds, hnone]
  rfl

theorem planRelationshipChange_eq_nil (hsafe : safeTypeChangeIds A inputs = []) :
    planRelationshipChange A inputs id = [] ↔ Option.Rel Eq
      (byId DesignRelationship.id inputs.live.relationships id)
      (byId DesignRelationship.id inputs.desired.relationships id) := by
  have hplain : ∀ relationship, changedRelationshipColumn [] relationship = false := by
    intro relationship
    cases relationship <;> simp [changedRelationshipColumn]
  unfold planRelationshipChange
  simp only [hsafe, hplain, Bool.false_eq_true, not_false_eq_true, and_true]
  refine ite_eq_nil_iff_rel fun hnil ↦ ?_
  simpa using hnil

theorem planTypeChange_eq_nil : planTypeChange inputs id = [] ↔ Option.Rel Eq
    (byId DesignType.id inputs.live.types id) (byId DesignType.id inputs.desired.types id) := by
  refine ite_eq_nil_iff_rel fun hnil ↦ ?_
  generalize byId DesignType.id inputs.live.types id = old at hnil ⊢
  generalize byId DesignType.id inputs.desired.types id = new at hnil ⊢
  cases old <;> cases new <;> simp at hnil ⊢

theorem planFunctionChange_eq_nil : planFunctionChange A inputs id = [] ↔ Option.Rel Eq
    (byId DesignFunction.id inputs.live.functions id)
    (byId DesignFunction.id inputs.desired.functions id) := by
  refine ite_eq_nil_iff_rel fun hnil ↦ ?_
  generalize byId DesignFunction.id inputs.live.functions id = old at hnil ⊢
  generalize byId DesignFunction.id inputs.desired.functions id = new at hnil ⊢
  cases old <;> cases new <;> dsimp only at hnil ⊢ <;> (try split_ifs at hnil) <;> simp_all

theorem planViewChange_eq_nil : planViewChange inputs id = [] ↔ Option.Rel Eq
    (byId DesignView.id inputs.live.views id) (byId DesignView.id inputs.desired.views id) := by
  refine ite_eq_nil_iff_rel fun hnil ↦ ?_
  generalize byId DesignView.id inputs.live.views id = old at hnil ⊢
  generalize byId DesignView.id inputs.desired.views id = new at hnil ⊢
  cases old <;> cases new <;> dsimp only at hnil ⊢ <;> (try split_ifs at hnil) <;> simp_all

theorem planTriggerChange_eq_nil : planTriggerChange inputs id = [] ↔ Option.Rel Eq
    (byId DesignTrigger.id inputs.live.triggers id)
    (byId DesignTrigger.id inputs.desired.triggers id) := by
  refine ite_eq_nil_iff_rel fun hnil ↦ ?_
  simpa using hnil

include hplain in
theorem planEntries_eq_nil (hrebuild : inputs.rebuildTableIds = []) :
    planEntries A inputs = [] ↔ SameContent A inputs.live inputs.desired := by
  have hrebuilds : planPhysicalColumnRebuilds A inputs = [] := by
    rw [planPhysicalColumnRebuilds, hrebuild]
    rfl
  unfold planEntries planTableChanges planTypeChanges planFunctionChanges planViewChanges
    planTriggerChanges planRelationshipChanges
  simp only [List.append_eq_nil_iff, hrebuilds, true_and,
    flatMap_sortedIds_eq_nil fun _ ↦ planTableChange_eq_nil hplain,
    flatMap_sortedIds_eq_nil fun _ ↦ planTypeChange_eq_nil,
    flatMap_sortedIds_eq_nil fun _ ↦ planFunctionChange_eq_nil,
    flatMap_sortedIds_eq_nil fun _ ↦ planViewChange_eq_nil,
    flatMap_sortedIds_eq_nil fun _ ↦ planTriggerChange_eq_nil]
  have hrelationships (htables : AgreeById DesignTable.id (SameTable A) inputs.live.tables
      inputs.desired.tables) := flatMap_sortedIds_eq_nil
    fun _ ↦ planRelationshipChange_eq_nil (safeTypeChangeIds_eq_nil htables)
  constructor
  · rintro ⟨⟨⟨⟨⟨hrelated, htables⟩, htypes⟩, hfunctions⟩, hviews⟩, htriggers⟩
    exact ⟨htables, (hrelationships htables).1 hrelated, htypes, hfunctions, hviews, htriggers⟩
  · rintro ⟨htables, hrelated, htypes, hfunctions, hviews, htriggers⟩
    exact ⟨⟨⟨⟨⟨(hrelationships htables).2 hrelated, htables⟩, htypes⟩, hfunctions⟩, hviews⟩,
      htriggers⟩

end Passes

/-- The empty plan is exact: without chosen conversions and rebuilds, a plan has neither steps nor
warnings exactly when the contents agree. -/
theorem empty_plan_exact (A : PlannerAnalysis) (schema : String) (live desired : SchemiiDesignContent)
    (emptyTables populated : List String) :
    compileMigrationSteps A ⟨schema, live, desired, emptyTables, [], populated, fun _ ↦ none⟩ =
      some ([], []) ↔ SameContent A live desired := by
  set inputs : PlanInputs := ⟨schema, live, desired, emptyTables, [], populated, fun _ ↦ none⟩
  rw [← @planEntries_eq_nil A inputs rfl rfl, compileMigrationSteps_eq_some]
  constructor
  · rintro ⟨-, hsteps, hwarnings⟩
    have hordered : orderedSteps A schema desired (pendingSteps (planEntries A inputs)) = [] := by
      simpa [compiledSteps] using hsteps.symm
    refine List.eq_nil_iff_forall_not_mem.2 fun entry hentry ↦ ?_
    cases entry with
    | step item =>
      obtain ⟨position, kept, hkept, -⟩ : ∃ position kept,
          (orderedSteps A schema desired (pendingSteps (planEntries A inputs)))[position]? =
            some kept ∧ _ :=
        exists_ordered (mem_pendingSteps.2 hentry)
      simp [hordered] at hkept
    | blocked warning => exact blockingWarnings_eq_nil.1 hwarnings.symm warning hentry
  · intro hnil
    rw [hnil]
    exact ⟨by simp [pendingSteps], rfl, rfl⟩

end Schemii.Migrations.Planning
