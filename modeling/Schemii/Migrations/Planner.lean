import Schemii.Migrations.PlannedSteps

/-!
# The planner

The passes of `migrations/planner.py`: the differences of the physical order of columns and the rebuild
of a table, the changes of relationships, tables, columns, constraints, indexes, types, routines, views
and triggers, and `compile_migration_steps`.

Every pass goes through the identifiers of the live and the desired objects and adds steps and
warnings to the plan. The phase of a step, not the pass, decides where it stands.
-/

set_option autoImplicit false

namespace Schemii.Migrations.Planning

open Foundations
open Designs hiding quote columnDefinition

/-! ### Inputs -/

/-- `CompiledConversion`, as far as the planner reads it. -/
structure CompiledConversion where
  expression : String
  targetType : String
  guardSql : Option String
  custom : Bool
  deriving DecidableEq, Repr

/-- The inputs of `compile_migration_steps`. -/
structure PlanInputs where
  schema : String
  live : SchemiiDesignContent
  desired : SchemiiDesignContent
  emptyTables : List String := []
  rebuildTableIds : List String := []
  populatedRebuildTableIds : List String := []
  conversions : String → Option CompiledConversion := fun _ ↦ none

/-- `_by_id`, as a lookup: the last of the items with an identifier. -/
def byId {α : Type} (id : α → String) (items : List α) (key : String) : Option α :=
  items.reverse.find? fun item ↦ id item = key

/-- The identifiers of two lists, sorted. -/
def sortedIds (first second : List String) : List String :=
  (first ++ second).dedup.insertionSort fun id other ↦ id ≤ other

/-- Sorted names, each once. -/
def sortedNames (names : List String) : List String :=
  names.dedup.insertionSort fun name other ↦ name ≤ other

/-- The live table of an identifier. -/
def PlanInputs.liveTable (inputs : PlanInputs) (id : String) : Option DesignTable :=
  byId DesignTable.id inputs.live.tables id

/-- The desired table of an identifier. -/
def PlanInputs.desiredTable (inputs : PlanInputs) (id : String) : Option DesignTable :=
  byId DesignTable.id inputs.desired.tables id

/-- `_same_dependency_set`. -/
def sameDependencySet (left right : List String) : Bool :=
  left ⊆ right ∧ right ⊆ left

/-- The values sorted. -/
def sorted (values : List String) : List String :=
  values.insertionSort fun value other ↦ value ≤ other

/-- `_same_check`. -/
def sameCheck (A : PlannerAnalysis) (left right : DesignCheckConstraint)
    (columnTypes : List (String × String)) : Bool :=
  left.id = right.id ∧ left.name = right.name ∧ sorted left.columnIds = sorted right.columnIds ∧
    A.equivalentCheckExpressions left.expression right.expression columnTypes = true

/-- `_same_index`. -/
def sameIndex (left right : DesignIndex) : Bool :=
  { left with
    expressionSourceColumnIds := sorted left.expressionSourceColumnIds
    predicateColumnIds := sorted left.predicateColumnIds } =
  { right with
    expressionSourceColumnIds := sorted right.expressionSourceColumnIds
    predicateColumnIds := sorted right.predicateColumnIds }

/-- `_column_type_changes`. -/
def columnTypeChanges (A : PlannerAnalysis) (inputs : PlanInputs) :
    List (String × TypeChangeDecision) :=
  (inputs.live.tables.map DesignTable.id).dedup.flatMap fun tableId ↦
    match inputs.liveTable tableId, inputs.desiredTable tableId with
    | some before, some after =>
      (before.columns.map DesignColumn.id).dedup.filterMap fun id ↦
        match byId DesignColumn.id before.columns id, byId DesignColumn.id after.columns id with
        | some old, some new =>
          let decision := classifyTypeChange A.unicode old.dataType new.dataType
          if decision.disposition = .equivalent then none else some (id, decision)
        | _, _ => none
    | _, _ => []

/-- `safe_type_change_ids`. -/
def safeTypeChangeIds (A : PlannerAnalysis) (inputs : PlanInputs) : List String :=
  ((columnTypeChanges A inputs).filter fun (id, decision) ↦
    decision.disposition = .safe ∨ (inputs.conversions id).isSome = true).map Prod.fst

/-- Names of relations are compared as what they are. -/
local instance lawfulBEq_relationName : LawfulBEq (String × String) :=
  inferInstance

/-- `_dependent_view_names`. -/
def dependentViewNames (A : PlannerAnalysis) (inputs : PlanInputs) (table : String) : List String :=
  sortedNames (((inputs.live.views ++ inputs.desired.views).filter fun view ↦
    (inputs.schema, table) ∈ A.referencedRelations view.definition inputs.schema).map DesignView.name)

/-! ### The physical order of columns -/

/-- `ColumnOrderDifference`. -/
structure ColumnOrderDifference where
  tableId : String
  tableName : String
  currentOrder : List String
  desiredOrder : List String
  blockingReasons : List String
  deriving DecidableEq, Repr

/-- A call of `nextval` stands in a text, after a character. -/
def callsNextval (A : PlannerAnalysis) : Option Char → List Char → Bool
  | _, [] => false
  | before, letter :: rest =>
    (!before.any A.isWordLetter &&
      (afterName A.sameLetter "nextval".toList (letter :: rest)).any fun after ↦
        (after.dropWhile isSpace).head? = some '(') ||
    callsNextval A (some letter) rest

/-- A relationship of a table. -/
def involves (table : String) (relationship : Option DesignRelationship) : Bool :=
  relationship.any fun relationship ↦
    relationship.sourceTableId = table ∨ relationship.targetTableId = table

/-- A trigger on one of two names. -/
def firesOn (before after : String) (trigger : Option DesignTrigger) : Bool :=
  trigger.any fun trigger ↦ trigger.relationName = before ∨ trigger.relationName = after

/-- The reasons against the rebuild of a table. -/
def rebuildReasons (A : PlannerAnalysis) (inputs : PlanInputs) (before after : DesignTable) :
    List String :=
  let currentIds := before.columns.map DesignColumn.id
  let desiredIds := after.columns.map DesignColumn.id
  (if !sameDependencySet currentIds desiredIds then
    ["Apply this table's column additions or removals before rebuilding its physical order."]
  else if currentIds.any fun id ↦
      byId DesignColumn.id before.columns id ≠ byId DesignColumn.id after.columns id then
    ["Apply this table's column edits before rebuilding its physical order."]
  else []) ++
  (if before.name ≠ after.name then
    ["Apply the table rename before rebuilding its physical order."] else []) ++
  (if before.keys ≠ after.keys ∨ before.checks ≠ after.checks ∨ before.indexes ≠ after.indexes then
    ["Apply this table's constraint and index edits before rebuilding its physical order."]
  else []) ++
  (if (sortedIds (inputs.live.relationships.map DesignRelationship.id)
      (inputs.desired.relationships.map DesignRelationship.id)).any fun id ↦
        let old := byId DesignRelationship.id inputs.live.relationships id
        let new := byId DesignRelationship.id inputs.desired.relationships id
        (involves before.id old || involves before.id new) && old ≠ new then
    ["Apply foreign-key edits involving this table before rebuilding its physical order."]
  else []) ++
  (if (sortedIds (inputs.live.triggers.map DesignTrigger.id)
      (inputs.desired.triggers.map DesignTrigger.id)).any fun id ↦
        let old := byId DesignTrigger.id inputs.live.triggers id
        let new := byId DesignTrigger.id inputs.desired.triggers id
        (firesOn before.name after.name old || firesOn before.name after.name new) && old ≠ new then
    ["Apply trigger edits on this table before rebuilding its physical order."]
  else []) ++
  (match dependentViewNames A inputs before.name with
    | [] => []
    | names => ["Rebuild or remove dependent views first: " ++ ", ".intercalate names]) ++
  (if after.columns.any fun column ↦ column.generatedExpression.isSome then
    ["Physical reordering of generated columns is not yet lossless."] else []) ++
  (if after.columns.any fun column ↦
      column.defaultExpression.any fun text ↦ callsNextval A none text.toList then
    ["Serial-sequence defaults must be converted to identity columns before physical reordering."]
  else [])

/-- The difference of the physical order of a table that is on both sides. -/
def columnOrderDifference (A : PlannerAnalysis) (inputs : PlanInputs) (tableId : String) :
    Option ColumnOrderDifference :=
  match inputs.liveTable tableId, inputs.desiredTable tableId with
  | some before, some after =>
    if before.columns.map DesignColumn.id = after.columns.map DesignColumn.id then none
    else some
      { tableId
        tableName := after.name
        currentOrder := before.columns.map DesignColumn.name
        desiredOrder := after.columns.map DesignColumn.name
        blockingReasons := rebuildReasons A inputs before after }
  | _, _ => none

/-- `column_order_differences`. -/
def columnOrderDifferences (A : PlannerAnalysis) (inputs : PlanInputs) :
    List ColumnOrderDifference :=
  (sortedIds (inputs.live.tables.map DesignTable.id)
    (inputs.desired.tables.map DesignTable.id)).filterMap (columnOrderDifference A inputs)

/-- The steps of `_append_column_order_rebuild`. -/
def appendColumnOrderRebuild (A : PlannerAnalysis) (inputs : PlanInputs) (before after : DesignTable)
    (containsData : Bool) : List PendingStep :=
  let tablePath := "tables." ++ after.name ++ ".column_order"
  let backup := "schemii_reorder_" ++ A.reorderName before.id
  let columnNames := before.columns.map DesignColumn.name
  [{ phase := 1, kind := .table, path := tablePath, operation := .lockForPhysicalReorder,
     statement := .lockTable before.name, dataMovement := containsData }] ++
  (if containsData then
    [{ phase := 2, kind := .table, path := tablePath, operation := .stageRowsForPhysicalReorder,
       statement := .stageRows backup columnNames before.name, dataMovement := true }]
  else []) ++
  ((inputs.live.relationships.filter fun relationship ↦
    involves before.id (some relationship)).map fun relationship ↦
    { phase := 5, kind := .relationship, path := "relationships." ++ relationship.name,
      operation := .dropForPhysicalReorder,
      statement := .dropForeignKey
        ((inputs.liveTable relationship.sourceTableId).map DesignTable.name) relationship.name }) ++
  ((inputs.live.triggers.filter fun trigger ↦ trigger.relationName = before.name).map fun trigger ↦
    { phase := 6, kind := .trigger, path := "triggers." ++ before.name ++ "." ++ trigger.name,
      operation := .dropForPhysicalReorder, statement := .dropTrigger trigger.name before.name }) ++
  (before.indexes.map fun index ↦
    { phase := 7, kind := .index, path := "tables." ++ before.name ++ ".indexes." ++ index.name,
      operation := .dropForPhysicalReorder, statement := .dropIndex index.name }) ++
  ((constraintItems before).map fun item ↦
    { phase := 8, kind := .constraint,
      path := "tables." ++ before.name ++ ".constraints." ++ item.name,
      operation := .dropForPhysicalReorder,
      statement := .dropConstraint before.name item.name }) ++
  (before.columns.zipIdx.map fun (column, ordinal) ↦
    { phase := 9, kind := .column, path := "tables." ++ before.name ++ ".columns." ++ column.name,
      operation := .removeForPhysicalReorder, statement := .dropColumn before.name column.name,
      destructive := containsData, dataMovement := containsData, order := ordinal }) ++
  (if containsData then
    [{ phase := 10, kind := .table, path := tablePath,
       operation := .clearStagedRowsForPhysicalReorder, statement := .truncateTable before.name,
       destructive := true, dataMovement := true }]
  else []) ++
  (after.columns.zipIdx.map fun (column, ordinal) ↦
    { phase := 40, kind := .column, path := "tables." ++ after.name ++ ".columns." ++ column.name,
      operation := .restoreInPhysicalOrder, statement := .addColumn before.name column,
      dataMovement := containsData, order := ordinal }) ++
  (if containsData then
    [{ phase := 45, kind := .table, path := tablePath,
       operation := .restoreRowsAfterPhysicalReorder,
       statement := .restoreRows before.name columnNames
         (after.columns.any fun column ↦ column.identity.isSome) backup,
       dataMovement := true }]
  else []) ++
  ((after.columns.filter fun column ↦ column.identity.isSome).map fun column ↦
    { phase := 46, kind := .column, path := "tables." ++ after.name ++ ".columns." ++ column.name,
      operation := .synchronizeIdentityAfterPhysicalReorder,
      statement := .synchronizeIdentity after.name column.name, dataMovement := containsData }) ++
  ((constraintItems after).map fun item ↦
    { phase := 60, kind := .constraint,
      path := "tables." ++ after.name ++ ".constraints." ++ item.name,
      operation := .restoreAfterPhysicalReorder, statement := .addConstraint after.name item }) ++
  (after.indexes.map fun index ↦
    { phase := 65, kind := .index, path := "tables." ++ after.name ++ ".indexes." ++ index.name,
      operation := .restoreAfterPhysicalReorder, statement := .createIndex after.name index }) ++
  ((inputs.desired.relationships.filter fun relationship ↦
    involves before.id (some relationship)).map fun relationship ↦
    { phase := 70, kind := .relationship, path := "relationships." ++ relationship.name,
      operation := .restoreAfterPhysicalReorder, statement := .addForeignKey relationship }) ++
  ((inputs.desired.triggers.filter fun trigger ↦ trigger.relationName = after.name).map fun trigger ↦
    { phase := 80, kind := .trigger, path := "triggers." ++ after.name ++ "." ++ trigger.name,
      operation := .restoreAfterPhysicalReorder, statement := .createTrigger trigger })

/-- `_plan_physical_column_rebuilds`, for one table. -/
def planPhysicalColumnRebuild (A : PlannerAnalysis) (inputs : PlanInputs) (tableId : String) :
    List PlanEntry :=
  match (columnOrderDifferences A inputs).find? fun item ↦ item.tableId = tableId with
  | none => [.blocked
      { code := "physical_column_order_not_available"
        message := "This table no longer has a physical column-order difference to rebuild."
        objectPath := "tables." ++ tableId ++ ".column_order" }]
  | some difference =>
    if difference.blockingReasons.isEmpty then
      match inputs.liveTable tableId, inputs.desiredTable tableId with
      | some before, some after => (appendColumnOrderRebuild A inputs before after
          (tableId ∈ inputs.populatedRebuildTableIds)).map .step
      | _, _ => []
    else [.blocked
      { code := "physical_column_order_rebuild_blocked"
        message := " ".intercalate difference.blockingReasons
        objectPath := "tables." ++ difference.tableName ++ ".column_order" }]

/-- `_plan_physical_column_rebuilds`. -/
def planPhysicalColumnRebuilds (A : PlannerAnalysis) (inputs : PlanInputs) : List PlanEntry :=
  (sortedNames inputs.rebuildTableIds).flatMap (planPhysicalColumnRebuild A inputs)

/-! ### Relationships -/

/-- A relationship has a column whose type changes. -/
def changedRelationshipColumn (safe : List String) (relationship : Option DesignRelationship) :
    Bool :=
  relationship.any fun relationship ↦
    (relationship.sourceColumnIds ++ relationship.targetColumnIds).any fun id ↦ id ∈ safe

/-- `_plan_relationship_changes`, for one relationship. -/
def planRelationshipChange (A : PlannerAnalysis) (inputs : PlanInputs) (id : String) :
    List PlanEntry :=
  let before := byId DesignRelationship.id inputs.live.relationships id
  let after := byId DesignRelationship.id inputs.desired.relationships id
  let safe := safeTypeChangeIds A inputs
  if before = after ∧ ¬ changedRelationshipColumn safe before ∧ ¬ changedRelationshipColumn safe after
  then []
  else
    (before.toList.map fun relationship ↦ .step
      { phase := 10, kind := .relationship, path := "relationships." ++ relationship.name,
        operation := .drop,
        statement := .dropForeignKey
          ((inputs.liveTable relationship.sourceTableId).map DesignTable.name) relationship.name,
        destructive := after.isNone }) ++
    (after.toList.map fun relationship ↦ .step
      { phase := 70, kind := .relationship, path := "relationships." ++ relationship.name,
        operation := .create, statement := .addForeignKey relationship })

/-- `_plan_relationship_changes`. -/
def planRelationshipChanges (A : PlannerAnalysis) (inputs : PlanInputs) : List PlanEntry :=
  (sortedIds (inputs.live.relationships.map DesignRelationship.id)
    (inputs.desired.relationships.map DesignRelationship.id)).flatMap
      (planRelationshipChange A inputs)

/-! ### Columns -/

/-- The entries for a column that is added. -/
def planColumnAddition (inputs : PlanInputs) (before after : DesignTable) (new : DesignColumn)
    (path : String) : List PlanEntry :=
  let cannotPopulate := !new.nullable && new.defaultExpression.isNone && new.identity.isNone &&
    new.generatedExpression.isNone
  if cannotPopulate && before.name ∉ inputs.emptyTables then
    [.blocked
      { code := "required_column_population_required"
        message := "Adding required column " ++ after.name ++ "." ++ new.name ++
          " needs a default, identity, generated expression, or an empty live table"
        objectPath := path }]
  else
    [.step
      { phase := 45, kind := .column, path := path, operation := .add,
        statement := .addColumn after.name new,
        dataMovement := new.defaultExpression.isSome || new.identity.isSome ||
          new.generatedExpression.isSome }]

/-- The entries for the type of a column that is on both sides. The table has its new name, and so has
the column. -/
def planColumnType (A : PlannerAnalysis) (inputs : PlanInputs) (before after : DesignTable)
    (old new : DesignColumn) (path : String) : List PlanEntry :=
  let change := classifyTypeChange A.unicode old.dataType new.dataType
  let conversion := inputs.conversions old.id
  if change.disposition = .safe ∨ conversion.isSome then
    let generated := sorted ((after.columns.filter fun column ↦
      old.id ∈ column.generatedSourceColumnIds).map DesignColumn.name)
    let views := sortedNames (dependentViewNames A inputs after.name ++
      dependentViewNames A inputs before.name)
    if !generated.isEmpty || !views.isEmpty then
      [.blocked
        { code := "column_type_dependency_requires_review"
          message := "Changing " ++ after.name ++ "." ++ new.name ++ " requires rebuilding " ++
            ", ".intercalate ((generated.map fun name ↦
              "generated column " ++ after.name ++ "." ++ name) ++
              views.map fun name ↦ "view " ++ name)
          objectPath := path }]
    else
      (conversion.toList.flatMap fun conversion ↦
        [.step { phase := 5, kind := .table, path := "tables." ++ before.name,
                 operation := .lockForConversion, statement := .lockTable before.name }] ++
        ((conversion.guardSql.filter fun guard ↦ !guard.isEmpty).toList.map fun guard ↦ .step
          { phase := 46, kind := .column, path := path, operation := .validateConversion,
            statement := .validateConversion guard }) ++
        (old.defaultExpression.toList.map fun _ ↦ .step
          { phase := 47, kind := .column, path := path, operation := .dropDefaultForConversion,
            statement := .alterDefault after.name new.name none })) ++
      [.step
        { phase := 48, kind := .column, path := path, operation := .alterType,
          statement := .alterType after.name new.name
            ((conversion.map CompiledConversion.targetType).getD (strip new.dataType))
            (conversion.map CompiledConversion.expression),
          destructive := conversion.any CompiledConversion.custom, dataMovement := true }]
  else if change.disposition = .blocked then
    [.blocked
      { code := "column_type_conversion_required"
        message := "Changing " ++ after.name ++ "." ++ new.name ++ " from " ++ old.dataType ++
          " to " ++ new.dataType ++ " requires a reviewed USING expression: " ++ change.reason
        objectPath := path }]
  else []

/-- The entries for a column that is on both sides. -/
def planColumnAlteration (A : PlannerAnalysis) (inputs : PlanInputs) (before after : DesignTable)
    (old new : DesignColumn) (path : String) : List PlanEntry :=
  (if old.name ≠ new.name then
    [.step { phase := 42, kind := .column, path := path, operation := .rename,
             statement := .renameColumn after.name old.name new.name }]
  else []) ++
  planColumnType A inputs before after old new path ++
  (if old.identity ≠ new.identity ∨ old.generatedExpression ≠ new.generatedExpression ∨
      ¬ sameDependencySet old.generatedSourceColumnIds new.generatedSourceColumnIds then
    [.blocked
      { code := "column_generation_change_unsupported"
        message := "Changing generated or identity behavior for " ++ after.name ++ "." ++ new.name ++
          " is not yet lossless"
        objectPath := path }]
  else []) ++
  (if (old.defaultExpression ≠ new.defaultExpression ∨
      ((inputs.conversions old.id).isSome ∧ old.defaultExpression.isSome)) ∧
      new.generatedExpression.isNone then
    [.step { phase := 50, kind := .column, path := path, operation := .alterDefault,
             statement := .alterDefault after.name new.name new.defaultExpression }]
  else []) ++
  (if old.nullable ≠ new.nullable then
    [.step { phase := 52, kind := .column, path := path, operation := .alterNullability,
             statement := .alterNullability after.name new.name new.nullable,
             dataMovement := !new.nullable }]
  else [])

/-- `_plan_table_column_changes`, for one column. The table is addressed by its new name. -/
def planColumnChange (A : PlannerAnalysis) (inputs : PlanInputs) (before after : DesignTable)
    (id : String) : List PlanEntry :=
  match byId DesignColumn.id before.columns id, byId DesignColumn.id after.columns id with
  | none, some new => planColumnAddition inputs before after new
      ("tables." ++ after.name ++ ".columns." ++ new.name)
  | some old, none =>
    [.step { phase := 20, kind := .column,
             path := "tables." ++ after.name ++ ".columns." ++ old.name, operation := .drop,
             statement := .dropColumn after.name old.name, destructive := true,
             dataMovement := true }]
  | some old, some new => planColumnAlteration A inputs before after old new
      ("tables." ++ after.name ++ ".columns." ++ new.name)
  | none, none => []

/-- `_plan_table_column_changes`. -/
def planTableColumnChanges (A : PlannerAnalysis) (inputs : PlanInputs) (before after : DesignTable) :
    List PlanEntry :=
  (sortedIds (before.columns.map DesignColumn.id) (after.columns.map DesignColumn.id)).flatMap
    (planColumnChange A inputs before after)

/-! ### Constraints and indexes -/

/-- The entries for a constraint of a category that is not the same on both sides. -/
def planConstraintChange (after : DesignTable) (category : String) (old new : Option ConstraintItem) :
    List PlanEntry :=
  (old.toList.map fun item ↦ .step
    { phase := 15, kind := .constraint,
      path := "tables." ++ after.name ++ "." ++ category ++ "." ++ item.name, operation := .drop,
      statement := .dropConstraint after.name item.name, destructive := new.isNone }) ++
  (new.toList.map fun item ↦ .step
    { phase := 60, kind := .constraint,
      path := "tables." ++ after.name ++ "." ++ category ++ "." ++ item.name, operation := .create,
      statement := .addConstraint after.name item })

/-- `_plan_table_constraint_changes`, for one key. -/
def planKeyChange (before after : DesignTable) (id : String) : List PlanEntry :=
  let old := byId DesignKeyConstraint.id before.keys id
  let new := byId DesignKeyConstraint.id after.keys id
  if old = new then []
  else planConstraintChange after "keys" (old.map .key) (new.map .key)

/-- `_plan_table_constraint_changes`, for one check. -/
def planCheckChange (A : PlannerAnalysis) (before after : DesignTable) (id : String) :
    List PlanEntry :=
  let old := byId DesignCheckConstraint.id before.checks id
  let new := byId DesignCheckConstraint.id after.checks id
  let columnTypes := after.columns.map fun column ↦ (column.name, column.dataType)
  let same : Bool := match old, new with
    | some old, some new => sameCheck A old new columnTypes
    | _, _ => false
  if old = new ∨ same = true then []
  else planConstraintChange after "checks" (old.map .check) (new.map .check)

/-- `_plan_table_constraint_changes`. -/
def planTableConstraintChanges (A : PlannerAnalysis) (before after : DesignTable) : List PlanEntry :=
  (sortedIds (before.keys.map DesignKeyConstraint.id)
    (after.keys.map DesignKeyConstraint.id)).flatMap (planKeyChange before after) ++
  (sortedIds (before.checks.map DesignCheckConstraint.id)
    (after.checks.map DesignCheckConstraint.id)).flatMap (planCheckChange A before after)

/-- `_plan_table_index_changes`, for one index. -/
def planIndexChange (before after : DesignTable) (id : String) : List PlanEntry :=
  let old := byId DesignIndex.id before.indexes id
  let new := byId DesignIndex.id after.indexes id
  let same : Bool := match old, new with
    | some old, some new => sameIndex old new
    | _, _ => false
  if old = new ∨ same = true then []
  else
    (old.toList.map fun index ↦ .step
      { phase := 12, kind := .index, path := "tables." ++ after.name ++ ".indexes." ++ index.name,
        operation := .drop, statement := .dropIndex index.name, destructive := new.isNone }) ++
    (new.toList.map fun index ↦ .step
      { phase := 65, kind := .index, path := "tables." ++ after.name ++ ".indexes." ++ index.name,
        operation := .create, statement := .createIndex after.name index })

/-- `_plan_table_index_changes`. -/
def planTableIndexChanges (before after : DesignTable) : List PlanEntry :=
  (sortedIds (before.indexes.map DesignIndex.id) (after.indexes.map DesignIndex.id)).flatMap
    (planIndexChange before after)

/-! ### Tables -/

/-- `_plan_table_changes`, for one table. -/
def planTableChange (A : PlannerAnalysis) (inputs : PlanInputs) (id : String) : List PlanEntry :=
  match inputs.liveTable id, inputs.desiredTable id with
  | none, some after =>
    .step { phase := 40, kind := .table, path := "tables." ++ after.name, operation := .create,
            statement := .createTable after } ::
      after.indexes.map fun index ↦ .step
        { phase := 65, kind := .index, path := "tables." ++ after.name ++ ".indexes." ++ index.name,
          operation := .create, statement := .createIndex after.name index }
  | some before, none =>
    [.step { phase := 30, kind := .table, path := "tables." ++ before.name, operation := .drop,
             statement := .dropTable before.name, destructive := true, dataMovement := true }]
  | some before, some after =>
    (if before.name ≠ after.name then
      [.step { phase := 35, kind := .table, path := "tables." ++ before.name, operation := .rename,
               statement := .renameTable before.name after.name }]
    else []) ++
    planTableColumnChanges A inputs before after ++ planTableConstraintChanges A before after ++
      planTableIndexChanges before after
  | none, none => []

/-- `_plan_table_changes`. -/
def planTableChanges (A : PlannerAnalysis) (inputs : PlanInputs) : List PlanEntry :=
  (sortedIds (inputs.live.tables.map DesignTable.id)
    (inputs.desired.tables.map DesignTable.id)).flatMap (planTableChange A inputs)

/-! ### Types, routines, views and triggers -/

/-- `_plan_type_changes`, for one type. -/
def planTypeChange (inputs : PlanInputs) (id : String) : List PlanEntry :=
  let before := byId DesignType.id inputs.live.types id
  let after := byId DesignType.id inputs.desired.types id
  if before = after then []
  else match before, after with
    | none, some type =>
      [.step { phase := 38, kind := .type, path := "types." ++ type.name, operation := .create,
               statement := .createType type }]
    | some type, none =>
      [.step { phase := 32, kind := .type, path := "types." ++ type.name, operation := .drop,
               statement := .dropType type.kind type.name, destructive := true }]
    | some _, some type =>
      [.blocked
        { code := "type_replacement_unsupported"
          message := "Changing type " ++ type.name ++ " requires a specialized PostgreSQL type migration"
          objectPath := "types." ++ type.name }]
    | none, none => []

/-- `_plan_type_changes`. -/
def planTypeChanges (inputs : PlanInputs) : List PlanEntry :=
  (sortedIds (inputs.live.types.map DesignType.id) (inputs.desired.types.map DesignType.id)).flatMap
    (planTypeChange inputs)

/-- The kind of a step on a routine. -/
def routineStepKind : RoutineKind → StepKind
  | .function => .function
  | .procedure => .procedure

/-- The path of a routine. -/
def routinePath (routine : DesignFunction) : String :=
  "functions." ++ routine.name ++ "(" ++ routine.identityArguments ++ ")"

/-- The warning about a routine that cannot be replaced. -/
def routineWarning (before after : DesignFunction) (code changed remedy : String) : PlanEntry :=
  .blocked { code := code, message := changed ++ before.name ++ remedy, objectPath := routinePath after }

/-- `_plan_function_changes`, for one routine. -/
def planFunctionChange (A : PlannerAnalysis) (inputs : PlanInputs) (id : String) : List PlanEntry :=
  let before := byId DesignFunction.id inputs.live.functions id
  let after := byId DesignFunction.id inputs.desired.functions id
  if before = after then []
  else match before, after with
    | none, some new =>
      [.step { phase := 55, kind := routineStepKind new.kind, path := routinePath new,
               operation := .create, statement := .createRoutine new }]
    | some old, none =>
      [.step { phase := 18, kind := routineStepKind old.kind, path := routinePath old,
               operation := .drop,
               statement := .dropRoutine old.kind old.name (strip old.identityArguments),
               destructive := true }]
    | some old, some new =>
      if (old.kind, old.name, old.identityArguments) ≠ (new.kind, new.name, new.identityArguments) then
        [routineWarning old new "routine_identity_change_unsupported"
          "Changing the name, kind, or input types of "
          (" requires a dependency-aware routine migration; restore the original identity before " ++
            "applying this design.")]
      else if old.returnType ≠ new.returnType then
        [routineWarning old new "routine_return_type_change_unsupported"
          "Changing the return type of "
          (" requires a dependency-aware drop and recreation; restore the original return type " ++
            "before applying this design.")]
      else if A.routineParametersRequireMigration old.definition new.definition then
        [routineWarning old new "routine_parameter_change_unsupported"
          "Changing parameter declarations of "
          (" requires a dependency-aware routine migration; restore the original parameter " ++
            "declarations before applying this design.")]
      else
        [.step { phase := 55, kind := routineStepKind new.kind, path := routinePath new,
                 operation := .replace, statement := .replaceRoutine new }]
    | none, none => []

/-- `_plan_function_changes`. -/
def planFunctionChanges (A : PlannerAnalysis) (inputs : PlanInputs) : List PlanEntry :=
  (sortedIds (inputs.live.functions.map DesignFunction.id)
    (inputs.desired.functions.map DesignFunction.id)).flatMap (planFunctionChange A inputs)

/-- The kind of a step on a view. -/
def viewStepKind : ViewKind → StepKind
  | .view => .view
  | .materializedView => .materializedView

/-- `_plan_view_changes`, for one view. -/
def planViewChange (inputs : PlanInputs) (id : String) : List PlanEntry :=
  let before := byId DesignView.id inputs.live.views id
  let after := byId DesignView.id inputs.desired.views id
  if before = after then []
  else match before, after with
    | none, some new =>
      [.step { phase := 75, kind := viewStepKind new.kind, path := "views." ++ new.name,
               operation := .create, statement := .createView new false }]
    | some old, none =>
      [.step { phase := 14, kind := viewStepKind old.kind, path := "views." ++ old.name,
               operation := .drop, statement := .dropView old.kind old.name, destructive := true }]
    | some old, some new =>
      if (old.kind, old.name) ≠ (new.kind, new.name) then
        [.blocked
          { code := "view_identity_change_unsupported"
            message := "Changing the name or kind of view " ++ old.name ++
              " requires a dependency-aware view migration; restore the original name and kind " ++
              "before applying this design."
            objectPath := "views." ++ new.name }]
      else if new.kind = .materializedView then
        [.blocked
          { code := "materialized_view_replacement_unsupported"
            message := "Replacing materialized view " ++ new.name ++ " requires preservation analysis"
            objectPath := "views." ++ new.name }]
      else
        [.step { phase := 75, kind := viewStepKind new.kind, path := "views." ++ new.name,
                 operation := .replace, statement := .createView new true }]
    | none, none => []

/-- `_plan_view_changes`. -/
def planViewChanges (inputs : PlanInputs) : List PlanEntry :=
  (sortedIds (inputs.live.views.map DesignView.id) (inputs.desired.views.map DesignView.id)).flatMap
    (planViewChange inputs)

/-- `_plan_trigger_changes`, for one trigger. -/
def planTriggerChange (inputs : PlanInputs) (id : String) : List PlanEntry :=
  let before := byId DesignTrigger.id inputs.live.triggers id
  let after := byId DesignTrigger.id inputs.desired.triggers id
  if before = after then []
  else
    (before.toList.map fun trigger ↦ .step
      { phase := 11, kind := .trigger,
        path := "triggers." ++ trigger.relationName ++ "." ++ trigger.name, operation := .drop,
        statement := .dropTrigger trigger.name trigger.relationName,
        destructive := after.isNone }) ++
    (after.toList.map fun trigger ↦ .step
      { phase := 80, kind := .trigger,
        path := "triggers." ++ trigger.relationName ++ "." ++ trigger.name, operation := .create,
        statement := .createTrigger trigger })

/-- `_plan_trigger_changes`. -/
def planTriggerChanges (inputs : PlanInputs) : List PlanEntry :=
  (sortedIds (inputs.live.triggers.map DesignTrigger.id)
    (inputs.desired.triggers.map DesignTrigger.id)).flatMap (planTriggerChange inputs)

/-! ### The plan -/

/-- What the passes of the planner add to the plan. -/
def planEntries (A : PlannerAnalysis) (inputs : PlanInputs) : List PlanEntry :=
  planPhysicalColumnRebuilds A inputs ++ planRelationshipChanges A inputs ++
    planTableChanges A inputs ++ planTypeChanges inputs ++ planFunctionChanges A inputs ++
    planViewChanges inputs ++ planTriggerChanges inputs

/-- `compile_migration_steps`. -/
def compileMigrationSteps (A : PlannerAnalysis) (inputs : PlanInputs) :
    Option (List MigrationStep × List MigrationWarning) :=
  finalizeMigrationPlan A inputs.schema inputs.desired (planEntries A inputs)

end Schemii.Migrations.Planning
