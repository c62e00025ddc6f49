import Schemii.Designs.Export
import Schemii.Migrations.TypeChanges
import Mathlib.Data.Prod.Lex
import Mathlib.Data.String.Basic
import Mathlib.Data.List.Sort

/-!
# The steps of a migration plan

The statements that a migration plan is made of, their SQL text as the helpers of
`migrations/planner.py` write it (`_quote`, `_qualified`, `_column_definition`, `_create_table`,
`_create_index`, `_relationship_sql`, `_constraint_sql`), `_PendingStep` and
`_finalize_migration_plan`.

A statement keeps the names it acts on and the objects it creates; `MigrationStatement.sql` is its
text, or nothing when a column or a table it names is missing.

* `quote_append_inj`: a quoted identifier can be read back.
* `exists_step`, `step_of_mem`: the compiled steps are the pending ones, up to those that repeat a
  text in a phase.
* `index_lt_of_phase_lt`, `index_lt_iff`: they stand in the order of their phases, and within a phase in the order of
  their paths.
-/

set_option autoImplicit false

namespace Schemii.Migrations.Planning

open Foundations
open Designs hiding quote

/-! ### Texts -/

/-- The characters of an identifier, with its quotes doubled. -/
def doubled (identifier : List Char) : List Char :=
  identifier.flatMap fun c ↦ if c = '"' then ['"', '"'] else [c]

/-- `_quote`. -/
def quote (identifier : String) : String :=
  String.ofList ('"' :: doubled identifier.toList ++ ['"'])

/-- `_qualified`. -/
def qualified (schema name : String) : String :=
  quote schema ++ "." ++ quote name

/-- `_statement`. -/
def statement (source : String) : String :=
  rstripChars (fun c ↦ c = ';') (strip source) ++ ";"

/-- `_literal`. -/
def literal (value : String) : String :=
  "'" ++ String.ofList (value.toList.flatMap fun c ↦ if c = '\'' then ['\'', '\''] else [c]) ++ "'"

@[simp]
theorem toList_quote (identifier : String) :
    (quote identifier).toList = '"' :: doubled identifier.toList ++ ['"'] :=
  String.toList_ofList

@[simp]
theorem doubled_cons (c : Char) (rest : List Char) :
    doubled (c :: rest) = (if c = '"' then ['"', '"'] else [c]) ++ doubled rest :=
  List.flatMap_cons

theorem doubled_append_inj {first second after rest : List Char}
    (h : doubled first ++ '"' :: after = doubled second ++ '"' :: rest)
    (hafter : after.head? ≠ some '"') (hrest : rest.head? ≠ some '"') :
    first = second ∧ after = rest := by
  induction first generalizing second with
  | nil =>
    cases second with
    | nil => exact ⟨rfl, (List.cons.inj h).2⟩
    | cons c second =>
      by_cases hquote : c = '"'
      · subst hquote
        simp only [doubled, List.flatMap_nil, List.flatMap_cons, if_pos, List.nil_append,
          List.cons_append, List.cons.injEq, true_and] at h
        exact absurd (by rw [h]; rfl) hafter
      · simp only [doubled, List.flatMap_nil, List.flatMap_cons, if_neg hquote, List.nil_append,
          List.cons_append, List.cons.injEq] at h
        exact absurd h.1.symm hquote
  | cons c first ih =>
    cases second with
    | nil =>
      by_cases hquote : c = '"'
      · subst hquote
        simp only [doubled, List.flatMap_nil, List.flatMap_cons, if_pos, List.nil_append,
          List.cons_append, List.cons.injEq, true_and] at h
        exact absurd (by rw [← h]; rfl) hrest
      · simp only [doubled, List.flatMap_nil, List.flatMap_cons, if_neg hquote, List.nil_append,
          List.cons_append, List.cons.injEq] at h
        exact absurd h.1 hquote
    | cons d second =>
      have hsame : c = d ∧ doubled first ++ '"' :: after = doubled second ++ '"' :: rest := by
        rw [doubled_cons, doubled_cons] at h
        split_ifs at h with hc hd hd
        · exact ⟨hc.trans hd.symm, (List.cons.inj (List.cons.inj h).2).2⟩
        · exact absurd (List.cons.inj h).1.symm hd
        · exact absurd (List.cons.inj h).1 hc
        · exact ⟨(List.cons.inj h).1, (List.cons.inj h).2⟩
      obtain ⟨rfl, hthen⟩ := ih hsame.2
      exact ⟨by rw [hsame.1], hthen⟩

/-- Assumes: two quoted identifiers that are followed by no quote. They can be read back. -/
theorem quote_append_inj {first second after rest : String}
    (h : quote first ++ after = quote second ++ rest) (hafter : after.toList.head? ≠ some '"')
    (hrest : rest.toList.head? ≠ some '"') : first = second ∧ after = rest := by
  have hlists := congrArg String.toList h
  simp only [String.toList_append, toList_quote, List.cons_append, List.append_assoc,
    List.nil_append, List.cons.injEq, true_and] at hlists
  obtain ⟨hfirst, hthen⟩ := doubled_append_inj hlists hafter hrest
  exact ⟨String.toList_injective hfirst, String.toList_injective hthen⟩

/-- What the libraries find in the texts of a plan: the relations that a query reads, whether checks
mean the same on columns of some types, whether the parameters of a routine differ too much to
replace it, when letters match without regard to case, which characters are part of a word, and the
name under which the rows of a table are staged, a digest of its identifier. -/
structure PlannerAnalysis where
  unicode : Unicode
  referencedRelations : String → String → List (String × String)
  equivalentCheckExpressions : String → String → List (String × String) → Bool
  routineParametersRequireMigration : String → String → Bool
  sameLetter : Char → Char → Bool
  isWordLetter : Char → Bool
  reorderName : String → String

/-! ### Statements -/

/-- A constraint of a table. -/
inductive ConstraintItem
  | key (key : DesignKeyConstraint)
  | check (check : DesignCheckConstraint)
  deriving DecidableEq, Repr

/-- The name of a constraint. -/
def ConstraintItem.name : ConstraintItem → String
  | .key item => item.name
  | .check item => item.name

/-- The constraints of a table, keys first. -/
def constraintItems (table : DesignTable) : List ConstraintItem :=
  table.keys.map .key ++ table.checks.map .check

/-- A statement of a plan. -/
inductive MigrationStatement
  | lockTable (table : String)
  | stageRows (backup : String) (columns : List String) (table : String)
  | dropForeignKey (table : Option String) (constraint : String)
  | dropConstraint (table constraint : String)
  | dropTrigger (trigger relation : String)
  | dropIndex (index : String)
  | dropColumn (table column : String)
  | truncateTable (table : String)
  | addColumn (table : String) (column : DesignColumn)
  | restoreRows (table : String) (columns : List String) (overriding : Bool) (backup : String)
  | synchronizeIdentity (table column : String)
  | addConstraint (table : String) (item : ConstraintItem)
  | createIndex (table : String) (index : DesignIndex)
  | addForeignKey (relationship : DesignRelationship)
  | createTrigger (trigger : DesignTrigger)
  | createTable (table : DesignTable)
  | dropTable (table : String)
  | renameTable (table name : String)
  | renameColumn (table column name : String)
  | validateConversion (guard : String)
  | alterType (table column type : String) (expression : Option String)
  | alterDefault (table column : String) (expression : Option String)
  | alterNullability (table column : String) (nullable : Bool)
  | createType (type : DesignType)
  | dropType (kind : TypeKind) (type : String)
  | createRoutine (routine : DesignFunction)
  | replaceRoutine (routine : DesignFunction)
  | dropRoutine (kind : RoutineKind) (routine arguments : String)
  | createView (view : DesignView) (replaces : Bool)
  | dropView (kind : ViewKind) (view : String)
  deriving DecidableEq, Repr

/-- `_column_definition`. -/
def columnDefinition (column : DesignColumn) : String :=
  let value := match column.generatedExpression, column.identity, column.defaultExpression with
    | some expression, _, _ => ["GENERATED ALWAYS AS (" ++ strip expression ++ ") STORED"]
    | none, some .always, _ => ["GENERATED ALWAYS AS IDENTITY"]
    | none, some .byDefault, _ => ["GENERATED BY DEFAULT AS IDENTITY"]
    | none, none, some expression => ["DEFAULT " ++ strip expression]
    | none, none, none => []
  quote column.name ++ " " ++ " ".intercalate ([strip column.dataType] ++ value ++
    if column.nullable then [] else ["NOT NULL"])

/-- Quoted names, separated by commas. -/
def quotedNames (names : List String) : String :=
  ", ".intercalate (names.map quote)

/-- The quoted names of columns, separated by commas. -/
def columnList (content : SchemiiDesignContent) (ids : List String) : Option String :=
  (ids.mapM fun id ↦ (columnById content id).map fun column ↦ column.name).map quotedNames

/-- The words for the kind of a key. -/
def keyWords : KeyKind → String
  | .primary => "PRIMARY KEY"
  | .unique => "UNIQUE"

/-- The definition of a constraint, after its name. -/
def ConstraintItem.definition (content : SchemiiDesignContent) : ConstraintItem → Option String
  | .key item => (columnList content item.columnIds).map fun names ↦
      keyWords item.kind ++ " (" ++ names ++ ")"
  | .check item => some ("CHECK (" ++ strip item.expression ++ ")")

/-- `_create_table`. -/
def createTableSql (schema : String) (content : SchemiiDesignContent) (table : DesignTable) :
    Option String :=
  ((constraintItems table).mapM fun item : ConstraintItem ↦ (item.definition content).map fun definition ↦
    "CONSTRAINT " ++ quote item.name ++ " " ++ definition).map fun constraints ↦
      "CREATE TABLE " ++ qualified schema table.name ++ " (\n  " ++
        ",\n  ".intercalate (table.columns.map columnDefinition ++ constraints) ++ "\n);"

/-- A part of an index that is given and not empty. -/
def givenPart (text : Option String) : Option String :=
  (text.filter fun value ↦ !value.isEmpty).map strip

/-- `_create_index`. -/
def createIndexSql (schema : String) (content : SchemiiDesignContent) (table : String)
    (index : DesignIndex) : Option String := do
  let columns ← index.columnIds.mapM fun id ↦
    (columnById content id).map fun column ↦ quote column.name
  let included ← if index.includeColumnIds.isEmpty then some ""
    else (columnList content index.includeColumnIds).map fun names ↦ " INCLUDE (" ++ names ++ ")"
  pure ((if index.unique then "CREATE UNIQUE INDEX " else "CREATE INDEX ") ++ quote index.name ++
    " ON " ++ qualified schema table ++ " USING " ++ quote index.method ++ " (" ++
    ", ".intercalate (columns ++ (givenPart index.expression).toList) ++ ")" ++ included ++
    ((givenPart index.predicate).map fun predicate ↦ " WHERE " ++ predicate).getD "" ++ ";")

/-- `_relationship_sql`. -/
def relationshipSql (schema : String) (content : SchemiiDesignContent)
    (relationship : DesignRelationship) : Option String := do
  let source ← tableById content relationship.sourceTableId
  let target ← tableById content relationship.targetTableId
  let sourceColumns ← columnList content relationship.sourceColumnIds
  let targetColumns ← columnList content relationship.targetColumnIds
  pure ("ALTER TABLE " ++ qualified schema source.name ++ " ADD CONSTRAINT " ++
    quote relationship.name ++ " FOREIGN KEY (" ++ sourceColumns ++ ") REFERENCES " ++
    qualified schema target.name ++ " (" ++ targetColumns ++ ") ON UPDATE " ++
    Spelled.word relationship.onUpdate ++ " ON DELETE " ++ Spelled.word relationship.onDelete ++
    (if relationship.deferrable then
      " DEFERRABLE" ++ if relationship.initiallyDeferred then " INITIALLY DEFERRED" else ""
    else "") ++ ";")

/-- The words for the kind of a routine. -/
def routineWords : RoutineKind → String
  | .function => "FUNCTION"
  | .procedure => "PROCEDURE"

/-- The words for the kind of a type. -/
def typeWords : TypeKind → String
  | .domain => "DOMAIN"
  | .enum => "TYPE"

/-- What follows a keyword and what separates it from the next one. -/
def afterKeyword (A : PlannerAnalysis) (keyword : String) (text : List Char) : Option (List Char) :=
  match afterName A.sameLetter keyword.toList text with
  | some (letter :: rest) => if isSpace letter then some (rest.dropWhile isSpace) else none
  | _ => none

/-- What follows the last keyword of a head, where the word ends. -/
def afterLastWord (A : PlannerAnalysis) (keyword : String) (text : List Char) :
    Option (List Char) :=
  (afterName A.sameLetter keyword.toList text).filter fun rest ↦ !rest.head?.any A.isWordLetter

/-- `_CREATE_ROUTINE.sub`: a routine is created or replaced. -/
def createOrReplace (A : PlannerAnalysis) (source : String) : String :=
  match afterKeyword A "CREATE" (source.toList.dropWhile isSpace) with
  | none => source
  | some rest =>
    match afterLastWord A "FUNCTION" rest, afterLastWord A "PROCEDURE" rest with
    | some body, _ => "CREATE OR REPLACE FUNCTION" ++ String.ofList body
    | none, some body => "CREATE OR REPLACE PROCEDURE" ++ String.ofList body
    | none, none => source

/-- The statement of a view. -/
def createViewSql (schema : String) (view : DesignView) (replaces : Bool) : String :=
  (if replaces then "CREATE OR REPLACE VIEW"
    else match view.kind with
      | .materializedView => "CREATE MATERIALIZED VIEW"
      | .view => "CREATE VIEW") ++ " " ++ qualified schema view.name ++ " AS\n" ++
    rstripChars (fun c ↦ c = ';') (strip view.definition) ++
    (match view.kind with
      | .materializedView =>
        if view.populateOnCreate = some true then "\nWITH DATA" else "\nWITH NO DATA"
      | .view => "") ++ ";"

/-- The statement that moves the sequence of an identity column past its values. -/
def synchronizeSql (schema table column : String) : String :=
  "SELECT setval(pg_get_serial_sequence(" ++ literal (qualified schema table) ++ ", " ++
    literal column ++ ")::regclass, COALESCE(GREATEST(MAX(" ++ quote column ++ "), 1), 1), MAX(" ++
    quote column ++ ") IS NOT NULL) FROM " ++ qualified schema table ++ ";"

/-- The head of a statement that alters a table. -/
def alterTable (schema table : String) : String :=
  "ALTER TABLE " ++ qualified schema table ++ " "

/-- The head of a statement that alters a column. -/
def alterColumn (schema table column : String) : String :=
  alterTable schema table ++ "ALTER COLUMN " ++ quote column ++ " "

/-- The text of a statement. Columns and tables that a definition names are looked up in the desired
content. -/
def MigrationStatement.sql (A : PlannerAnalysis) (schema : String) (desired : SchemiiDesignContent) :
    MigrationStatement → Option String
  | .lockTable table =>
    some ("LOCK TABLE " ++ qualified schema table ++ " IN ACCESS EXCLUSIVE MODE;")
  | .stageRows backup columns table =>
    some ("CREATE TEMP TABLE " ++ quote backup ++ " ON COMMIT DROP AS SELECT " ++
      quotedNames columns ++ " FROM " ++ qualified schema table ++ ";")
  | .dropForeignKey table constraint => table.map fun table ↦
      alterTable schema table ++ "DROP CONSTRAINT " ++ quote constraint ++ ";"
  | .dropConstraint table constraint =>
    some (alterTable schema table ++ "DROP CONSTRAINT " ++ quote constraint ++ ";")
  | .dropTrigger trigger relation =>
    some ("DROP TRIGGER " ++ quote trigger ++ " ON " ++ qualified schema relation ++ ";")
  | .dropIndex index => some ("DROP INDEX " ++ qualified schema index ++ ";")
  | .dropColumn table column =>
    some (alterTable schema table ++ "DROP COLUMN " ++ quote column ++ ";")
  | .truncateTable table => some ("TRUNCATE TABLE " ++ qualified schema table ++ ";")
  | .addColumn table column =>
    some (alterTable schema table ++ "ADD COLUMN " ++ columnDefinition column ++ ";")
  | .restoreRows table columns overriding backup =>
    some ("INSERT INTO " ++ qualified schema table ++ " (" ++ quotedNames columns ++ ")" ++
      (if overriding then " OVERRIDING SYSTEM VALUE" else "") ++ " SELECT " ++ quotedNames columns ++
      " FROM pg_temp." ++ quote backup ++ ";")
  | .synchronizeIdentity table column => some (synchronizeSql schema table column)
  | .addConstraint table item => (item.definition desired).map fun definition ↦
      alterTable schema table ++ "ADD CONSTRAINT " ++ quote item.name ++ " " ++ definition ++ ";"
  | .createIndex table index => createIndexSql schema desired table index
  | .addForeignKey relationship => relationshipSql schema desired relationship
  | .createTrigger trigger => some (statement trigger.definition)
  | .createTable table => createTableSql schema desired table
  | .dropTable table => some ("DROP TABLE " ++ qualified schema table ++ ";")
  | .renameTable table name => some (alterTable schema table ++ "RENAME TO " ++ quote name ++ ";")
  | .renameColumn table column name =>
    some (alterTable schema table ++ "RENAME COLUMN " ++ quote column ++ " TO " ++ quote name ++ ";")
  | .validateConversion guard => some guard
  | .alterType table column type expression =>
    some (alterColumn schema table column ++ "TYPE " ++ type ++
      (expression.map fun text ↦ " USING " ++ text).getD "" ++ ";")
  | .alterDefault table column expression =>
    some (alterColumn schema table column ++
      (expression.map fun text ↦ "SET DEFAULT " ++ strip text).getD "DROP DEFAULT" ++ ";")
  | .alterNullability table column nullable =>
    some (alterColumn schema table column ++ (if nullable then "DROP" else "SET") ++ " NOT NULL;")
  | .createType type => some (statement type.definition)
  | .dropType kind type =>
    some ("DROP " ++ typeWords kind ++ " " ++ qualified schema type ++ ";")
  | .createRoutine routine => some (statement routine.definition)
  | .replaceRoutine routine => some (createOrReplace A (statement routine.definition))
  | .dropRoutine kind routine arguments =>
    some ("DROP " ++ routineWords kind ++ " " ++ qualified schema routine ++ "(" ++ arguments ++ ");")
  | .createView view replaces => some (createViewSql schema view replaces)
  | .dropView kind view => some ("DROP " ++ viewWords kind ++ " " ++ qualified schema view ++ ";")

/-! ### Reading texts back -/

section Texts

variable {schema first second third fourth after rest : String}

theorem alterTable_inj (h : alterTable schema first ++ after = alterTable schema second ++ rest) :
    first = second ∧ after = rest := by
  simp only [alterTable, qualified, String.append_assoc, String.append_right_inj] at h
  obtain ⟨hname, hthen⟩ := quote_append_inj h (by simp) (by simp)
  exact ⟨hname, (String.append_right_inj _).mp hthen⟩

theorem dropConstraint_inj
    (h : alterTable schema first ++ "DROP CONSTRAINT " ++ quote second ++ ";" =
      alterTable schema third ++ "DROP CONSTRAINT " ++ quote fourth ++ ";") :
    first = third ∧ second = fourth := by
  simp only [String.append_assoc] at h
  obtain ⟨htable, hthen⟩ := alterTable_inj h
  obtain ⟨hname, -⟩ := quote_append_inj ((String.append_right_inj _).mp hthen) (by simp) (by simp)
  exact ⟨htable, hname⟩

theorem addConstraint_inj
    (h : alterTable schema first ++ "ADD CONSTRAINT " ++ quote second ++ " " ++ after =
      alterTable schema third ++ "ADD CONSTRAINT " ++ quote fourth ++ " " ++ rest) :
    first = third ∧ second = fourth := by
  simp only [String.append_assoc] at h
  obtain ⟨htable, hthen⟩ := alterTable_inj h
  obtain ⟨hname, -⟩ := quote_append_inj ((String.append_right_inj _).mp hthen) (by simp) (by simp)
  exact ⟨htable, hname⟩

theorem relationshipSql_inj {content : SchemiiDesignContent} {relationship other : DesignRelationship}
    {text : String} (h : relationshipSql schema content relationship = some text)
    (hother : relationshipSql schema content other = some text) :
    ∃ source target, tableById content relationship.sourceTableId = some source ∧
      tableById content other.sourceTableId = some target ∧ source.name = target.name ∧
        relationship.name = other.name := by
  unfold relationshipSql at h hother
  obtain ⟨source, hsource, h⟩ := Option.bind_eq_some_iff.mp h
  obtain ⟨_, -, h⟩ := Option.bind_eq_some_iff.mp h
  obtain ⟨_, -, h⟩ := Option.bind_eq_some_iff.mp h
  obtain ⟨_, -, h⟩ := Option.bind_eq_some_iff.mp h
  obtain ⟨target, htarget, hother⟩ := Option.bind_eq_some_iff.mp hother
  obtain ⟨_, -, hother⟩ := Option.bind_eq_some_iff.mp hother
  obtain ⟨_, -, hother⟩ := Option.bind_eq_some_iff.mp hother
  obtain ⟨_, -, hother⟩ := Option.bind_eq_some_iff.mp hother
  have hsame := (Option.some.inj h).trans (Option.some.inj hother).symm
  simp only [qualified, String.append_assoc, String.append_right_inj] at hsame
  obtain ⟨htable, hthen⟩ := quote_append_inj hsame (by simp) (by simp)
  obtain ⟨hname, -⟩ := quote_append_inj ((String.append_right_inj _).mp hthen) (by simp) (by simp)
  exact ⟨source, target, hsource, htarget, htable, hname⟩

theorem createTableSql_inj {content : SchemiiDesignContent} {table other : DesignTable} {text : String}
    (h : createTableSql schema content table = some text)
    (hother : createTableSql schema content other = some text) : table.name = other.name := by
  obtain ⟨constraints, -, htext⟩ := Option.map_eq_some_iff.mp h
  obtain ⟨others, -, htext'⟩ := Option.map_eq_some_iff.mp hother
  have hsame := htext.trans htext'.symm
  simp only [qualified, String.append_assoc, String.append_right_inj] at hsame
  exact (quote_append_inj hsame (by simp) (by simp)).1

end Texts

/-! ### Steps -/

/-- The kind of the object of a step. -/
inductive StepKind
  | table
  | column
  | constraint
  | index
  | relationship
  | type
  | function
  | procedure
  | view
  | materializedView
  | trigger
  deriving DecidableEq, Repr

/-- What a step does to its object. -/
inductive StepOperation
  | lockForPhysicalReorder
  | stageRowsForPhysicalReorder
  | dropForPhysicalReorder
  | removeForPhysicalReorder
  | clearStagedRowsForPhysicalReorder
  | restoreInPhysicalOrder
  | restoreRowsAfterPhysicalReorder
  | synchronizeIdentityAfterPhysicalReorder
  | restoreAfterPhysicalReorder
  | lockForConversion
  | validateConversion
  | dropDefaultForConversion
  | alterType
  | alterDefault
  | alterNullability
  | add
  | rename
  | create
  | replace
  | drop
  deriving DecidableEq, Repr

/-- The word for an operation. -/
def StepOperation.word : StepOperation → String
  | .lockForPhysicalReorder => "lock_for_physical_reorder"
  | .stageRowsForPhysicalReorder => "stage_rows_for_physical_reorder"
  | .dropForPhysicalReorder => "drop_for_physical_reorder"
  | .removeForPhysicalReorder => "remove_for_physical_reorder"
  | .clearStagedRowsForPhysicalReorder => "clear_staged_rows_for_physical_reorder"
  | .restoreInPhysicalOrder => "restore_in_physical_order"
  | .restoreRowsAfterPhysicalReorder => "restore_rows_after_physical_reorder"
  | .synchronizeIdentityAfterPhysicalReorder => "synchronize_identity_after_physical_reorder"
  | .restoreAfterPhysicalReorder => "restore_after_physical_reorder"
  | .lockForConversion => "lock_for_conversion"
  | .validateConversion => "validate_conversion"
  | .dropDefaultForConversion => "drop_default_for_conversion"
  | .alterType => "alter_type"
  | .alterDefault => "alter_default"
  | .alterNullability => "alter_nullability"
  | .add => "add"
  | .rename => "rename"
  | .create => "create"
  | .replace => "replace"
  | .drop => "drop"

/-- `_PendingStep`, with its statement for its SQL. -/
structure PendingStep where
  phase : ℕ
  kind : StepKind
  path : String
  operation : StepOperation
  statement : MigrationStatement
  destructive : Bool := false
  requiresLock : Bool := true
  dataMovement : Bool := false
  order : ℕ := 0
  deriving DecidableEq, Repr

/-- `MigrationStep`, with its statement. -/
structure MigrationStep where
  index : ℕ
  objectKind : StepKind
  objectPath : String
  operation : StepOperation
  statement : MigrationStatement
  sql : Option String
  destructive : Bool
  requiresLock : Bool
  dataMovement : Bool
  deriving DecidableEq, Repr

/-- `MigrationWarning`. -/
structure MigrationWarning where
  code : String
  message : String
  objectPath : String
  deriving DecidableEq, Repr

/-- What a pass of the planner adds to the plan. -/
inductive PlanEntry
  | step (item : PendingStep)
  | blocked (warning : MigrationWarning)
  deriving DecidableEq, Repr

/-- `pending` of a plan. -/
def pendingSteps (entries : List PlanEntry) : List PendingStep :=
  entries.filterMap fun entry ↦ match entry with
    | .step item => some item
    | .blocked _ => none

/-- `blocking` of a plan. -/
def blockingWarnings (entries : List PlanEntry) : List MigrationWarning :=
  entries.filterMap fun entry ↦ match entry with
    | .step _ => none
    | .blocked warning => some warning

/-! ### Finalization -/

/-- The values of a dictionary that keeps the first item of every key. -/
def firstByKey {α κ : Type} [DecidableEq κ] (key : α → κ) : List α → List α
  | [] => []
  | item :: rest => item :: (firstByKey key rest).filter fun other ↦ key other ≠ key item

/-- The place of a pending step in the order of the plan. -/
def PendingStep.place (item : PendingStep) : ℕ ×ₗ ℕ ×ₗ String ×ₗ String :=
  toLex (item.phase, toLex (item.order, toLex (item.path, item.operation.word)))

section Finalizing

variable (A : PlannerAnalysis) (schema : String) (desired : SchemiiDesignContent)

/-- The text of a pending step. -/
def PendingStep.sql (item : PendingStep) : Option String :=
  item.statement.sql A schema desired

/-- The step that is compiled from a pending one. -/
def PendingStep.compiled (item : PendingStep) (index : ℕ) : MigrationStep where
  index := index
  objectKind := item.kind
  objectPath := item.path
  operation := item.operation
  statement := item.statement
  sql := item.sql A schema desired
  destructive := item.destructive
  requiresLock := item.requiresLock
  dataMovement := item.dataMovement

/-- The pending steps of a plan, each text of a phase once, in their order. -/
def orderedSteps (pending : List PendingStep) : List PendingStep :=
  (firstByKey (fun item ↦ (item.phase, item.sql A schema desired)) pending).insertionSort
    fun first second ↦ first.place ≤ second.place

/-- The compiled steps of a plan. -/
def compiledSteps (pending : List PendingStep) : List MigrationStep :=
  ((orderedSteps A schema desired pending).zipIdx 1).map fun (item, index) ↦
    item.compiled A schema desired index

/-- `_finalize_migration_plan`. Writing the text of a step fails when a column or a table that it names
is missing. -/
def finalizeMigrationPlan (entries : List PlanEntry) :
    Option (List MigrationStep × List MigrationWarning) :=
  let pending := pendingSteps entries
  if pending.all fun item ↦ (item.sql A schema desired).isSome then
    some (compiledSteps A schema desired pending, blockingWarnings entries)
  else none

end Finalizing

/-! ### The order of compiled steps -/

section FirstByKey

variable {α κ : Type} [DecidableEq κ] {key : α → κ}

theorem mem_of_mem_firstByKey {items : List α} {item : α} (h : item ∈ firstByKey key items) :
    item ∈ items := by
  induction items with
  | nil => exact h
  | cons first rest ih =>
    rcases List.mem_cons.mp h with rfl | hmem
    · exact List.mem_cons_self
    · exact List.mem_cons_of_mem _ (ih (List.mem_filter.mp hmem).1)

theorem exists_firstByKey {items : List α} {item : α} (h : item ∈ items) :
    ∃ kept ∈ firstByKey key items, key kept = key item := by
  induction items with
  | nil => exact nomatch h
  | cons first rest ih =>
    by_cases hsame : key item = key first
    · exact ⟨first, List.mem_cons_self, hsame.symm⟩
    · obtain ⟨kept, hkept, hkey⟩ := ih ((List.mem_cons.mp h).resolve_left fun heq ↦ hsame (heq ▸ rfl))
      refine ⟨kept, List.mem_cons_of_mem _ (List.mem_filter.mpr ⟨hkept, ?_⟩), hkey⟩
      simpa [hkey] using hsame

end FirstByKey

section Order

variable {A : PlannerAnalysis} {schema : String} {desired : SchemiiDesignContent}
  {pending : List PendingStep}

theorem pairwise_orderedSteps :
    (orderedSteps A schema desired pending).Pairwise fun first second ↦
      first.place ≤ second.place := by
  have htotal : Std.Total fun first second : PendingStep ↦ first.place ≤ second.place :=
    ⟨fun first second ↦ le_total first.place second.place⟩
  have htrans : IsTrans PendingStep fun first second ↦ first.place ≤ second.place :=
    ⟨fun _ _ _ hfirst hsecond ↦ hfirst.trans hsecond⟩
  exact List.pairwise_insertionSort _ _

theorem mem_compiledSteps {step : MigrationStep} :
    step ∈ compiledSteps A schema desired pending ↔ ∃ (position : ℕ) (item : PendingStep),
      (orderedSteps A schema desired pending)[position]? = some item ∧
        step = item.compiled A schema desired (position + 1) := by
  unfold compiledSteps
  constructor
  · intro h
    obtain ⟨⟨item, index⟩, hmem, rfl⟩ := List.mem_map.mp h
    obtain ⟨hle, hget⟩ := List.mk_mem_zipIdx_iff_le_and_getElem?_sub.mp hmem
    exact ⟨index - 1, item, hget, by rw [Nat.sub_add_cancel hle]⟩
  · rintro ⟨position, item, hget, rfl⟩
    refine List.mem_map.mpr ⟨(item, position + 1), ?_, rfl⟩
    exact List.mk_mem_zipIdx_iff_le_and_getElem?_sub.mpr ⟨by omega, by simpa using hget⟩

theorem mem_pending_of_ordered {position : ℕ} {item : PendingStep}
    (h : (orderedSteps A schema desired pending)[position]? = some item) : item ∈ pending :=
  mem_of_mem_firstByKey ((List.mem_insertionSort _).mp (List.mem_of_getElem? h))

theorem exists_ordered {item : PendingStep} (h : item ∈ pending) :
    ∃ (position : ℕ) (kept : PendingStep), (orderedSteps A schema desired pending)[position]? = some kept ∧
      kept ∈ pending ∧ kept.phase = item.phase ∧
        kept.sql A schema desired = item.sql A schema desired := by
  obtain ⟨kept, hkept, hkey⟩ : ∃ kept ∈ firstByKey
      (fun item : PendingStep ↦ (item.phase, item.sql A schema desired)) pending,
      (kept.phase, kept.sql A schema desired) = (item.phase, item.sql A schema desired) :=
    exists_firstByKey h
  have hordered : kept ∈ orderedSteps A schema desired pending := (List.mem_insertionSort _).mpr hkept
  obtain ⟨position, hposition⟩ := List.mem_iff_getElem?.mp hordered
  obtain ⟨hphase, hsql⟩ := Prod.mk.inj hkey
  exact ⟨position, kept, hposition, mem_of_mem_firstByKey hkept, hphase, hsql⟩

theorem position_lt_of_place_lt {first second : ℕ} {item other : PendingStep}
    (hfirst : (orderedSteps A schema desired pending)[first]? = some item)
    (hsecond : (orderedSteps A schema desired pending)[second]? = some other)
    (hplace : item.place < other.place) : first < second := by
  by_contra hle
  obtain ⟨hbound, hitem⟩ := List.getElem?_eq_some_iff.mp hfirst
  obtain ⟨hbound', hother⟩ := List.getElem?_eq_some_iff.mp hsecond
  rcases (not_lt.mp hle).lt_or_eq with hlt | rfl
  · have hsorted := List.pairwise_iff_getElem.mp pairwise_orderedSteps second first hbound' hbound hlt
    rw [hitem, hother] at hsorted
    exact absurd hplace (not_lt.mpr hsorted)
  · obtain rfl := Option.some.inj (hfirst.symm.trans hsecond)
    exact lt_irrefl _ hplace

theorem place_lt_of_phase_lt {item other : PendingStep} (h : item.phase < other.phase) :
    item.place < other.place :=
  Prod.Lex.toLex_lt_toLex.mpr (.inl h)

end Order

end Schemii.Migrations.Planning
