import Schemii.Designs.Content
import Mathlib.Data.List.Sort

/-!
# The validation of a design

`validate_design_content` of `designs/store.py`: the rules between the objects of a content, in the
order of the source and with its messages and details.

`validateDesignContent_spec` collects what the other modules use of an accepted content: names,
identifiers and signatures do not repeat, and references lead to objects of the content.
-/

set_option autoImplicit false

namespace Schemii.Designs

open Foundations

/-- `DesignValidationError`. -/
structure DesignValidationError where
  message : String
  details : Json
  deriving Repr

/-- A check of the validation. -/
def require (holds : Bool) (message : String) (details : List (String × Json)) :
    Except DesignValidationError Unit :=
  if holds then .ok () else .error ⟨message, .object details⟩

/-! ### Texts -/

/-- `str.isspace` of a character. -/
def isSpace (c : Char) : Bool :=
  c.toNat ∈ [32, 133, 160, 5760, 8232, 8233, 8239, 8287, 12288] ∨
    (9 ≤ c.toNat ∧ c.toNat ≤ 13) ∨ (28 ≤ c.toNat ∧ c.toNat ≤ 31) ∨
    (8192 ≤ c.toNat ∧ c.toNat ≤ 8202)

/-- Nothing is left of a text after `strip`. -/
def isBlank (text : String) : Bool :=
  text.toList.all isSpace

/-- A text has a part. -/
def hasPart (text part : String) : Bool :=
  part.toList <:+: text.toList

/-- `_valid_identifier`. -/
def validIdentifier (value category : String) : Except DesignValidationError Unit :=
  require (!(value.toList.contains (Char.ofNat 0)) && value.utf8ByteSize ≤ 63)
    (category ++ " must be a valid PostgreSQL identifier")
    [("category", .string category), ("name", .string value)]

/-- `_safe_fragment`. -/
def safeFragment (value category : String) : Except DesignValidationError Unit :=
  require (!(value.toList.contains (Char.ofNat 0)) && !(hasPart value ";") && !(hasPart value "--") &&
      !(hasPart value "/*") && !(hasPart value "*/"))
    (category ++ " contains unsupported SQL statement boundaries") [("category", .string category)]

/-- The values that occur more than once, sorted. -/
def duplicates (values : List String) : List String :=
  (values.dedup.filter fun value ↦ 1 < values.count value).insertionSort (· ≤ ·)

/-- `_unique`. -/
def unique (values : List String) (category : String) : Except DesignValidationError Unit :=
  require (duplicates values).isEmpty (category ++ " must be unique")
    [("category", .string category), ("values", .array ((duplicates values).map Json.string))]

/-- A list without repetitions of members of another. -/
def distinctAmong (values known : List String) : Bool :=
  values.Nodup ∧ values ⊆ known

/-! ### Designed types -/

/-- `visit`: the names visited so far, in order, after a name and the names it depends on. -/
def visitType (dependency : String → Option String) : ℕ → List String → List String → String →
    Except DesignValidationError (List String)
  | 0, _, visited, _ => .ok visited
  | depth + 1, visiting, visited, name =>
    if name ∈ visited then .ok visited
    else if name ∈ visiting then
      .error ⟨"Designed domains cannot contain circular base-type dependencies",
        .object [("type", .string name)]⟩
    else
      match dependency name with
      | some base => do
        let before ← visitType dependency depth (name :: visiting) visited base
        .ok (before ++ [name])
      | none => .ok (visited ++ [name])

/-- The last designed type of a name. -/
def typeNamed (content : SchemiiDesignContent) (name : String) : Option DesignType :=
  content.types.reverse.find? fun type ↦ type.name = name

/-- The designed base type of a designed type, by name. -/
def typeDependency (analysis : SqlAnalysis) (content : SchemiiDesignContent) (name : String) :
    Option String :=
  (typeNamed content name).bind fun type ↦ (analysis.baseTypeName type.definition).bind fun base ↦
    if (typeNamed content base).isSome then some base else none

/-- `design_types_in_dependency_order`. A chain of dependencies that is longer than the list of types
repeats a name, so the bound is never reached. -/
def designTypesInDependencyOrder (analysis : SqlAnalysis) (content : SchemiiDesignContent) :
    Except DesignValidationError (List DesignType) := do
  let names ← (content.types.map fun type ↦ type.name).foldlM
    (fun visited name ↦ visitType (typeDependency analysis content) (content.types.length + 1) []
      visited name) []
  .ok (names.filterMap (typeNamed content))

/-! ### Tables -/

/-- The checks of a column of a table. -/
def validateColumn (table : DesignTable) (column : DesignColumn) :
    Except DesignValidationError Unit := do
  let place := [("table", Json.string table.name), ("column", Json.string column.name)]
  let columnIds := table.columns.map fun column ↦ column.id
  let generatedColumnIds := (table.columns.filter fun column ↦
    column.generatedExpression.isSome).map fun column ↦ column.id
  validIdentifier column.name "column name"
  safeFragment column.dataType ("data type for " ++ table.name ++ "." ++ column.name)
  let valueGenerators := column.defaultExpression.isSome.toNat + column.identity.isSome.toNat +
    column.generatedExpression.isSome.toNat
  require (valueGenerators ≤ 1)
    "Columns may have only one default, identity, or generated value behavior" place
  require (!(column.identity.isSome && column.nullable)) "Identity columns must be non-nullable" place
  match column.defaultExpression with
  | some expression => do
    require (!isBlank expression) "Default expressions cannot be empty" place
    safeFragment expression ("default for " ++ table.name ++ "." ++ column.name)
  | none => .ok ()
  match column.generatedExpression with
  | some expression => do
    require (!isBlank expression) "Generated expressions cannot be empty" place
    safeFragment expression ("generated expression for " ++ table.name ++ "." ++ column.name)
    require (distinctAmong column.generatedSourceColumnIds columnIds &&
        column.id ∉ column.generatedSourceColumnIds)
      "Generated columns may reference unique sibling columns only" place
    require (column.generatedSourceColumnIds.all fun id ↦ id ∉ generatedColumnIds)
      "Generated columns cannot reference other generated columns" place
  | none =>
    require column.generatedSourceColumnIds.isEmpty
      "Generated column dependencies require a generated expression" place

/-- The checks of a key of a table. -/
def validateKey (table : DesignTable) (key : DesignKeyConstraint) :
    Except DesignValidationError Unit := do
  validIdentifier key.name "key constraint name"
  require (distinctAmong key.columnIds (table.columns.map fun column ↦ column.id))
    "Key constraints must reference unique columns on their own table"
    [("table", .string table.name), ("constraint", .string key.name)]

/-- The checks of a check constraint of a table. -/
def validateCheck (table : DesignTable) (check : DesignCheckConstraint) :
    Except DesignValidationError Unit := do
  let place := [("table", Json.string table.name), ("constraint", Json.string check.name)]
  validIdentifier check.name "check constraint name"
  require (!isBlank check.expression) "Check constraint expressions cannot be empty" place
  safeFragment check.expression ("check constraint " ++ check.name)
  require (distinctAmong check.columnIds (table.columns.map fun column ↦ column.id))
    "Check constraints may reference unique columns on their own table only" place

/-- The checks of an optional expression of an index and its dependencies. -/
def validateIndexPart (place : List (String × Json)) (columnIds : List String)
    (expression : Option String) (sources : List String)
    (empty category reference dependency : String) : Except DesignValidationError Unit :=
  match expression with
  | some expression => do
    require (!isBlank expression) empty place
    safeFragment expression category
    require (distinctAmong sources columnIds) reference place
  | none => require sources.isEmpty dependency place

/-- The checks of an index of a table. -/
def validateIndex (table : DesignTable) (index : DesignIndex) :
    Except DesignValidationError Unit := do
  let place := [("table", Json.string table.name), ("index", Json.string index.name)]
  let columnIds := table.columns.map fun column ↦ column.id
  validIdentifier index.name "index name"
  validIdentifier index.method "index method"
  require (!(index.columnIds.isEmpty && index.expression.all fun text ↦ text.isEmpty))
    "An index requires columns or an expression" place
  require (distinctAmong index.columnIds columnIds)
    "Indexes may reference unique columns on their own table only" place
  require (distinctAmong index.includeColumnIds columnIds &&
      index.includeColumnIds.all fun id ↦ id ∉ index.columnIds)
    "Included index columns must be unique local columns and cannot be key columns" place
  validateIndexPart place columnIds index.expression index.expressionSourceColumnIds
    "Index expressions cannot be empty" ("index expression " ++ index.name)
    "Index expressions may reference unique columns on their own table only"
    "Index expression dependencies require an index expression"
  validateIndexPart place columnIds index.predicate index.predicateColumnIds
    "Index predicates cannot be empty" ("index predicate " ++ index.name)
    "Index predicates may reference unique columns on their own table only"
    "Index predicate dependencies require an index predicate"

/-- The checks of a table. -/
def validateTable (table : DesignTable) : Except DesignValidationError Unit := do
  validIdentifier table.name "table name"
  unique (table.columns.map fun column ↦ column.name) ("columns in " ++ table.name)
  table.columns.forM (validateColumn table)
  unique ((table.keys.map fun key ↦ key.name) ++ table.checks.map fun check ↦ check.name)
    ("constraints in " ++ table.name)
  require ((table.keys.filter fun key ↦ key.kind = .primary).length ≤ 1)
    "A table may have only one primary key" [("table", .string table.name)]
  table.keys.forM (validateKey table)
  table.checks.forM (validateCheck table)
  unique (table.indexes.map fun index ↦ index.name) ("indexes in " ++ table.name)
  table.indexes.forM (validateIndex table)

/-! ### Relationships -/

/-- The last table with an identifier. -/
def tableById (content : SchemiiDesignContent) (id : String) : Option DesignTable :=
  content.tables.reverse.find? fun table ↦ table.id = id

/-- The checks of a relationship, with the names of the relationships before it by source table. -/
def validateRelationship (content : SchemiiDesignContent) (names : List (String × String))
    (relationship : DesignRelationship) :
    Except DesignValidationError (List (String × String)) := do
  match tableById content relationship.sourceTableId, tableById content relationship.targetTableId with
  | some source, some target => do
    require ((source.id, relationship.name) ∉ names)
      "Relationship names must be unique on their source table"
      [("category", .string "relationship names"), ("table", .string source.name),
        ("name", .string relationship.name)]
    require (relationship.sourceColumnIds.length = relationship.targetColumnIds.length &&
        distinctAmong relationship.sourceColumnIds (source.columns.map fun column ↦ column.id) &&
        distinctAmong relationship.targetColumnIds (target.columns.map fun column ↦ column.id))
      "Relationship columns must be unique, paired, and owned by their referenced tables"
      [("relationship", .string relationship.name)]
    require (target.keys.any fun key ↦ key.columnIds = relationship.targetColumnIds)
      "Relationship targets must match a primary or unique key"
      [("relationship", .string relationship.name), ("targetTable", .string target.name)]
    require (!(relationship.initiallyDeferred && !relationship.deferrable))
      "An initially deferred relationship must be deferrable"
      [("relationship", .string relationship.name)]
    validIdentifier relationship.name "relationship name"
    .ok (names ++ [(source.id, relationship.name)])
  | _, _ => .error ⟨"Relationships must reference tables in this design",
      .object [("relationship", .string relationship.name)]⟩

/-! ### Routines, views and triggers -/

/-- The checks of a view. -/
def validateView (analysis : SqlAnalysis) (view : DesignView) : Except DesignValidationError Unit := do
  validIdentifier view.name "view name"
  match analysis.parseQueryDefinition view.definition with
  | some error => .error ⟨error.message,
      .object [("view", .string view.name), ("reason", .string error.code)]⟩
  | none => .ok ()

/-- What a trigger is on. -/
inductive Relation
  | table (table : DesignTable)
  | view (view : DesignView)

/-- `relation_by_name`: the last relation of a name, views after tables. -/
def relationByName (content : SchemiiDesignContent) (name : String) : Option Relation :=
  match content.views.reverse.find? fun view ↦ view.name = name with
  | some view => some (.view view)
  | none => (content.tables.reverse.find? fun table ↦ table.name = name).map .table

/-- `routine_by_signature` of a routine without arguments. -/
def routineWithoutArguments (content : SchemiiDesignContent) (name : String) :
    Option DesignFunction :=
  content.functions.reverse.find? fun routine ↦
    routine.name = name ∧ routine.identityArguments = ""

/-- The checks of the function of a trigger. A function without a return type ends the validation
with an error of the interpreter. -/
def validateTriggerFunction (content : SchemiiDesignContent) (trigger : DesignTrigger) :
    Except DesignValidationError Unit :=
  if hasPart trigger.functionName "." then .ok ()
  else
    match routineWithoutArguments content trigger.functionName with
    | none => .ok ()
    | some routine =>
      match routine.kind, routine.returnType with
      | .function, none => .error ⟨"'NoneType' object has no attribute 'lower'", .object []⟩
      | kind, returnType =>
        require (kind = .function && returnType.all fun text ↦ text.toLower = "trigger")
          "A designed trigger function must be a no-argument function returning trigger"
          [("trigger", .string trigger.name), ("function", .string trigger.functionName)]

/-- The checks of a trigger. -/
def validateTrigger (content : SchemiiDesignContent) (trigger : DesignTrigger) :
    Except DesignValidationError Unit := do
  let place := [("trigger", Json.string trigger.name), ("relation", Json.string trigger.relationName)]
  validIdentifier trigger.name "trigger name"
  match relationByName content trigger.relationName with
  | none => .error ⟨"Triggers must target a table or view in this design", .object place⟩
  | some relation => do
    let onView := match relation with
      | .view _ => true
      | .table _ => false
    require (!(trigger.timing = .insteadOf && !onView))
      "INSTEAD OF triggers must target a designed view" place
    require (!(onView && trigger.timing ≠ .insteadOf && trigger.orientation = .row))
      "Row-level triggers on designed views must use INSTEAD OF" place
    require (!(trigger.timing = .insteadOf && trigger.orientation ≠ .row))
      "INSTEAD OF triggers must run for each row" [("trigger", .string trigger.name)]
    require (!(.truncate ∈ trigger.events && trigger.orientation = .row))
      "TRUNCATE triggers must run for each statement" [("trigger", .string trigger.name)]
    match relation with
    | .table table => do
      let unknown := (trigger.referencedColumns.dedup.filter fun name ↦
        name ∉ table.columns.map fun column ↦ column.name).insertionSort (· ≤ ·)
      require unknown.isEmpty "Trigger column references must exist on the target table"
        (place ++ [("columns", .array (unknown.map Json.string))])
    | .view _ => .ok ()
    validateTriggerFunction content trigger

/-! ### Contents -/

/-- The identifiers of the objects of a table. -/
def tableObjectIds (table : DesignTable) : List String :=
  table.id :: (table.columns.map fun column ↦ column.id) ++ (table.keys.map fun key ↦ key.id) ++
    (table.checks.map fun check ↦ check.id) ++ table.indexes.map fun index ↦ index.id

/-- `all_ids`. -/
def allIds (content : SchemiiDesignContent) : List String :=
  (content.types.map fun type ↦ type.id) ++ content.tables.flatMap tableObjectIds ++
    (content.relationships.map fun relationship ↦ relationship.id) ++
    (content.functions.map fun routine ↦ routine.id) ++ (content.views.map fun view ↦ view.id) ++
    content.triggers.map fun trigger ↦ trigger.id

/-- The checks of a designed type. -/
def validateType (type : DesignType) : Except DesignValidationError Unit := do
  validIdentifier type.name "type name"
  type.checks.forM fun check ↦ match check.name with
    | some name => validIdentifier name "domain constraint name"
    | none => .ok ()

/-- The checks of a routine. -/
def validateRoutine (routine : DesignFunction) : Except DesignValidationError Unit := do
  validIdentifier routine.name "routine name"
  validIdentifier routine.language "routine language"

/-- `validate_design_content`. -/
def validateDesignContent (analysis : SqlAnalysis) (content : SchemiiDesignContent) :
    Except DesignValidationError Unit := do
  let typeNames := content.types.map fun type ↦ type.name
  unique typeNames "type names"
  unique (typeNames ++ ((content.tables.map fun table ↦ table.name) ++
    content.views.map fun view ↦ view.name)) "type, table, and view names"
  content.types.forM validateType
  let _ ← designTypesInDependencyOrder analysis content
  content.tables.forM validateTable
  let _ ← content.relationships.foldlM (validateRelationship content) []
  unique (content.functions.map fun routine ↦
    routine.name ++ "(" ++ routine.identityArguments ++ ")") "routine signatures"
  content.functions.forM validateRoutine
  content.views.forM (validateView analysis)
  unique (content.triggers.map fun trigger ↦ trigger.relationName ++ "." ++ trigger.name)
    "trigger names per relation"
  content.triggers.forM (validateTrigger content)
  unique (allIds content) "design object IDs"

/-! ### What an accepted content has -/

theorem require_eq_ok {holds : Bool} {message : String} {details : List (String × Json)} :
    require holds message details = .ok () ↔ holds = true := by
  unfold require
  split_ifs with h
  · exact iff_of_true rfl h
  · exact iff_of_false (by simp) h

theorem bind_eq_ok {α β : Type} {first : Except DesignValidationError α}
    {next : α → Except DesignValidationError β} {result : β} :
    first >>= next = .ok result ↔ ∃ value, first = .ok value ∧ next value = .ok result := by
  cases first with
  | error error => simp [bind, Except.bind]
  | ok value => simp [bind, Except.bind]

theorem eq_ok_of_isOk {E : Type} {outcome : Except E Unit} (h : outcome.isOk = true) :
    outcome = .ok () := by
  cases outcome with
  | error error => exact nomatch h
  | ok done => rfl

theorem exists_unit {p : Unit → Prop} : (∃ value, p value) ↔ p () :=
  ⟨fun ⟨_, h⟩ ↦ h, fun h ↦ ⟨(), h⟩⟩

theorem forM_eq_ok {α : Type} {values : List α} {check : α → Except DesignValidationError Unit} :
    values.forM check = .ok () ↔ ∀ value ∈ values, check value = .ok () := by
  induction values with
  | nil => exact iff_of_true rfl (by simp)
  | cons value values ih =>
    have hcons : (value :: values).forM check = check value >>= fun _ ↦ values.forM check := rfl
    rw [hcons, bind_eq_ok, exists_unit, ih, List.forall_mem_cons]

theorem unique_eq_ok {values : List String} {category : String} :
    unique values category = .ok () ↔ values.Nodup := by
  unfold unique
  rw [require_eq_ok, List.isEmpty_iff, List.nodup_iff_count_le_one]
  have hsort : duplicates values = [] ↔
      (values.dedup.filter fun value ↦ 1 < values.count value) = [] := by
    unfold duplicates
    rw [← List.length_eq_zero_iff, List.length_insertionSort, List.length_eq_zero_iff]
  rw [hsort, List.filter_eq_nil_iff]
  constructor
  · intro hall value
    by_cases hmem : value ∈ values
    · simpa using hall value (List.mem_dedup.mpr hmem)
    · rw [List.count_eq_zero.mpr hmem]
      exact Nat.zero_le 1
  · intro hall value _
    simpa using hall value

/-- The names of the objects of a table do not repeat. -/
structure AcceptedTable (table : DesignTable) : Prop where
  columnNames : (table.columns.map fun column ↦ column.name).Nodup
  constraintNames : ((table.keys.map fun key ↦ key.name) ++
    table.checks.map fun check ↦ check.name).Nodup
  indexNames : (table.indexes.map fun index ↦ index.name).Nodup

/-- A relationship joins columns of tables of the content. -/
structure AcceptedRelationship (content : SchemiiDesignContent) (relationship : DesignRelationship) :
    Prop where
  source : ∃ table, tableById content relationship.sourceTableId = some table ∧
    relationship.sourceColumnIds ⊆ table.columns.map fun column ↦ column.id
  target : ∃ table, tableById content relationship.targetTableId = some table ∧
    relationship.targetColumnIds ⊆ table.columns.map fun column ↦ column.id

/-- What the other modules use of a content that is accepted. -/
structure AcceptedContent (content : SchemiiDesignContent) : Prop where
  names : ((content.types.map fun type ↦ type.name) ++ ((content.tables.map fun table ↦ table.name) ++
    content.views.map fun view ↦ view.name)).Nodup
  tables : ∀ table ∈ content.tables, AcceptedTable table
  relationships : ∀ relationship ∈ content.relationships, AcceptedRelationship content relationship
  relationshipNames : (content.relationships.map fun relationship ↦
    (relationship.sourceTableId, relationship.name)).Nodup
  signatures : (content.functions.map fun routine ↦
    routine.name ++ "(" ++ routine.identityArguments ++ ")").Nodup
  triggerNames : (content.triggers.map fun trigger ↦
    trigger.relationName ++ "." ++ trigger.name).Nodup
  ids : (allIds content).Nodup

variable {content : SchemiiDesignContent}

theorem AcceptedContent.tableIds (h : AcceptedContent content) :
    (content.tables.map fun table ↦ table.id).Nodup := by
  have hids := h.ids
  simp only [allIds, List.nodup_append] at hids
  obtain ⟨⟨⟨⟨⟨-, htables, -⟩, -⟩, -⟩, -⟩, -⟩ := hids
  rw [List.nodup_flatMap] at htables
  rw [List.Nodup, List.pairwise_map]
  refine htables.2.imp fun {first second} hdisjoint hsame ↦ ?_
  refine hdisjoint (a := first.id) ?_ ?_
  · simp [tableObjectIds]
  · simp [tableObjectIds, hsame]

theorem tableById_eq_some {id : String} {table : DesignTable}
    (h : tableById content id = some table) : table ∈ content.tables ∧ table.id = id := by
  unfold tableById at h
  refine ⟨List.mem_reverse.mp (List.mem_of_find?_eq_some h), ?_⟩
  simpa using List.find?_some h

theorem validateTable_accepted {table : DesignTable} (h : validateTable table = .ok ()) :
    AcceptedTable table := by
  simp only [validateTable, bind_eq_ok, exists_unit, unique_eq_ok] at h
  obtain ⟨-, hcolumns, -, hconstraints, -, -, -, hindexes, -⟩ := h
  exact ⟨hcolumns, hconstraints, hindexes⟩

theorem validateRelationship_accepted
    {names result : List (String × String)} {relationship : DesignRelationship}
    (h : validateRelationship content names relationship = .ok result) :
    AcceptedRelationship content relationship ∧
      (relationship.sourceTableId, relationship.name) ∉ names ∧
      result = names ++ [(relationship.sourceTableId, relationship.name)] := by
  unfold validateRelationship at h
  split at h
  next source target hsource htarget =>
    simp only [bind_eq_ok, exists_unit, require_eq_ok, decide_eq_true_eq, Bool.and_eq_true,
      Except.ok.injEq] at h
    obtain ⟨hname, ⟨⟨-, hsources⟩, htargets⟩, -, -, -, rfl⟩ := h
    obtain ⟨-, hid⟩ := tableById_eq_some hsource
    simp only [distinctAmong, decide_eq_true_eq] at hsources htargets
    rw [hid] at hname
    exact ⟨⟨⟨source, hsource, hsources.2⟩, ⟨target, htarget, htargets.2⟩⟩, hname, by rw [hid]⟩
  next => exact nomatch h

theorem foldlM_relationships
    {relationships : List DesignRelationship} {names result : List (String × String)}
    (hnames : names.Nodup)
    (h : relationships.foldlM (validateRelationship content) names = .ok result) :
    (∀ relationship ∈ relationships, AcceptedRelationship content relationship) ∧
      (names ++ relationships.map fun relationship ↦
        (relationship.sourceTableId, relationship.name)).Nodup := by
  induction relationships generalizing names with
  | nil => exact ⟨by simp, by simpa using hnames⟩
  | cons relationship relationships ih =>
    rw [List.foldlM_cons, bind_eq_ok] at h
    obtain ⟨between, hfirst, hrest⟩ := h
    obtain ⟨haccepted, hnew, rfl⟩ := validateRelationship_accepted hfirst
    have hbetween : (names ++ [(relationship.sourceTableId, relationship.name)]).Nodup :=
      List.nodup_append.mpr ⟨hnames, List.nodup_singleton _, fun name hname other hother hsame ↦
        hnew (List.mem_singleton.mp hother ▸ hsame ▸ hname)⟩
    obtain ⟨hall, hnodup⟩ := ih hbetween hrest
    refine ⟨List.forall_mem_cons.mpr ⟨haccepted, hall⟩, ?_⟩
    simpa using hnodup

theorem validateDesignContent_spec {analysis : SqlAnalysis}
    (h : validateDesignContent analysis content = .ok ()) : AcceptedContent content := by
  simp only [validateDesignContent, bind_eq_ok, exists_unit, unique_eq_ok, forM_eq_ok] at h
  obtain ⟨-, hnames, -, -, -, htables, named, hrelationships, hsignatures, -, -, htriggers, -,
    hids⟩ := h
  obtain ⟨haccepted, hrelationshipNames⟩ := foldlM_relationships List.nodup_nil hrelationships
  exact ⟨hnames, fun table htable ↦ validateTable_accepted (htables table htable), haccepted,
    by simpa using hrelationshipNames, hsignatures, htriggers, hids⟩

end Schemii.Designs
