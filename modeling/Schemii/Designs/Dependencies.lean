import Schemii.Designs.Validation

/-!
# What depends on an object of a design

`_inventory` of `designs/deletion_impact.py`: the objects of a content, with what their deletion means,
and the links from each object to the objects that depend on it.

The queries of views are analysed by a parser library; what it finds is a parameter, and so is the
comparison of letters without regard to case.

`DependsOn` says what the links are for. `inventory_spec`: the inventory has the objects of the content
and its links. `linked_iff`: in a valid content whose triggers call the first routine of a name, the
links are exactly the dependencies.
-/

set_option autoImplicit false

namespace Schemii.Designs

open Foundations

/-! ### Analyses -/

/-- A relation that a query may read: its name and the names and types of its columns. -/
structure QueryRelation where
  schema : String
  name : String
  kind : String
  columns : List (String × String)
  deriving DecidableEq, Repr

/-- A relation that a query reads, with the columns it reads there. -/
structure QuerySource where
  name : String
  columns : List String
  deriving DecidableEq, Repr

/-- What the libraries find in the texts of a design: the sources of a query over some relations in a
schema, unless it cannot be analysed, when letters match without regard to case, and the folded form
of a name. -/
structure DependencyAnalysis extends SqlAnalysis where
  analyzeQueryDefinition : String → List QueryRelation → String → Option (List QuerySource)
  sameLetter : Char → Char → Bool
  casefold : String → String

/-- `_query_relations`. The columns of views are not known. -/
def queryRelations (content : SchemiiDesignContent) : List QueryRelation :=
  (content.tables.map fun table ↦ ⟨"desired", table.name, "table",
    table.columns.map fun column ↦ (column.name, column.dataType)⟩) ++
  content.views.map fun view ↦ ⟨"desired", view.name, Spelled.word view.kind, []⟩

/-- The sources of a view. -/
def viewSources (D : DependencyAnalysis) (content : SchemiiDesignContent) (view : DesignView) :
    List QuerySource :=
  (D.analyzeQueryDefinition view.definition (queryRelations content) "desired").getD []

/-! ### Types that a text mentions -/

/-- The name in quotes that a text starts with, after the opening quote, and the rest. As many pairs
of quotes as possible belong to the name. -/
def quotedName : Bool → List Char → Option (List Char × List Char)
  | _, [] => none
  | started, '"' :: '"' :: rest =>
    match quotedName true rest with
    | some (name, after) => some ('"' :: name, after)
    | none => if started then some ([], '"' :: rest) else none
  | started, '"' :: rest => if started then some ([], rest) else none
  | _, letter :: rest => (quotedName true rest).map fun (name, after) ↦ (letter :: name, after)

/-- A text without the quotes around names, for texts of a bounded length. -/
def unquotedWithin : ℕ → List Char → List Char
  | 0, text => text
  | _, [] => []
  | bound + 1, '"' :: rest =>
    match quotedName false rest with
    | some (name, after) => name ++ unquotedWithin bound after
    | none => '"' :: unquotedWithin bound rest
  | bound + 1, letter :: rest => letter :: unquotedWithin bound rest

/-- A character of a name. Four letters outside ASCII match `[A-Za-z]` without regard to case. -/
def isNameLetter (letter : Char) : Bool :=
  letter.isAlphanum || letter = '_' || letter = '$' ||
    letter.toNat ∈ [0x130, 0x131, 0x17f, 0x212a]

/-- What follows a name at the start of a text. -/
def afterName (same : Char → Char → Bool) : List Char → List Char → Option (List Char)
  | [], text => some text
  | _, [] => none
  | letter :: name, other :: text => if same letter other then afterName same name text else none

/-- A name stands somewhere in a text, after a character, and is not a part of a longer one. -/
def standsIn (same : Char → Char → Bool) (name : List Char) : Option Char → List Char → Bool
  | before, [] => name.isEmpty && !before.any isNameLetter
  | before, letter :: rest =>
    (!before.any isNameLetter &&
      (afterName same name (letter :: rest)).any fun after ↦ !after.head?.any isNameLetter) ||
    standsIn same name (some letter) rest

/-- `_mentions_type`. -/
def mentionsType (D : DependencyAnalysis) (text : Option String) (name : String) : Bool :=
  match text with
  | none => false
  | some text => !text.isEmpty &&
      standsIn D.sameLetter name.toList none (unquotedWithin text.toList.length text.toList)

/-- `str.strip` of the characters that satisfy a predicate. -/
def stripChars (drop : Char → Bool) (text : List Char) : List Char :=
  ((text.dropWhile drop).reverse.dropWhile drop).reverse

/-- `_routine_name`. -/
def routineName (value : String) : String :=
  let last := (value.toList.reverse.takeWhile fun c ↦ c ≠ '.').reverse
  String.ofList (stripChars (fun c ↦ c = '"') (stripChars isSpace last))

/-! ### Objects -/

/-- The kind of an object that a deletion affects. -/
inductive ImpactKind
  | type
  | table
  | column
  | key
  | check
  | index
  | relationship
  | routine
  | view
  | trigger
  deriving DecidableEq, Repr

/-- The word for a kind. -/
def ImpactKind.word : ImpactKind → String
  | .type => "type"
  | .table => "table"
  | .column => "column"
  | .key => "key"
  | .check => "check"
  | .index => "index"
  | .relationship => "relationship"
  | .routine => "routine"
  | .view => "view"
  | .trigger => "trigger"

/-- What is lost with an object. -/
inductive ImpactSeverity
  | dataLoss
  | integrity
  | performance
  | behavior
  deriving DecidableEq, Repr

/-- `_Object`. -/
structure ImpactObject where
  objectId : String
  kind : ImpactKind
  name : String
  consequence : String
  severity : ImpactSeverity
  context : Option String
  tableId : Option String
  tableName : Option String
  deriving DecidableEq, Repr

/-- The object of a type. -/
def typeObject (type : DesignType) : ImpactObject :=
  ⟨type.id, .type, type.name,
    "Applying this change removes the " ++ Spelled.word type.kind ++ " type contract.", .integrity,
    some (Spelled.word type.kind), none, none⟩

/-- An object that a table owns. -/
def ownedObject (table : DesignTable) (id : String) (kind : ImpactKind) (name consequence : String)
    (severity : ImpactSeverity) (context : String) : ImpactObject :=
  ⟨id, kind, name, consequence, severity, some context, some table.id, some table.name⟩

/-- The object of a table. -/
def tableObject (table : DesignTable) : ImpactObject :=
  ownedObject table table.id .table table.name
    ("Applying this change drops the table and permanently deletes data stored in its " ++
      toString table.columns.length ++ " column(s).")
    .dataLoss (toString table.columns.length ++ " columns")

/-- The object of a column. -/
def columnObject (table : DesignTable) (column : DesignColumn) : ImpactObject :=
  ownedObject table column.id .column column.name
    ("Applying this change permanently deletes the data stored in " ++ table.name ++ "." ++
      column.name ++ ".")
    .dataLoss table.name

/-- The object of a key. -/
def keyObject (table : DesignTable) (key : DesignKeyConstraint) : ImpactObject :=
  let (label, lower) := match key.kind with
    | .primary => ("Primary key", "primary key")
    | .unique => ("Unique key", "unique key")
  ownedObject table key.id .key key.name
    ("Applying this change removes " ++ lower ++ " enforcement from " ++ table.name ++ ".")
    .integrity (table.name ++ " · " ++ label)

/-- The object of a check. -/
def checkObject (table : DesignTable) (check : DesignCheckConstraint) : ImpactObject :=
  ownedObject table check.id .check check.name
    ("Applying this change stops PostgreSQL from enforcing this check on " ++ table.name ++ ".")
    .integrity table.name

/-- The object of an index. -/
def indexObject (table : DesignTable) (index : DesignIndex) : ImpactObject :=
  ownedObject table index.id .index index.name
    (if index.unique then
      "Applying this change removes uniqueness enforcement and its access path from " ++
        table.name ++ "."
    else
      "Applying this change removes a query access path from " ++ table.name ++
        "; affected queries may become slower.")
    (if index.unique then .integrity else .performance) table.name

/-- The objects of a table, in the order of the source. -/
def tableObjects (table : DesignTable) : List ImpactObject :=
  tableObject table :: (table.columns.map (columnObject table) ++ table.keys.map (keyObject table) ++
    table.checks.map (checkObject table) ++ table.indexes.map (indexObject table))

/-- The object of a relationship between two tables. -/
def relationshipObject (source target : DesignTable) (relationship : DesignRelationship) :
    ImpactObject :=
  ownedObject source relationship.id .relationship relationship.name
    ("Applying this change stops PostgreSQL from enforcing the reference from " ++ source.name ++
      " to " ++ target.name ++ ".")
    .integrity (source.name ++ " → " ++ target.name)

/-- The object of a routine. -/
def routineObject (routine : DesignFunction) : ImpactObject :=
  ⟨routine.id, .routine, routine.name ++ "(" ++ routine.identityArguments ++ ")",
    "Applying this change removes the callable " ++ Spelled.word routine.kind ++ " interface.",
    .behavior, some routine.language, none, none⟩

/-- The object of a view. -/
def viewObject (view : DesignView) : ImpactObject :=
  match view.kind with
  | .materializedView => ⟨view.id, .view, view.name,
      "Applying this change drops the materialized view and permanently deletes its stored result data.",
      .dataLoss, some "Materialized view", none, none⟩
  | .view => ⟨view.id, .view, view.name,
      "Applying this change removes the view interface from PostgreSQL.", .behavior, some "View",
      none, none⟩

/-- `relations_by_name`, and `relation_ids`: the identifier of a relation. -/
def relationId (content : SchemiiDesignContent) (name : String) : Option String :=
  (relationByName content name).map fun
    | .table table => table.id
    | .view view => view.id

/-- The table that a trigger is on. -/
def triggerTable (content : SchemiiDesignContent) (trigger : DesignTrigger) : Option DesignTable :=
  (relationId content trigger.relationName).bind (tableById content)

/-- The object of a trigger. -/
def triggerObject (content : SchemiiDesignContent) (trigger : DesignTrigger) : ImpactObject :=
  ⟨trigger.id, .trigger, trigger.name,
    "Applying this change stops the automatic behavior on " ++ trigger.relationName ++ ".", .behavior,
    some trigger.relationName, (triggerTable content trigger).map fun table ↦ table.id,
    (triggerTable content trigger).map fun table ↦ table.name⟩

/-! ### Links -/

/-- The columns that an index reads. -/
def indexColumnIds (index : DesignIndex) : List String :=
  index.columnIds ++ index.includeColumnIds ++ index.expressionSourceColumnIds ++
    index.predicateColumnIds

/-- The links of a table. A link leads from an object to one that depends on it. -/
def tableLinks (table : DesignTable) : List (String × String) :=
  (if table.columns.length = 1 then table.columns.map fun column ↦ (column.id, table.id) else []) ++
  (table.keys.flatMap fun key ↦
    (table.id, key.id) :: key.columnIds.map fun column ↦ (column, key.id)) ++
  (table.checks.flatMap fun check ↦
    (table.id, check.id) :: check.columnIds.map fun column ↦ (column, check.id)) ++
  (table.indexes.flatMap fun index ↦
    (table.id, index.id) :: (indexColumnIds index).map fun column ↦ (column, index.id)) ++
  table.columns.flatMap fun generated ↦
    generated.generatedSourceColumnIds.map fun source ↦ (source, generated.id)

/-- The key that a relationship refers to. -/
def targetKey (target : DesignTable) (relationship : DesignRelationship) :
    Option DesignKeyConstraint :=
  target.keys.find? fun key ↦ key.columnIds = relationship.targetColumnIds

/-- The links of a relationship. -/
def relationshipLinks (source target : DesignTable) (relationship : DesignRelationship) :
    List (String × String) :=
  (source.id, relationship.id) ::
    ((relationship.sourceColumnIds ++ relationship.targetColumnIds).map fun column ↦
      (column, relationship.id)) ++
    [(((targetKey target relationship).map fun key ↦ key.id).getD target.id, relationship.id)]

/-- The columns of its table that a trigger names. -/
def triggerColumnIds (table : DesignTable) (trigger : DesignTrigger) : List String :=
  (table.columns.filter fun column ↦
    column.name ∈ trigger.updateColumns ++ trigger.referencedColumns).map fun column ↦ column.id

/-- The links of a trigger. -/
def triggerLinks (content : SchemiiDesignContent) (trigger : DesignTrigger) :
    List (String × String) :=
  let relation := (relationId content trigger.relationName).toList
  let routine := (content.functions.find? fun routine ↦
    routine.name = routineName trigger.functionName).toList
  let columns := (triggerTable content trigger).toList.flatMap fun table ↦
    triggerColumnIds table trigger
  (relation ++ (routine.map fun routine ↦ routine.id) ++ columns).map fun target ↦
    (target, trigger.id)

/-- The identifier of a column, by the names of its table and itself. -/
def columnId (content : SchemiiDesignContent) (table column : String) : Option String :=
  ((content.tables.flatMap fun owner ↦ owner.columns.map fun column ↦
    ((owner.name, column.name), column.id)).reverse).lookup (table, column)

/-- The objects that a view reads: relations and columns of tables. -/
def viewReads (D : DependencyAnalysis) (content : SchemiiDesignContent) (view : DesignView) :
    List String :=
  (viewSources D content view).flatMap fun source ↦
    (relationId content source.name).toList ++
      source.columns.filterMap fun column ↦ columnId content source.name column

/-- The links of a type. -/
def typeLinks (D : DependencyAnalysis) (content : SchemiiDesignContent) (type : DesignType) :
    List (String × String) :=
  let columns := content.tables.flatMap fun table ↦ table.columns.filter fun column ↦
    mentionsType D (some column.dataType) type.name
  let types := content.types.filter fun other ↦
    other.id ≠ type.id ∧ mentionsType D other.baseType type.name
  let routines := content.functions.filter fun routine ↦
    mentionsType D (some routine.arguments) type.name || mentionsType D routine.returnType type.name
  ((columns.map fun column ↦ column.id) ++ (types.map fun other ↦ other.id) ++
    routines.map fun routine ↦ routine.id).map fun dependent ↦ (type.id, dependent)

/-! ### The inventory -/

/-- `_Inventory`. -/
structure Inventory where
  objects : List ImpactObject
  links : List (String × String)
  deriving DecidableEq, Repr

/-- The object of an identifier. -/
def Inventory.object? (inventory : Inventory) (id : String) : Option ImpactObject :=
  inventory.objects.reverse.find? fun object ↦ object.objectId = id

/-- The objects that depend on an object, by their identifiers. -/
def Inventory.dependents (inventory : Inventory) (id : String) : List String :=
  ((inventory.links.filter fun link ↦ link.1 = id).map Prod.snd).dedup

/-- The two tables of a relationship. -/
def relationshipTables (content : SchemiiDesignContent) (relationship : DesignRelationship) :
    Option (DesignTable × DesignTable) := do
  let source ← tableById content relationship.sourceTableId
  let target ← tableById content relationship.targetTableId
  pure (source, target)

/-- `_inventory`. A relationship whose tables are not there ends it with an error. -/
def inventory (D : DependencyAnalysis) (content : SchemiiDesignContent) : Option Inventory := do
  let ends ← content.relationships.mapM fun relationship ↦
    (relationshipTables content relationship).map fun tables ↦ (tables, relationship)
  let objects := content.types.map typeObject ++ content.tables.flatMap tableObjects ++
    (ends.map fun ((source, target), relationship) ↦ relationshipObject source target relationship) ++
    content.functions.map routineObject ++ content.views.map viewObject ++
    content.triggers.map (triggerObject content)
  let links := content.tables.flatMap tableLinks ++
    (ends.flatMap fun ((source, target), relationship) ↦
      relationshipLinks source target relationship) ++
    content.triggers.flatMap (triggerLinks content) ++
    (content.views.flatMap fun view ↦ (viewReads D content view).map fun target ↦
      (target, view.id)) ++
    content.types.flatMap (typeLinks D content)
  pure ⟨objects, links.filter fun link ↦ link.1 ≠ link.2⟩

/-! ### References of a valid content -/

/-- The objects of a table refer to columns of the table. -/
structure OwnReferences (table : DesignTable) : Prop where
  keys : ∀ key ∈ table.keys, key.columnIds ⊆ table.columns.map fun column ↦ column.id
  checks : ∀ check ∈ table.checks, check.columnIds ⊆ table.columns.map fun column ↦ column.id
  indexes : ∀ index ∈ table.indexes, indexColumnIds index ⊆ table.columns.map fun column ↦ column.id
  generated : ∀ column ∈ table.columns,
    column.generatedSourceColumnIds ⊆ table.columns.map fun column ↦ column.id

/-- What a valid content refers to is there. -/
structure ValidReferences (analysis : SqlAnalysis) (content : SchemiiDesignContent) : Prop where
  accepted : AcceptedContent content
  typeOrder : ∃ types, designTypesInDependencyOrder analysis content = .ok types
  tables : ∀ table ∈ content.tables, OwnReferences table
  relationships : ∀ relationship ∈ content.relationships, ∃ source target key,
    tableById content relationship.sourceTableId = some source ∧
      tableById content relationship.targetTableId = some target ∧
      targetKey target relationship = some key ∧
      (relationship.sourceColumnIds ⊆ source.columns.map fun column ↦ column.id) ∧
      relationship.targetColumnIds ⊆ target.columns.map fun column ↦ column.id
  triggers : ∀ trigger ∈ content.triggers, ∃ id, relationId content trigger.relationName = some id

theorem distinctAmong_subset {values known : List String} (h : distinctAmong values known = true) :
    values ⊆ known :=
  (of_decide_eq_true h).2

theorem validateIndexPart_subset {place : List (String × Json)} {columnIds sources : List String}
    {expression : Option String} {empty category reference dependency : String}
    (h : validateIndexPart place columnIds expression sources empty category reference dependency =
      .ok ()) : sources ⊆ columnIds := by
  cases expression with
  | none =>
    simp only [validateIndexPart, require_eq_ok, List.isEmpty_iff] at h
    simp [h]
  | some text =>
    simp only [validateIndexPart, bind_eq_ok, exists_unit, require_eq_ok] at h
    exact distinctAmong_subset h.2.2

theorem validateIndex_subset {table : DesignTable} {index : DesignIndex}
    (h : validateIndex table index = .ok ()) :
    indexColumnIds index ⊆ table.columns.map fun column ↦ column.id := by
  simp only [validateIndex, bind_eq_ok, exists_unit, require_eq_ok, Bool.and_eq_true] at h
  obtain ⟨-, -, -, hcolumns, ⟨hincluded, -⟩, hexpression, hpredicate⟩ := h
  unfold indexColumnIds
  rw [List.append_subset, List.append_subset, List.append_subset]
  exact ⟨⟨⟨distinctAmong_subset hcolumns, distinctAmong_subset hincluded⟩,
    validateIndexPart_subset hexpression⟩, validateIndexPart_subset hpredicate⟩

theorem validateColumn_subset {table : DesignTable} {column : DesignColumn}
    (h : validateColumn table column = .ok ()) :
    column.generatedSourceColumnIds ⊆ table.columns.map fun column ↦ column.id := by
  cases hexpression : column.generatedExpression with
  | none =>
    have hempty : column.generatedSourceColumnIds = [] := by
      cases hdefault : column.defaultExpression <;>
        simp only [validateColumn, hdefault, hexpression, bind_eq_ok, exists_unit, require_eq_ok,
          List.isEmpty_iff] at h <;> tauto
    simp [hempty]
  | some text =>
    refine distinctAmong_subset ?_
    cases hdefault : column.defaultExpression <;>
      simp only [validateColumn, hdefault, hexpression, bind_eq_ok, exists_unit, require_eq_ok,
        Bool.and_eq_true] at h <;> tauto

theorem validateTable_references {table : DesignTable} (h : validateTable table = .ok ()) :
    OwnReferences table := by
  simp only [validateTable, bind_eq_ok, exists_unit, unique_eq_ok, forM_eq_ok] at h
  obtain ⟨-, -, hcolumns, -, -, hkeys, hchecks, -, hindexes⟩ := h
  refine ⟨fun key hkey ↦ ?_, fun check hcheck ↦ ?_,
    fun index hindex ↦ validateIndex_subset (hindexes index hindex),
    fun column hcolumn ↦ validateColumn_subset (hcolumns column hcolumn)⟩
  · have hpassed := hkeys key hkey
    simp only [validateKey, bind_eq_ok, exists_unit, require_eq_ok] at hpassed
    exact distinctAmong_subset hpassed.2
  · have hpassed := hchecks check hcheck
    simp only [validateCheck, bind_eq_ok, exists_unit, require_eq_ok] at hpassed
    exact distinctAmong_subset hpassed.2.2.2

theorem passed_of_foldlM {α β : Type} {check : β → α → Except DesignValidationError β}
    {values : List α} {start result : β} (h : values.foldlM check start = .ok result) {value : α}
    (hvalue : value ∈ values) : ∃ before after, check before value = .ok after := by
  induction values generalizing start with
  | nil => exact nomatch hvalue
  | cons first values ih =>
    rw [List.foldlM_cons, bind_eq_ok] at h
    obtain ⟨between, hfirst, hrest⟩ := h
    rcases List.mem_cons.mp hvalue with rfl | hmem
    · exact ⟨start, between, hfirst⟩
    · exact ih hrest hmem

theorem validReferences {analysis : SqlAnalysis} {content : SchemiiDesignContent}
    (h : validateDesignContent analysis content = .ok ()) : ValidReferences analysis content := by
  have haccepted := validateDesignContent_spec h
  simp only [validateDesignContent, bind_eq_ok, exists_unit, unique_eq_ok, forM_eq_ok] at h
  obtain ⟨-, -, -, types, htypes, htables, named, hrelationships, -, -, -, -, htriggers, -⟩ := h
  refine ⟨haccepted, ⟨types, htypes⟩,
    fun table htable ↦ validateTable_references (htables table htable),
    fun relationship hrelationship ↦ ?_, fun trigger htrigger ↦ ?_⟩
  · obtain ⟨before, after, hpassed⟩ := passed_of_foldlM hrelationships hrelationship
    unfold validateRelationship at hpassed
    split at hpassed
    next source target hsource htarget =>
      simp only [bind_eq_ok, exists_unit, require_eq_ok, Bool.and_eq_true] at hpassed
      obtain ⟨-, ⟨⟨-, hsources⟩, htargets⟩, hkey, -⟩ := hpassed
      have hfound : (targetKey target relationship).isSome := by
        unfold targetKey
        rw [List.find?_isSome]
        simpa using hkey
      obtain ⟨key, hkey⟩ := Option.isSome_iff_exists.mp hfound
      exact ⟨source, target, key, hsource, htarget, hkey, distinctAmong_subset hsources,
        distinctAmong_subset htargets⟩
    next => cases hpassed
  · have hpassed := htriggers trigger htrigger
    simp only [validateTrigger, bind_eq_ok, exists_unit] at hpassed
    obtain ⟨-, hpassed⟩ := hpassed
    unfold relationId
    cases hrelation : relationByName content trigger.relationName with
    | none => simp [hrelation] at hpassed
    | some relation => exact ⟨_, rfl⟩

section Relations

variable {content : SchemiiDesignContent}

theorem relationId_eq_some {name id : String} (h : relationId content name = some id) :
    (∃ table ∈ content.tables, table.name = name ∧ table.id = id) ∨
      ∃ view ∈ content.views, view.name = name ∧ view.id = id := by
  unfold relationId relationByName at h
  cases hview : content.views.reverse.find? fun view ↦ view.name = name with
  | some view =>
    rw [hview] at h
    have hname := List.find?_some hview
    exact .inr ⟨view, List.mem_reverse.mp (List.mem_of_find?_eq_some hview), by simpa using hname,
      Option.some.inj h⟩
  | none =>
    rw [hview] at h
    simp only [Option.map_map, Option.map_eq_some_iff, Function.comp_apply] at h
    obtain ⟨table, htable, hid⟩ := h
    have hname := List.find?_some htable
    exact .inl ⟨table, List.mem_reverse.mp (List.mem_of_find?_eq_some htable), by simpa using hname,
      hid⟩

theorem relationId_of_view (hnames : (content.views.map fun view ↦ view.name).Nodup)
    {view : DesignView} (h : view ∈ content.views) : relationId content view.name = some view.id := by
  have hsome : (content.views.reverse.find? fun other ↦ other.name = view.name).isSome :=
    List.find?_isSome.mpr ⟨view, List.mem_reverse.mpr h, by simp⟩
  obtain ⟨other, hother⟩ := Option.isSome_iff_exists.mp hsome
  have hname : other.name = view.name := by simpa using List.find?_some hother
  have hmem := List.mem_reverse.mp (List.mem_of_find?_eq_some hother)
  unfold relationId relationByName
  rw [hother, List.inj_on_of_nodup_map hnames hmem h hname]
  rfl

theorem columnId_eq_some {table column id : String} (h : columnId content table column = some id) :
    ∃ owner ∈ content.tables, owner.name = table ∧ ∃ found ∈ owner.columns, found.name = column ∧
      found.id = id := by
  unfold columnId at h
  obtain ⟨before, after, hsplit, -⟩ := List.lookup_eq_some_iff.mp h
  have hmem : ((table, column), id) ∈ content.tables.flatMap fun owner ↦
      owner.columns.map fun column ↦ ((owner.name, column.name), column.id) := by
    rw [← List.mem_reverse, hsplit]
    exact List.mem_append_right _ List.mem_cons_self
  obtain ⟨owner, howner, hcolumn⟩ := List.mem_flatMap.mp hmem
  obtain ⟨found, hfound, hsame⟩ := List.mem_map.mp hcolumn
  obtain ⟨hnames, rfl⟩ := Prod.mk.inj hsame
  obtain ⟨rfl, rfl⟩ := Prod.mk.inj hnames
  exact ⟨owner, howner, rfl, found, hfound, rfl, rfl⟩

theorem relationId_of_table (haccepted : AcceptedContent content) {table : DesignTable}
    (htable : table ∈ content.tables) : relationId content table.name = some table.id := by
  have hrelations := (List.nodup_append.mp haccepted.names).2.1
  obtain ⟨htables, -, hdisjoint⟩ := List.nodup_append.mp hrelations
  have hnone : (content.views.reverse.find? fun view ↦ view.name = table.name) = none := by
    rw [List.find?_eq_none]
    intro view hview hname
    refine hdisjoint table.name (List.mem_map_of_mem htable) view.name
      (List.mem_map_of_mem (List.mem_reverse.mp hview)) ?_
    exact (of_decide_eq_true hname).symm
  have hsome : (content.tables.reverse.find? fun other ↦ other.name = table.name).isSome :=
    List.find?_isSome.mpr ⟨table, List.mem_reverse.mpr htable, by simp⟩
  obtain ⟨other, hother⟩ := Option.isSome_iff_exists.mp hsome
  have hname : other.name = table.name := by simpa using List.find?_some hother
  have hmem := List.mem_reverse.mp (List.mem_of_find?_eq_some hother)
  unfold relationId relationByName
  rw [hnone, hother, List.inj_on_of_nodup_map htables hmem htable hname]
  rfl

end Relations

/-! ### What the links are for -/

/-- What it means that an object depends on another one, the target: the definition of the dependent
refers to it, or the dependent is a table without another column. -/
inductive DependsOn (D : DependencyAnalysis) (content : SchemiiDesignContent) (target : String) :
    String → Prop
  | onlyColumn {table : DesignTable} {column : DesignColumn} (htable : table ∈ content.tables)
      (hcolumns : table.columns = [column]) (htarget : target = column.id) :
      DependsOn D content target table.id
  | key {table : DesignTable} {key : DesignKeyConstraint} (htable : table ∈ content.tables)
      (hkey : key ∈ table.keys) (htarget : target = table.id ∨ target ∈ key.columnIds) :
      DependsOn D content target key.id
  | check {table : DesignTable} {check : DesignCheckConstraint} (htable : table ∈ content.tables)
      (hcheck : check ∈ table.checks) (htarget : target = table.id ∨ target ∈ check.columnIds) :
      DependsOn D content target check.id
  | index {table : DesignTable} {index : DesignIndex} (htable : table ∈ content.tables)
      (hindex : index ∈ table.indexes)
      (htarget : target = table.id ∨ target ∈ indexColumnIds index) :
      DependsOn D content target index.id
  | generated {table : DesignTable} {column : DesignColumn} (htable : table ∈ content.tables)
      (hcolumn : column ∈ table.columns) (htarget : target ∈ column.generatedSourceColumnIds) :
      DependsOn D content target column.id
  | relationship {relationship : DesignRelationship} {source referred : DesignTable}
      {key : DesignKeyConstraint} (hmem : relationship ∈ content.relationships)
      (hsource : tableById content relationship.sourceTableId = some source)
      (hreferred : tableById content relationship.targetTableId = some referred)
      (hkey : targetKey referred relationship = some key)
      (htarget : target = source.id ∨ target ∈ relationship.sourceColumnIds ∨
        target ∈ relationship.targetColumnIds ∨ target = key.id) :
      DependsOn D content target relationship.id
  | triggerRelation {trigger : DesignTrigger} (htrigger : trigger ∈ content.triggers)
      (htarget : relationId content trigger.relationName = some target) :
      DependsOn D content target trigger.id
  | triggerRoutine {trigger : DesignTrigger} {routine : DesignFunction}
      (htrigger : trigger ∈ content.triggers)
      (hroutine : routineWithoutArguments content (routineName trigger.functionName) = some routine)
      (htarget : target = routine.id) : DependsOn D content target trigger.id
  | triggerColumn {trigger : DesignTrigger} {table : DesignTable}
      (htrigger : trigger ∈ content.triggers) (htable : triggerTable content trigger = some table)
      (htarget : target ∈ triggerColumnIds table trigger) : DependsOn D content target trigger.id
  | view {view : DesignView} (hview : view ∈ content.views)
      (htarget : target ∈ viewReads D content view) : DependsOn D content target view.id
  | columnType {type : DesignType} {table : DesignTable} {column : DesignColumn}
      (htype : type ∈ content.types) (htable : table ∈ content.tables)
      (hcolumn : column ∈ table.columns)
      (hmentions : mentionsType D (some column.dataType) type.name = true)
      (htarget : target = type.id) : DependsOn D content target column.id
  | baseType {type other : DesignType} (htype : type ∈ content.types)
      (hother : other ∈ content.types) (hdiffer : other.id ≠ type.id)
      (hmentions : mentionsType D other.baseType type.name = true) (htarget : target = type.id) :
      DependsOn D content target other.id
  | routineType {type : DesignType} {routine : DesignFunction} (htype : type ∈ content.types)
      (hroutine : routine ∈ content.functions)
      (hmentions : mentionsType D (some routine.arguments) type.name = true ∨
        mentionsType D routine.returnType type.name = true) (htarget : target = type.id) :
      DependsOn D content target routine.id

/-- The first routine of the name that a trigger calls is the one without arguments. -/
def TriggersCallFirst (content : SchemiiDesignContent) : Prop :=
  ∀ trigger ∈ content.triggers,
    (content.functions.find? fun routine ↦ routine.name = routineName trigger.functionName) =
      routineWithoutArguments content (routineName trigger.functionName)

section Links

variable {D : DependencyAnalysis} {content : SchemiiDesignContent} {target dependent : String}

theorem dependsOn_of_mem_tableLinks {table : DesignTable} (htable : table ∈ content.tables)
    (h : (target, dependent) ∈ tableLinks table) : DependsOn D content target dependent := by
  simp only [tableLinks, List.mem_append, List.mem_flatMap, List.mem_cons, List.mem_map,
    Prod.mk.injEq] at h
  rcases h with (((honly | ⟨key, hkey, ⟨rfl, rfl⟩ | ⟨column, hcolumn, rfl, rfl⟩⟩) |
    ⟨check, hcheck, ⟨rfl, rfl⟩ | ⟨column, hcolumn, rfl, rfl⟩⟩) |
    ⟨index, hindex, ⟨rfl, rfl⟩ | ⟨column, hcolumn, rfl, rfl⟩⟩) |
    ⟨generated, hgenerated, source, hsource, rfl, rfl⟩
  · split_ifs at honly with hlength
    · obtain ⟨column, hcolumns⟩ := List.length_eq_one_iff.mp hlength
      rw [hcolumns, List.map_singleton, List.mem_singleton, Prod.mk.injEq] at honly
      obtain ⟨rfl, rfl⟩ := honly
      exact .onlyColumn htable hcolumns rfl
    · exact nomatch honly
  · exact .key htable hkey (.inl rfl)
  · exact .key htable hkey (.inr hcolumn)
  · exact .check htable hcheck (.inl rfl)
  · exact .check htable hcheck (.inr hcolumn)
  · exact .index htable hindex (.inl rfl)
  · exact .index htable hindex (.inr hcolumn)
  · exact .generated htable hgenerated hsource

theorem dependsOn_of_mem_typeLinks {type : DesignType} (htype : type ∈ content.types)
    (h : (target, dependent) ∈ typeLinks D content type) : DependsOn D content target dependent := by
  simp only [typeLinks, List.mem_map, List.mem_append, List.mem_flatMap, List.mem_filter,
    Prod.mk.injEq, Bool.or_eq_true, decide_eq_true_eq] at h
  obtain ⟨id, (⟨column, ⟨table, htable, hcolumn, hmentions⟩, rfl⟩ |
    ⟨other, ⟨hother, hdiffer, hmentions⟩, rfl⟩) | ⟨routine, ⟨hroutine, hmentions⟩, rfl⟩, rfl, rfl⟩ := h
  · exact .columnType htype htable hcolumn hmentions rfl
  · exact .baseType htype hother hdiffer hmentions rfl
  · exact .routineType htype hroutine hmentions rfl

theorem dependsOn_of_mem_triggerLinks {trigger : DesignTrigger} (htrigger : trigger ∈ content.triggers)
    (hfirst : TriggersCallFirst content) (h : (target, dependent) ∈ triggerLinks content trigger) :
    DependsOn D content target dependent := by
  simp only [triggerLinks, List.mem_map, List.mem_append, Option.mem_toList, List.mem_flatMap,
    Prod.mk.injEq] at h
  obtain ⟨id, (hrelation | ⟨routine, hroutine, rfl⟩) | ⟨table, htable, hcolumn⟩, rfl, rfl⟩ := h
  · exact .triggerRelation htrigger hrelation
  · rw [hfirst trigger htrigger] at hroutine
    exact .triggerRoutine htrigger hroutine rfl
  · exact .triggerColumn htrigger htable hcolumn

/-- A link of some object of a content. -/
def HasLink (D : DependencyAnalysis) (content : SchemiiDesignContent) (target dependent : String) :
    Prop :=
  (∃ table ∈ content.tables, (target, dependent) ∈ tableLinks table) ∨
  (∃ relationship ∈ content.relationships, ∃ source referred,
    relationshipTables content relationship = some (source, referred) ∧
      (target, dependent) ∈ relationshipLinks source referred relationship) ∨
  (∃ trigger ∈ content.triggers, (target, dependent) ∈ triggerLinks content trigger) ∨
  (∃ view ∈ content.views, target ∈ viewReads D content view ∧ view.id = dependent) ∨
  ∃ type ∈ content.types, (target, dependent) ∈ typeLinks D content type

theorem relationshipTables_eq_some {relationship : DesignRelationship} {source referred : DesignTable} :
    relationshipTables content relationship = some (source, referred) ↔
      tableById content relationship.sourceTableId = some source ∧
        tableById content relationship.targetTableId = some referred := by
  simp [relationshipTables, Option.bind_eq_some_iff]

/-- Assumes: a valid content whose triggers call the first routine of a name. Its links are its
dependencies. -/
theorem linked_iff (hvalid : ValidReferences D.toSqlAnalysis content)
    (hfirst : TriggersCallFirst content) :
    HasLink D content target dependent ↔ DependsOn D content target dependent := by
  constructor
  · rintro (⟨table, htable, hlink⟩ | ⟨relationship, hmem, source, referred, htables, hlink⟩ |
      ⟨trigger, htrigger, hlink⟩ | ⟨view, hview, hread, rfl⟩ | ⟨type, htype, hlink⟩)
    · exact dependsOn_of_mem_tableLinks htable hlink
    · obtain ⟨hsource, hreferred⟩ := relationshipTables_eq_some.mp htables
      obtain ⟨_, other, key, -, hother, hkey, -, -⟩ := hvalid.relationships relationship hmem
      obtain rfl := Option.some.inj (hother.symm.trans hreferred)
      simp only [relationshipLinks, hkey, List.mem_cons, List.mem_append, List.mem_map,
        Option.map_some, Option.getD_some, Prod.mk.injEq, List.not_mem_nil, or_false] at hlink
      rcases hlink with (⟨rfl, rfl⟩ | ⟨column, hsources | htargets, rfl, rfl⟩) | ⟨rfl, rfl⟩
      · exact .relationship hmem hsource hreferred hkey (.inl rfl)
      · exact .relationship hmem hsource hreferred hkey (.inr (.inl hsources))
      · exact .relationship hmem hsource hreferred hkey (.inr (.inr (.inl htargets)))
      · exact .relationship hmem hsource hreferred hkey (.inr (.inr (.inr rfl)))
    · exact dependsOn_of_mem_triggerLinks htrigger hfirst hlink
    · exact .view hview hread
    · exact dependsOn_of_mem_typeLinks htype hlink
  · intro h
    cases h with
    | onlyColumn htable hcolumns htarget =>
      refine .inl ⟨_, htable, ?_⟩
      simp [tableLinks, hcolumns, htarget]
    | key htable hkey htarget =>
      refine .inl ⟨_, htable, ?_⟩
      simp only [tableLinks, List.mem_append, List.mem_flatMap, List.mem_cons, List.mem_map,
        Prod.mk.injEq]
      exact .inl (.inl (.inl (.inr ⟨_, hkey, by simpa using htarget⟩)))
    | check htable hcheck htarget =>
      refine .inl ⟨_, htable, ?_⟩
      simp only [tableLinks, List.mem_append, List.mem_flatMap, List.mem_cons, List.mem_map,
        Prod.mk.injEq]
      exact .inl (.inl (.inr ⟨_, hcheck, by simpa using htarget⟩))
    | index htable hindex htarget =>
      refine .inl ⟨_, htable, ?_⟩
      simp only [tableLinks, List.mem_append, List.mem_flatMap, List.mem_cons, List.mem_map,
        Prod.mk.injEq]
      exact .inl (.inr ⟨_, hindex, by simpa using htarget⟩)
    | generated htable hcolumn htarget =>
      refine .inl ⟨_, htable, ?_⟩
      simp only [tableLinks, List.mem_append, List.mem_flatMap, List.mem_cons, List.mem_map,
        Prod.mk.injEq]
      exact .inr ⟨_, hcolumn, target, htarget, rfl, rfl⟩
    | relationship hmem hsource hreferred hkey htarget =>
      refine .inr (.inl ⟨_, hmem, _, _, relationshipTables_eq_some.mpr ⟨hsource, hreferred⟩, ?_⟩)
      simp only [relationshipLinks, hkey, List.mem_cons, List.mem_append, List.mem_map,
        Option.map_some, Option.getD_some, Prod.mk.injEq, List.not_mem_nil, or_false]
      rcases htarget with rfl | hcolumn | hcolumn | rfl
      · exact .inl (.inl ⟨rfl, trivial⟩)
      · exact .inl (.inr ⟨target, .inl hcolumn, rfl, trivial⟩)
      · exact .inl (.inr ⟨target, .inr hcolumn, rfl, trivial⟩)
      · exact .inr ⟨rfl, trivial⟩
    | triggerRelation htrigger htarget =>
      refine .inr (.inr (.inl ⟨_, htrigger, ?_⟩))
      simp [triggerLinks, htarget]
    | triggerRoutine htrigger hroutine htarget =>
      refine .inr (.inr (.inl ⟨_, htrigger, ?_⟩))
      rw [← hfirst _ htrigger] at hroutine
      simp [triggerLinks, hroutine, htarget]
    | triggerColumn htrigger htable htarget =>
      refine .inr (.inr (.inl ⟨_, htrigger, ?_⟩))
      simp [triggerLinks, htable, htarget]
    | view hview htarget => exact .inr (.inr (.inr (.inl ⟨_, hview, htarget, rfl⟩)))
    | columnType htype htable hcolumn hmentions htarget =>
      refine .inr (.inr (.inr (.inr ⟨_, htype, ?_⟩)))
      simp only [typeLinks, List.mem_map, List.mem_append, List.mem_flatMap, List.mem_filter,
        Prod.mk.injEq]
      exact ⟨_, .inl (.inl ⟨_, ⟨_, htable, hcolumn, hmentions⟩, rfl⟩), htarget.symm, rfl⟩
    | baseType htype hother hdiffer hmentions htarget =>
      refine .inr (.inr (.inr (.inr ⟨_, htype, ?_⟩)))
      simp only [typeLinks, List.mem_map, List.mem_append, List.mem_flatMap, List.mem_filter,
        Prod.mk.injEq]
      exact ⟨_, .inl (.inr ⟨_, ⟨hother, by simp [hdiffer, hmentions]⟩, rfl⟩), htarget.symm, rfl⟩
    | routineType htype hroutine hmentions htarget =>
      refine .inr (.inr (.inr (.inr ⟨_, htype, ?_⟩)))
      simp only [typeLinks, List.mem_map, List.mem_append, List.mem_flatMap, List.mem_filter,
        Prod.mk.injEq]
      exact ⟨_, .inr ⟨_, ⟨hroutine, by simpa using hmentions⟩, rfl⟩, htarget.symm, rfl⟩

theorem mem_of_mapM {α β : Type} {f : α → Option β} {values : List α} {results : List β}
    (h : values.mapM f = some results) {result : β} :
    result ∈ results ↔ ∃ value ∈ values, f value = some result := by
  induction values generalizing results with
  | nil =>
    obtain rfl : results = [] := by simpa using h.symm
    simp
  | cons value values ih =>
    simp only [List.mapM_cons, Option.bind_eq_bind, Option.bind_eq_some_iff, Option.pure_def,
      Option.some.injEq] at h
    obtain ⟨first, hfirst, rest, hrest, rfl⟩ := h
    rw [List.mem_cons, ih hrest]
    simp [hfirst, eq_comm]

theorem exists_mapM {α β : Type} {f : α → Option β} {values : List α}
    (h : ∀ value ∈ values, ∃ result, f value = some result) :
    ∃ results, values.mapM f = some results := by
  induction values with
  | nil => exact ⟨[], rfl⟩
  | cons value values ih =>
    obtain ⟨first, hfirst⟩ := h value List.mem_cons_self
    obtain ⟨rest, hrest⟩ := ih fun other hother ↦ h other (List.mem_cons_of_mem _ hother)
    exact ⟨first :: rest, by simp [hfirst, hrest]⟩

theorem map_snd_of_mapM {α β : Type} {f : α → Option β} {values : List α} {results : List (β × α)}
    (h : values.mapM (fun value ↦ (f value).map fun found ↦ (found, value)) = some results) :
    results.map Prod.snd = values := by
  induction values generalizing results with
  | nil =>
    obtain rfl : results = [] := by simpa using h.symm
    rfl
  | cons value values ih =>
    simp only [List.mapM_cons, Option.bind_eq_bind, Option.bind_eq_some_iff, Option.pure_def,
      Option.some.injEq, Option.map_eq_some_iff] at h
    obtain ⟨first, ⟨found, -, rfl⟩, rest, hrest, rfl⟩ := h
    rw [List.map_cons, ih hrest]

theorem tableObjects_ids (table : DesignTable) :
    ((tableObjects table).map fun object ↦ object.objectId) = tableObjectIds table := by
  simp [tableObjects, tableObjectIds, tableObject, columnObject, keyObject, checkObject, indexObject,
    ownedObject, Function.comp_def]

/-- Assumes: the inventory of a content. Its objects are those of the content, and its links are the
links of the content between different objects. -/
theorem inventory_spec {found : Inventory} (h : inventory D content = some found) :
    (found.objects.map fun object ↦ object.objectId) = allIds content ∧
      ∀ target dependent, (target, dependent) ∈ found.links ↔
        target ≠ dependent ∧ HasLink D content target dependent := by
  simp only [inventory, Option.bind_eq_bind, Option.bind_eq_some_iff, Option.pure_def,
    Option.some.injEq] at h
  obtain ⟨ends, hends, rfl⟩ := h
  constructor
  · have hrelationships : (ends.map fun entry ↦ entry.2.id) =
        content.relationships.map fun relationship ↦ relationship.id := by
      rw [← map_snd_of_mapM hends, List.map_map]
      rfl
    have hviews : ∀ view, (viewObject view).objectId = view.id := by
      intro view
      unfold viewObject
      split <;> rfl
    simp only [List.map_append, List.map_flatMap, List.map_map, Function.comp_def, tableObjects_ids,
      hviews]
    simp only [typeObject, relationshipObject, ownedObject, routineObject, triggerObject,
      hrelationships, allIds]
  · intro target dependent
    have hrelationships : (∃ entry ∈ ends, (target, dependent) ∈
          relationshipLinks entry.1.1 entry.1.2 entry.2) ↔
        ∃ relationship ∈ content.relationships, ∃ source referred,
          relationshipTables content relationship = some (source, referred) ∧
            (target, dependent) ∈ relationshipLinks source referred relationship := by
      constructor
      · rintro ⟨entry, hentry, hlink⟩
        obtain ⟨relationship, hmem, hfound⟩ := (mem_of_mapM hends).mp hentry
        obtain ⟨tables, htables, rfl⟩ := Option.map_eq_some_iff.mp hfound
        exact ⟨relationship, hmem, tables.1, tables.2, htables, hlink⟩
      · rintro ⟨relationship, hmem, source, referred, htables, hlink⟩
        exact ⟨((source, referred), relationship), (mem_of_mapM hends).mpr
          ⟨relationship, hmem, by rw [htables]; rfl⟩, hlink⟩
    have hviews : ∀ view : DesignView, (∃ read ∈ viewReads D content view,
        read = target ∧ view.id = dependent) ↔
          target ∈ viewReads D content view ∧ view.id = dependent := by
      intro view
      constructor
      · rintro ⟨read, hread, rfl, hid⟩
        exact ⟨hread, hid⟩
      · rintro ⟨hread, hid⟩
        exact ⟨target, hread, rfl, hid⟩
    simp only [List.mem_filter, List.mem_append, List.mem_flatMap, List.mem_map, Prod.mk.injEq,
      hrelationships, hviews, HasLink, or_assoc, ne_eq, decide_not, Bool.not_eq_eq_eq_not, Bool.not_true,
      decide_eq_false_iff_not]
    exact and_comm

theorem exists_inventory (h : ∀ relationship ∈ content.relationships, ∃ tables,
    relationshipTables content relationship = some tables) :
    ∃ found, inventory D content = some found := by
  have hdefined : ∀ relationship ∈ content.relationships, ∃ entry,
      ((relationshipTables content relationship).map fun tables ↦ (tables, relationship)) =
        some entry := by
    intro relationship hmem
    obtain ⟨tables, htables⟩ := h relationship hmem
    exact ⟨(tables, relationship), by rw [htables]; rfl⟩
  obtain ⟨ends, hends⟩ := exists_mapM hdefined
  simp only [inventory, hends, Option.bind_eq_bind, Option.bind_some, Option.pure_def]
  exact ⟨_, rfl⟩

end Links

end Schemii.Designs
