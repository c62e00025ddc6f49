import Schemii.Designs.Dependencies

/-!
# The SQL export of a design

`_postgresql_sql` of `designs/export.py`: the statements that create the objects of a design, kind by
kind, and their text.

Each statement creates objects, in the order of its text, whose definitions refer to other objects
(`Statement.creations`). `exported_in_order_iff`: every object of a valid content is created after the
objects that its definition refers to exactly when each view is listed after the views that its query
reads. Types are put in the order of their dependencies (`ordered_types`); views are exported as they
were authored, and `view_exported_before_its_source` is a design whose export does not run.
-/

set_option autoImplicit false

namespace Schemii.Designs

open Foundations

/-! ### Texts -/

/-- `_quote`. -/
def quote (identifier : String) : String :=
  "\"" ++ identifier.replace "\"" "\"\"" ++ "\""

/-- `str.strip`. -/
def strip (text : String) : String :=
  String.ofList (stripChars isSpace text.toList)

/-- `str.rstrip` of the characters that satisfy a predicate. -/
def rstripChars (drop : Char → Bool) (text : String) : String :=
  String.ofList (text.toList.reverse.dropWhile drop).reverse

/-- `_statement`. -/
def statementText (value : String) : String :=
  rstripChars (fun c ↦ c = ';') (strip value)

/-- `column_by_id`. -/
def columnById (content : SchemiiDesignContent) (id : String) : Option DesignColumn :=
  (content.tables.flatMap fun table ↦ table.columns).reverse.find? fun column ↦ column.id = id

/-- The quoted names of columns. An identifier that no column has is an error. -/
def columnNames (content : SchemiiDesignContent) (ids : List String) : Option (List String) :=
  ids.mapM fun id ↦ (columnById content id).map fun column ↦ quote column.name

/-! ### Statements -/

/-- A statement that creates objects. -/
inductive Statement
  | createType (type : DesignType)
  | createTable (table : DesignTable)
  | addForeignKey (relationship : DesignRelationship)
  | createIndex (table : DesignTable) (index : DesignIndex)
  | createRoutine (routine : DesignFunction)
  | createView (view : DesignView)
  | createTrigger (trigger : DesignTrigger)
  deriving DecidableEq, Repr

/-- The definition of a column. -/
def columnDefinition (column : DesignColumn) : String :=
  let value := match column.generatedExpression, column.identity, column.defaultExpression with
    | some expression, _, _ => ["GENERATED ALWAYS AS (" ++ strip expression ++ ") STORED"]
    | none, some .always, _ => ["GENERATED ALWAYS AS IDENTITY"]
    | none, some .byDefault, _ => ["GENERATED BY DEFAULT AS IDENTITY"]
    | none, none, some expression => ["DEFAULT " ++ strip expression]
    | none, none, none => []
  "    " ++ " ".intercalate ([quote column.name, strip column.dataType] ++ value ++
    if column.nullable then [] else ["NOT NULL"])

/-- The definition of a key. -/
def keyDefinition (content : SchemiiDesignContent) (key : DesignKeyConstraint) : Option String :=
  (columnNames content key.columnIds).map fun names ↦
    "    CONSTRAINT " ++ quote key.name ++ " " ++
      (match key.kind with
      | .primary => "PRIMARY KEY"
      | .unique => "UNIQUE") ++ " (" ++ ", ".intercalate names ++ ")"

/-- The definition of a check. -/
def checkDefinition (check : DesignCheckConstraint) : String :=
  "    CONSTRAINT " ++ quote check.name ++ " CHECK (" ++ strip check.expression ++ ")"

/-- The statement of a relationship. -/
def relationshipText (content : SchemiiDesignContent) (relationship : DesignRelationship) :
    Option String := do
  let source ← tableById content relationship.sourceTableId
  let target ← tableById content relationship.targetTableId
  let sourceColumns ← columnNames content relationship.sourceColumnIds
  let targetColumns ← columnNames content relationship.targetColumnIds
  pure ("ALTER TABLE " ++ quote source.name ++ " ADD CONSTRAINT " ++ quote relationship.name ++
    " FOREIGN KEY (" ++ ", ".intercalate sourceColumns ++ ") REFERENCES " ++ quote target.name ++
    " (" ++ ", ".intercalate targetColumns ++ ") ON UPDATE " ++ Spelled.word relationship.onUpdate ++
    " ON DELETE " ++ Spelled.word relationship.onDelete ++
    (if relationship.deferrable then
      " DEFERRABLE" ++ if relationship.initiallyDeferred then " INITIALLY DEFERRED" else ""
    else ""))

/-- The statement of an index. -/
def indexText (content : SchemiiDesignContent) (table : DesignTable) (index : DesignIndex) :
    Option String := do
  let columns ← columnNames content index.columnIds
  let included ← columnNames content index.includeColumnIds
  let given := fun text : Option String ↦ (text.filter fun value ↦ !value.isEmpty).map strip
  pure ("CREATE " ++ (if index.unique then "UNIQUE " else "") ++ "INDEX " ++ quote index.name ++
    " ON " ++ quote table.name ++ " USING " ++ quote index.method ++ " (" ++
    ", ".intercalate (columns ++ (given index.expression).toList) ++ ")" ++
    (if included.isEmpty then "" else " INCLUDE (" ++ ", ".intercalate included ++ ")") ++
    ((given index.predicate).map fun predicate ↦ " WHERE " ++ predicate).getD "")

/-- The words for the kind of a view. -/
def viewWords : ViewKind → String
  | .view => "VIEW"
  | .materializedView => "MATERIALIZED VIEW"

/-- The lines of a statement. -/
def Statement.lines (content : SchemiiDesignContent) : Statement → Option (List String)
  | .createType type => some [statementText type.definition ++ ";", ""]
  | .createTable table => do
    let keys ← table.keys.mapM (keyDefinition content)
    let body := ",\n".intercalate (table.columns.map columnDefinition ++ keys ++
      table.checks.map checkDefinition)
    pure ["CREATE TABLE " ++ quote table.name ++ " (", body, ");", ""]
  | .addForeignKey relationship =>
    (relationshipText content relationship).map fun text ↦ [text ++ ";", ""]
  | .createIndex table index => (indexText content table index).map fun text ↦ [text ++ ";", ""]
  | .createRoutine routine => some [statementText routine.definition ++ ";", ""]
  | .createView view =>
    let query := match view.kind with
      | .view => statementText view.definition
      | .materializedView => statementText view.definition ++ "\n" ++
          if view.populateOnCreate = some true then "WITH DATA" else "WITH NO DATA"
    some ["CREATE " ++ viewWords view.kind ++ " " ++ quote view.name ++ " AS", query ++ ";", ""]
  | .createTrigger trigger => some [statementText trigger.definition ++ ";", ""]

/-- The statements of a content, in the order of the export. -/
def exportStatements (analysis : SqlAnalysis) (content : SchemiiDesignContent) :
    Except DesignValidationError (List Statement) := do
  let types ← designTypesInDependencyOrder analysis content
  .ok (types.map .createType ++ content.tables.map .createTable ++
    content.relationships.map .addForeignKey ++
    (content.tables.flatMap fun table ↦ table.indexes.map (.createIndex table)) ++
    content.functions.map .createRoutine ++ content.views.map .createView ++
    content.triggers.map .createTrigger)

/-- The lines that drop what the export creates. -/
def dropLines (content : SchemiiDesignContent) (types : List DesignType) : List String :=
  (content.triggers.reverse.map fun trigger ↦ "DROP TRIGGER IF EXISTS " ++ quote trigger.name ++
    " ON " ++ quote trigger.relationName ++ " CASCADE;") ++
  (content.views.reverse.map fun view ↦ "DROP " ++ viewWords view.kind ++ " IF EXISTS " ++
    quote view.name ++ " CASCADE;") ++
  (content.functions.reverse.map fun routine ↦
    (match routine.kind with
    | .function => "DROP FUNCTION IF EXISTS "
    | .procedure => "DROP PROCEDURE IF EXISTS ") ++ quote routine.name ++ "(" ++
      strip routine.identityArguments ++ ") CASCADE;") ++
  (content.tables.reverse.map fun table ↦ "DROP TABLE IF EXISTS " ++ quote table.name ++
    " CASCADE;") ++
  (types.reverse.map fun type ↦
    (match type.kind with
    | .domain => "DROP DOMAIN IF EXISTS "
    | .enum => "DROP TYPE IF EXISTS ") ++ quote type.name ++ " CASCADE;") ++
  if content.types.isEmpty ∧ content.tables.isEmpty ∧ content.views.isEmpty ∧
      content.functions.isEmpty ∧ content.triggers.isEmpty then [] else [""]

/-- `SchemiiDesign`, by what its export reads. -/
structure ExportedDesign where
  workspaceId : String
  revision : ℕ
  fingerprint : String
  content : SchemiiDesignContent

/-- `_postgresql_sql`. -/
def postgresqlSql (analysis : SqlAnalysis) (design : ExportedDesign) (includeDrops : Bool) :
    Option String := do
  let types ← (designTypesInDependencyOrder analysis design.content).toOption
  let statements ← (exportStatements analysis design.content).toOption
  let created ← statements.mapM (Statement.lines design.content)
  let header := ["-- Generated by Schemii from saved desired state.",
    "-- Workspace: " ++ design.workspaceId, "-- Design revision: " ++ toString design.revision,
    "-- Design fingerprint: " ++ design.fingerprint, ""]
  let drops := if includeDrops then dropLines design.content types else []
  pure (rstripChars isSpace ("\n".intercalate (header ++ drops ++ created.flatten)) ++ "\n")

/-! ### What statements create -/

/-- An object that is created, and the objects that its definition refers to. -/
structure Creation where
  id : String
  references : List String
  deriving DecidableEq, Repr

/-- The designed types that a text mentions. -/
def mentionedTypes (D : DependencyAnalysis) (content : SchemiiDesignContent)
    (texts : List (Option String)) : List String :=
  (content.types.filter fun type ↦ texts.any fun text ↦ mentionsType D text type.name).map
    fun type ↦ type.id

/-- The designed type that a domain is over. -/
def baseTypeIds (analysis : SqlAnalysis) (content : SchemiiDesignContent) (type : DesignType) :
    List String :=
  (((typeDependency analysis content type.name).bind (typeNamed content)).map fun base ↦
    base.id).toList

/-- The objects that a relationship refers to: its tables, their columns and the key. -/
def relationshipReferences (content : SchemiiDesignContent) (relationship : DesignRelationship) :
    List String :=
  relationship.sourceTableId :: relationship.targetTableId ::
    (relationship.sourceColumnIds ++ relationship.targetColumnIds) ++
    (((tableById content relationship.targetTableId).bind fun target ↦
      targetKey target relationship).map fun key ↦ key.id).toList

/-- The objects that a trigger refers to: its relation, the routines of the name it calls and the
columns it names. -/
def triggerReferences (content : SchemiiDesignContent) (trigger : DesignTrigger) : List String :=
  (relationId content trigger.relationName).toList ++
    ((content.functions.filter fun routine ↦ routine.name = routineName trigger.functionName).map
      fun routine ↦ routine.id) ++
    (triggerTable content trigger).toList.flatMap fun table ↦ triggerColumnIds table trigger

/-- What a statement creates, in the order of its text. -/
def Statement.creations (D : DependencyAnalysis) (content : SchemiiDesignContent) :
    Statement → List Creation
  | .createType type => [⟨type.id, baseTypeIds D.toSqlAnalysis content type⟩]
  | .createTable table =>
    ⟨table.id, mentionedTypes D content (table.columns.map fun column ↦ some column.dataType)⟩ ::
      ((table.columns.map fun column ↦ ⟨column.id, []⟩) ++
        (table.keys.map fun key ↦ ⟨key.id, table.id :: key.columnIds⟩) ++
        table.checks.map fun check ↦ ⟨check.id, table.id :: check.columnIds⟩)
  | .addForeignKey relationship => [⟨relationship.id, relationshipReferences content relationship⟩]
  | .createIndex table index => [⟨index.id, table.id :: indexColumnIds index⟩]
  | .createRoutine routine =>
    [⟨routine.id, mentionedTypes D content [some routine.arguments, routine.returnType]⟩]
  | .createView view => [⟨view.id, viewReads D content view⟩]
  | .createTrigger trigger => [⟨trigger.id, triggerReferences content trigger⟩]

/-- Every object is created after the objects it refers to, when some are there already. -/
def CreatedInOrder : List String → List Creation → Prop
  | _, [] => True
  | known, creation :: rest =>
    creation.references ⊆ known ∧ CreatedInOrder (known ++ [creation.id]) rest

/-- The order can be checked. -/
def decideCreatedInOrder : (known : List String) → (creations : List Creation) →
    Decidable (CreatedInOrder known creations)
  | _, [] => .isTrue trivial
  | known, creation :: rest =>
    have := decideCreatedInOrder (known ++ [creation.id]) rest
    inferInstanceAs (Decidable (creation.references ⊆ known ∧ _))

instance (known : List String) (creations : List Creation) :
    Decidable (CreatedInOrder known creations) :=
  decideCreatedInOrder known creations

/-- The identifiers of created objects. -/
def createdIds (creations : List Creation) : List String :=
  creations.map fun creation ↦ creation.id

theorem createdIds_append (first second : List Creation) :
    createdIds (first ++ second) = createdIds first ++ createdIds second :=
  List.map_append

theorem createdInOrder_append (known : List String) (first second : List Creation) :
    CreatedInOrder known (first ++ second) ↔
      CreatedInOrder known first ∧ CreatedInOrder (known ++ createdIds first) second := by
  induction first generalizing known with
  | nil => simp [CreatedInOrder, createdIds]
  | cons creation first ih =>
    rw [List.cons_append, CreatedInOrder, CreatedInOrder, ih, and_assoc]
    simp [createdIds]

theorem createdInOrder_iff (known : List String) (creations : List Creation) :
    CreatedInOrder known creations ↔ ∀ before creation after,
      creations = before ++ creation :: after →
        creation.references ⊆ known ++ createdIds before := by
  constructor
  · rintro h before creation after rfl
    exact ((createdInOrder_append _ _ _).mp h).2.1
  · induction creations generalizing known with
    | nil => exact fun _ ↦ trivial
    | cons first rest ih =>
      intro h
      refine ⟨by simpa [createdIds] using h [] first rest rfl, ih _ ?_⟩
      rintro before creation after rfl
      simpa [createdIds] using h (first :: before) creation after rfl

theorem createdInOrder_of_known {known : List String} {creations : List Creation}
    (h : ∀ creation ∈ creations, creation.references ⊆ known) : CreatedInOrder known creations := by
  refine (createdInOrder_iff _ _).mpr ?_
  rintro before creation after rfl
  exact fun id hid ↦ List.mem_append_left _ (h creation (by simp) hid)

/-! ### Types in the order of their dependencies -/

/-- Every name comes after the name it depends on. -/
def NamesOrdered (dependency : String → Option String) (known names : List String) : Prop :=
  CreatedInOrder known (names.map fun name ↦ ⟨name, (dependency name).toList⟩)

theorem NamesOrdered.concat {dependency : String → Option String} {names : List String}
    (h : NamesOrdered dependency [] names) {last : String}
    (hlast : ∀ base, dependency last = some base → base ∈ names) :
    NamesOrdered dependency [] (names ++ [last]) := by
  unfold NamesOrdered
  rw [List.map_append, createdInOrder_append]
  refine ⟨h, ?_, trivial⟩
  intro base hbase
  simpa [createdIds, Function.comp_def] using hlast base (Option.mem_toList.mp hbase)

section Visiting

variable {dependency : String → Option String} {names : List String}
  (hnames : ∀ name base, dependency name = some base → base ∈ names)
include hnames

/-- Assumes: names that are being visited, of which none repeats, and a depth beyond the names that
are left. After a visit, the name is there and every name comes after the one it depends on. -/
theorem visitType_spec {depth : ℕ} {visiting visited result : List String} {name : String}
    (hname : name ∈ names) (hvisiting : visiting.Nodup) (hamong : visiting ⊆ names)
    (hdepth : names.length < depth + visiting.length) (hordered : NamesOrdered dependency [] visited)
    (h : visitType dependency depth visiting visited name = .ok result) :
    visited ⊆ result ∧ name ∈ result ∧ NamesOrdered dependency [] result := by
  induction depth generalizing visiting name result with
  | zero =>
    have hlength := (List.subperm_of_subset hvisiting hamong).length_le
    omega
  | succ depth ih =>
    unfold visitType at h
    split_ifs at h with hdone hcircle
    · obtain rfl := Except.ok.inj h
      exact ⟨List.Subset.refl _, hdone, hordered⟩
    · cases hbase : dependency name with
      | none =>
        simp only [hbase, Except.ok.injEq] at h
        obtain rfl := h
        refine ⟨List.subset_append_left _ _, by simp, hordered.concat fun base hsome ↦ ?_⟩
        rw [hbase] at hsome
        exact nomatch hsome
      | some base =>
        simp only [hbase, bind_eq_ok, Except.ok.injEq] at h
        obtain ⟨before, hbefore, rfl⟩ := h
        obtain ⟨hsub, hmem, hthen⟩ := ih (hnames name base hbase)
          (List.nodup_cons.mpr ⟨hcircle, hvisiting⟩) (List.cons_subset.mpr ⟨hname, hamong⟩)
          (by rw [List.length_cons]; omega) hbefore
        refine ⟨fun other hother ↦ List.mem_append_left _ (hsub hother), by simp,
          hthen.concat fun other hother ↦ ?_⟩
        rw [hbase] at hother
        exact Option.some.inj hother ▸ hmem

theorem foldlM_visitType {depth : ℕ} {visited result rest : List String}
    (hrest : rest ⊆ names) (hdepth : names.length < depth)
    (hordered : NamesOrdered dependency [] visited)
    (h : rest.foldlM (fun visited name ↦ visitType dependency depth [] visited name) visited =
      .ok result) : visited ⊆ result ∧ rest ⊆ result ∧ NamesOrdered dependency [] result := by
  induction rest generalizing visited with
  | nil =>
    obtain rfl := Except.ok.inj h
    exact ⟨List.Subset.refl _, List.nil_subset _, hordered⟩
  | cons name rest ih =>
    rw [List.foldlM_cons, bind_eq_ok] at h
    obtain ⟨between, hfirst, hthen⟩ := h
    obtain ⟨hname, hrest⟩ := List.cons_subset.mp hrest
    obtain ⟨hsub, hmem, hbetween⟩ := visitType_spec hnames hname List.nodup_nil
      (List.nil_subset _) (by simpa using hdepth) hordered hfirst
    obtain ⟨hbetweenSub, hrestSub, hresult⟩ := ih hrest hbetween hthen
    exact ⟨fun other hother ↦ hbetweenSub (hsub hother),
      List.cons_subset.mpr ⟨hbetweenSub hmem, hrestSub⟩, hresult⟩

end Visiting

section Types

variable {analysis : SqlAnalysis} {content : SchemiiDesignContent}

theorem typeNamed_eq_some {name : String} {type : DesignType}
    (h : typeNamed content name = some type) : type ∈ content.types ∧ type.name = name := by
  unfold typeNamed at h
  refine ⟨List.mem_reverse.mp (List.mem_of_find?_eq_some h), ?_⟩
  simpa using List.find?_some h

theorem typeNamed_of_mem (hnames : (content.types.map fun type ↦ type.name).Nodup)
    {type : DesignType} (h : type ∈ content.types) : typeNamed content type.name = some type := by
  cases hfound : typeNamed content type.name with
  | none =>
    unfold typeNamed at hfound
    rw [List.find?_eq_none] at hfound
    exact absurd (decide_eq_true rfl) (hfound type (List.mem_reverse.mpr h))
  | some other =>
    obtain ⟨hmem, hname⟩ := typeNamed_eq_some hfound
    rw [List.inj_on_of_nodup_map hnames hmem h hname]

theorem typeDependency_mem {name base : String}
    (h : typeDependency analysis content name = some base) :
    base ∈ content.types.map fun type ↦ type.name := by
  obtain ⟨type, -, hbase⟩ := Option.bind_eq_some_iff.mp h
  obtain ⟨found, -, hfound⟩ := Option.bind_eq_some_iff.mp hbase
  split_ifs at hfound with hsome
  obtain ⟨other, hother⟩ := Option.isSome_iff_exists.mp hsome
  obtain ⟨hmem, hname⟩ := typeNamed_eq_some hother
  exact Option.some.inj hfound ▸ hname ▸ List.mem_map_of_mem hmem

/-- Assumes: names in order, and the types of the names that are known already. The types of the
names are in order. -/
theorem createdInOrder_types {known names ids : List String}
    (h : NamesOrdered (typeDependency analysis content) known names)
    (hknown : ∀ name ∈ known, ∀ type, typeNamed content name = some type → type.id ∈ ids) :
    CreatedInOrder ids ((names.filterMap (typeNamed content)).map fun type ↦
      ⟨type.id, baseTypeIds analysis content type⟩) := by
  induction names generalizing known ids with
  | nil => trivial
  | cons name names ih =>
    obtain ⟨hbase, hrest⟩ := h
    cases hnamed : typeNamed content name with
    | none =>
      rw [List.filterMap_cons_none hnamed]
      refine ih hrest fun other hother type htype ↦ ?_
      rcases List.mem_append.mp hother with hmem | hmem
      · exact hknown other hmem type htype
      · rw [List.mem_singleton.mp hmem, hnamed] at htype
        exact nomatch htype
    | some type =>
      rw [List.filterMap_cons_some hnamed]
      refine ⟨fun id hid ↦ ?_, ih hrest fun other hother found hfound ↦ ?_⟩
      · obtain ⟨base, hfound, rfl⟩ := Option.map_eq_some_iff.mp (Option.mem_toList.mp hid)
        obtain ⟨baseName, hdependency, hbaseType⟩ := Option.bind_eq_some_iff.mp hfound
        rw [(typeNamed_eq_some hnamed).2] at hdependency
        exact hknown baseName (hbase (Option.mem_toList.mpr hdependency)) base hbaseType
      · rcases List.mem_append.mp hother with hmem | hmem
        · exact List.mem_append_left _ (hknown other hmem found hfound)
        · rw [List.mem_singleton.mp hmem, hnamed] at hfound
          exact List.mem_append_right _ (Option.some.inj hfound ▸ List.mem_singleton_self _)

/-- Assumes: types of different names, put in order. All are there, each after the designed type that
it is over. -/
theorem ordered_types (hnames : (content.types.map fun type ↦ type.name).Nodup)
    {types : List DesignType} (h : designTypesInDependencyOrder analysis content = .ok types) :
    content.types ⊆ types ∧ types ⊆ content.types ∧
      CreatedInOrder [] (types.map fun type ↦ ⟨type.id, baseTypeIds analysis content type⟩) := by
  simp only [designTypesInDependencyOrder, bind_eq_ok, Except.ok.injEq] at h
  obtain ⟨result, hresult, rfl⟩ := h
  have hstart : NamesOrdered (typeDependency analysis content) [] [] := trivial
  obtain ⟨-, hall, hordered⟩ := foldlM_visitType (fun _ _ ↦ typeDependency_mem)
    (List.Subset.refl _) (by simp) hstart hresult
  refine ⟨fun type htype ↦ ?_, fun type htype ↦ ?_, createdInOrder_types hordered nofun⟩
  · exact List.mem_filterMap.mpr ⟨type.name, hall (List.mem_map_of_mem htype),
      typeNamed_of_mem hnames htype⟩
  · obtain ⟨name, -, hnamed⟩ := List.mem_filterMap.mp htype
    exact (typeNamed_eq_some hnamed).1

end Types

/-! ### The order of an export -/

/-- Every view is listed after the views that its query reads. -/
def ViewsInOrder (D : DependencyAnalysis) (content : SchemiiDesignContent) : Prop :=
  ∀ before view after, content.views = before ++ view :: after →
    ∀ source ∈ viewSources D content view, ∀ other ∈ content.views, other.name = source.name →
      other ∈ before

section Order

variable {D : DependencyAnalysis} {content : SchemiiDesignContent}

theorem mem_createdIds_table {table : DesignTable} {id : String} :
    id ∈ createdIds ((Statement.createTable table).creations D content) ↔ id = table.id ∨
      (id ∈ table.columns.map fun column ↦ column.id) ∨ (id ∈ table.keys.map fun key ↦ key.id) ∨
        id ∈ table.checks.map fun check ↦ check.id := by
  simp [createdIds, Statement.creations, Function.comp_def]

theorem createdInOrder_table {table : DesignTable} (h : OwnReferences table) {known : List String}
    (htypes : (content.types.map fun type ↦ type.id) ⊆ known) :
    CreatedInOrder known ((Statement.createTable table).creations D content) := by
  refine ⟨fun id hid ↦ ?_, ?_⟩
  · obtain ⟨type, htype, rfl⟩ := List.mem_map.mp hid
    exact htypes (List.mem_map_of_mem (List.mem_filter.mp htype).1)
  · rw [List.append_assoc, createdInOrder_append]
    refine ⟨createdInOrder_of_known ?_, createdInOrder_of_known ?_⟩
    · simp
    · have hown : ∀ ids : List String, (ids ⊆ table.columns.map fun column ↦ column.id) →
          table.id :: ids ⊆ known ++ [table.id] ++
            createdIds (table.columns.map fun column ↦ ⟨column.id, []⟩) := by
        intro ids hids
        refine List.cons_subset.mpr ⟨by simp, fun id hid ↦ List.mem_append_right _ ?_⟩
        simpa [createdIds, Function.comp_def] using hids hid
      intro creation hcreation
      rcases List.mem_append.mp hcreation with hkey | hcheck
      · obtain ⟨key, hmem, rfl⟩ := List.mem_map.mp hkey
        exact hown _ (h.keys key hmem)
      · obtain ⟨check, hmem, rfl⟩ := List.mem_map.mp hcheck
        exact hown _ (h.checks check hmem)

theorem createdInOrder_tables {tables : List DesignTable} (h : ∀ table ∈ tables, OwnReferences table)
    {known : List String} (htypes : (content.types.map fun type ↦ type.id) ⊆ known) :
    CreatedInOrder known (tables.flatMap fun table ↦
      (Statement.createTable table).creations D content) := by
  induction tables generalizing known with
  | nil => trivial
  | cons table tables ih =>
    rw [List.flatMap_cons, createdInOrder_append]
    refine ⟨createdInOrder_table (h table List.mem_cons_self) htypes,
      ih (fun other hother ↦ h other (List.mem_cons_of_mem _ hother)) fun id hid ↦ ?_⟩
    exact List.mem_append_left _ (htypes hid)

/-- Assumes: what tables have is there, and no view is. The views are created in order exactly when
each is listed after those it reads. -/
theorem createdInOrder_views (haccepted : AcceptedContent content) {known : List String}
    (htables : ∀ table ∈ content.tables, table.id ∈ known ∧
      (table.columns.map fun column ↦ column.id) ⊆ known)
    (hfresh : ∀ view ∈ content.views, view.id ∉ known) :
    CreatedInOrder known (content.views.map fun view ↦ ⟨view.id, viewReads D content view⟩) ↔
      ViewsInOrder D content := by
  have hnames : (content.views.map fun view ↦ view.name).Nodup :=
    (List.nodup_append.mp (List.nodup_append.mp haccepted.names).2.1).2.1
  have hids : (content.views.map fun view ↦ view.id).Nodup := by
    have hall := haccepted.ids
    unfold allIds at hall
    exact (List.nodup_append.mp (List.nodup_append.mp hall).1).2.1
  rw [createdInOrder_iff]
  constructor
  · intro h before view after hviews source hsource other hother hname
    have hread : other.id ∈ viewReads D content view := by
      refine List.mem_flatMap.mpr ⟨source, hsource, List.mem_append_left _ ?_⟩
      rw [← hname, relationId_of_view hnames hother]
      exact List.mem_singleton_self _
    have hcreated := h (before.map fun view ↦ ⟨view.id, viewReads D content view⟩)
      ⟨view.id, viewReads D content view⟩ (after.map fun view ↦ ⟨view.id, viewReads D content view⟩)
      (by rw [hviews, List.map_append, List.map_cons]) hread
    have hbefore := (List.mem_append.mp hcreated).resolve_left (hfresh other hother)
    simp only [createdIds, List.map_map, Function.comp_def, List.mem_map] at hbefore
    obtain ⟨found, hfound, hid⟩ := hbefore
    have hmem : found ∈ content.views := hviews ▸ List.mem_append_left _ hfound
    exact List.inj_on_of_nodup_map hids hmem hother hid ▸ hfound
  · intro h before creation after hsplit
    obtain ⟨first, rest, hviews, rfl, hrest⟩ := List.map_eq_append_iff.mp hsplit
    obtain ⟨view, last, rfl, rfl, rfl⟩ := List.map_eq_cons_iff.mp hrest
    intro id hid
    obtain ⟨source, hsource, hread⟩ := List.mem_flatMap.mp hid
    rcases List.mem_append.mp hread with hrelation | hcolumn
    · rcases relationId_eq_some (Option.mem_toList.mp hrelation) with
        ⟨table, htable, -, rfl⟩ | ⟨other, hother, hname, rfl⟩
      · exact List.mem_append_left _ (htables table htable).1
      · refine List.mem_append_right _ ?_
        simpa [createdIds, Function.comp_def] using
          ⟨other, h first view last hviews source hsource other hother hname, rfl⟩
    · obtain ⟨name, -, hfound⟩ := List.mem_filterMap.mp hcolumn
      obtain ⟨owner, howner, -, column, hmem, -, rfl⟩ := columnId_eq_some hfound
      exact List.mem_append_left _ ((htables owner howner).2 (List.mem_map_of_mem hmem))

/-- Assumes: what tables, relations and routines have is there. A trigger refers to what is there. -/
theorem triggerReferences_subset {trigger : DesignTrigger} {known : List String}
    (htables : ∀ table ∈ content.tables, table.id ∈ known ∧
      (table.columns.map fun column ↦ column.id) ⊆ known)
    (hroutines : (content.functions.map fun routine ↦ routine.id) ⊆ known)
    (hviews : (content.views.map fun view ↦ view.id) ⊆ known) :
    triggerReferences content trigger ⊆ known := by
  intro id hid
  rcases List.mem_append.mp hid with hfirst | hcolumn
  · rcases List.mem_append.mp hfirst with hrelation | hroutine
    · rcases relationId_eq_some (Option.mem_toList.mp hrelation) with
        ⟨table, htable, -, rfl⟩ | ⟨view, hview, -, rfl⟩
      · exact (htables table htable).1
      · exact hviews (List.mem_map_of_mem hview)
    · obtain ⟨routine, hmem, rfl⟩ := List.mem_map.mp hroutine
      exact hroutines (List.mem_map_of_mem (List.mem_filter.mp hmem).1)
  · obtain ⟨table, htable, hmem⟩ := List.mem_flatMap.mp hcolumn
    obtain ⟨found, -, hfound⟩ := Option.bind_eq_some_iff.mp (Option.mem_toList.mp htable)
    obtain ⟨column, hchosen, rfl⟩ := List.mem_map.mp hmem
    exact (htables table (tableById_eq_some hfound).1).2
      (List.mem_map_of_mem (List.mem_filter.mp hchosen).1)

theorem relationshipReferences_subset {analysis : SqlAnalysis}
    (hvalid : ValidReferences analysis content)
    {relationship : DesignRelationship} (h : relationship ∈ content.relationships)
    {known : List String} (htables : ∀ table ∈ content.tables, table.id ∈ known ∧
      ((table.columns.map fun column ↦ column.id) ⊆ known) ∧
      (table.keys.map fun key ↦ key.id) ⊆ known) :
    relationshipReferences content relationship ⊆ known := by
  obtain ⟨source, target, key, hsource, htarget, hkey, hsources, htargets⟩ :=
    hvalid.relationships relationship h
  obtain ⟨hsourceMem, hsourceId⟩ := tableById_eq_some hsource
  obtain ⟨htargetMem, htargetId⟩ := tableById_eq_some htarget
  unfold relationshipReferences
  rw [htarget, Option.bind_some, hkey, ← hsourceId, ← htargetId]
  simp only [List.cons_append, List.cons_subset, List.append_subset, Option.map_some,
    Option.toList_some, List.nil_subset, and_true]
  exact ⟨(htables source hsourceMem).1, (htables target htargetMem).1,
    ⟨fun id hid ↦ (htables source hsourceMem).2.1 (hsources hid),
      fun id hid ↦ (htables target htargetMem).2.1 (htargets hid)⟩,
    (htables target htargetMem).2.2 (List.mem_map_of_mem (List.mem_of_find?_eq_some hkey))⟩

/-! ### Every statement has a text -/

theorem exists_columnNames {table : DesignTable} (htable : table ∈ content.tables)
    {ids : List String} (h : ids ⊆ table.columns.map fun column ↦ column.id) :
    ∃ names, columnNames content ids = some names := by
  refine exists_mapM fun id hid ↦ ?_
  obtain ⟨column, hcolumn, rfl⟩ := List.mem_map.mp (h hid)
  have hsome : (columnById content column.id).isSome := by
    unfold columnById
    rw [List.find?_isSome]
    exact ⟨column, List.mem_reverse.mpr (List.mem_flatMap.mpr ⟨table, htable, hcolumn⟩), by simp⟩
  obtain ⟨found, hfound⟩ := Option.isSome_iff_exists.mp hsome
  exact ⟨quote found.name, by rw [hfound]; rfl⟩

theorem exists_lines {analysis : SqlAnalysis} (hvalid : ValidReferences analysis content)
    {statements : List Statement} (h : exportStatements analysis content = .ok statements)
    {statement : Statement} (hstatement : statement ∈ statements) :
    ∃ lines, statement.lines content = some lines := by
  simp only [exportStatements, bind_eq_ok, Except.ok.injEq] at h
  obtain ⟨types, -, rfl⟩ := h
  simp only [List.mem_append, List.mem_map, List.mem_flatMap] at hstatement
  rcases hstatement with (((((⟨type, -, rfl⟩ | ⟨table, htable, rfl⟩) | ⟨relationship, hmem, rfl⟩) |
    ⟨table, htable, index, hindex, rfl⟩) | ⟨routine, -, rfl⟩) | ⟨view, -, rfl⟩) | ⟨trigger, -, rfl⟩
  · exact ⟨_, rfl⟩
  · have hdefined : ∀ key ∈ table.keys, ∃ text, keyDefinition content key = some text := by
      intro key hkey
      obtain ⟨names, hnames⟩ := exists_columnNames htable ((hvalid.tables table htable).keys key hkey)
      exact ⟨_, by rw [keyDefinition, hnames]; rfl⟩
    obtain ⟨keys, hkeys⟩ := exists_mapM hdefined
    exact ⟨_, by rw [Statement.lines, hkeys]; rfl⟩
  · obtain ⟨source, target, -, hsource, htarget, -, hsources, htargets⟩ :=
      hvalid.relationships relationship hmem
    obtain ⟨sourceNames, hsourceNames⟩ :=
      exists_columnNames (tableById_eq_some hsource).1 hsources
    obtain ⟨targetNames, htargetNames⟩ :=
      exists_columnNames (tableById_eq_some htarget).1 htargets
    exact ⟨_, by
      rw [Statement.lines, relationshipText, hsource, htarget, hsourceNames, htargetNames]; rfl⟩
  · have hcolumns := (hvalid.tables table htable).indexes index hindex
    unfold indexColumnIds at hcolumns
    rw [List.append_subset, List.append_subset, List.append_subset] at hcolumns
    obtain ⟨⟨⟨hkeyColumns, hincluded⟩, -⟩, -⟩ := hcolumns
    obtain ⟨names, hnames⟩ := exists_columnNames htable hkeyColumns
    obtain ⟨includedNames, hincludedNames⟩ := exists_columnNames htable hincluded
    exact ⟨_, by rw [Statement.lines, indexText, hnames, hincludedNames]; rfl⟩
  · exact ⟨_, rfl⟩
  · exact ⟨_, rfl⟩
  · exact ⟨_, rfl⟩

/-! ### The order of a valid content -/

/-- The statements before those of views. -/
def statementsBeforeViews (content : SchemiiDesignContent) (types : List DesignType) :
    List Statement :=
  types.map .createType ++ content.tables.map .createTable ++
    content.relationships.map .addForeignKey ++
    (content.tables.flatMap fun table ↦ table.indexes.map (.createIndex table)) ++
    content.functions.map .createRoutine

theorem creations_map {α : Type} {make : α → Statement} {creation : α → Creation}
    (h : ∀ value, (make value).creations D content = [creation value]) (values : List α) :
    (values.map make).flatMap (Statement.creations D content) = values.map creation := by
  simp only [List.flatMap_map, h]
  exact List.map_eq_flatMap.symm

theorem creations_beforeViews (D : DependencyAnalysis) (content : SchemiiDesignContent)
    (types : List DesignType) :
    (statementsBeforeViews content types).flatMap (Statement.creations D content) =
      (types.map fun type ↦ ⟨type.id, baseTypeIds D.toSqlAnalysis content type⟩) ++
      (content.tables.flatMap fun table ↦ (Statement.createTable table).creations D content) ++
      (content.relationships.map fun relationship ↦
        ⟨relationship.id, relationshipReferences content relationship⟩) ++
      (content.tables.flatMap fun table ↦ table.indexes.map fun index ↦
        ⟨index.id, table.id :: indexColumnIds index⟩) ++
      content.functions.map fun routine ↦
        ⟨routine.id, mentionedTypes D content [some routine.arguments, routine.returnType]⟩ := by
  have hindexes : (content.tables.flatMap fun table ↦ table.indexes.map (.createIndex table)).flatMap
      (Statement.creations D content) = content.tables.flatMap fun table ↦
        table.indexes.map fun index ↦ ⟨index.id, table.id :: indexColumnIds index⟩ := by
    rw [List.flatMap_assoc]
    exact List.flatMap_congr fun table _ ↦ creations_map (fun _ ↦ rfl) table.indexes
  have htables : (content.tables.map .createTable).flatMap (Statement.creations D content) =
      content.tables.flatMap fun table ↦ (Statement.createTable table).creations D content :=
    List.flatMap_map _ _ _
  simp only [statementsBeforeViews, List.flatMap_append, hindexes, htables]
  rw [creations_map (fun _ ↦ rfl), creations_map (fun _ ↦ rfl), creations_map (fun _ ↦ rfl)]

theorem mem_createdIds_beforeViews {types : List DesignType} {id : String} :
    id ∈ createdIds ((statementsBeforeViews content types).flatMap (Statement.creations D content)) ↔
      (id ∈ types.map fun type ↦ type.id) ∨ (id ∈ content.tables.flatMap tableObjectIds) ∨
        (id ∈ content.relationships.map fun relationship ↦ relationship.id) ∨
        id ∈ content.functions.map fun routine ↦ routine.id := by
  have htables : (id ∈ content.tables.flatMap tableObjectIds) ↔
      (id ∈ createdIds (content.tables.flatMap fun table ↦
        (Statement.createTable table).creations D content)) ∨
      id ∈ createdIds (content.tables.flatMap fun table ↦ table.indexes.map fun index ↦
        ⟨index.id, table.id :: indexColumnIds index⟩) := by
    simp only [createdIds, List.map_flatMap, List.mem_flatMap, ← exists_or, ← and_or_left]
    refine exists_congr fun table ↦ and_congr_right fun _ ↦ ?_
    have htable : id ∈ ((Statement.createTable table).creations D content).map
      (fun creation ↦ creation.id) ↔ _ := mem_createdIds_table
    rw [htable, List.map_map]
    simp [tableObjectIds, Function.comp_def, or_assoc]
  rw [creations_beforeViews, htables]
  simp only [createdIds, List.map_append, List.mem_append, List.map_map, Function.comp_def]
  tauto

/-- Assumes: a valid content. Before the views, every object is created after those it refers to. -/
theorem createdInOrder_beforeViews (hvalid : ValidReferences D.toSqlAnalysis content)
    {types : List DesignType}
    (htypes : designTypesInDependencyOrder D.toSqlAnalysis content = .ok types) :
    CreatedInOrder [] ((statementsBeforeViews content types).flatMap
      (Statement.creations D content)) := by
  have hnames : (content.types.map fun type ↦ type.name).Nodup :=
    (List.nodup_append.mp hvalid.accepted.names).1
  obtain ⟨hall, -, hordered⟩ := ordered_types hnames htypes
  have hknown : (content.types.map fun type ↦ type.id) ⊆
      createdIds (types.map fun type ↦ ⟨type.id, baseTypeIds D.toSqlAnalysis content type⟩) := by
    intro id hid
    obtain ⟨type, htype, rfl⟩ := List.mem_map.mp hid
    simpa [createdIds, Function.comp_def] using ⟨type, hall htype, rfl⟩
  have hmade : ∀ table ∈ content.tables, ∀ id,
      id ∈ createdIds ((Statement.createTable table).creations D content) →
      id ∈ createdIds (content.tables.flatMap fun table ↦
        (Statement.createTable table).creations D content) := by
    intro table htable id hid
    unfold createdIds at hid ⊢
    rw [List.map_flatMap]
    exact List.mem_flatMap.mpr ⟨table, htable, hid⟩
  rw [creations_beforeViews]
  simp only [createdInOrder_append, createdIds_append, List.nil_append]
  refine ⟨⟨⟨⟨hordered, createdInOrder_tables hvalid.tables hknown⟩,
    createdInOrder_of_known ?_⟩, createdInOrder_of_known ?_⟩, createdInOrder_of_known ?_⟩
  · intro creation hcreation
    obtain ⟨relationship, hmem, rfl⟩ := List.mem_map.mp hcreation
    refine relationshipReferences_subset hvalid hmem fun table htable ↦ ?_
    exact ⟨List.mem_append_right _ (hmade table htable _ (mem_createdIds_table.mpr (.inl rfl))),
      fun id hid ↦ List.mem_append_right _ (hmade table htable _
        (mem_createdIds_table.mpr (.inr (.inl hid)))),
      fun id hid ↦ List.mem_append_right _ (hmade table htable _
        (mem_createdIds_table.mpr (.inr (.inr (.inl hid)))))⟩
  · intro creation hcreation
    obtain ⟨table, htable, hindex⟩ := List.mem_flatMap.mp hcreation
    obtain ⟨index, hmem, rfl⟩ := List.mem_map.mp hindex
    have hcolumns := (hvalid.tables table htable).indexes index hmem
    refine List.cons_subset.mpr ⟨?_, fun id hid ↦ ?_⟩
    · exact List.mem_append_left _ (List.mem_append_right _
        (hmade table htable _ (mem_createdIds_table.mpr (.inl rfl))))
    · exact List.mem_append_left _ (List.mem_append_right _
        (hmade table htable _ (mem_createdIds_table.mpr (.inr (.inl (hcolumns hid))))))
  · intro creation hcreation
    obtain ⟨routine, -, rfl⟩ := List.mem_map.mp hcreation
    intro id hid
    obtain ⟨type, htype, rfl⟩ := List.mem_map.mp hid
    have hcreated := hknown (List.mem_map_of_mem (List.mem_filter.mp htype).1)
    exact List.mem_append_left _ (List.mem_append_left _ (List.mem_append_left _ hcreated))

/-- Assumes: a valid content. It has an export, and every object is created after the objects that its
definition refers to exactly when each view is listed after the views that its query reads. -/
theorem exported_in_order_iff (design : ExportedDesign) (includeDrops : Bool)
    (h : validateDesignContent D.toSqlAnalysis design.content = .ok ()) :
    ∃ statements, exportStatements D.toSqlAnalysis design.content = .ok statements ∧
      (postgresqlSql D.toSqlAnalysis design includeDrops).isSome ∧
      (CreatedInOrder [] (statements.flatMap (Statement.creations D design.content)) ↔
        ViewsInOrder D design.content) := by
  have hvalid := validReferences h
  obtain ⟨types, htypes⟩ := hvalid.typeOrder
  have hstatements : exportStatements D.toSqlAnalysis design.content =
      .ok (statementsBeforeViews design.content types ++ design.content.views.map .createView ++
        design.content.triggers.map .createTrigger) := by
    rw [exportStatements, htypes]
    rfl
  obtain ⟨created, hcreated⟩ := exists_mapM fun statement hmem ↦
    exists_lines hvalid hstatements hmem
  refine ⟨_, hstatements, ?_, ?_⟩
  · simp only [postgresqlSql, htypes, hstatements, Except.toOption, Option.bind_eq_bind,
      Option.bind_some, hcreated, Option.pure_def, Option.isSome_some]
  · have hbefore := createdInOrder_beforeViews hvalid htypes
    have hnames : (design.content.types.map fun type ↦ type.name).Nodup :=
      (List.nodup_append.mp hvalid.accepted.names).1
    obtain ⟨-, hsub, -⟩ := ordered_types hnames htypes
    have hids := hvalid.accepted.ids
    unfold allIds at hids
    have htables : ∀ table ∈ design.content.tables, ∀ id ∈ tableObjectIds table,
        id ∈ createdIds ((statementsBeforeViews design.content types).flatMap
          (Statement.creations D design.content)) := fun table htable id hid ↦
      mem_createdIds_beforeViews.mpr (.inr (.inl (List.mem_flatMap.mpr ⟨table, htable, hid⟩)))
    have hown : ∀ table ∈ design.content.tables,
        table.id ∈ createdIds ((statementsBeforeViews design.content types).flatMap
          (Statement.creations D design.content)) ∧
        (table.columns.map fun column ↦ column.id) ⊆
          createdIds ((statementsBeforeViews design.content types).flatMap
            (Statement.creations D design.content)) := fun table htable ↦
      ⟨htables table htable _ (by simp [tableObjectIds]), fun id hid ↦
        htables table htable _ (by
          simp only [tableObjectIds, List.cons_append, List.mem_cons, List.mem_append]
          exact .inr (.inl (.inl (.inl hid))))⟩
    -- The identifiers of views are not among those before them.
    have hfresh : ∀ view ∈ design.content.views,
        view.id ∉ createdIds ((statementsBeforeViews design.content types).flatMap
          (Statement.creations D design.content)) := by
      intro view hview hcreated
      have hdisjoint := (List.nodup_append.mp (List.nodup_append.mp hids).1).2.2
      refine hdisjoint view.id ?_ view.id (List.mem_map_of_mem hview) rfl
      rcases mem_createdIds_beforeViews.mp hcreated with htype | htable | hrelationship | hroutine
      · obtain ⟨type, hmem, hid⟩ := List.mem_map.mp htype
        simp only [List.mem_append]
        exact .inl (.inl (.inl (hid ▸ List.mem_map_of_mem (hsub hmem))))
      · simp only [List.mem_append]
        exact .inl (.inl (.inr htable))
      · simp only [List.mem_append]
        exact .inl (.inr hrelationship)
      · simp only [List.mem_append]
        exact .inr hroutine
    rw [List.flatMap_append, List.flatMap_append, createdInOrder_append, createdInOrder_append,
      creations_map (fun _ ↦ rfl), creations_map (fun _ ↦ rfl), List.nil_append]
    have hviews : _ ↔ ViewsInOrder D design.content :=
      createdInOrder_views hvalid.accepted hown hfresh
    have htriggers : CreatedInOrder (createdIds ((statementsBeforeViews design.content types).flatMap
        (Statement.creations D design.content) ++ design.content.views.map fun view ↦
          ⟨view.id, viewReads D design.content view⟩))
        (design.content.triggers.map fun trigger ↦
          ⟨trigger.id, triggerReferences design.content trigger⟩) := by
      refine createdInOrder_of_known fun creation hcreation ↦ ?_
      obtain ⟨trigger, -, rfl⟩ := List.mem_map.mp hcreation
      rw [createdIds_append]
      refine triggerReferences_subset (fun table htable ↦ ?_) (fun id hid ↦ ?_) fun id hid ↦ ?_
      · exact ⟨List.mem_append_left _ (hown table htable).1,
          fun id hid ↦ List.mem_append_left _ ((hown table htable).2 hid)⟩
      · exact List.mem_append_left _ (mem_createdIds_beforeViews.mpr (.inr (.inr (.inr hid))))
      · refine List.mem_append_right _ ?_
        simpa [createdIds, Function.comp_def] using hid
    exact ⟨fun hall ↦ hviews.mp hall.1.2, fun hordered ↦
      ⟨⟨hbefore, hviews.mpr hordered⟩, htriggers⟩⟩

end Order

/-! ### Views over views -/

/-- The sources of the queries of the samples. -/
def sampleSources (definition : String) : List QuerySource :=
  if definition = "SELECT id FROM people" then [⟨"people", ["id"]⟩]
  else if definition = "SELECT id FROM members" then [⟨"members", []⟩]
  else []

/-- An analysis of designs whose views read one relation each. -/
def viewsOnly : DependencyAnalysis where
  analyzeTypeDefinition := fun _ ↦ none
  baseTypeName := fun _ ↦ none
  parseQueryDefinition := fun _ ↦ none
  analyzeRoutineDefinition := fun _ ↦ none
  analyzeTriggerDefinition := fun _ ↦ none
  analyzeQueryDefinition := fun definition _ _ ↦ some (sampleSources definition)
  sameLetter := fun first second ↦ first = second
  casefold := id

/-- A table of people. -/
def peopleTable : DesignTable where
  id := "tbl_00000000000000000000000000000001"
  name := "people"
  columns := [{ id := "col_00000000000000000000000000000001", name := "id", dataType := "integer",
                nullable := false, defaultExpression := none, identity := none,
                generatedExpression := none, generatedSourceColumnIds := [] }]
  keys := []
  checks := []
  indexes := []

/-- The members among the people. -/
def membersView : DesignView :=
  ⟨"view_00000000000000000000000000000001", "members", .view, "SELECT id FROM people", none⟩

/-- A view over the members. -/
def guestsView : DesignView :=
  ⟨"view_00000000000000000000000000000002", "guests", .view, "SELECT id FROM members", none⟩

/-- A design of a table and views over it. -/
def viewsDesign (views : List DesignView) : ExportedDesign where
  workspaceId := "ws"
  revision := 1
  fingerprint := "0"
  content := ⟨[], [peopleTable], [], [], views, []⟩

/-- A view was authored before the view that it reads. The content is valid, and its export creates the
reader first. -/
theorem view_exported_before_its_source :
    (validateDesignContent viewsOnly.toSqlAnalysis (viewsDesign [guestsView, membersView]).content).isOk
      ∧ ∃ statements, exportStatements viewsOnly.toSqlAnalysis
          (viewsDesign [guestsView, membersView]).content = .ok statements ∧
        ¬ CreatedInOrder [] (statements.flatMap
          (Statement.creations viewsOnly (viewsDesign [guestsView, membersView]).content)) :=
  ⟨by decide, _, rfl, by decide⟩

/-- With the views in the other order, the export creates every object after those it refers to. -/
theorem view_exported_after_its_source :
    ∃ statements, exportStatements viewsOnly.toSqlAnalysis
        (viewsDesign [membersView, guestsView]).content = .ok statements ∧
      CreatedInOrder [] (statements.flatMap
        (Statement.creations viewsOnly (viewsDesign [membersView, guestsView]).content)) := by
  have hvalid : validateDesignContent viewsOnly.toSqlAnalysis
      (viewsDesign [membersView, guestsView]).content = .ok () := eq_ok_of_isOk (by decide)
  obtain ⟨statements, hstatements, -, hiff⟩ :=
    exported_in_order_iff (viewsDesign [membersView, guestsView]) true hvalid
  refine ⟨statements, hstatements, hiff.mpr ?_⟩
  intro before view after hsplit source hsource other hother hname
  change [membersView, guestsView] = before ++ view :: after at hsplit
  rcases before with - | ⟨first, - | ⟨second, rest⟩⟩
  · obtain ⟨rfl, -⟩ := List.cons.inj hsplit
    obtain rfl : source = ⟨"people", ["id"]⟩ := List.mem_singleton.mp hsource
    exact absurd hname (by revert other; decide)
  · obtain ⟨rfl, hrest⟩ := List.cons.inj hsplit
    obtain ⟨rfl, -⟩ := List.cons.inj hrest
    obtain rfl : source = ⟨"members", []⟩ := List.mem_singleton.mp hsource
    revert other
    decide
  · simp at hsplit

end Schemii.Designs
