import Schemii.Foundations.Codec

/-!
# The content of a design

The models of `designs/models.py` that a desired schema is made of, with `modelDump` for their
`model_dump(mode="json")` and `modelValidate` for `SchemiiDesignContent.model_validate`. A document is
read under the names of the fields, as the dump writes them.

The metadata of types, routines and triggers is derived from their SQL text, whatever the document
says. The analysis of the texts is done by a parser library and is the parameter `SqlAnalysis`.

`modelValidate_modelDump`: what is read from the dump of a content whose metadata is the derived one
is that content. `modelValidate_again`: what was read once is read again from its dump.
-/

set_option autoImplicit false

namespace Schemii.Designs

open Foundations

/-! ### Words -/

/-- The kind of a designed type. -/
inductive TypeKind
  | enum
  | domain
  deriving DecidableEq, Repr

/-- How a column gets an identity value. -/
inductive Identity
  | always
  | byDefault
  deriving DecidableEq, Repr

/-- The kind of a key. -/
inductive KeyKind
  | primary
  | unique
  deriving DecidableEq, Repr

/-- What a foreign key does when the row it refers to changes. -/
inductive ReferentialAction
  | noAction
  | restrict
  | cascade
  | setNull
  | setDefault
  deriving DecidableEq, Repr

/-- The kind of a routine. -/
inductive RoutineKind
  | function
  | procedure
  deriving DecidableEq, Repr

/-- The kind of a view. -/
inductive ViewKind
  | view
  | materializedView
  deriving DecidableEq, Repr

/-- When a trigger fires. -/
inductive TriggerTiming
  | before
  | after
  | insteadOf
  deriving DecidableEq, Repr

/-- What a trigger fires for. -/
inductive TriggerEvent
  | insert
  | update
  | delete
  | truncate
  deriving DecidableEq, Repr

/-- How often a trigger fires. -/
inductive TriggerOrientation
  | row
  | statement
  deriving DecidableEq, Repr

instance : Spelled TypeKind where
  word
    | .enum => "enum"
    | .domain => "domain"
  values := [.enum, .domain]
  complete := by rintro (_ | _) <;> simp
  injective := by rintro (_ | _) (_ | _) <;> simp

instance : Spelled Identity where
  word
    | .always => "always"
    | .byDefault => "by_default"
  values := [.always, .byDefault]
  complete := by rintro (_ | _) <;> simp
  injective := by rintro (_ | _) (_ | _) <;> simp

instance : Spelled KeyKind where
  word
    | .primary => "primary"
    | .unique => "unique"
  values := [.primary, .unique]
  complete := by rintro (_ | _) <;> simp
  injective := by rintro (_ | _) (_ | _) <;> simp

instance : Spelled ReferentialAction where
  word
    | .noAction => "NO ACTION"
    | .restrict => "RESTRICT"
    | .cascade => "CASCADE"
    | .setNull => "SET NULL"
    | .setDefault => "SET DEFAULT"
  values := [.noAction, .restrict, .cascade, .setNull, .setDefault]
  complete := by rintro (_ | _ | _ | _ | _) <;> simp
  injective := by rintro (_ | _ | _ | _ | _) (_ | _ | _ | _ | _) <;> simp

instance : Spelled RoutineKind where
  word
    | .function => "function"
    | .procedure => "procedure"
  values := [.function, .procedure]
  complete := by rintro (_ | _) <;> simp
  injective := by rintro (_ | _) (_ | _) <;> simp

instance : Spelled ViewKind where
  word
    | .view => "view"
    | .materializedView => "materialized_view"
  values := [.view, .materializedView]
  complete := by rintro (_ | _) <;> simp
  injective := by rintro (_ | _) (_ | _) <;> simp

instance : Spelled TriggerTiming where
  word
    | .before => "before"
    | .after => "after"
    | .insteadOf => "instead_of"
  values := [.before, .after, .insteadOf]
  complete := by rintro (_ | _ | _) <;> simp
  injective := by rintro (_ | _ | _) (_ | _ | _) <;> simp

instance : Spelled TriggerEvent where
  word
    | .insert => "insert"
    | .update => "update"
    | .delete => "delete"
    | .truncate => "truncate"
  values := [.insert, .update, .delete, .truncate]
  complete := by rintro (_ | _ | _ | _) <;> simp
  injective := by rintro (_ | _ | _ | _) (_ | _ | _ | _) <;> simp

instance : Spelled TriggerOrientation where
  word
    | .row => "row"
    | .statement => "statement"
  values := [.row, .statement]
  complete := by rintro (_ | _) <;> simp
  injective := by rintro (_ | _) (_ | _) <;> simp

/-! ### Records -/

/-- `DesignDomainCheck`. -/
structure DesignDomainCheck where
  name : Option String
  expression : String
  deriving DecidableEq, Repr

/-- What the definition of a type says about it. -/
structure TypeContract where
  name : String
  kind : TypeKind
  enumValues : List String
  baseType : Option String
  defaultExpression : Option String
  notNull : Bool
  checks : List DesignDomainCheck
  collation : Option String
  deriving DecidableEq, Repr

/-- `DesignType`. -/
structure DesignType extends TypeContract where
  id : String
  definition : String
  deriving DecidableEq, Repr

/-- `DesignColumn`. -/
structure DesignColumn where
  id : String
  name : String
  dataType : String
  nullable : Bool
  defaultExpression : Option String
  identity : Option Identity
  generatedExpression : Option String
  generatedSourceColumnIds : List String
  deriving DecidableEq, Repr

/-- `DesignKeyConstraint`. -/
structure DesignKeyConstraint where
  id : String
  name : String
  kind : KeyKind
  columnIds : List String
  deriving DecidableEq, Repr

/-- `DesignCheckConstraint`. -/
structure DesignCheckConstraint where
  id : String
  name : String
  expression : String
  columnIds : List String
  deriving DecidableEq, Repr

/-- `DesignIndex`. -/
structure DesignIndex where
  id : String
  name : String
  method : String
  columnIds : List String
  includeColumnIds : List String
  expression : Option String
  expressionSourceColumnIds : List String
  predicate : Option String
  predicateColumnIds : List String
  unique : Bool
  deriving DecidableEq, Repr

/-- `DesignTable`. -/
structure DesignTable where
  id : String
  name : String
  columns : List DesignColumn
  keys : List DesignKeyConstraint
  checks : List DesignCheckConstraint
  indexes : List DesignIndex
  deriving DecidableEq, Repr

/-- `DesignRelationship`. -/
structure DesignRelationship where
  id : String
  name : String
  sourceTableId : String
  sourceColumnIds : List String
  targetTableId : String
  targetColumnIds : List String
  onUpdate : ReferentialAction
  onDelete : ReferentialAction
  deferrable : Bool
  initiallyDeferred : Bool
  deriving DecidableEq, Repr

/-- What the definition of a routine says about it. -/
structure RoutineContract where
  name : String
  kind : RoutineKind
  arguments : String
  identityArguments : String
  returnType : Option String
  language : String
  deriving DecidableEq, Repr

/-- `DesignFunction`. -/
structure DesignFunction extends RoutineContract where
  id : String
  definition : String
  deriving DecidableEq, Repr

/-- What the definition of a trigger says about it. -/
structure TriggerContract where
  name : String
  relationName : String
  timing : TriggerTiming
  events : List TriggerEvent
  orientation : TriggerOrientation
  functionName : String
  functionArguments : List String
  updateColumns : List String
  referencedColumns : List String
  whenExpression : Option String
  transitionRelations : List String
  constraint : Bool
  deferrable : Bool
  initiallyDeferred : Bool
  deriving DecidableEq, Repr

/-- `DesignTrigger`. -/
structure DesignTrigger extends TriggerContract where
  id : String
  definition : String
  deriving DecidableEq, Repr

/-- `DesignView`. -/
structure DesignView where
  id : String
  name : String
  kind : ViewKind
  definition : String
  populateOnCreate : Option Bool
  deriving DecidableEq, Repr

/-- `SchemiiDesignContent`. -/
structure SchemiiDesignContent where
  types : List DesignType
  tables : List DesignTable
  relationships : List DesignRelationship
  functions : List DesignFunction
  views : List DesignView
  triggers : List DesignTrigger
  deriving DecidableEq, Repr

/-- Why a query is no definition of a view. -/
structure QueryDefinitionError where
  message : String
  code : String
  deriving DecidableEq, Repr

/-- What the parser library finds in the SQL texts of a design. The name of the base type is the part
of the analysis of a domain that its record does not keep. -/
structure SqlAnalysis where
  analyzeTypeDefinition : String → Option TypeContract
  baseTypeName : String → Option String
  parseQueryDefinition : String → Option QueryDefinitionError
  analyzeRoutineDefinition : String → Option RoutineContract
  analyzeTriggerDefinition : String → Option TriggerContract

/-! ### Fields -/

/-- `DesignObjectId`. -/
def isDesignObjectId (text : String) : Bool :=
  let letters := text.toList.takeWhile fun c ↦ 'a' ≤ c ∧ c ≤ 'z'
  !letters.isEmpty && match text.toList.drop letters.length with
    | '_' :: digits => digits.length = 32 &&
        digits.all fun c ↦ ('0' ≤ c ∧ c ≤ '9') ∨ ('a' ≤ c ∧ c ≤ 'f')
    | _ => false

/-- `DesignObjectId`. -/
def objectId : Codec String := .text isDesignObjectId

/-- `DesignIdentifier`. -/
def designIdentifier : Codec String := .text fun text ↦ 1 ≤ text.length ∧ text.length ≤ 63

/-- `DesignExpression`. -/
def designExpression : Codec String := .text fun text ↦ text.length ≤ 262144

/-- A text of at least one and at most so many characters. -/
def boundedText (maximum : ℕ) : Codec String :=
  .text fun text ↦ 1 ≤ text.length ∧ text.length ≤ maximum

/-- A text that may be null. -/
def nullableText (accepts : String → Bool) : Codec (Option String) :=
  .nullable (.text accepts) fun _ ↦ Json.noConfusion

/-- An expression that may be null. -/
def nullableExpression : Codec (Option String) :=
  nullableText fun text ↦ text.length ≤ 262144

/-- Column identifiers. -/
def columnIdList (minimum : ℕ) : Codec (List String) := .list objectId minimum 1600

/-! ### Columns, constraints and indexes -/

/-- `DesignColumn`. -/
def DesignColumn.codec : Codec DesignColumn where
  dump := fun column ↦ .object [("id", objectId.dump column.id),
    ("name", designIdentifier.dump column.name), ("data_type", (boundedText 512).dump column.dataType),
    ("nullable", Codec.flag.dump column.nullable),
    ("default_expression", nullableExpression.dump column.defaultExpression),
    ("identity", (Codec.nullable (.word Identity) fun _ ↦ Json.noConfusion).dump column.identity),
    ("generated_expression", nullableExpression.dump column.generatedExpression),
    ("generated_source_column_ids", (columnIdList 0).dump column.generatedSourceColumnIds)]
  read := fun document ↦ do
    guard (document.Known ["id", "name", "data_type", "nullable", "default_expression", "identity",
      "generated_expression", "generated_source_column_ids"])
    let id ← objectId.field document "id" none
    let name ← designIdentifier.field document "name" none
    let dataType ← (boundedText 512).field document "data_type" none
    let nullable ← Codec.flag.field document "nullable" (some true)
    let defaultExpression ← nullableExpression.field document "default_expression" (some none)
    let identity ← (Codec.nullable (.word Identity) fun _ ↦ Json.noConfusion).field document
      "identity" (some none)
    let generatedExpression ← nullableExpression.field document "generated_expression" (some none)
    let generatedSourceColumnIds ← (columnIdList 0).field document "generated_source_column_ids"
      (some [])
    pure { id, name, dataType, nullable, defaultExpression, identity, generatedExpression,
           generatedSourceColumnIds }
  faithful := by
    intro column found h
    simp only [Option.bind_eq_bind, Option.bind_eq_some_iff, Option.pure_def,
      Option.some.injEq] at h
    obtain ⟨-, -, id, hid, name, hname, dataType, hdataType, nullable, hnullable, default, hdefault,
      identity, hidentity, generated, hgenerated, sources, hsources, rfl⟩ := h
    obtain rfl := Codec.field_dump (by rfl) hid
    obtain rfl := Codec.field_dump (by rfl) hname
    obtain rfl := Codec.field_dump (by rfl) hdataType
    obtain rfl := Codec.field_dump (by rfl) hnullable
    obtain rfl := Codec.field_dump (by rfl) hdefault
    obtain rfl := Codec.field_dump (by rfl) hidentity
    obtain rfl := Codec.field_dump (by rfl) hgenerated
    obtain rfl := Codec.field_dump (by rfl) hsources
    rfl
  stable := by
    intro document found h
    simp only [Option.bind_eq_bind, Option.bind_eq_some_iff, Option.pure_def,
      Option.some.injEq] at h ⊢
    obtain ⟨-, -, id, hid, name, hname, dataType, hdataType, nullable, hnullable,
      defaultExpression, hdefaultExpression, identity, hidentity,
      generatedExpression, hgeneratedExpression,
      generatedSourceColumnIds, hgeneratedSourceColumnIds, rfl⟩ := h
    have okId := Codec.accepts_of_field hid (by simp)
    have okName := Codec.accepts_of_field hname (by simp)
    have okDataType := Codec.accepts_of_field hdataType (by simp)
    have okNullable := Codec.accepts_of_field hnullable (by rintro _ ⟨⟩; rfl)
    have okDefaultExpression := Codec.accepts_of_field hdefaultExpression (by rintro _ ⟨⟩; rfl)
    have okIdentity := Codec.accepts_of_field hidentity (by rintro _ ⟨⟩; rfl)
    have okGeneratedExpression := Codec.accepts_of_field hgeneratedExpression (by rintro _ ⟨⟩; rfl)
    have okGeneratedSourceColumnIds := Codec.accepts_of_field hgeneratedSourceColumnIds (by rintro _ ⟨⟩; rfl)
    exact ⟨(), by rfl, _, Codec.field_of_accepts okId rfl, _, Codec.field_of_accepts okName rfl,
      _, Codec.field_of_accepts okDataType rfl, _, Codec.field_of_accepts okNullable rfl,
      _, Codec.field_of_accepts okDefaultExpression rfl, _, Codec.field_of_accepts okIdentity rfl,
      _, Codec.field_of_accepts okGeneratedExpression rfl,
      _, Codec.field_of_accepts okGeneratedSourceColumnIds rfl, rfl⟩

/-- `DesignKeyConstraint`. -/
def DesignKeyConstraint.codec : Codec DesignKeyConstraint where
  dump := fun key ↦ .object [("id", objectId.dump key.id),
    ("name", designIdentifier.dump key.name), ("kind", (Codec.word KeyKind).dump key.kind),
    ("column_ids", (columnIdList 1).dump key.columnIds)]
  read := fun document ↦ do
    guard (document.Known ["id", "name", "kind", "column_ids"])
    let id ← objectId.field document "id" none
    let name ← designIdentifier.field document "name" none
    let kind ← (Codec.word KeyKind).field document "kind" none
    let columnIds ← (columnIdList 1).field document "column_ids" none
    pure { id, name, kind, columnIds }
  faithful := by
    intro key found h
    simp only [Option.bind_eq_bind, Option.bind_eq_some_iff, Option.pure_def,
      Option.some.injEq] at h
    obtain ⟨-, -, id, hid, name, hname, kind, hkind, columnIds, hcolumnIds, rfl⟩ := h
    obtain rfl := Codec.field_dump (by rfl) hid
    obtain rfl := Codec.field_dump (by rfl) hname
    obtain rfl := Codec.field_dump (by rfl) hkind
    obtain rfl := Codec.field_dump (by rfl) hcolumnIds
    rfl
  stable := by
    intro document found h
    simp only [Option.bind_eq_bind, Option.bind_eq_some_iff, Option.pure_def,
      Option.some.injEq] at h ⊢
    obtain ⟨-, -, id, hid, name, hname, kind, hkind, columnIds, hcolumnIds, rfl⟩ := h
    have okId := Codec.accepts_of_field hid (by simp)
    have okName := Codec.accepts_of_field hname (by simp)
    have okKind := Codec.accepts_of_field hkind (by simp)
    have okColumnIds := Codec.accepts_of_field hcolumnIds (by simp)
    exact ⟨(), by rfl, _, Codec.field_of_accepts okId rfl, _, Codec.field_of_accepts okName rfl,
      _, Codec.field_of_accepts okKind rfl, _, Codec.field_of_accepts okColumnIds rfl, rfl⟩

/-- `DesignCheckConstraint`. -/
def DesignCheckConstraint.codec : Codec DesignCheckConstraint where
  dump := fun check ↦ .object [("id", objectId.dump check.id),
    ("name", designIdentifier.dump check.name),
    ("expression", designExpression.dump check.expression),
    ("column_ids", (columnIdList 0).dump check.columnIds)]
  read := fun document ↦ do
    guard (document.Known ["id", "name", "expression", "column_ids"])
    let id ← objectId.field document "id" none
    let name ← designIdentifier.field document "name" none
    let expression ← designExpression.field document "expression" none
    let columnIds ← (columnIdList 0).field document "column_ids" (some [])
    pure { id, name, expression, columnIds }
  faithful := by
    intro check found h
    simp only [Option.bind_eq_bind, Option.bind_eq_some_iff, Option.pure_def,
      Option.some.injEq] at h
    obtain ⟨-, -, id, hid, name, hname, expression, hexpression, columnIds, hcolumnIds, rfl⟩ := h
    obtain rfl := Codec.field_dump (by rfl) hid
    obtain rfl := Codec.field_dump (by rfl) hname
    obtain rfl := Codec.field_dump (by rfl) hexpression
    obtain rfl := Codec.field_dump (by rfl) hcolumnIds
    rfl
  stable := by
    intro document found h
    simp only [Option.bind_eq_bind, Option.bind_eq_some_iff, Option.pure_def,
      Option.some.injEq] at h ⊢
    obtain ⟨-, -, id, hid, name, hname, expression, hexpression, columnIds, hcolumnIds, rfl⟩ := h
    have okId := Codec.accepts_of_field hid (by simp)
    have okName := Codec.accepts_of_field hname (by simp)
    have okExpression := Codec.accepts_of_field hexpression (by simp)
    have okColumnIds := Codec.accepts_of_field hcolumnIds (by rintro _ ⟨⟩; rfl)
    exact ⟨(), by rfl, _, Codec.field_of_accepts okId rfl, _, Codec.field_of_accepts okName rfl,
      _, Codec.field_of_accepts okExpression rfl, _, Codec.field_of_accepts okColumnIds rfl, rfl⟩

/-- `DesignIndex`. -/
def DesignIndex.codec : Codec DesignIndex where
  dump := fun index ↦ .object [("id", objectId.dump index.id),
    ("name", designIdentifier.dump index.name), ("method", designIdentifier.dump index.method),
    ("column_ids", (columnIdList 0).dump index.columnIds),
    ("include_column_ids", (columnIdList 0).dump index.includeColumnIds),
    ("expression", nullableExpression.dump index.expression),
    ("expression_source_column_ids", (columnIdList 0).dump index.expressionSourceColumnIds),
    ("predicate", nullableExpression.dump index.predicate),
    ("predicate_column_ids", (columnIdList 0).dump index.predicateColumnIds),
    ("unique", Codec.flag.dump index.unique)]
  read := fun document ↦ do
    guard (document.Known ["id", "name", "method", "column_ids", "include_column_ids",
      "expression", "expression_source_column_ids", "predicate", "predicate_column_ids",
      "unique"])
    let id ← objectId.field document "id" none
    let name ← designIdentifier.field document "name" none
    let method ← designIdentifier.field document "method" (some "btree")
    let columnIds ← (columnIdList 0).field document "column_ids" (some [])
    let includeColumnIds ← (columnIdList 0).field document "include_column_ids" (some [])
    let expression ← nullableExpression.field document "expression" (some none)
    let expressionSourceColumnIds ← (columnIdList 0).field document
      "expression_source_column_ids" (some [])
    let predicate ← nullableExpression.field document "predicate" (some none)
    let predicateColumnIds ← (columnIdList 0).field document "predicate_column_ids" (some [])
    let unique ← Codec.flag.field document "unique" (some false)
    pure { id, name, method, columnIds, includeColumnIds, expression, expressionSourceColumnIds,
           predicate, predicateColumnIds, unique }
  faithful := by
    intro index found h
    simp only [Option.bind_eq_bind, Option.bind_eq_some_iff, Option.pure_def,
      Option.some.injEq] at h
    obtain ⟨-, -, id, hid, name, hname, method, hmethod, columnIds, hcolumnIds,
      includeColumnIds, hincludeColumnIds, expression, hexpression,
      expressionSourceColumnIds, hexpressionSourceColumnIds, predicate, hpredicate,
      predicateColumnIds, hpredicateColumnIds, unique, hunique, rfl⟩ := h
    obtain rfl := Codec.field_dump (by rfl) hid
    obtain rfl := Codec.field_dump (by rfl) hname
    obtain rfl := Codec.field_dump (by rfl) hmethod
    obtain rfl := Codec.field_dump (by rfl) hcolumnIds
    obtain rfl := Codec.field_dump (by rfl) hincludeColumnIds
    obtain rfl := Codec.field_dump (by rfl) hexpression
    obtain rfl := Codec.field_dump (by rfl) hexpressionSourceColumnIds
    obtain rfl := Codec.field_dump (by rfl) hpredicate
    obtain rfl := Codec.field_dump (by rfl) hpredicateColumnIds
    obtain rfl := Codec.field_dump (by rfl) hunique
    rfl
  stable := by
    intro document found h
    simp only [Option.bind_eq_bind, Option.bind_eq_some_iff, Option.pure_def,
      Option.some.injEq] at h ⊢
    obtain ⟨-, -, id, hid, name, hname, method, hmethod, columnIds, hcolumnIds,
      includeColumnIds, hincludeColumnIds, expression, hexpression,
      expressionSourceColumnIds, hexpressionSourceColumnIds, predicate, hpredicate,
      predicateColumnIds, hpredicateColumnIds, unique, hunique, rfl⟩ := h
    have okId := Codec.accepts_of_field hid (by simp)
    have okName := Codec.accepts_of_field hname (by simp)
    have okMethod := Codec.accepts_of_field hmethod (by rintro _ ⟨⟩; rfl)
    have okColumnIds := Codec.accepts_of_field hcolumnIds (by rintro _ ⟨⟩; rfl)
    have okIncludeColumnIds := Codec.accepts_of_field hincludeColumnIds (by rintro _ ⟨⟩; rfl)
    have okExpression := Codec.accepts_of_field hexpression (by rintro _ ⟨⟩; rfl)
    have okExpressionSourceColumnIds := Codec.accepts_of_field hexpressionSourceColumnIds (by rintro _ ⟨⟩; rfl)
    have okPredicate := Codec.accepts_of_field hpredicate (by rintro _ ⟨⟩; rfl)
    have okPredicateColumnIds := Codec.accepts_of_field hpredicateColumnIds (by rintro _ ⟨⟩; rfl)
    have okUnique := Codec.accepts_of_field hunique (by rintro _ ⟨⟩; rfl)
    exact ⟨(), by rfl, _, Codec.field_of_accepts okId rfl, _, Codec.field_of_accepts okName rfl,
      _, Codec.field_of_accepts okMethod rfl, _, Codec.field_of_accepts okColumnIds rfl,
      _, Codec.field_of_accepts okIncludeColumnIds rfl, _, Codec.field_of_accepts okExpression rfl,
      _, Codec.field_of_accepts okExpressionSourceColumnIds rfl,
      _, Codec.field_of_accepts okPredicate rfl, _, Codec.field_of_accepts okPredicateColumnIds rfl,
      _, Codec.field_of_accepts okUnique rfl, rfl⟩

/-! ### Tables and relationships -/

/-- `DesignTable`. -/
def DesignTable.codec : Codec DesignTable where
  dump := fun table ↦ .object [("id", objectId.dump table.id),
    ("name", designIdentifier.dump table.name),
    ("columns", (DesignColumn.codec.list 1 1600).dump table.columns),
    ("keys", (DesignKeyConstraint.codec.list 0 1600).dump table.keys),
    ("checks", (DesignCheckConstraint.codec.list 0 1600).dump table.checks),
    ("indexes", (DesignIndex.codec.list 0 1600).dump table.indexes)]
  read := fun document ↦ do
    guard (document.Known ["id", "name", "columns", "keys", "checks", "indexes"])
    let id ← objectId.field document "id" none
    let name ← designIdentifier.field document "name" none
    let columns ← (DesignColumn.codec.list 1 1600).field document "columns" none
    let keys ← (DesignKeyConstraint.codec.list 0 1600).field document "keys" (some [])
    let checks ← (DesignCheckConstraint.codec.list 0 1600).field document "checks" (some [])
    let indexes ← (DesignIndex.codec.list 0 1600).field document "indexes" (some [])
    pure { id, name, columns, keys, checks, indexes }
  faithful := by
    intro table found h
    simp only [Option.bind_eq_bind, Option.bind_eq_some_iff, Option.pure_def,
      Option.some.injEq] at h
    obtain ⟨-, -, id, hid, name, hname, columns, hcolumns, keys, hkeys, checks, hchecks,
      indexes, hindexes, rfl⟩ := h
    obtain rfl := Codec.field_dump (by rfl) hid
    obtain rfl := Codec.field_dump (by rfl) hname
    obtain rfl := Codec.field_dump (by rfl) hcolumns
    obtain rfl := Codec.field_dump (by rfl) hkeys
    obtain rfl := Codec.field_dump (by rfl) hchecks
    obtain rfl := Codec.field_dump (by rfl) hindexes
    rfl
  stable := by
    intro document found h
    simp only [Option.bind_eq_bind, Option.bind_eq_some_iff, Option.pure_def,
      Option.some.injEq] at h ⊢
    obtain ⟨-, -, id, hid, name, hname, columns, hcolumns, keys, hkeys, checks, hchecks,
      indexes, hindexes, rfl⟩ := h
    have okId := Codec.accepts_of_field hid (by simp)
    have okName := Codec.accepts_of_field hname (by simp)
    have okColumns := Codec.accepts_of_field hcolumns (by simp)
    have okKeys := Codec.accepts_of_field hkeys (by rintro _ ⟨⟩; rfl)
    have okChecks := Codec.accepts_of_field hchecks (by rintro _ ⟨⟩; rfl)
    have okIndexes := Codec.accepts_of_field hindexes (by rintro _ ⟨⟩; rfl)
    exact ⟨(), by rfl, _, Codec.field_of_accepts okId rfl, _, Codec.field_of_accepts okName rfl,
      _, Codec.field_of_accepts okColumns rfl, _, Codec.field_of_accepts okKeys rfl,
      _, Codec.field_of_accepts okChecks rfl, _, Codec.field_of_accepts okIndexes rfl, rfl⟩

/-- `DesignRelationship`. -/
def DesignRelationship.codec : Codec DesignRelationship where
  dump := fun relationship ↦ .object [("id", objectId.dump relationship.id),
    ("name", designIdentifier.dump relationship.name),
    ("source_table_id", objectId.dump relationship.sourceTableId),
    ("source_column_ids", (columnIdList 1).dump relationship.sourceColumnIds),
    ("target_table_id", objectId.dump relationship.targetTableId),
    ("target_column_ids", (columnIdList 1).dump relationship.targetColumnIds),
    ("on_update", (Codec.word ReferentialAction).dump relationship.onUpdate),
    ("on_delete", (Codec.word ReferentialAction).dump relationship.onDelete),
    ("deferrable", Codec.flag.dump relationship.deferrable),
    ("initially_deferred", Codec.flag.dump relationship.initiallyDeferred)]
  read := fun document ↦ do
    guard (document.Known ["id", "name", "source_table_id", "source_column_ids",
      "target_table_id", "target_column_ids", "on_update", "on_delete", "deferrable",
      "initially_deferred"])
    let id ← objectId.field document "id" none
    let name ← designIdentifier.field document "name" none
    let sourceTableId ← objectId.field document "source_table_id" none
    let sourceColumnIds ← (columnIdList 1).field document "source_column_ids" none
    let targetTableId ← objectId.field document "target_table_id" none
    let targetColumnIds ← (columnIdList 1).field document "target_column_ids" none
    let onUpdate ← (Codec.word ReferentialAction).field document "on_update" (some .noAction)
    let onDelete ← (Codec.word ReferentialAction).field document "on_delete" (some .noAction)
    let deferrable ← Codec.flag.field document "deferrable" (some false)
    let initiallyDeferred ← Codec.flag.field document "initially_deferred" (some false)
    pure { id, name, sourceTableId, sourceColumnIds, targetTableId, targetColumnIds, onUpdate,
           onDelete, deferrable, initiallyDeferred }
  faithful := by
    intro relationship found h
    simp only [Option.bind_eq_bind, Option.bind_eq_some_iff, Option.pure_def,
      Option.some.injEq] at h
    obtain ⟨-, -, id, hid, name, hname, sourceTableId, hsourceTableId,
      sourceColumnIds, hsourceColumnIds, targetTableId, htargetTableId,
      targetColumnIds, htargetColumnIds, onUpdate, honUpdate, onDelete, honDelete,
      deferrable, hdeferrable, initiallyDeferred, hinitiallyDeferred, rfl⟩ := h
    obtain rfl := Codec.field_dump (by rfl) hid
    obtain rfl := Codec.field_dump (by rfl) hname
    obtain rfl := Codec.field_dump (by rfl) hsourceTableId
    obtain rfl := Codec.field_dump (by rfl) hsourceColumnIds
    obtain rfl := Codec.field_dump (by rfl) htargetTableId
    obtain rfl := Codec.field_dump (by rfl) htargetColumnIds
    obtain rfl := Codec.field_dump (by rfl) honUpdate
    obtain rfl := Codec.field_dump (by rfl) honDelete
    obtain rfl := Codec.field_dump (by rfl) hdeferrable
    obtain rfl := Codec.field_dump (by rfl) hinitiallyDeferred
    rfl
  stable := by
    intro document found h
    simp only [Option.bind_eq_bind, Option.bind_eq_some_iff, Option.pure_def,
      Option.some.injEq] at h ⊢
    obtain ⟨-, -, id, hid, name, hname, sourceTableId, hsourceTableId,
      sourceColumnIds, hsourceColumnIds, targetTableId, htargetTableId,
      targetColumnIds, htargetColumnIds, onUpdate, honUpdate, onDelete, honDelete,
      deferrable, hdeferrable, initiallyDeferred, hinitiallyDeferred, rfl⟩ := h
    have okId := Codec.accepts_of_field hid (by simp)
    have okName := Codec.accepts_of_field hname (by simp)
    have okSourceTableId := Codec.accepts_of_field hsourceTableId (by simp)
    have okSourceColumnIds := Codec.accepts_of_field hsourceColumnIds (by simp)
    have okTargetTableId := Codec.accepts_of_field htargetTableId (by simp)
    have okTargetColumnIds := Codec.accepts_of_field htargetColumnIds (by simp)
    have okOnUpdate := Codec.accepts_of_field honUpdate (by rintro _ ⟨⟩; rfl)
    have okOnDelete := Codec.accepts_of_field honDelete (by rintro _ ⟨⟩; rfl)
    have okDeferrable := Codec.accepts_of_field hdeferrable (by rintro _ ⟨⟩; rfl)
    have okInitiallyDeferred := Codec.accepts_of_field hinitiallyDeferred (by rintro _ ⟨⟩; rfl)
    exact ⟨(), by rfl, _, Codec.field_of_accepts okId rfl, _, Codec.field_of_accepts okName rfl,
      _, Codec.field_of_accepts okSourceTableId rfl,
      _, Codec.field_of_accepts okSourceColumnIds rfl,
      _, Codec.field_of_accepts okTargetTableId rfl,
      _, Codec.field_of_accepts okTargetColumnIds rfl, _, Codec.field_of_accepts okOnUpdate rfl,
      _, Codec.field_of_accepts okOnDelete rfl, _, Codec.field_of_accepts okDeferrable rfl,
      _, Codec.field_of_accepts okInitiallyDeferred rfl, rfl⟩

/-! ### Objects with derived metadata -/

/-- `DesignDomainCheck`. -/
def DesignDomainCheck.dump (check : DesignDomainCheck) : Json :=
  .object [("name", (check.name.map Json.string).getD .null), ("expression", .string check.expression)]

/-- The limits of the fields that are derived from the definition of a type. -/
def TypeContract.accepted (contract : TypeContract) : Bool :=
  let bounded (maximum : ℕ) (text : String) : Bool := 1 ≤ text.length ∧ text.length ≤ maximum
  bounded 63 contract.name && contract.enumValues.length ≤ 10000 &&
    (contract.enumValues.all fun value ↦ value.length ≤ 63) &&
    contract.baseType.all (bounded 512) &&
    (contract.defaultExpression.all fun text ↦ text.length ≤ 262144) &&
    contract.checks.length ≤ 10000 &&
    (contract.checks.all fun check ↦ check.name.all (bounded 63) &&
      check.expression.length ≤ 262144) &&
    contract.collation.all (bounded 255)

/-- `DesignType.model_dump`. -/
def DesignType.dump (type : DesignType) : Json :=
  let text : Option String → Json := fun value ↦ (value.map Json.string).getD .null
  .object [("id", objectId.dump type.id), ("name", .string type.name),
    ("kind", .string (Spelled.word type.kind)),
    ("enum_values", .array (type.enumValues.map Json.string)), ("base_type", text type.baseType),
    ("default_expression", text type.defaultExpression), ("not_null", .bool type.notNull),
    ("checks", .array (type.checks.map DesignDomainCheck.dump)), ("collation", text type.collation),
    ("definition", designExpression.dump type.definition)]

/-- `DesignType.model_validate`: the submitted metadata is discarded. -/
def DesignType.read (analysis : SqlAnalysis) (document : Json) : Option DesignType := do
  guard (document.Known ["id", "name", "kind", "enum_values", "base_type", "default_expression",
    "not_null", "checks", "collation", "definition"])
  let id ← objectId.field document "id" none
  let definition ← designExpression.field document "definition" none
  let contract ← analysis.analyzeTypeDefinition definition
  guard contract.accepted
  pure { toTypeContract := contract, id, definition }

/-- The limits of the fields that are derived from the definition of a routine. -/
def RoutineContract.accepted (contract : RoutineContract) : Bool :=
  1 ≤ contract.name.length && contract.name.length ≤ 63 && contract.arguments.length ≤ 262144 &&
    contract.identityArguments.length ≤ 262144 &&
    (contract.returnType.all fun text ↦ text.length ≤ 262144) &&
    1 ≤ contract.language.length && contract.language.length ≤ 63

/-- `DesignFunction.model_dump`. -/
def DesignFunction.dump (routine : DesignFunction) : Json :=
  .object [("id", objectId.dump routine.id), ("name", .string routine.name),
    ("kind", .string (Spelled.word routine.kind)), ("arguments", .string routine.arguments),
    ("identity_arguments", .string routine.identityArguments),
    ("return_type", (routine.returnType.map Json.string).getD .null),
    ("language", .string routine.language), ("definition", designExpression.dump routine.definition)]

/-- `DesignFunction.model_validate`: the submitted metadata is discarded. -/
def DesignFunction.read (analysis : SqlAnalysis) (document : Json) : Option DesignFunction := do
  guard (document.Known ["id", "name", "kind", "arguments", "identity_arguments", "return_type",
    "language", "definition"])
  let id ← objectId.field document "id" none
  let definition ← designExpression.field document "definition" none
  let contract ← analysis.analyzeRoutineDefinition definition
  guard contract.accepted
  pure { toRoutineContract := contract, id, definition }

/-- The limits of the fields that are derived from the definition of a trigger. -/
def TriggerContract.accepted (contract : TriggerContract) : Bool :=
  let bounded (maximum : ℕ) (text : String) : Bool := 1 ≤ text.length ∧ text.length ≤ maximum
  bounded 63 contract.name && bounded 63 contract.relationName && 1 ≤ contract.events.length &&
    contract.events.length ≤ 4 && bounded 255 contract.functionName &&
    contract.functionArguments.length ≤ 100 &&
    (contract.functionArguments.all fun text ↦ text.length ≤ 262144) &&
    contract.updateColumns.length ≤ 1600 && contract.updateColumns.all (bounded 63) &&
    contract.referencedColumns.length ≤ 1600 && contract.referencedColumns.all (bounded 63) &&
    (contract.whenExpression.all fun text ↦ text.length ≤ 262144) &&
    contract.transitionRelations.length ≤ 2 &&
    (contract.transitionRelations.all fun text ↦ text.length ≤ 262144)

/-- `DesignTrigger.model_dump`. -/
def DesignTrigger.dump (trigger : DesignTrigger) : Json :=
  let texts : List String → Json := fun values ↦ .array (values.map Json.string)
  .object [("id", objectId.dump trigger.id), ("name", .string trigger.name),
    ("relation_name", .string trigger.relationName),
    ("timing", .string (Spelled.word trigger.timing)),
    ("events", .array (trigger.events.map fun event ↦ .string (Spelled.word event))),
    ("orientation", .string (Spelled.word trigger.orientation)),
    ("function_name", .string trigger.functionName),
    ("function_arguments", texts trigger.functionArguments),
    ("update_columns", texts trigger.updateColumns),
    ("referenced_columns", texts trigger.referencedColumns),
    ("when_expression", (trigger.whenExpression.map Json.string).getD .null),
    ("transition_relations", texts trigger.transitionRelations),
    ("constraint", .bool trigger.constraint), ("deferrable", .bool trigger.deferrable),
    ("initially_deferred", .bool trigger.initiallyDeferred),
    ("definition", designExpression.dump trigger.definition)]

/-- `DesignTrigger.model_validate`: the submitted metadata is discarded. -/
def DesignTrigger.read (analysis : SqlAnalysis) (document : Json) : Option DesignTrigger := do
  guard (document.Known ["id", "name", "relation_name", "timing", "events", "orientation",
    "function_name", "function_arguments", "update_columns", "referenced_columns",
    "when_expression", "transition_relations", "constraint", "deferrable", "initially_deferred",
    "definition"])
  let id ← objectId.field document "id" none
  let definition ← designExpression.field document "definition" none
  let contract ← analysis.analyzeTriggerDefinition definition
  guard contract.accepted
  pure { toTriggerContract := contract, id, definition }

/-! ### Views -/

/-- A boolean that may be null. -/
def nullableFlag : Codec (Option Bool) := .nullable .flag fun _ ↦ Json.noConfusion

/-- `DesignView.model_dump`. -/
def DesignView.dump (view : DesignView) : Json :=
  .object [("id", objectId.dump view.id), ("name", designIdentifier.dump view.name),
    ("kind", (Codec.word ViewKind).dump view.kind),
    ("definition", designExpression.dump view.definition),
    ("populate_on_create", nullableFlag.dump view.populateOnCreate)]

/-- `DesignView.valid_population_intent`: an ordinary view has none, and a materialized view is
populated when nothing else is said. -/
def populationIntent (kind : ViewKind) (populateOnCreate : Option Bool) : Option (Option Bool) :=
  match kind, populateOnCreate with
  | .view, some _ => none
  | .view, none => some none
  | .materializedView, none => some (some true)
  | .materializedView, some populate => some (some populate)

/-- `DesignView.model_validate`. -/
def DesignView.read (document : Json) : Option DesignView := do
  guard (document.Known ["id", "name", "kind", "definition", "populate_on_create"])
  let id ← objectId.field document "id" none
  let name ← designIdentifier.field document "name" none
  let kind ← (Codec.word ViewKind).field document "kind" none
  let definition ← designExpression.field document "definition" none
  let stated ← nullableFlag.field document "populate_on_create" (some none)
  let populateOnCreate ← populationIntent kind stated
  pure { id, name, kind, definition, populateOnCreate }

/-! ### Contents -/

/-- `SchemiiDesignContent.model_dump`. -/
def SchemiiDesignContent.modelDump (content : SchemiiDesignContent) : Json :=
  .object [("types", .array (content.types.map DesignType.dump)),
    ("tables", .array (content.tables.map DesignTable.codec.dump)),
    ("relationships", .array (content.relationships.map DesignRelationship.codec.dump)),
    ("functions", .array (content.functions.map DesignFunction.dump)),
    ("views", .array (content.views.map DesignView.dump)),
    ("triggers", .array (content.triggers.map DesignTrigger.dump))]

/-- `SchemiiDesignContent.model_validate`. -/
def SchemiiDesignContent.modelValidate (analysis : SqlAnalysis) (document : Json) :
    Option SchemiiDesignContent := do
  guard (document.Known ["types", "tables", "relationships", "functions", "views", "triggers"])
  let types ← document.readField (Json.readList (DesignType.read analysis) 0 5000) "types" (some [])
  let tables ← document.readField (Json.readList DesignTable.codec.read 0 10000) "tables" (some [])
  let relationships ← document.readField (Json.readList DesignRelationship.codec.read 0 20000)
    "relationships" (some [])
  let functions ← document.readField (Json.readList (DesignFunction.read analysis) 0 5000)
    "functions" (some [])
  let views ← document.readField (Json.readList DesignView.read 0 5000) "views" (some [])
  let triggers ← document.readField (Json.readList (DesignTrigger.read analysis) 0 10000)
    "triggers" (some [])
  pure { types, tables, relationships, functions, views, triggers }

/-! ### The round trip -/

/-- The metadata of a content is what its definitions say. -/
structure SchemiiDesignContent.Derived (analysis : SqlAnalysis) (content : SchemiiDesignContent) :
    Prop where
  types : ∀ type ∈ content.types,
    analysis.analyzeTypeDefinition type.definition = some type.toTypeContract
  functions : ∀ routine ∈ content.functions,
    analysis.analyzeRoutineDefinition routine.definition = some routine.toRoutineContract
  triggers : ∀ trigger ∈ content.triggers,
    analysis.analyzeTriggerDefinition trigger.definition = some trigger.toTriggerContract
  views : ∀ view ∈ content.views,
    populationIntent view.kind view.populateOnCreate = some view.populateOnCreate

theorem DesignType.read_dump {analysis : SqlAnalysis} {type found : DesignType}
    (hderived : analysis.analyzeTypeDefinition type.definition = some type.toTypeContract)
    (h : DesignType.read analysis type.dump = some found) : found = type := by
  simp only [DesignType.read, Option.bind_eq_bind, Option.bind_eq_some_iff, Option.pure_def,
    Option.some.injEq] at h
  obtain ⟨-, -, id, hid, definition, hdefinition, contract, hcontract, -, -, rfl⟩ := h
  obtain rfl := Codec.field_dump (by rfl) hid
  obtain rfl := Codec.field_dump (by rfl) hdefinition
  obtain rfl := Option.some.inj (hcontract.symm.trans hderived)
  rfl

theorem DesignFunction.read_dump {analysis : SqlAnalysis} {routine found : DesignFunction}
    (hderived : analysis.analyzeRoutineDefinition routine.definition =
      some routine.toRoutineContract)
    (h : DesignFunction.read analysis routine.dump = some found) : found = routine := by
  simp only [DesignFunction.read, Option.bind_eq_bind, Option.bind_eq_some_iff, Option.pure_def,
    Option.some.injEq] at h
  obtain ⟨-, -, id, hid, definition, hdefinition, contract, hcontract, -, -, rfl⟩ := h
  obtain rfl := Codec.field_dump (by rfl) hid
  obtain rfl := Codec.field_dump (by rfl) hdefinition
  obtain rfl := Option.some.inj (hcontract.symm.trans hderived)
  rfl

theorem DesignTrigger.read_dump {analysis : SqlAnalysis} {trigger found : DesignTrigger}
    (hderived : analysis.analyzeTriggerDefinition trigger.definition =
      some trigger.toTriggerContract)
    (h : DesignTrigger.read analysis trigger.dump = some found) : found = trigger := by
  simp only [DesignTrigger.read, Option.bind_eq_bind, Option.bind_eq_some_iff, Option.pure_def,
    Option.some.injEq] at h
  obtain ⟨-, -, id, hid, definition, hdefinition, contract, hcontract, -, -, rfl⟩ := h
  obtain rfl := Codec.field_dump (by rfl) hid
  obtain rfl := Codec.field_dump (by rfl) hdefinition
  obtain rfl := Option.some.inj (hcontract.symm.trans hderived)
  rfl

theorem DesignView.read_dump {view found : DesignView}
    (hintent : populationIntent view.kind view.populateOnCreate = some view.populateOnCreate)
    (h : DesignView.read view.dump = some found) : found = view := by
  simp only [DesignView.read, Option.bind_eq_bind, Option.bind_eq_some_iff, Option.pure_def,
    Option.some.injEq] at h
  obtain ⟨-, -, id, hid, name, hname, kind, hkind, definition, hdefinition, stated, hstated,
    populate, hpopulate, rfl⟩ := h
  obtain rfl := Codec.field_dump (by rfl) hid
  obtain rfl := Codec.field_dump (by rfl) hname
  obtain rfl := Codec.field_dump (by rfl) hkind
  obtain rfl := Codec.field_dump (by rfl) hdefinition
  obtain rfl := Codec.field_dump (by rfl) hstated
  obtain rfl := Option.some.inj (hpopulate.symm.trans hintent)
  rfl

/-! ### What was read is read again -/

theorem DesignType.read_again {analysis : SqlAnalysis} {document : Json} {type : DesignType}
    (h : DesignType.read analysis document = some type) :
    DesignType.read analysis type.dump = some type := by
  simp only [DesignType.read, Option.bind_eq_bind, Option.bind_eq_some_iff, Option.pure_def,
    Option.some.injEq] at h ⊢
  obtain ⟨-, -, id, hid, definition, hdefinition, contract, hcontract, _, haccepted, rfl⟩ := h
  have okId := Codec.accepts_of_field hid (by simp)
  have okDefinition := Codec.accepts_of_field hdefinition (by simp)
  exact ⟨(), by rfl, id, Codec.field_of_accepts okId rfl, definition,
    Codec.field_of_accepts okDefinition rfl, contract, hcontract, (), haccepted, rfl⟩

theorem DesignFunction.read_again {analysis : SqlAnalysis} {document : Json}
    {routine : DesignFunction} (h : DesignFunction.read analysis document = some routine) :
    DesignFunction.read analysis routine.dump = some routine := by
  simp only [DesignFunction.read, Option.bind_eq_bind, Option.bind_eq_some_iff, Option.pure_def,
    Option.some.injEq] at h ⊢
  obtain ⟨-, -, id, hid, definition, hdefinition, contract, hcontract, _, haccepted, rfl⟩ := h
  have okId := Codec.accepts_of_field hid (by simp)
  have okDefinition := Codec.accepts_of_field hdefinition (by simp)
  exact ⟨(), by rfl, id, Codec.field_of_accepts okId rfl, definition,
    Codec.field_of_accepts okDefinition rfl, contract, hcontract, (), haccepted, rfl⟩

theorem DesignTrigger.read_again {analysis : SqlAnalysis} {document : Json}
    {trigger : DesignTrigger} (h : DesignTrigger.read analysis document = some trigger) :
    DesignTrigger.read analysis trigger.dump = some trigger := by
  simp only [DesignTrigger.read, Option.bind_eq_bind, Option.bind_eq_some_iff, Option.pure_def,
    Option.some.injEq] at h ⊢
  obtain ⟨-, -, id, hid, definition, hdefinition, contract, hcontract, _, haccepted, rfl⟩ := h
  have okId := Codec.accepts_of_field hid (by simp)
  have okDefinition := Codec.accepts_of_field hdefinition (by simp)
  exact ⟨(), by rfl, id, Codec.field_of_accepts okId rfl, definition,
    Codec.field_of_accepts okDefinition rfl, contract, hcontract, (), haccepted, rfl⟩

theorem populationIntent_again {kind : ViewKind} {stated intent : Option Bool}
    (h : populationIntent kind stated = some intent) : populationIntent kind intent = some intent := by
  revert h
  cases kind <;> cases stated <;> simp only [populationIntent, reduceCtorEq, Option.some.injEq,
    false_implies] <;> rintro rfl <;> rfl

theorem DesignView.read_again {document : Json} {view : DesignView}
    (h : DesignView.read document = some view) : DesignView.read view.dump = some view := by
  simp only [DesignView.read, Option.bind_eq_bind, Option.bind_eq_some_iff, Option.pure_def,
    Option.some.injEq] at h ⊢
  obtain ⟨-, -, id, hid, name, hname, kind, hkind, definition, hdefinition, stated, -, populate,
    hpopulate, rfl⟩ := h
  have okId := Codec.accepts_of_field hid (by simp)
  have okName := Codec.accepts_of_field hname (by simp)
  have okKind := Codec.accepts_of_field hkind (by simp)
  have okDefinition := Codec.accepts_of_field hdefinition (by simp)
  have okPopulate : nullableFlag.Accepts populate := by
    cases populate <;> rfl
  exact ⟨(), by rfl, id, Codec.field_of_accepts okId rfl, name, Codec.field_of_accepts okName rfl,
    kind, Codec.field_of_accepts okKind rfl, definition, Codec.field_of_accepts okDefinition rfl,
    populate, Codec.field_of_accepts okPopulate rfl, populate, populationIntent_again hpopulate, rfl⟩

/-- Assumes: a list of objects was read, as a field that is empty when it is missing. -/
theorem readList_field_again {α : Type} {dump : α → Json} {read : Json → Option α} {maximum : ℕ}
    {document : Json} {name : String} {values : List α}
    (hagain : ∀ item value, read item = some value → read (dump value) = some value)
    (h : document.readField (Json.readList read 0 maximum) name (some []) = some values) :
    Json.readList read 0 maximum (.array (values.map dump)) = some values := by
  obtain ⟨fields, -, ⟨written, -, hread⟩ | ⟨-, hmissing⟩⟩ := Json.readField_eq_some h
  · exact Json.readList_stable hagain hread
  · obtain rfl := Option.some.inj hmissing
    simp [Json.readList]

theorem SchemiiDesignContent.modelValidate_again {analysis : SqlAnalysis} {document : Json}
    {content : SchemiiDesignContent} (h : modelValidate analysis document = some content) :
    modelValidate analysis content.modelDump = some content := by
  simp only [modelValidate, Option.bind_eq_bind, Option.bind_eq_some_iff, Option.pure_def,
    Option.some.injEq] at h ⊢
  obtain ⟨-, -, types, htypes, tables, htables, relationships, hrelationships, functions, hfunctions,
    views, hviews, triggers, htriggers, rfl⟩ := h
  refine ⟨(), by rfl, types, ?_, tables, ?_, relationships, ?_, functions, ?_, views, ?_, triggers,
    ?_, rfl⟩
  · exact (Json.readField_of_lookup rfl).trans
      (readList_field_again (fun _ _ ↦ DesignType.read_again) htypes)
  · exact (Json.readField_of_lookup rfl).trans
      (readList_field_again DesignTable.codec.stable htables)
  · exact (Json.readField_of_lookup rfl).trans
      (readList_field_again DesignRelationship.codec.stable hrelationships)
  · exact (Json.readField_of_lookup rfl).trans
      (readList_field_again (fun _ _ ↦ DesignFunction.read_again) hfunctions)
  · exact (Json.readField_of_lookup rfl).trans
      (readList_field_again (fun _ _ ↦ DesignView.read_again) hviews)
  · exact (Json.readField_of_lookup rfl).trans
      (readList_field_again (fun _ _ ↦ DesignTrigger.read_again) htriggers)

/-- Assumes: a content whose metadata is the derived one, and its dump is accepted. It is read
back. -/
theorem SchemiiDesignContent.modelValidate_modelDump {analysis : SqlAnalysis}
    {content found : SchemiiDesignContent} (hderived : content.Derived analysis)
    (h : modelValidate analysis content.modelDump = some found) : found = content := by
  simp only [modelValidate, Option.bind_eq_bind, Option.bind_eq_some_iff, Option.pure_def,
    Option.some.injEq] at h
  obtain ⟨-, -, types, htypes, tables, htables, relationships, hrelationships, functions, hfunctions,
    views, hviews, triggers, htriggers, rfl⟩ := h
  rw [modelDump, Json.readField_of_lookup (by rfl)] at htypes htables hrelationships
  rw [modelDump, Json.readField_of_lookup (by rfl)] at hfunctions hviews htriggers
  obtain rfl := Json.readList_dump (fun type htype _ ↦ DesignType.read_dump
    (hderived.types type htype)) htypes
  obtain rfl := Json.readList_dump (fun table _ ↦ DesignTable.codec.faithful table) htables
  obtain rfl := Json.readList_dump (fun relationship _ ↦
    DesignRelationship.codec.faithful relationship) hrelationships
  obtain rfl := Json.readList_dump (fun routine hroutine _ ↦ DesignFunction.read_dump
    (hderived.functions routine hroutine)) hfunctions
  obtain rfl := Json.readList_dump (fun view hview _ ↦ DesignView.read_dump
    (hderived.views view hview)) hviews
  obtain rfl := Json.readList_dump (fun trigger htrigger _ ↦ DesignTrigger.read_dump
    (hderived.triggers trigger htrigger)) htriggers
  rfl

/-- Dumps lose nothing: the contents that some document is read as are the ones that are read back from
their own dumps, and a dump of derived metadata is read as nothing else. -/
theorem content_round_trip (analysis : SqlAnalysis) (content : SchemiiDesignContent) :
    ((∃ document, SchemiiDesignContent.modelValidate analysis document = some content) ↔
      SchemiiDesignContent.modelValidate analysis content.modelDump = some content) ∧
    (content.Derived analysis → ∀ found,
      SchemiiDesignContent.modelValidate analysis content.modelDump = some found →
        found = content) := by
  refine ⟨⟨?_, fun hread ↦ ⟨_, hread⟩⟩, fun hderived _ hread ↦
    SchemiiDesignContent.modelValidate_modelDump hderived hread⟩
  rintro ⟨document, hread⟩
  exact SchemiiDesignContent.modelValidate_again hread

end Schemii.Designs
