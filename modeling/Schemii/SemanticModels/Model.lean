import Schemii.Foundations.BreadthFirst
import Schemii.SemanticModels.Definition

/-!
# Building a model

`buildModel` is the constructor of `_Model`: it checks the nodes and the edges of a definition against
the catalog, checks the calculated sources (`configure`) and connects them by edges of their own
(`attach`). The undirected graph of the enabled edges (`Model.graph`) is what every search of the
compiler runs on: `Model.cycles` searches it once per edge, `Model.traverse` from the root.
-/

set_option autoImplicit false

namespace Schemii.SemanticModels

open Foundations
open Foundations.BreadthFirst

/-! ### Types of columns -/

/-- Runs of white space as one space. -/
def collapseSpaces : List Char → List Char
  | [] => []
  | c :: rest =>
    if Designs.isSpace c then
      if (rest.head?.any Designs.isSpace) then collapseSpaces rest else ' ' :: collapseSpaces rest
    else c :: collapseSpaces rest

/-- What follows a type modifier, one or two numbers in brackets. -/
def afterModifier (text : List Char) : Option (List Char) :=
  let number (rest : List Char) : Option (List Char) :=
    let digits := (rest.dropWhile (· == ' ')).takeWhile Char.isDigit
    if digits.isEmpty then none
    else some (((rest.dropWhile (· == ' ')).drop digits.length).dropWhile (· == ' '))
  match text with
  | '(' :: rest =>
    match number rest with
    | some (')' :: after) => some after
    | some (',' :: second) =>
      match number second with
      | some (')' :: after) => some after
      | _ => none
    | _ => none
  | _ => none

/-- A text without its type modifiers. -/
def dropModifiers : ℕ → List Char → List Char
  | 0, text => text
  | _ + 1, [] => []
  | rounds + 1, c :: rest =>
    match afterModifier (c :: rest) with
    | some after => dropModifiers rounds after
    | none => c :: dropModifiers rounds rest

/-- `_ALIASES`. -/
def typeAliases : List (String × String) :=
  [("int2", "smallint"), ("int4", "integer"), ("int", "integer"), ("int8", "bigint"),
    ("decimal", "numeric"), ("float4", "real"), ("float8", "double precision"),
    ("varchar", "character varying"), ("bool", "boolean"),
    ("timestamp", "timestamp without time zone"), ("timestamptz", "timestamp with time zone"),
    ("time", "time without time zone"), ("timetz", "time with time zone")]

/-- `_NUMERIC`. -/
def numericTypes : List String :=
  ["smallint", "integer", "bigint", "numeric", "real", "double precision"]

/-- `_EQUALITY`. -/
def equalityTypes : List String :=
  numericTypes ++ ["text", "character varying", "character", "boolean", "uuid", "date",
    "timestamp without time zone", "timestamp with time zone", "time without time zone",
    "time with time zone", "interval", "bytea", "jsonb", "inet", "cidr", "macaddr", "macaddr8", "bit",
    "bit varying", "money", "oid"]

variable (python : Interpreter)

/-- `normalized_type`. -/
def normalizedType (value : String) : String :=
  let text := collapseSpaces (python.lower (String.ofList (strip value.toList))).toList
  let bare := String.ofList (strip (dropModifiers text.length text))
  (typeAliases.lookup bare).getD bare

/-- `comparable_types`. -/
def comparableTypes (left right : String) : Bool :=
  let left := normalizedType python left
  let right := normalizedType python right
  equalityTypes.contains left && equalityTypes.contains right &&
    (left == right || numericTypes.contains left && numericTypes.contains right ||
      ["text", "character varying"].contains left && ["text", "character varying"].contains right)

/-- A type as messages name it. -/
def typeOrUnknown (type : String) : String := if type.isEmpty then "unknown" else type

/-- `validate_join_types`. -/
def validateJoinTypes (left right : String) : Except ModelError Unit :=
  check (comparableTypes python left right)
    s!"Connection columns must have comparable types without casts ({typeOrUnknown left} and {typeOrUnknown right})."

/-- A type without what follows its first bracket, in lower case. -/
def baseType (type : String) : String :=
  String.ofList (strip ((python.lower type).toList.takeWhile (· != '(')))

/-- `NUMERIC_TYPES`. -/
def summableTypes : List String :=
  ["smallint", "integer", "bigint", "decimal", "numeric", "real", "double precision", "int2", "int4",
    "int8", "float4", "float8"]

/-- `type_family`. -/
def typeFamily (type : String) : String :=
  let value := baseType python type
  if summableTypes.contains value then "numeric"
  else if ["text", "varchar", "character varying", "char", "character"].contains value then "text"
  else value

/-! ### Models -/

/-- An edge of a model, between columns of its two nodes. -/
structure Edge where
  id : String
  kind : EdgeKind
  source : String
  target : String
  sourceColumn : String
  targetColumn : String
  derived : Bool
  enabled : Bool
  deriving DecidableEq, Repr

/-- `_Model`. -/
structure Model where
  catalog : Catalog
  nodes : Dictionary String Node
  edges : Dictionary String Edge

/-- `model.derived`. -/
def Model.derived? (model : Model) (node : String) : Option Derivation :=
  (model.nodes.get? node).bind Node.derivation

/-- A node is a calculated source. -/
def Model.isDerived (model : Model) (node : String) : Bool := (model.derived? node).isSome

/-- `model.table_details[model.nodes[node]["table"]]`. -/
def Model.table? (model : Model) (node : String) : Option Table :=
  (model.nodes.get? node).bind fun found ↦ model.catalog.table? found.table

/-- `model.column_details[model.nodes[node]["table"]][column]`. -/
def Model.column? (model : Model) (node column : String) : Option Column :=
  (model.table? node).bind fun table ↦ table.column? column

/-- The type of a column of a node's table. -/
def Model.dataType (model : Model) (node column : String) : String :=
  ((model.column? node column).map Column.dataType).getD ""

/-- `model.columns`. -/
def Model.columns (model : Model) (node : String) : List String :=
  match model.derived? node with
  | some definition => definition.groupBy ++ definition.outputs.map DerivedOutput.id
  | none => ((model.table? node).map fun table ↦ table.columns.map Column.name).getD []

/-- The label of a node. -/
def Model.label (model : Model) (node : String) : String :=
  ((model.nodes.get? node).bind Node.label).getD node

/-- `model.graph`: the steps out of a node over the enabled edges. -/
def Model.graph (model : Model) (node : String) : List (String × String) :=
  model.edges.values.flatMap fun edge ↦
    if edge.enabled then
      (if edge.source = node then [(edge.target, edge.id)] else []) ++
        (if edge.target = node then [(edge.source, edge.id)] else [])
    else []

/-- `_traverse_model`. -/
def Model.traverse (model : Model) (start : String) : Parents String String :=
  search model.graph model.nodes.size start

/-- The steps of the join path from the start of a traversal to a node. -/
def Model.path (model : Model) (start node : String) : List (String × String) :=
  climb (model.traverse start) model.nodes.size node

/-- `cycles`: an edge whose ends are still connected without it. -/
def Model.cycles (model : Model) : List String :=
  (model.edges.values.filter fun edge ↦
    edge.enabled &&
      met (search (fun node ↦ (model.graph node).filter fun step ↦ step.2 != edge.id)
        model.nodes.size edge.source) edge.target).map Edge.id

/-! ### Checks of fields and conditions -/

/-- `validate` of a field. -/
def Model.validateField (model : Model) (node column : String) : Except ModelError Unit := do
  check (node != "" && column != "") "Choose a source column for each field or filter condition."
  check (model.nodes.contains node && (model.columns node).contains column)
    s!"Unknown model field: {node}.{column}."

/-- The comparison of a condition with a column, as `Condition` and `validate` check it. -/
def Model.validateComparison (model : Model) (condition : Condition) (compare : String) :
    Except ModelError Unit := do
  check condition.operator.isComparison
    "Column comparisons require equals, not equals, or an ordering comparison."
  check (condition.parameterId.isNone && condition.value == .null && condition.domain.isNone)
    "Choose either a comparison column, a fixed value, or a parameter; column comparisons do not use domain values."
  check (!condition.today) "Choose either Today or a comparison column, not both."
  check (!model.isDerived condition.table && (model.column? condition.table compare).isSome)
    s!"Unknown physical comparison column on this source: {condition.table}.{compare}."
  let left := model.dataType condition.table condition.column
  let right := model.dataType condition.table compare
  check (comparableTypes python left right)
    s!"Comparison columns must have comparable types without casts ({typeOrUnknown left} and {typeOrUnknown right})."

/-- `validate` of a condition. -/
def Model.validateCondition (model : Model) (condition : Condition) : Except ModelError Unit := do
  model.validateField condition.table condition.column
  match condition.compareColumn with
  | some compare => model.validateComparison python condition compare
  | none => pure ()
  if condition.operator = .rangeContainsDate then
    check (!model.isDerived condition.table &&
        python.lower (model.dataType condition.table condition.column) == "daterange")
      "Contains date requires a PostgreSQL daterange source column."

end Schemii.SemanticModels
