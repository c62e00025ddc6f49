import Schemii.Designs.Validation
import Schemii.Foundations.Dictionary
import Schemii.SemanticModels.SqlEncoding

/-!
# Catalogs and definitions of semantic models

A semantic model names sources of a live catalog (`Node`), connects them by foreign keys or by
authored columns (`EdgeItem`), adds calculated sources (`Derivation`) and rules (`Scope`). A query
request is a definition together with the fields, selections and filters of one preview
(`Request`). The shapes of the dictionaries are those of the types; what the compiler checks of a
dictionary beyond its shape is checked where the source checks it.

The functions of the interpreter that read texts beyond ASCII, numbers, dates and identifiers are
the parameter `Interpreter`.
-/

set_option autoImplicit false

namespace Schemii.SemanticModels

open Foundations
open Designs (isSpace)

/-! ### Catalogs -/

/-- A column of a relation of the catalog. -/
structure Column where
  name : String
  dataType : String
  nullable : Bool
  deriving DecidableEq, Repr

/-- A relation of the catalog. -/
structure Table where
  name : String
  columns : List Column
  primaryKey : List String
  uniqueKeys : List (List String)
  deriving DecidableEq, Repr

/-- A foreign key of the catalog, over one column. -/
structure Relationship where
  id : String
  sourceTable : String
  sourceColumn : String
  targetTable : String
  targetColumn : String
  deriving DecidableEq, Repr

/-- The catalog of one namespace. A live namespace has one relation of a name. -/
structure Catalog where
  «namespace» : String
  tables : List Table
  relationships : List Relationship
  deriving DecidableEq, Repr

/-- `table_details`. -/
def Catalog.table? (catalog : Catalog) (name : String) : Option Table :=
  catalog.tables.find? (·.name = name)

/-- `column_details`. -/
def Table.column? (table : Table) (name : String) : Option Column :=
  table.columns.find? (·.name = name)

/-- `catalog_edges`. -/
def Catalog.relationship? (catalog : Catalog) (id : String) : Option Relationship :=
  catalog.relationships.find? (·.id = id)

/-! ### Conditions -/

/-- The value of a condition: none, one, or a list. -/
inductive FilterValue
  | null
  | one (value : Scalar)
  | many (values : List Scalar)
  deriving DecidableEq, Repr

/-- The operators of conditions. -/
inductive Operator
  | eq
  | ne
  | gt
  | gte
  | lt
  | lte
  | contains
  | rangeContainsDate
  | isIn
  | notIn
  | isNull
  | notNull
  deriving DecidableEq, Repr

/-- An equality or an ordering. -/
def Operator.isComparison : Operator → Bool
  | .eq | .ne | .gt | .gte | .lt | .lte => true
  | _ => false

/-- `DomainValues`. -/
structure DomainValues where
  nodeId : Option String
  table : String
  column : String
  labelColumn : String
  deriving DecidableEq, Repr

/-- `Condition`, and `DerivedCondition` with a value that may be today's date. -/
structure Condition where
  table : String
  column : String
  operator : Operator
  parameterId : Option String
  compareColumn : Option String
  value : FilterValue
  allowNull : Bool
  domain : Option DomainValues
  today : Bool
  deriving DecidableEq, Repr

/-! ### Calculated sources -/

/-- The operations of calculated outputs. -/
inductive Operation
  | add
  | subtract
  | multiply
  | divide
  | list
  | count
  | countDistinct
  | sum
  | avg
  | min
  | max
  deriving DecidableEq, Repr

/-- `ARITHMETIC`; the other operations are the `AGGREGATES`. -/
def Operation.isArithmetic : Operation → Bool
  | .add | .subtract | .multiply | .divide => true
  | _ => false

/-- The name of an operation. -/
def Operation.name : Operation → String
  | .add => "add"
  | .subtract => "subtract"
  | .multiply => "multiply"
  | .divide => "divide"
  | .list => "list"
  | .count => "count"
  | .countDistinct => "count_distinct"
  | .sum => "sum"
  | .avg => "avg"
  | .min => "min"
  | .max => "max"

/-- `DerivedOutput`. -/
structure DerivedOutput where
  id : String
  label : String
  operation : Operation
  nodeId : Option String
  column : String
  operand : Option String
  distinct : Bool
  delimiter : String
  conditions : List Condition
  deriving DecidableEq, Repr

/-- `SummaryConnectionColumn`. -/
structure SummaryConnectionColumn where
  source : String
  target : String
  deriving DecidableEq, Repr

/-- `SummaryConnection`. -/
structure SummaryConnection where
  target : String
  columns : List SummaryConnectionColumn
  deriving DecidableEq, Repr

/-- The kinds of calculated sources. -/
inductive DerivationKind
  | row
  | aggregate
  deriving DecidableEq, Repr

/-- `Derivation`. -/
structure Derivation where
  kind : DerivationKind
  source : String
  groupBy : List String
  connection : Option SummaryConnection
  outputs : List DerivedOutput
  deriving DecidableEq, Repr

/-- `ModelNode`. Older drafts have no label. -/
structure Node where
  id : String
  table : String
  label : Option String
  derivation : Option Derivation
  deriving DecidableEq, Repr

/-! ### Definitions and requests -/

/-- The kinds of relationships. -/
inductive EdgeKind
  | foreignKey
  | logical
  deriving DecidableEq, Repr

/-- `ModelEdge`. -/
structure EdgeItem where
  id : String
  relationshipId : Option String
  kind : EdgeKind
  source : String
  target : String
  sourceColumn : Option String
  targetColumn : Option String
  enabled : Bool
  deriving DecidableEq, Repr

/-- `ParameterInput`. -/
structure ParameterInput where
  id : String
  label : String
  type : String
  defaultValue : FilterValue
  domain : Option DomainValues
  deriving DecidableEq, Repr

/-- `ScopeAlternative`. -/
structure ScopeAlternative where
  id : String
  inputs : List ParameterInput
  conditions : List Condition
  deriving DecidableEq, Repr

/-- How a scope treats rows without a match. -/
inductive RowBehavior
  | keepUnmatched
  | requireMatching
  deriving DecidableEq, Repr

/-- The reach of a scope: always evaluated, or with the sources of its conditions. -/
inductive ScopeKind
  | required
  | conditional
  deriving DecidableEq, Repr

/-- Whether a preview must apply a scope. -/
inductive Requirement
  | required
  | optional
  deriving DecidableEq, Repr

/-- `ModelScope`. -/
structure Scope where
  id : String
  label : String
  kind : ScopeKind
  requirement : Requirement
  rowBehavior : Option RowBehavior
  alternatives : List ScopeAlternative
  deriving DecidableEq, Repr

/-- The aggregations of a field. -/
inductive Aggregate
  | none
  | count
  | countDistinct
  | sum
  | avg
  | min
  | max
  deriving DecidableEq, Repr

/-- `SelectedField`. -/
structure SelectedField where
  table : String
  column : String
  aggregate : Aggregate
  deriving DecidableEq, Repr

/-- `ModelDefinition`. -/
structure ModelDefinition where
  root : String
  nodes : List Node
  edges : List EdgeItem
  scopes : List Scope
  exposedFields : Option (List SelectedField)
  deriving DecidableEq, Repr

/-- `ScopeSelection`. -/
structure ScopeSelection where
  alternativeId : Option String
  values : List (String × FilterValue)
  active : Bool
  deriving DecidableEq, Repr

/-- The modes of a report filter. -/
inductive ReportMode
  | rows
  | «exists»
  | notExists
  deriving DecidableEq, Repr

/-- `ReportFilter`. -/
structure ReportFilter where
  mode : ReportMode
  conditions : List Condition
  deriving DecidableEq, Repr

/-- A query request: a definition and the inputs of a preview. -/
structure Request where
  root : String
  nodes : List Node
  edges : List EdgeItem
  scopes : List Scope
  fields : List SelectedField
  limit : ℕ
  filters : List Condition
  reportFilters : List ReportFilter
  selections : List (String × ScopeSelection)
  deriving DecidableEq, Repr

/-! ### The interpreter -/

/-- What the interpreter knows about texts: letters beyond ASCII, numbers, dates and identifiers. -/
structure Interpreter where
  lower : String → String
  casefold : String → String
  /-- `float` accepts a value and the number is finite. -/
  isNumber : Scalar → Bool
  /-- `date.fromisoformat` accepts a value. -/
  isDate : Scalar → Bool
  /-- `UUID` accepts the text of a value. -/
  isUuid : Scalar → Bool

/-- `ValueError`, and `ModelValidationError` with what it points at. -/
structure ModelError where
  message : String
  cycleEdges : List String := []
  unreachableNodes : List String := []
  suggestedRoot : Option (String × String) := none
  scopeId : Option String := none
  alternativeId : Option String := none
  conditionIndex : Option ℕ := none
  deriving DecidableEq, Repr

/-- A `ValueError`. -/
def valueError {α : Type} (message : String) : Except ModelError α := .error { message := message }

/-- A check that raises a `ValueError`. -/
def check (holds : Bool) (message : String) : Except ModelError Unit :=
  if holds then .ok () else valueError message

/-- A check that raises an error of its own. -/
def require {ε : Type} (holds : Bool) (problem : ε) : Except ε Unit :=
  if holds then .ok () else .error problem

@[simp] theorem require_eq_ok {ε : Type} {holds : Bool} {problem : ε} {result : Unit} :
    require holds problem = .ok result ↔ holds = true := by
  cases holds <;> simp [require]

@[simp] theorem check_eq_ok {holds : Bool} {message : String} {result : Unit} :
    check holds message = .ok result ↔ holds = true := by
  cases holds <;> simp [check, valueError]

/-- `str.strip`. -/
def strip (text : List Char) : List Char :=
  ((text.dropWhile isSpace).reverse.dropWhile isSpace).reverse

end Schemii.SemanticModels
