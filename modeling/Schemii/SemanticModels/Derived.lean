import Schemii.SemanticModels.Model

/-!
# Calculated sources

`configure` checks the derivations of a model's nodes against the catalog. A row calculation inlines
at its source; a summary groups the records of its source and is connected to one record of its
target: the columns it is connected by hold a key of the target (`SummaryKeyed`).
-/

set_option autoImplicit false

namespace Schemii.SemanticModels

open Foundations

variable (python : Interpreter)

/-- `unique_keys`: the keys of a node's table that no `NULL` escapes. -/
def Model.uniqueKeys (model : Model) (node : String) : List (List String) :=
  match model.table? node with
  | some table =>
    (table.uniqueKeys.filter fun key ↦
        !key.isEmpty && key.all fun column ↦ (table.column? column).any fun found ↦ !found.nullable) ++
      if table.primaryKey.isEmpty then [] else [table.primaryKey]
  | none => []

/-! ### Conditions of outputs -/

/-- A member of a condition's value can be read as its column's type. -/
def validMember (dataType : String) (member : Scalar) : Bool :=
  if summableTypes.contains dataType then
    match member with
    | .boolean _ => false
    | _ => python.isNumber member
  else if dataType = "date" then python.isDate member
  else if dataType = "uuid" then python.isUuid member
  else true

/-- The members of a condition's value. -/
def Condition.members (condition : Condition) : Except ModelError (List Scalar) :=
  match condition.operator, condition.value with
  | .isIn, .many (first :: rest) => .ok (first :: rest)
  | .notIn, .many (first :: rest) => .ok (first :: rest)
  | .isIn, _ => valueError "Calculated-field IN conditions require at least one fixed value."
  | .notIn, _ => valueError "Calculated-field IN conditions require at least one fixed value."
  | _, .one value => .ok [value]
  | _, _ =>
    valueError "Calculated-field comparisons require one fixed value; use a NULL check or IN when appropriate."

/-- A text with a null byte. -/
def hasNull : Scalar → Bool
  | .text value => value.contains (Char.ofNat 0)
  | _ => false

/-- `validate_conditions`, of the value of a condition on a node's column. -/
def Model.validateValue (model : Model) (condition : Condition) : Except ModelError Unit := do
  let dataType := baseType python (model.dataType condition.table condition.column)
  if condition.operator = .isNull ∨ condition.operator = .notNull then pure ()
  else
    let members ← condition.members
    check (condition.operator != .contains || members.all fun member ↦
        match member with
        | .text _ => true
        | _ => false)
      "Contains conditions require a text value."
    members.forM fun member ↦ do
      check (!hasNull member) "Condition values cannot contain null bytes."
      check (validMember python dataType member)
        s!"The condition on {model.label condition.table}.{condition.column} requires a valid {dataType} value."

/-- `validate_conditions`, of the value list of a condition. -/
def Model.validateConditionDomain (model : Model) (condition : Condition) (domain : DomainValues) :
    Except ModelError Unit := do
  let physical := ((model.nodes.get? condition.table).map Node.table).getD ""
  check (domain.nodeId.getD condition.table == condition.table &&
      (domain.table == "" || domain.table == physical) && domain.column == condition.column)
    "The calculated condition's domain must use its own source column."
  check (domain.labelColumn == "" || (model.columns condition.table).contains domain.labelColumn)
    "The calculated condition's domain display label is not a source column."

/-- `validate_conditions`, of one condition of an output. -/
def Model.validateOutputCondition (model : Model) (owner : String) (kind : DerivationKind)
    (condition : Condition) : Except ModelError Unit := do
  let node := condition.table
  check (model.nodes.contains node && !model.isDerived node &&
      (model.columns node).contains condition.column)
    "A calculated-field condition references an unknown physical model field."
  check (kind != .row || node == owner)
    "Row calculation conditions must use fields on the owning source."
  if condition.compareColumn.isSome then model.validateCondition python condition
  else if condition.today then
    let dataType := baseType python (model.dataType node condition.column)
    check (dataType == "" || dataType == "date" || "timestamp".toList.isPrefixOf dataType.toList)
      "Today conditions require a date or timestamp source column."
  else
    match condition.domain with
    | some domain => model.validateConditionDomain condition domain
    | none => pure ()
    model.validateValue python condition

/-! ### Derivations -/

/-- The node of the field that an output reads. -/
def DerivedOutput.contributor (output : DerivedOutput) (source : String) : String :=
  output.nodeId.getD source

/-- A physical node of the model. -/
def Model.isPhysical (model : Model) (node : String) : Bool :=
  model.nodes.contains node && !model.isDerived node

/-- `configure`, of the connection of a summary. -/
def Model.configureConnection (model : Model) (definition : Derivation)
    (connection : SummaryConnection) : Except ModelError Unit := do
  check (definition.kind == .aggregate) "Only aggregate summaries have a model connection."
  check (model.isPhysical connection.target)
    "Choose a physical model object as the summary connection target."
  let sources := connection.columns.map SummaryConnectionColumn.source
  let targets := connection.columns.map SummaryConnectionColumn.target
  check (sources.length == definition.groupBy.length && sources.all definition.groupBy.contains &&
      definition.groupBy.all sources.contains)
    "The summary connection must map every grouping key exactly once."
  check (decide targets.Nodup && targets.all (model.columns connection.target).contains)
    "Choose distinct, existing target columns for the summary connection."
  check ((model.uniqueKeys connection.target).any fun key ↦ key.all targets.contains)
    "The summary connection must include the target's complete primary key or a nonnullable unique key."
  connection.columns.forM fun item ↦ do
    let sourceType := typeFamily python (model.dataType definition.source item.source)
    let targetType := typeFamily python (model.dataType connection.target item.target)
    check (sourceType == "" || targetType == "" || sourceType == targetType)
      "Summary connection columns must have compatible data types."

/-- `configure`, of an output of a derivation. -/
def Model.configureOutput (model : Model) (definition : Derivation) (output : DerivedOutput) :
    Except ModelError Unit := do
  let contributor := output.contributor definition.source
  check (model.isPhysical contributor) "Calculated outputs must reference physical model fields."
  check ((model.columns contributor).contains output.column)
    "A calculated output references an unknown source column."
  output.conditions.forM (model.validateOutputCondition python definition.source definition.kind)
  let operation := output.operation
  let numeric := if operation.isArithmetic ∨ operation = .sum ∨ operation = .avg then [output.column]
    else []
  let operands := if operation.isArithmetic then output.operand.toList.filter (· != "") else []
  (numeric ++ operands).forM fun column ↦ do
    let kind := baseType python (model.dataType contributor column)
    check (kind == "" || summableTypes.contains kind)
      s!"{operation.name} requires numeric columns; {model.label contributor}.{column} has type {kind}."
  match definition.kind with
  | .row =>
    check (contributor == definition.source && operation.isArithmetic)
      "Row calculations currently combine two numeric fields on their owning source."
    check (output.operand.any (model.columns definition.source).contains)
      "Choose a second source column for this row calculation."
  | .aggregate =>
    check (!operation.isArithmetic && output.operand.all (· == ""))
      "Aggregate sources accept list, count, sum, average, minimum, or maximum outputs."

/-- `configure`, of one node. -/
def Model.configureNode (model : Model) (node : Node) (definition : Derivation) :
    Except ModelError Unit := do
  let source := definition.source
  check (model.isPhysical source)
    "Choose a physical model object as the calculation source; nested derived sources are not supported yet."
  check ((model.nodes.get? source).any fun found ↦ found.table == node.table)
    "A derived source must reference its calculation source's physical table."
  check (decide definition.groupBy.Nodup && definition.groupBy.all (model.columns source).contains)
    "Choose distinct, existing source columns for the grouping keys."
  check (definition.kind == .row || !definition.groupBy.isEmpty)
    "An aggregate source requires at least one grouping key."
  match definition.connection with
  | some connection => model.configureConnection python definition connection
  | none =>
    check (definition.kind == .row ||
        (model.uniqueKeys source).any fun key ↦ key.all definition.groupBy.contains)
      "Grouping must include the owner's complete primary key or a nonnullable unique key, so each summary belongs to one owner record."
  check (definition.kind == .aggregate || definition.groupBy.isEmpty)
    "Row calculations do not have grouping keys."
  let outputs := definition.outputs.map DerivedOutput.id
  check (decide outputs.Nodup && outputs.all fun id ↦ !definition.groupBy.contains id)
    "Calculated outputs need unique IDs distinct from grouping keys."
  definition.outputs.forM (model.configureOutput python definition)

/-- `configure`. -/
def Model.configure (model : Model) : Except ModelError Unit :=
  model.nodes.values.forM fun node ↦
    match node.derivation with
    | some definition => model.configureNode python node definition
    | none => pure ()

end Schemii.SemanticModels
