import Schemii.SemanticModels.Construction

/-!
# Checking a definition

`validateDefinition` checks what a definition refers to, without the inputs of a report: its model can
be built, its starting object is physical, it has no cycles, and its exposed fields and the conditions
of its scopes name fields of the model.
-/

set_option autoImplicit false

namespace Schemii.SemanticModels

variable (python : Interpreter)

/-- `domain_table`. -/
def domainTable (domain : DomainValues) (nodes : List Node) : Except ModelError String :=
  match domain.nodeId with
  | none => .ok domain.table
  | some id =>
    match nodes.find? (·.id = id) with
    | some node => .ok node.table
    | none => valueError "The domain source alias was removed. Choose a new domain value column."

/-- A condition of a scope, with the inputs it may be bound to. -/
def Model.validateScopeCondition (model : Model) (inputs : List String) (condition : Condition) :
    Except ModelError Unit := do
  model.validateCondition python condition
  check (!model.isDerived condition.table) "Filter calculated source fields, not calculated outputs."
  check (condition.parameterId.all inputs.contains)
    "The condition references an unknown parameter input."

/-- The value list of an input or a condition of a scope. -/
def Model.validateDomain (model : Model) (scope alternative : String) (domain : DomainValues) :
    Except ModelError Unit := do
  let table ← domainTable domain model.nodes.values
  let columns := ((model.catalog.table? table).map fun found ↦ found.columns.map Column.name).getD []
  require (columns.contains domain.column &&
      (domain.labelColumn == "" || columns.contains domain.labelColumn))
    { message := "The domain references an unknown source column or display label."
      scopeId := some scope, alternativeId := some alternative }

/-- An alternative of a scope. -/
def Model.validateAlternative (model : Model) (scope : String) (alternative : ScopeAlternative) :
    Except ModelError Unit := do
  let inputs := alternative.inputs.map ParameterInput.id
  require (decide inputs.Nodup)
    { message := "Parameter input IDs must be unique within an alternative."
      scopeId := some scope, alternativeId := some alternative.id }
  alternative.conditions.zipIdx.forM fun (condition, index) ↦
    match model.validateScopeCondition python inputs condition with
    | .ok _ => pure ()
    | .error problem => .error
      { message := problem.message, scopeId := some scope, alternativeId := some alternative.id
        conditionIndex := some index }
  (alternative.inputs.filterMap ParameterInput.domain ++
    alternative.conditions.filterMap Condition.domain).forM
      (model.validateDomain scope alternative.id)

/-- A scope. -/
def Model.validateScope (model : Model) (scope : Scope) : Except ModelError Unit := do
  let alternatives := scope.alternatives.map ScopeAlternative.id
  require (!alternatives.isEmpty && decide alternatives.Nodup)
    { message := "A model filter needs alternatives with unique IDs.", scopeId := some scope.id }
  scope.alternatives.forM (model.validateAlternative python scope.id)

/-- `validate_definition`. -/
def validateDefinition (catalog : Catalog) (definition : ModelDefinition) : Except ModelError Unit := do
  let model ← buildModel python catalog definition.nodes definition.edges
  check (model.isPhysical definition.root)
    "Choose a known physical model object as the starting object."
  require model.cycles.isEmpty
    { message := "Enabled relationships contain cycles or ambiguous paths. Disable cycle edges or create separate aliases."
      cycleEdges := model.cycles }
  (definition.exposedFields.getD []).forM fun field ↦ model.validateField field.table field.column
  definition.scopes.forM (model.validateScope python)

end Schemii.SemanticModels
