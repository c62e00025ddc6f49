import Schemii.SemanticModels.DefinitionChecks

/-!
# Exposed fields and their edits

A definition without a list of exposed fields exposes every field; the gate of `plan_query` refuses
the others (`exposureGate`). `patchModelDefinition` merges an edit of a saved definition. When it hides
a field of a definition without a list, it writes the list down first (`materializedFields`), and
leaves out the columns that summaries are grouped by.

* `exposes_patched`: what a patched definition exposes.
* `hides_only_iff`: an edit hides exactly the fields it names, unless it writes the list down and
  forgets a grouping column.
-/

set_option autoImplicit false

namespace Schemii.SemanticModels

open Foundations

variable (python : Interpreter)

/-- `ApiProblem` and `ModelConflictError`. -/
structure ApiProblem where
  status : ℕ
  code : String
  message : String
  details : Option ModelError := none
  fields : List (String × String) := []
  currentRevision : Option ℕ := none
  deriving DecidableEq, Repr

/-- The node and the column of a field. -/
def SelectedField.key (field : SelectedField) : String × String := (field.table, field.column)

/-! ### The gate of queries -/

/-- `ExploreState`: the inputs of one query. -/
structure ExploreState where
  root : String
  fields : List SelectedField
  selections : List (String × ScopeSelection)
  reportFilters : List ReportFilter
  limit : ℕ
  deriving DecidableEq, Repr

/-- The fields that a query asks for: its outputs, the columns of its filters, and those they are
compared with. -/
def ExploreState.requested (query : ExploreState) : List (String × String) :=
  let conditions := query.reportFilters.flatMap ReportFilter.conditions
  query.fields.map SelectedField.key ++ conditions.map (fun condition ↦ (condition.table, condition.column)) ++
    conditions.filterMap fun condition ↦ condition.compareColumn.map fun compare ↦ (condition.table, compare)

/-- A definition exposes a field. -/
def ModelDefinition.exposes (definition : ModelDefinition) (field : String × String) : Bool :=
  definition.exposedFields.all fun exposed ↦ (exposed.map SelectedField.key).contains field

/-- The requested fields that are not exposed, each once. -/
def ModelDefinition.hidden (definition : ModelDefinition) (query : ExploreState) :
    List (String × String) :=
  (query.requested.filter fun field ↦ !definition.exposes field).reverse.dedup.reverse

/-- The gate of `plan_query`. -/
def exposureGate (definition : ModelDefinition) (query : ExploreState) : Except ApiProblem Unit :=
  let hidden := definition.hidden query
  if hidden.isEmpty then .ok ()
  else
    let labels := ", ".intercalate (hidden.map fun field ↦ field.1 ++ "." ++ field.2)
    .error
      { status := 422
        code := "field_not_exposed"
        message := s!"These preview fields or report filters are not exposed by this model: {labels}. Expose them in the model or remove them from the preview."
        fields := hidden }

/-! ### Edits -/

/-- The edits of the nodes, edges or scopes of a definition. -/
structure Changes (α : Type) where
  upsert : List α
  remove : List String
  deriving DecidableEq, Repr

/-- `ModelPatch`. -/
structure ModelPatch where
  expectedRevision : ℕ
  name : Option String
  root : Option String
  nodes : Changes Node
  edges : Changes EdgeItem
  scopes : Changes Scope
  expose : List SelectedField
  hide : List SelectedField
  deriving DecidableEq, Repr

/-- A saved model. -/
structure SavedModel where
  revision : ℕ
  name : String
  definition : ModelDefinition
  deriving DecidableEq, Repr

/-- The records after an edit: the removed ones are left out, the others replaced or added. -/
def mergeItems {α : Type} (id : α → String) (items : List α) (changes : Changes α) : List α :=
  let found := Dictionary.insertAll id .empty items
  let kept := found.filter fun key _ ↦ !changes.remove.contains key
  (kept.insertAll id changes.upsert).values

/-- The removals of an edit name records of the definition. -/
def checkRemovals {α : Type} (id : α → String) (label : String) (items : List α)
    (changes : Changes α) : Except ApiProblem Unit :=
  let unknown := (changes.remove.filter fun key ↦ !(items.map id).contains key).dedup
  if unknown.isEmpty then .ok ()
  else
    let names := ", ".intercalate (unknown.mergeSort fun first second ↦ decide (first ≤ second))
    .error
      { status := 422
        code := "unknown_model_patch_id"
        message := s!"Cannot remove unknown {label}: {names}." }

/-- The names of the columns of a relation. -/
def Catalog.columnNames (catalog : Catalog) (table : String) : List String :=
  ((catalog.table? table).map fun found ↦ found.columns.map Column.name).getD []

/-- The list that stands for every field when a field is to be hidden. -/
def materializedFields (catalog : Catalog) (nodes : List Node) : List SelectedField :=
  nodes.flatMap fun node ↦
    let columns := match node.derivation with
      | some definition => definition.outputs.map DerivedOutput.id
      | none => catalog.columnNames node.table
    columns.map fun column ↦ ⟨node.id, column, .none⟩

/-- A field without its aggregation. -/
def SelectedField.plain (field : SelectedField) : SelectedField := { field with aggregate := .none }

/-- A list of exposed fields after an edit. -/
def patchExposed (exposed expose hide : List SelectedField) : List SelectedField :=
  let selected := Dictionary.insertAll SelectedField.key .empty
    (exposed ++ expose.map SelectedField.plain)
  (selected.filter fun key _ ↦ !(hide.map SelectedField.key).contains key).values

/-- The bounds of a definition, and its identifiers. -/
def ModelDefinition.valid (definition : ModelDefinition) : Bool :=
  decide (definition.root.length ≤ 200) && decide (definition.nodes.length ≤ 100) &&
    decide (definition.edges.length ≤ 200) && decide (definition.scopes.length ≤ 20) &&
    definition.exposedFields.all (fun exposed ↦ decide (exposed.length ≤ 1000) &&
      exposed.all fun field ↦ field.table != "" && decide (field.table.length ≤ 200) &&
        field.column != "" && decide (field.column.length ≤ 200)) &&
    decide (definition.nodes.map Node.id).Nodup && decide (definition.edges.map EdgeItem.id).Nodup &&
    decide (definition.scopes.map Scope.id).Nodup

/-- The definition after an edit. -/
def ModelDefinition.merged (definition : ModelDefinition) (catalog : Catalog) (patch : ModelPatch) :
    ModelDefinition :=
  let nodes := mergeItems Node.id definition.nodes patch.nodes
  let exposed := match definition.exposedFields with
    | some exposed => some exposed
    | none => if patch.hide.isEmpty then none else some (materializedFields catalog nodes)
  { root := patch.root.getD definition.root
    nodes := nodes
    edges := mergeItems EdgeItem.id definition.edges patch.edges
    scopes := mergeItems Scope.id definition.scopes patch.scopes
    exposedFields := exposed.map fun exposed ↦ patchExposed exposed patch.expose patch.hide }

/-- `validate_model_definition`. -/
def validateModelDefinition (catalog : Catalog) (definition : ModelDefinition) :
    Except ApiProblem Unit :=
  match validateDefinition python catalog definition with
  | .ok _ => .ok ()
  | .error problem => .error
    { status := 422, code := "invalid_model_definition", message := problem.message
      details := some problem }

/-- `ModelConflictError`. -/
def revisionConflict (current : ℕ) : ApiProblem :=
  { status := 409, code := "model_revision_conflict"
    message := "This model changed in another request. Reload before saving."
    currentRevision := some current }

/-- The refusal of a merged definition that is not valid. -/
def outOfBounds : ApiProblem :=
  { status := 422, code := "invalid_model_definition"
    message := "The combined model exceeds its bounds or contains invalid records." }

/-- `patch_model_definition`. -/
def patchModelDefinition (catalog : Catalog) (current : SavedModel) (patch : ModelPatch) :
    Except ApiProblem SavedModel := do
  require (patch.expectedRevision == current.revision) (revisionConflict current.revision)
  let definition := current.definition
  checkRemovals Node.id "nodes" definition.nodes patch.nodes
  checkRemovals EdgeItem.id "edges" definition.edges patch.edges
  checkRemovals Scope.id "scopes" definition.scopes patch.scopes
  let merged := definition.merged catalog patch
  require merged.valid outOfBounds
  -- Fields that are exposed without a list are checked too.
  validateModelDefinition python catalog
    { merged with exposedFields := some (merged.exposedFields.getD [] ++ patch.expose) }
  pure
    { revision := current.revision + 1, name := patch.name.getD current.name, definition := merged }

/-! ### What is exposed -/

variable {python} {catalog : Catalog} {definition : ModelDefinition} {patch : ModelPatch}
  {field : String × String}

theorem exposureGate_eq_ok {query : ExploreState} :
    exposureGate definition query = .ok () ↔ ∀ field ∈ query.requested, definition.exposes field := by
  rw [exposureGate]
  split_ifs with hempty
  · have hnone : definition.hidden query = [] := List.isEmpty_iff.mp hempty
    rw [ModelDefinition.hidden, List.reverse_eq_nil_iff, List.dedup_eq_nil,
      List.reverse_eq_nil_iff, List.filter_eq_nil_iff] at hnone
    simpa using hnone
  · refine ⟨fun h ↦ (nomatch h), fun h ↦ absurd ?_ hempty⟩
    rw [List.isEmpty_iff, ModelDefinition.hidden, List.reverse_eq_nil_iff, List.dedup_eq_nil,
      List.reverse_eq_nil_iff, List.filter_eq_nil_iff]
    simpa using h

/-- The fields of a list after an edit: those of the list and those to expose, without those to hide. -/
theorem mem_patchExposed {exposed expose hide : List SelectedField} :
    field ∈ (patchExposed exposed expose hide).map SelectedField.key ↔
      (field ∈ exposed.map SelectedField.key ∨ field ∈ expose.map SelectedField.key) ∧
        field ∉ hide.map SelectedField.key := by
  let selected := Dictionary.insertAll SelectedField.key .empty (exposed ++ expose.map SelectedField.plain)
  have hkey (key : String × String) (found : SelectedField) (h : selected.get? key = some found) :
      found.key = key := by
    rcases Dictionary.get?_insertAll h with ⟨-, hkey⟩ | hempty
    · exact hkey
    · cases hempty
  have hplain : (expose.map SelectedField.plain).map SelectedField.key = expose.map SelectedField.key := by
    rw [List.map_map]
    rfl
  have hcontains : (∃ found, selected.get? field = some found) ↔
      field ∈ exposed.map SelectedField.key ∨ field ∈ expose.map SelectedField.key := by
    rw [← Dictionary.contains_iff, Dictionary.contains_insertAll, List.map_append, hplain,
      List.mem_append]
    exact or_iff_right (by simp [Dictionary.contains])
  rw [← hcontains, patchExposed, List.mem_map]
  constructor
  · rintro ⟨found, hvalue, rfl⟩
    obtain ⟨key, hget⟩ := Dictionary.mem_values.mp hvalue
    rw [Dictionary.get?_filter] at hget
    obtain ⟨hfound, hshown⟩ := Option.filter_eq_some_iff.mp hget
    obtain rfl := hkey key found hfound
    exact ⟨⟨found, hfound⟩, by simpa using hshown⟩
  · rintro ⟨⟨found, hfound⟩, hshown⟩
    refine ⟨found, Dictionary.mem_values.mpr ⟨field, ?_⟩, hkey field found hfound⟩
    rw [Dictionary.get?_filter]
    exact Option.filter_eq_some_iff.mpr ⟨hfound, by simpa using hshown⟩

variable {nodes : List Node}

/-- The list that is written down: the outputs of calculated sources and the columns of the others. -/
theorem mem_materializedFields :
    field ∈ (materializedFields catalog nodes).map SelectedField.key ↔ ∃ node ∈ nodes, node.id = field.1 ∧
      match node.derivation with
      | some definition => field.2 ∈ definition.outputs.map DerivedOutput.id
      | none => field.2 ∈ catalog.columnNames node.table := by
  obtain ⟨table, column⟩ := field
  simp only [materializedFields, List.map_flatMap, List.mem_flatMap, List.map_map, List.mem_map,
    Function.comp_apply, SelectedField.key, Prod.mk.injEq]
  refine exists_congr fun node ↦ and_congr_right fun _ ↦ ?_
  cases node.derivation with
  | none =>
    constructor
    · rintro ⟨_, hcolumn, rfl, rfl⟩
      exact ⟨rfl, hcolumn⟩
    · rintro ⟨rfl, hcolumn⟩
      exact ⟨column, hcolumn, rfl, rfl⟩
  | some definition =>
    constructor
    · rintro ⟨_, hcolumn, rfl, rfl⟩
      exact ⟨rfl, List.mem_map.mp hcolumn⟩
    · rintro ⟨rfl, hcolumn⟩
      exact ⟨column, List.mem_map.mpr hcolumn, rfl, rfl⟩

theorem exposes_merged : (definition.merged catalog patch).exposes field = true ↔
    match definition.exposedFields with
    | some exposed => (field ∈ exposed.map SelectedField.key ∨
        field ∈ patch.expose.map SelectedField.key) ∧ field ∉ patch.hide.map SelectedField.key
    | none => patch.hide = [] ∨
        (field ∈ (materializedFields catalog
            (mergeItems Node.id definition.nodes patch.nodes)).map SelectedField.key ∨
          field ∈ patch.expose.map SelectedField.key) ∧ field ∉ patch.hide.map SelectedField.key := by
  rw [ModelDefinition.exposes, ModelDefinition.merged]
  cases definition.exposedFields with
  | some exposed => simp only [Option.map_some, Option.all_some, List.contains_iff_mem, mem_patchExposed]
  | none =>
    cases hhide : patch.hide with
    | nil => simp
    | cons first rest =>
      simp only [List.isEmpty_cons, Bool.false_eq_true, if_false, Option.map_some, Option.all_some,
        List.contains_iff_mem, mem_patchExposed, reduceCtorEq, false_or]

/-! ### What an edit hides -/

/-- The model of a definition has the node of a field, and the node has its column. -/
def Known (python : Interpreter) (catalog : Catalog) (definition : ModelDefinition)
    (field : String × String) : Prop :=
  ∃ model, buildModel python catalog definition.nodes definition.edges = .ok model ∧
    model.validateField field.1 field.2 = .ok ()

/-- A query of one field. -/
def fieldQuery (field : String × String) : ExploreState :=
  { root := "", fields := [⟨field.1, field.2, .none⟩], selections := [], reportFilters := [], limit := 100 }

/-- `plan_query` accepts a field of a definition: its gate lets the field pass, and the model of the
definition has it. -/
def Accepts (python : Interpreter) (catalog : Catalog) (definition : ModelDefinition)
    (field : String × String) : Prop :=
  exposureGate definition (fieldQuery field) = .ok () ∧ Known python catalog definition field

/-- An edit hides the fields it names and no others: of the fields that were accepted and that there
are after it the others are accepted after it, and what was refused as not exposed is accepted only
when the edit exposes it. -/
def HidesOnly (python : Interpreter) (catalog : Catalog) (definition edited : ModelDefinition)
    (patch : ModelPatch) : Prop :=
  (∀ field, Accepts python catalog definition field → Known python catalog edited field →
    (Accepts python catalog edited field ↔ field ∉ patch.hide.map SelectedField.key)) ∧
  ∀ field ∉ patch.expose.map SelectedField.key,
    exposureGate definition (fieldQuery field) ≠ .ok () → ¬ Accepts python catalog edited field

/-- An edit hides a field of a definition without a list of exposed fields, and the definition has a
field of which a summary is grouped by the column, which the edit neither hides nor exposes. -/
def ForgetsGrouping (python : Interpreter) (catalog : Catalog) (definition : ModelDefinition)
    (patch : ModelPatch) : Prop :=
  definition.exposedFields = none ∧ patch.hide ≠ [] ∧
    ∃ node ∈ mergeItems Node.id definition.nodes patch.nodes, ∃ summary, node.derivation = some summary ∧
      ∃ column ∈ summary.groupBy, Known python catalog definition (node.id, column) ∧
        (node.id, column) ∉ patch.hide.map SelectedField.key ∧
        (node.id, column) ∉ patch.expose.map SelectedField.key

theorem gate_fieldQuery :
    exposureGate definition (fieldQuery field) = .ok () ↔ definition.exposes field = true := by
  rw [exposureGate_eq_ok]
  simp [ExploreState.requested, fieldQuery, SelectedField.key]

/-- Assumes: an edit that is accepted. The definition is the merged one, and its model can be built. -/
theorem patchModelDefinition_eq_ok {current saved : SavedModel}
    (h : patchModelDefinition python catalog current patch = .ok saved) :
    saved.definition = current.definition.merged catalog patch ∧
      ∃ model, buildModel python catalog saved.definition.nodes saved.definition.edges = .ok model := by
  simp only [patchModelDefinition, Checks.bind_eq_ok] at h
  obtain ⟨⟨⟩, -, ⟨⟩, -, ⟨⟩, -, ⟨⟩, -, ⟨⟩, -, ⟨⟩, hvalid, hsaved⟩ := h
  obtain rfl := Except.ok.inj hsaved
  refine ⟨rfl, ?_⟩
  rw [validateModelDefinition] at hvalid
  split at hvalid
  · next hchecked =>
    simp only [validateDefinition, Checks.bind_eq_ok] at hchecked
    obtain ⟨model, hmodel, -⟩ := hchecked
    exact ⟨model, hmodel⟩
  · cases hvalid

variable {edges : List EdgeItem} {model : Model}

theorem Built.mem_columns
    (h : Built python catalog nodes edges model) {node : Node} (hnode : node ∈ nodes) {column : String} :
    column ∈ model.columns node.id ↔
      match node.derivation with
      | some definition => column ∈ definition.groupBy ∨ column ∈ definition.outputs.map DerivedOutput.id
      | none => column ∈ catalog.columnNames node.table := by
  have hget : model.nodes.get? node.id = some node.labelled := h.get?_node.mpr ⟨node, hnode, rfl, rfl⟩
  have hderived : model.derived? node.id = node.derivation := by rw [Model.derived?, hget]; rfl
  cases hderivation : node.derivation with
  | none =>
    rw [hderivation] at hderived
    simp [Model.columns, hderived, Model.table?, hget, h.catalog_eq, Catalog.columnNames, Node.labelled]
  | some definition =>
    rw [hderivation] at hderived
    simp [Model.columns, hderived]

/-- Assumes: an edit whose definition has a model with the field. The field is on the list that stands
for every field, or a summary is grouped by its column. -/
theorem materialized_or_grouped (h : buildModel python catalog nodes edges = .ok model)
    (hfield : model.validateField field.1 field.2 = .ok ()) :
    field ∈ (materializedFields catalog nodes).map SelectedField.key ∨
      ∃ node ∈ nodes, node.id = field.1 ∧ ∃ summary, node.derivation = some summary ∧
        field.2 ∈ summary.groupBy := by
  have hbuilt := buildModel_built h
  obtain ⟨hcontains, hcolumn⟩ := Model.validateField_eq_ok hfield
  obtain ⟨found, hfound⟩ := Dictionary.contains_iff.mp hcontains
  obtain ⟨node, hnode, hid, -⟩ := hbuilt.get?_node.mp hfound
  rw [← hid, hbuilt.mem_columns hnode] at hcolumn
  rw [mem_materializedFields]
  cases hderivation : node.derivation with
  | none =>
    rw [hderivation] at hcolumn
    exact .inl ⟨node, hnode, hid, by rwa [hderivation]⟩
  | some summary =>
    rw [hderivation] at hcolumn
    rcases hcolumn with hgroup | houtput
    · exact .inr ⟨node, hnode, hid, summary, hderivation, hgroup⟩
    · exact .inl ⟨node, hnode, hid, by rwa [hderivation]⟩

theorem Built.output_not_grouping
    (h : Built python catalog nodes edges model) {node : Node} (hnode : node ∈ nodes)
    {summary : Derivation} (hderivation : node.derivation = some summary) {column : String}
    (hcolumn : column ∈ summary.groupBy) : column ∉ summary.outputs.map DerivedOutput.id := by
  have hget : model.nodes.get? node.id = some node.labelled := h.get?_node.mpr ⟨node, hnode, rfl, rfl⟩
  have hconfigured := configured_node h.configured hget hderivation
  have hdistinct : (summary.outputs.map DerivedOutput.id).all
      (fun id ↦ !summary.groupBy.contains id) = true := by
    cases hconnection : summary.connection with
    | none =>
      simp only [Model.configureNode, hconnection, Checks.bind_eq_ok, check_eq_ok] at hconfigured
      obtain ⟨-, -, -, -, -, -, -, -, -, -, -, -, -, hdistinct, -⟩ := hconfigured
      exact (Bool.and_eq_true _ _ ▸ hdistinct).2
    | some connection =>
      simp only [Model.configureNode, hconnection, Checks.bind_eq_ok, check_eq_ok] at hconfigured
      obtain ⟨-, -, -, -, -, -, -, -, ⟨⟩, -, -, -, -, hdistinct, -⟩ := hconfigured
      exact (Bool.and_eq_true _ _ ▸ hdistinct).2
  intro hin
  have hnot := List.all_eq_true.mp hdistinct column hin
  simp [hcolumn] at hnot

/-- A column that a summary is grouped by is not on the list that stands for every field. -/
theorem Built.grouping_not_materialized
    (h : Built python catalog nodes edges model) {node : Node} (hnode : node ∈ nodes)
    {summary : Derivation} (hderivation : node.derivation = some summary) {column : String}
    (hcolumn : column ∈ summary.groupBy) :
    (node.id, column) ∉ (materializedFields catalog nodes).map SelectedField.key := by
  have hids : (nodes.map Node.id).Nodup := by
    have hkeys := model.nodes.nodup
    rw [h.nodes_eq, List.map_map] at hkeys
    exact hkeys
  rw [mem_materializedFields]
  rintro ⟨other, hother, hid, hlisted⟩
  obtain rfl := List.inj_on_of_nodup_map hids hother hnode hid
  rw [hderivation] at hlisted
  exact h.output_not_grouping hother hderivation hcolumn hlisted

/-- Assumes: an edit that is accepted. It hides the fields it names and no others, unless it writes the
list of exposed fields down and forgets a grouping column. -/
theorem hides_only_iff {current saved : SavedModel}
    (h : patchModelDefinition python catalog current patch = .ok saved) :
    HidesOnly python catalog current.definition saved.definition patch ↔
      ¬ ForgetsGrouping python catalog current.definition patch := by
  obtain ⟨hmerged, model, hmodel⟩ := patchModelDefinition_eq_ok h
  have hexposes (field : String × String) := @exposes_merged catalog current.definition patch field
  rw [hmerged] at hmodel ⊢
  have hbuilt := buildModel_built hmodel
  constructor
  · rintro ⟨honly, -⟩ ⟨hnone, hhide, node, hnode, summary, hderivation, column, hcolumn, hknown, hshown,
      hnotExposed⟩
    have haccepts : Accepts python catalog current.definition (node.id, column) :=
      ⟨gate_fieldQuery.mpr (by simp [ModelDefinition.exposes, hnone]), hknown⟩
    have hstill : Known python catalog (current.definition.merged catalog patch) (node.id, column) := by
      obtain ⟨before, -, hfield⟩ := hknown
      refine ⟨model, hmodel, Model.validateField_iff.mpr ⟨?_, ?_, ?_⟩⟩
      · exact (Model.validateField_iff.mp hfield).1
      · exact Dictionary.contains_iff.mpr ⟨_, hbuilt.get?_node.mpr ⟨node, hnode, rfl, rfl⟩⟩
      · rw [hbuilt.mem_columns hnode, hderivation]
        exact .inl hcolumn
    have hafter := ((honly _ haccepts hstill).mpr hshown).1
    rw [gate_fieldQuery, hexposes, hnone] at hafter
    rcases hafter with hempty | ⟨hlisted | hexposed, -⟩
    · exact hhide hempty
    · exact hbuilt.grouping_not_materialized hnode hderivation hcolumn hlisted
    · exact hnotExposed hexposed
  · intro hforgets
    constructor
    · rintro field ⟨hgate, hknown⟩ ⟨after, hafter, hfield⟩
      obtain rfl : model = after := Except.ok.inj (hmodel.symm.trans hafter)
      rw [Accepts, gate_fieldQuery, hexposes]
      rw [gate_fieldQuery, ModelDefinition.exposes] at hgate
      cases hexposed : current.definition.exposedFields with
      | some exposed =>
        rw [hexposed, Option.all_some, List.contains_iff_mem] at hgate
        exact ⟨fun haccepted ↦ haccepted.1.2, fun hshown ↦ ⟨⟨.inl hgate, hshown⟩, model, hmodel, hfield⟩⟩
      | none =>
        by_cases hhide : patch.hide = []
        · simp only [hhide, List.map_nil, List.not_mem_nil, not_false_eq_true, true_or, true_and]
          exact ⟨fun _ ↦ trivial, fun _ ↦ ⟨model, hmodel, hfield⟩⟩
        refine ⟨fun haccepted ↦ (haccepted.1.resolve_left hhide).2, fun hshown ↦
          ⟨.inr ⟨?_, hshown⟩, model, hmodel, hfield⟩⟩
        rcases materialized_or_grouped hmodel hfield with hlisted | ⟨node, hnode, hid, summary,
          hderivation, hgroup⟩
        · exact .inl hlisted
        · -- A grouping column is exposed by the edit, else the edit forgets it.
          by_contra hnot
          rw [not_or] at hnot
          have hsame : (node.id, field.2) = field := by rw [hid]
          exact hforgets ⟨hexposed, hhide, node, hnode, summary, hderivation, field.2, hgroup,
            hsame.symm ▸ hknown, hsame.symm ▸ hshown, hsame.symm ▸ hnot.2⟩
    · rintro field hnotExposed hgate ⟨hafter, -⟩
      rw [Ne, gate_fieldQuery, ModelDefinition.exposes] at hgate
      rw [gate_fieldQuery, hexposes] at hafter
      cases hexposed : current.definition.exposedFields with
      | none => simp [hexposed] at hgate
      | some exposed =>
        rw [hexposed, Option.all_some, List.contains_iff_mem] at hgate
        rw [hexposed] at hafter
        exact hafter.1.elim hgate hnotExposed

/-- The number of orders of every customer, connected to the customers. -/
def sampleSummary : Node where
  id := "totals"
  table := "orders"
  label := some "Totals"
  derivation := some
    { kind := .aggregate, source := "orders", groupBy := ["customer"],
      connection := some ⟨"customers", [⟨"customer", "id"⟩]⟩,
      outputs := [⟨"number", "Number", .count, none, "id", none, false, ", ", []⟩] }

/-- A saved model of orders and their customers, that exposes every field. -/
def sampleSaved (nodes : List Node) : SavedModel :=
  ⟨1, "Sales", ⟨"orders", nodes, sampleEdges, [], none⟩⟩

/-- An edit that hides the identifiers of orders. -/
def samplePatch : ModelPatch :=
  ⟨1, none, none, ⟨[], []⟩, ⟨[], []⟩, ⟨[], []⟩, [], [⟨"orders", "id", .none⟩]⟩

/-- Without a summary the edit hides the identifiers of orders only. -/
theorem sample_hides_only : ∃ saved,
    patchModelDefinition sampleInterpreter sampleCatalog (sampleSaved sampleNodes) samplePatch =
      .ok saved ∧
      HidesOnly sampleInterpreter sampleCatalog (sampleSaved sampleNodes).definition saved.definition
        samplePatch := by
  have hpatched : patchModelDefinition sampleInterpreter sampleCatalog (sampleSaved sampleNodes)
      samplePatch = .ok _ := rfl
  refine ⟨_, hpatched, (hides_only_iff hpatched).mpr ?_⟩
  rintro ⟨-, -, node, hnode, summary, hderivation, -⟩
  have hphysical : ∀ node ∈ mergeItems Node.id sampleNodes samplePatch.nodes,
      node.derivation = none := by decide
  rw [hphysical node hnode] at hderivation
  cases hderivation

/-- With a summary the edit hides the column that the summary is grouped by too. -/
theorem grouping_column_hidden : ∃ saved,
    patchModelDefinition sampleInterpreter sampleCatalog (sampleSaved (sampleNodes ++ [sampleSummary]))
      samplePatch = .ok saved ∧
      ¬ HidesOnly sampleInterpreter sampleCatalog
        (sampleSaved (sampleNodes ++ [sampleSummary])).definition saved.definition samplePatch := by
  refine ⟨_, rfl, fun honly ↦ ?_⟩
  have hknown : ∃ model, buildModel sampleInterpreter sampleCatalog (sampleNodes ++ [sampleSummary])
      sampleEdges = .ok model ∧ model.validateField "totals" "customer" = .ok () := ⟨_, rfl, rfl⟩
  have hafter := (honly.1 ("totals", "customer") ⟨rfl, hknown⟩ ⟨_, rfl, rfl⟩).mpr (by decide)
  exact absurd (gate_fieldQuery.mp hafter.1) (by decide)

end Schemii.SemanticModels
