import Schemii.Foundations.Checks
import Schemii.SemanticModels.Derived

/-!
# The constructor of a model

`buildModel` is `_Model.__init__`: the nodes of a request, its calculated sources, its edges, and the
edges that connect the calculated sources (`attach`).

* `buildModel_built`: what a model has of the request it is built of (`Built`).
* `Built.edge_cases`: an edge of a model stands for one of the request, or connects a calculated
  source.
* `Built.edge_ends`: the edges join nodes of the model.
-/

set_option autoImplicit false

namespace Schemii.SemanticModels

open Foundations
open Foundations.BreadthFirst
open Foundations.Checks

variable (python : Interpreter)

/-- `_id`. -/
def checkId (value label : String) : Except ModelError Unit :=
  check (value != "" && decide (value.length ≤ 200))
    s!"{label} must be a nonempty identifier of at most 200 characters."

/-- A node with its label trimmed; without one its identifier is its label. -/
def Node.labelled (node : Node) : Node :=
  { node with label := some (String.ofList (strip (node.label.getD node.id).toList)) }

/-- One node of a request. -/
def addNode (catalog : Catalog) (nodes : Dictionary String Node) (node : Node) :
    Except ModelError (Dictionary String Node) := do
  checkId node.id "Node ID"
  check (!nodes.contains node.id && (catalog.table? node.table).isSome)
    "Model nodes need unique IDs and known physical tables."
  let label := strip (node.label.getD node.id).toList
  check (!label.isEmpty && decide (label.length ≤ 100))
    "Model object labels must be nonempty text of at most 100 characters."
  pure (nodes.insert node.id node.labelled)

/-- `validate` of one end of an edge. -/
def Model.validateEnd (model : Model) (node : String) (column : Option String) :
    Except ModelError String :=
  match column with
  | some column => do
    model.validateField node column
    pure column
  | none =>
    if node = "" then valueError "Choose a source column for each field or filter condition."
    else valueError s!"Unknown model field: {node}.None."

/-- The columns that an edge of a request joins. -/
def Model.edgeColumns (model : Model) (item : EdgeItem) : Except ModelError (String × String) :=
  match item.kind with
  | .logical => do
    check (item.relationshipId.all (· == "")) "Logical relationships cannot reference a foreign key."
    let sourceColumn ← model.validateEnd item.source item.sourceColumn
    let targetColumn ← model.validateEnd item.target item.targetColumn
    validateJoinTypes python (model.dataType item.source sourceColumn)
      (model.dataType item.target targetColumn)
    pure (sourceColumn, targetColumn)
  | .foreignKey =>
    match item.relationshipId.bind model.catalog.relationship? with
    | none => valueError "Edges need a known foreign key or a logical column relationship."
    | some relationship => do
      let bound (node table : String) : Bool :=
        (model.nodes.get? node).any fun found ↦ found.table == table
      check (bound item.source relationship.sourceTable)
        "Relationship aliases must match the foreign key's source and target tables."
      model.validateField item.source relationship.sourceColumn
      check (bound item.target relationship.targetTable)
        "Relationship aliases must match the foreign key's source and target tables."
      model.validateField item.target relationship.targetColumn
      pure (relationship.sourceColumn, relationship.targetColumn)

/-- An edge of a request, with its columns. -/
def EdgeItem.edge (item : EdgeItem) (columns : String × String) : Edge where
  id := item.id
  kind := item.kind
  source := item.source
  target := item.target
  sourceColumn := columns.1
  targetColumn := columns.2
  derived := false
  enabled := item.enabled

/-- One edge of a request. -/
def Model.addEdge (model : Model) (item : EdgeItem) : Except ModelError Model := do
  checkId item.id "Edge ID"
  check (!model.isDerived item.source && !model.isDerived item.target)
    "Derived sources connect through their owner; do not attach ordinary relationships to them."
  check (!model.edges.contains item.id) "Edges need unique IDs."
  let columns ← model.edgeColumns python item
  pure { model with edges := model.edges.insert item.id (item.edge columns) }

/-- The edge that connects a calculated source: to the target of its connection, or to its source. -/
def derivedEdge (node : String) (definition : Derivation) : Edge :=
  let id := "derived:" ++ node
  match definition.connection with
  | some connection =>
    { id := id, kind := .logical, source := node, target := connection.target,
      sourceColumn := (connection.columns.head?.map SummaryConnectionColumn.source).getD "",
      targetColumn := (connection.columns.head?.map SummaryConnectionColumn.target).getD "",
      derived := true, enabled := true }
  | none =>
    { id := id, kind := .logical, source := node, target := definition.source,
      sourceColumn := definition.groupBy.head?.getD "",
      targetColumn := definition.groupBy.head?.getD "", derived := true, enabled := true }

@[simp] theorem derivedEdge_id (node : String) (definition : Derivation) :
    (derivedEdge node definition).id = "derived:" ++ node := by
  cases hconnection : definition.connection <;> simp [derivedEdge, hconnection]

@[simp] theorem derivedEdge_source (node : String) (definition : Derivation) :
    (derivedEdge node definition).source = node := by
  cases hconnection : definition.connection <;> simp [derivedEdge, hconnection]

@[simp] theorem derivedEdge_enabled (node : String) (definition : Derivation) :
    (derivedEdge node definition).enabled = true := by
  cases hconnection : definition.connection <;> simp [derivedEdge, hconnection]

/-- The search of `attach`, over physical nodes. -/
def Model.routes (model : Model) (source : String) : Parents String String :=
  search (fun node ↦ (model.graph node).filter fun step ↦ !model.isDerived step.1) model.nodes.size
    source

/-- The nodes that the conditions of an output may use: those on the path to it. -/
def Model.conditionNodes (model : Model) (definition : Derivation) (output : DerivedOutput) :
    List String :=
  definition.source :: (climb (model.routes definition.source) model.nodes.size
    (output.contributor definition.source)).map Prod.snd

/-- `attach`, of one calculated source. -/
def Model.attachNode (model : Model) (node : String) (definition : Derivation) :
    Except ModelError Model := do
  let edge := derivedEdge node definition
  check (!model.edges.contains edge.id)
    "Relationship IDs cannot collide with derived-source associations."
  definition.outputs.forM fun output ↦
    check (output.conditions.all fun condition ↦
        (model.conditionNodes definition output).contains condition.table)
      "Calculated-field conditions must use sources on the owner's path to that output; a condition cannot add a separate relationship branch."
  pure { model with edges := model.edges.insert edge.id edge }

/-- `attach`. -/
def Model.attach (model : Model) : Except ModelError Model :=
  model.nodes.entries.foldlM
    (fun model entry ↦
      match entry.2.derivation with
      | some definition => model.attachNode entry.1 definition
      | none => pure model)
    model

/-- `_Model.__init__`. -/
def buildModel (catalog : Catalog) (nodes : List Node) (edges : List EdgeItem) :
    Except ModelError Model := do
  check (decide (nodes.length ≤ 100)) "Nodes must be a list of at most 100 objects."
  let nodes ← nodes.foldlM (addNode catalog) Dictionary.empty
  let model : Model := ⟨catalog, nodes, Dictionary.empty⟩
  model.configure python
  check (decide (edges.length ≤ 200)) "Edges must be a list of at most 200 objects."
  let model ← edges.foldlM (Model.addEdge python) model
  model.attach

/-! ### What is built -/

/-- An edge of a model stands for an edge of a request. -/
structure Model.Authored (model : Model) (item : EdgeItem) (edge : Edge) : Prop where
  columns : model.edgeColumns python item = .ok (edge.sourceColumn, edge.targetColumn)
  same : edge = item.edge (edge.sourceColumn, edge.targetColumn)
  physical : model.isDerived item.source = false ∧ model.isDerived item.target = false

/-- The edges of the calculated sources. -/
def Model.derivedEdges (model : Model) : List Edge :=
  model.nodes.entries.filterMap fun entry ↦ entry.2.derivation.map (derivedEdge entry.1)

/-- What a model is built of: the nodes of a request with their labels, in their order, and behind the
edges of the request those of its calculated sources. -/
structure Built (catalog : Catalog) (nodes : List Node) (edges : List EdgeItem) (model : Model) :
    Prop where
  tables : ∀ node ∈ nodes, (catalog.table? node.table).isSome
  configured : model.configure python = .ok ()
  catalog_eq : model.catalog = catalog
  nodes_eq : model.nodes.entries = nodes.map fun node ↦ (node.id, node.labelled)
  edges_eq : ∃ authored, List.Forall₂ (model.Authored python) edges authored ∧
    model.edges.entries = (authored ++ model.derivedEdges).map fun edge ↦ (edge.id, edge)

variable {python} {catalog : Catalog}

theorem addNode_eq_ok {nodes next : Dictionary String Node} {node : Node}
    (h : addNode catalog nodes node = .ok next) :
    nodes.get? node.id = none ∧ (catalog.table? node.table).isSome ∧
      next = nodes.insert node.id node.labelled := by
  simp only [addNode, bind_eq_ok, check_eq_ok] at h
  obtain ⟨-, -, -, hnew, -, -, hnext⟩ := h
  simp only [Bool.and_eq_true, Bool.not_eq_true', Dictionary.contains,
    Option.isSome_eq_false_iff, Option.isNone_iff_eq_none] at hnew
  exact ⟨hnew.1, hnew.2, (Except.ok.inj hnext).symm⟩

theorem addNodes_eq_ok {nodes : List Node} {result : Dictionary String Node}
    (h : nodes.foldlM (addNode catalog) Dictionary.empty = .ok result) :
    result.entries = (nodes.map fun node ↦ (node.id, node.labelled)) ∧
      ∀ node ∈ nodes, (catalog.table? node.table).isSome := by
  refine foldlM_induction (fun before (state : Dictionary String Node) ↦
    state.entries = (before.map fun node ↦ (node.id, node.labelled)) ∧
      ∀ node ∈ before, (catalog.table? node.table).isSome) h ⟨rfl, by simp⟩ ?_
  rintro before node - state next - ⟨hentries, htables⟩ hstep
  obtain ⟨hnew, htable, rfl⟩ := addNode_eq_ok hstep
  refine ⟨by rw [Dictionary.entries_insert hnew, hentries]; simp, ?_⟩
  intro other hother
  rcases List.mem_append.mp hother with hbefore | hlast
  · exact htables other hbefore
  · rwa [List.mem_singleton.mp hlast]

theorem addEdge_eq_ok {model next : Model} {item : EdgeItem}
    (h : model.addEdge python item = .ok next) :
    model.edges.get? item.id = none ∧ ∃ edge, model.Authored python item edge ∧
      next = { model with edges := model.edges.insert edge.id edge } := by
  simp only [Model.addEdge, bind_eq_ok, check_eq_ok] at h
  obtain ⟨-, -, -, hphysical, -, hnew, columns, hcolumns, hnext⟩ := h
  simp only [Bool.and_eq_true, Bool.not_eq_true'] at hphysical
  simp only [Bool.not_eq_true', Dictionary.contains, Option.isSome_eq_false_iff,
    Option.isNone_iff_eq_none] at hnew
  exact ⟨hnew, item.edge columns, ⟨hcolumns, rfl, hphysical⟩, (Except.ok.inj hnext).symm⟩

variable {model : Model}

theorem Model.Authored.with_edges {item : EdgeItem} {edge : Edge}
    (h : model.Authored python item edge) (others : Dictionary String Edge) :
    ({ model with edges := others } : Model).Authored python item edge :=
  ⟨h.columns, h.same, h.physical⟩

theorem addEdges_eq_ok {base model : Model} {edges : List EdgeItem} (hempty : base.edges = .empty)
    (h : edges.foldlM (Model.addEdge python) base = .ok model) :
    model = { base with edges := model.edges } ∧
      ∃ authored, List.Forall₂ (base.Authored python) edges authored ∧
        model.edges.entries = authored.map fun edge ↦ (edge.id, edge) := by
  refine foldlM_induction (fun before (state : Model) ↦ state = { base with edges := state.edges } ∧
    ∃ authored, List.Forall₂ (base.Authored python) before authored ∧
      state.edges.entries = authored.map fun edge ↦ (edge.id, edge)) h ?_ ?_
  · exact ⟨rfl, [], .nil, by rw [hempty]; rfl⟩
  · rintro before item - state next - ⟨hstate, authored, hauthored, hentries⟩ hstep
    obtain ⟨hnew, edge, hedge, rfl⟩ := addEdge_eq_ok hstep
    rw [hstate] at hedge
    replace hedge : base.Authored python item edge := hedge.with_edges base.edges
    have hid : edge.id = item.id := by rw [hedge.same]; rfl
    refine ⟨by rw [hstate], authored ++ [edge], List.rel_append hauthored (.cons hedge .nil), ?_⟩
    rw [← hid] at hnew
    rw [Dictionary.entries_insert hnew, hentries]
    simp

variable {definition : Derivation}

theorem attachNode_eq_ok {model next : Model} {node : String}
    (h : model.attachNode node definition = .ok next) :
    model.edges.get? (derivedEdge node definition).id = none ∧
      next = { model with edges :=
        model.edges.insert (derivedEdge node definition).id (derivedEdge node definition) } := by
  simp only [Model.attachNode, bind_eq_ok, check_eq_ok] at h
  obtain ⟨-, hnew, -, -, hnext⟩ := h
  simp only [Bool.not_eq_true', Dictionary.contains, Option.isSome_eq_false_iff,
    Option.isNone_iff_eq_none] at hnew
  exact ⟨hnew, (Except.ok.inj hnext).symm⟩

theorem attach_eq_ok {base model : Model} (h : base.attach = .ok model) :
    model = { base with edges := model.edges } ∧
      model.edges.entries =
        base.edges.entries ++ base.derivedEdges.map fun edge ↦ (edge.id, edge) := by
  refine foldlM_induction (fun before (state : Model) ↦ state = { base with edges := state.edges } ∧
    state.edges.entries = base.edges.entries ++ (before.filterMap fun entry ↦
      entry.2.derivation.map (derivedEdge entry.1)).map fun edge ↦ (edge.id, edge)) h
    ⟨rfl, by simp⟩ ?_
  rintro before entry - state next - ⟨hstate, hentries⟩ hstep
  cases hderivation : entry.2.derivation with
  | none =>
    simp only [hderivation] at hstep
    obtain rfl := Except.ok.inj hstep
    exact ⟨hstate, by simp [hentries, hderivation]⟩
  | some definition =>
    simp only [hderivation] at hstep
    obtain ⟨hnew, rfl⟩ := attachNode_eq_ok hstep
    refine ⟨by rw [hstate], ?_⟩
    rw [Dictionary.entries_insert hnew, hentries]
    simp [hderivation]

theorem buildModel_built {nodes : List Node} {edges : List EdgeItem}
    (h : buildModel python catalog nodes edges = .ok model) :
    Built python catalog nodes edges model := by
  simp only [buildModel, bind_eq_ok, check_eq_ok] at h
  obtain ⟨-, -, found, hnodes, ⟨⟩, hconfigured, -, -, middle, hedges, hattach⟩ := h
  obtain ⟨hentries, htables⟩ := addNodes_eq_ok hnodes
  obtain ⟨hmiddle, authored, hauthored, hfirst⟩ := addEdges_eq_ok rfl hedges
  obtain ⟨hmodel, hall⟩ := attach_eq_ok hattach
  have hsame : model = { (⟨catalog, found, .empty⟩ : Model) with edges := model.edges } := by
    rw [hmodel, hmiddle]
  refine ⟨htables, ?_, by rw [hsame], by rw [hsame]; exact hentries, authored, ?_, ?_⟩
  · rw [hsame]
    exact hconfigured
  · rw [hsame]
    exact hauthored.imp fun _ _ hedge ↦ hedge.with_edges _
  · rw [hall, hfirst, List.map_append, hsame, hmiddle]
    rfl

/-! ### The edges of a model -/

theorem Model.validateField_iff {node column : String} :
    model.validateField node column = .ok () ↔ (node != "" && column != "") = true ∧
      model.nodes.contains node = true ∧ column ∈ model.columns node := by
  simp only [Model.validateField, bind_eq_ok, check_eq_ok]
  rw [exists_const, Bool.and_eq_true (model.nodes.contains node), List.contains_iff_mem]

theorem Model.validateField_eq_ok {node column : String} {result : Unit}
    (h : model.validateField node column = .ok result) :
    model.nodes.contains node = true ∧ column ∈ model.columns node :=
  (Model.validateField_iff.mp h).2

theorem Model.validateEnd_eq_ok {node result : String} {column : Option String}
    (h : model.validateEnd node column = .ok result) :
    model.nodes.contains node = true ∧ result ∈ model.columns node := by
  cases column with
  | none =>
    rw [Model.validateEnd] at h
    split_ifs at h <;> cases h
  | some column =>
    simp only [Model.validateEnd, bind_eq_ok] at h
    obtain ⟨⟨⟩, hvalid, hresult⟩ := h
    obtain rfl := Except.ok.inj hresult
    exact Model.validateField_eq_ok hvalid

theorem Model.edgeColumns_eq_ok {item : EdgeItem} {columns : String × String}
    (h : model.edgeColumns python item = .ok columns) :
    (model.nodes.contains item.source = true ∧ columns.1 ∈ model.columns item.source) ∧
      model.nodes.contains item.target = true ∧ columns.2 ∈ model.columns item.target := by
  unfold Model.edgeColumns at h
  cases hkind : item.kind with
  | logical =>
    simp only [hkind, bind_eq_ok, check_eq_ok] at h
    obtain ⟨-, -, source, hsource, target, htarget, -, -, hcolumns⟩ := h
    obtain rfl := Except.ok.inj hcolumns
    exact ⟨Model.validateEnd_eq_ok hsource, Model.validateEnd_eq_ok htarget⟩
  | foreignKey =>
    cases hfound : item.relationshipId.bind model.catalog.relationship? with
    | none =>
      simp only [hkind, hfound] at h
      cases h
    | some relationship =>
      simp only [hkind, hfound, bind_eq_ok, check_eq_ok] at h
      obtain ⟨-, -, ⟨⟩, hsource, -, -, ⟨⟩, htarget, hcolumns⟩ := h
      obtain rfl := Except.ok.inj hcolumns
      exact ⟨Model.validateField_eq_ok hsource, Model.validateField_eq_ok htarget⟩

theorem configured_node (h : model.configure python = .ok ()) {key : String}
    {node : Node} (hnode : model.nodes.get? key = some node)
    (hderivation : node.derivation = some definition) :
    model.configureNode python node definition = .ok () := by
  have hmem : node ∈ model.nodes.values := Dictionary.mem_values.mpr ⟨key, hnode⟩
  have hchecked := (forM_eq_ok.mp h) node hmem
  simpa only [hderivation] using hchecked

/-- Assumes: a calculated source whose checks pass. Its edge leads to a physical node. -/
theorem derivedEdge_physical {node : Node} (key : String)
    (h : model.configureNode python node definition = .ok ()) :
    model.isPhysical (derivedEdge key definition).target = true := by
  cases hdefinition : definition.connection with
  | none =>
    simp only [Model.configureNode, hdefinition, bind_eq_ok, check_eq_ok] at h
    obtain ⟨-, hsource, -⟩ := h
    simpa [derivedEdge, hdefinition] using hsource
  | some connection =>
    simp only [Model.configureNode, hdefinition, Model.configureConnection, bind_eq_ok,
      check_eq_ok] at h
    obtain ⟨-, -, -, -, -, -, -, -, -, ⟨-, -, -, htarget, -⟩, -⟩ := h
    simpa [derivedEdge, hdefinition] using htarget

section Edges

variable {nodes : List Node} {edges : List EdgeItem} {model : Model} {key : String} {edge : Edge}
  (h : Built python catalog nodes edges model)

include h in
/-- An edge of a model has its key as its identifier, and stands for an edge of the request or
connects a calculated source. -/
theorem Built.edge_cases (hedge : model.edges.get? key = some edge) :
    edge.id = key ∧ ((∃ item ∈ edges, model.Authored python item edge) ∨
      ∃ source node definition, model.nodes.get? source = some node ∧
        node.derivation = some definition ∧ edge = derivedEdge source definition) := by
  obtain ⟨authored, hauthored, hentries⟩ := h.edges_eq
  rw [← Dictionary.mem_entries, hentries, List.mem_map] at hedge
  obtain ⟨same, hmem, hsame⟩ := hedge
  obtain ⟨rfl, rfl⟩ := Prod.mk.inj hsame
  refine ⟨rfl, ?_⟩
  rcases List.mem_append.mp hmem with hfirst | hderived
  · exact .inl (exists_of_mem_right hauthored hfirst)
  · obtain ⟨⟨source, node⟩, hnode, hlast⟩ := List.mem_filterMap.mp hderived
    obtain ⟨definition, hdefinition, rfl⟩ := Option.map_eq_some_iff.mp hlast
    exact .inr ⟨source, node, definition, Dictionary.mem_entries.mp hnode, hdefinition, rfl⟩

include h in
theorem Built.get?_node {key : String} {found : Node} :
    model.nodes.get? key = some found ↔ ∃ node ∈ nodes, node.id = key ∧ node.labelled = found := by
  rw [← Dictionary.mem_entries, h.nodes_eq, List.mem_map]
  simp only [Prod.mk.injEq]

include h in
theorem Built.authored_edge {item : EdgeItem}
    (hitem : item ∈ edges) :
    ∃ edge, model.edges.get? item.id = some edge ∧ model.Authored python item edge := by
  obtain ⟨authored, hauthored, hentries⟩ := h.edges_eq
  obtain ⟨edge, hedge, hstands⟩ := exists_of_mem_left hauthored hitem
  refine ⟨edge, ?_, hstands⟩
  have hid : edge.id = item.id := by rw [hstands.same]; rfl
  rw [← Dictionary.mem_entries, hentries, List.mem_map]
  exact ⟨edge, List.mem_append_left _ hedge, by rw [hid]⟩

include h in
theorem Built.derived_edge {node : Node}
    {definition : Derivation} (hnode : model.nodes.get? key = some node)
    (hderivation : node.derivation = some definition) :
    model.edges.get? ("derived:" ++ key) = some (derivedEdge key definition) := by
  obtain ⟨authored, hauthored, hentries⟩ := h.edges_eq
  rw [← Dictionary.mem_entries, hentries, List.mem_map]
  refine ⟨derivedEdge key definition, List.mem_append_right _ ?_, by rw [derivedEdge_id]⟩
  exact List.mem_filterMap.mpr
    ⟨(key, node), Dictionary.mem_entries.mpr hnode, by simp [hderivation]⟩

include h in
theorem Built.edge_ends (hedge : model.edges.get? key = some edge) :
    model.nodes.contains edge.source = true ∧ model.nodes.contains edge.target = true := by
  obtain ⟨-, ⟨item, -, hitem⟩ | ⟨source, node, definition, hnode, hdefinition, rfl⟩⟩ :=
    h.edge_cases hedge
  · have hvalid := Model.edgeColumns_eq_ok hitem.columns
    rw [hitem.same]
    exact ⟨hvalid.1.1, hvalid.2.1⟩
  · have hphysical := derivedEdge_physical source
      (configured_node h.configured hnode hdefinition)
    rw [Model.isPhysical, Bool.and_eq_true] at hphysical
    exact ⟨by simp [Dictionary.contains, hnode], hphysical.1⟩

end Edges

/-! ### A sample -/

/-- An interpreter that knows ASCII. -/
def sampleInterpreter : Interpreter where
  lower := id
  casefold := id
  isNumber := fun _ ↦ true
  isDate := fun _ ↦ true
  isUuid := fun _ ↦ true

/-- Orders and their customers. -/
def sampleCatalog : Catalog where
  «namespace» := "sales"
  tables := [⟨"orders", [⟨"id", "integer", false⟩, ⟨"customer", "integer", true⟩], ["id"], []⟩,
    ⟨"customers", [⟨"id", "integer", false⟩, ⟨"city", "text", true⟩], ["id"], []⟩]
  relationships := [⟨"fk", "orders", "customer", "customers", "id"⟩]

/-- Orders with their customers: two sources and a relationship. -/
def sampleNodes : List Node :=
  [⟨"orders", "orders", some "Orders", none⟩, ⟨"customers", "customers", some "Customers", none⟩]

/-- The relationship between the two. -/
def sampleEdges : List EdgeItem :=
  [⟨"placed by", some "fk", .foreignKey, "orders", "customers", none, none, true⟩]

end Schemii.SemanticModels
