import Schemii.SemanticModels.Construction

/-!
# Cycles and join paths

The enabled edges of a model are an undirected multigraph (`Model.multigraph`), with self-loops and
parallel edges. The searches of the compiler run on it.

* `mem_cycles_iff`: `cycles` lists the edges that lie on a cycle.
* `met_traverse_iff`, `path_of_traverse`: a traversal meets what its start is connected with, and the
  join path to a node is a path.
* `multigraph_of_perm`: the multigraph does not depend on the order of nodes and edges of the request.
* `join_paths_exact`: `cycles` is exact, and without cycles the join path is the only path, whatever
  the order.
-/

set_option autoImplicit false

namespace Schemii.SemanticModels

open Foundations
open Foundations.BreadthFirst
open Foundations.Multigraph (Walk Path)

/-- The multigraph of the enabled edges. -/
def Model.multigraph (model : Model) : Multigraph String String where
  joins key first second := ∃ edge, model.edges.get? key = some edge ∧ edge.enabled = true ∧
    (edge.source = first ∧ edge.target = second ∨ edge.source = second ∧ edge.target = first)
  symm := by
    rintro key first second ⟨edge, hedge, henabled, hends⟩
    exact ⟨edge, hedge, henabled, hends.symm⟩
  ends := by
    rintro key first second third fourth ⟨edge, hedge, -, hends⟩ ⟨other, hother, -, hends'⟩
    obtain rfl := Option.some.inj (hedge.symm.trans hother)
    rcases hends with ⟨rfl, rfl⟩ | ⟨rfl, rfl⟩
    · rcases hends' with ⟨rfl, rfl⟩ | ⟨rfl, rfl⟩
      · exact .inl ⟨rfl, rfl⟩
      · exact .inr ⟨rfl, rfl⟩
    · rcases hends' with ⟨rfl, rfl⟩ | ⟨rfl, rfl⟩
      · exact .inr ⟨rfl, rfl⟩
      · exact .inl ⟨rfl, rfl⟩

variable {python : Interpreter} {catalog : Catalog} {nodes : List Node} {edges : List EdgeItem}
  {model : Model}

/-! ### The steps of a search -/

variable (h : Built python catalog nodes edges model)

include h in
theorem Built.mem_graph (node other key : String) :
    (other, key) ∈ model.graph node ↔ model.multigraph.joins key node other := by
  rw [Model.graph, List.mem_flatMap]
  constructor
  · rintro ⟨edge, hvalue, hstep⟩
    obtain ⟨same, hedge⟩ := Dictionary.mem_values.mp hvalue
    obtain ⟨rfl, -⟩ := h.edge_cases hedge
    split_ifs at hstep with henabled hsource htarget htarget
    all_goals simp only [List.cons_append, List.nil_append, List.mem_cons, Prod.mk.injEq,
      List.not_mem_nil, or_false] at hstep
    · rcases hstep with ⟨rfl, rfl⟩ | ⟨rfl, rfl⟩
      · exact ⟨edge, hedge, henabled, .inl ⟨hsource, rfl⟩⟩
      · exact ⟨edge, hedge, henabled, .inr ⟨rfl, htarget⟩⟩
    · obtain ⟨rfl, rfl⟩ := hstep
      exact ⟨edge, hedge, henabled, .inl ⟨hsource, rfl⟩⟩
    · obtain ⟨rfl, rfl⟩ := hstep
      exact ⟨edge, hedge, henabled, .inr ⟨rfl, htarget⟩⟩
  · rintro ⟨edge, hedge, henabled, hends⟩
    obtain ⟨rfl, -⟩ := h.edge_cases hedge
    refine ⟨edge, Dictionary.mem_values.mpr ⟨_, hedge⟩, ?_⟩
    rw [if_pos henabled, List.mem_append]
    rcases hends with ⟨rfl, rfl⟩ | ⟨rfl, rfl⟩
    · exact .inl (by simp)
    · exact .inr (by simp)

include h in
theorem Built.joins_nodes {key first second : String}
    (hjoins : model.multigraph.joins key first second) :
    first ∈ model.nodes.keys ∧ second ∈ model.nodes.keys := by
  obtain ⟨edge, hedge, -, hends⟩ := hjoins
  have hboth := h.edge_ends hedge
  have hkey {node : String} (hnode : model.nodes.contains node = true) : node ∈ model.nodes.keys :=
    Dictionary.mem_keys.mpr (Dictionary.contains_iff.mp hnode)
  rcases hends with ⟨rfl, rfl⟩ | ⟨rfl, rfl⟩
  · exact ⟨hkey hboth.1, hkey hboth.2⟩
  · exact ⟨hkey hboth.2, hkey hboth.1⟩

include h in
/-- Assumes: a search that takes some of the steps, from a node. It meets what walks over its edges
lead to. -/
theorem Built.met_search {allowed : String → Prop}
    {next : String → List (String × String)} {start node : String}
    (hsteps : ∀ node other key, (other, key) ∈ next node ↔
      model.multigraph.joins key node other ∧ allowed key)
    (hstart : start ∈ model.nodes.keys) :
    met (search next model.nodes.size start) node = true ↔
      ∃ steps, Walk model.multigraph start steps node ∧ ∀ key ∈ steps.map Prod.fst, allowed key := by
  have hclosed : ∀ node ∈ model.nodes.keys, ∀ step ∈ next node, step.1 ∈ model.nodes.keys := by
    rintro node - ⟨other, key⟩ hstep
    exact (h.joins_nodes ((hsteps node other key).mp hstep).1).2
  have hcount : model.nodes.keys.length ≤ model.nodes.size := by
    rw [Dictionary.keys, List.length_map]
    exact le_refl _
  rw [met_iff, mem_search_iff hstart hclosed hcount, leads_iff_walk hsteps]

/-! ### Cycles -/

include h in
/-- `cycles` lists the enabled edges that lie on a cycle. -/
theorem Built.mem_cycles_iff (key : String) :
    key ∈ model.cycles ↔ model.multigraph.OnCycle key := by
  have hfound (edge : Edge) (hedge : model.edges.get? key = some edge) (henabled : edge.enabled = true) :
      met (search (fun node ↦ (model.graph node).filter fun step ↦ step.2 != edge.id)
        model.nodes.size edge.source) edge.target = true ↔ model.multigraph.OnCycle key := by
    obtain ⟨rfl, -⟩ := h.edge_cases hedge
    have hjoins : model.multigraph.joins edge.id edge.source edge.target :=
      ⟨edge, hedge, henabled, .inl ⟨rfl, rfl⟩⟩
    have hsteps (node other other' : String) :
        (other, other') ∈ (model.graph node).filter (fun step ↦ step.2 != edge.id) ↔
          model.multigraph.joins other' node other ∧ other' ≠ edge.id := by
      rw [List.mem_filter, h.mem_graph, bne_iff_ne]
    rw [h.met_search hsteps (h.joins_nodes hjoins).1, Multigraph.onCycle_iff hjoins]
    refine exists_congr fun steps ↦ and_congr_right fun _ ↦ ?_
    exact ⟨fun hall hin ↦ hall edge.id hin rfl, fun hnot other hin heq ↦ hnot (heq ▸ hin)⟩
  rw [Model.cycles, List.mem_map]
  constructor
  · rintro ⟨edge, hedge, rfl⟩
    rw [List.mem_filter, Bool.and_eq_true] at hedge
    obtain ⟨hvalue, henabled, hmet⟩ := hedge
    obtain ⟨same, hget⟩ := Dictionary.mem_values.mp hvalue
    obtain ⟨rfl, -⟩ := h.edge_cases hget
    exact (hfound edge hget henabled).mp hmet
  · intro hcycle
    obtain ⟨vertex, steps, hcycle', hin⟩ := hcycle
    obtain ⟨first, -, second, -, edge, hedge, henabled, -⟩ := hcycle'.walk.joins_of_mem hin
    refine ⟨edge, List.mem_filter.mpr ⟨Dictionary.mem_values.mpr ⟨key, hedge⟩, ?_⟩,
      (h.edge_cases hedge).1⟩
    rw [Bool.and_eq_true]
    exact ⟨henabled, (hfound edge hedge henabled).mpr ⟨vertex, steps, hcycle', hin⟩⟩

include h in
theorem Built.nodup_cycles : model.cycles.Nodup := by
  have hids : (model.edges.values.map Edge.id).Nodup := by
    have hsame : model.edges.values.map Edge.id = model.edges.keys := by
      rw [Dictionary.values, Dictionary.keys, List.map_map]
      refine List.map_congr_left ?_
      rintro ⟨key, edge⟩ hentry
      exact (h.edge_cases (Dictionary.mem_entries.mp hentry)).1
    rw [hsame]
    exact model.edges.nodup
  exact (List.filter_sublist.map Edge.id).nodup hids

/-! ### Join paths -/

variable {root node : String}

include h in
theorem Built.met_traverse_iff (hroot : root ∈ model.nodes.keys) :
    met (model.traverse root) node = true ↔ ∃ steps, Walk model.multigraph root steps node := by
  have hsteps (node other key : String) : (other, key) ∈ model.graph node ↔
      model.multigraph.joins key node other ∧ True := by
    rw [h.mem_graph, and_true]
  rw [Model.traverse, h.met_search hsteps hroot]
  exact exists_congr fun steps ↦ and_iff_left fun _ _ ↦ trivial

include h in
theorem Built.path_of_traverse
    (hroot : root ∈ model.nodes.keys) (hmet : met (model.traverse root) node = true) :
    Path model.multigraph root (model.path root node) node := by
  have hclosed : ∀ node ∈ model.nodes.keys, ∀ step ∈ model.graph node, step.1 ∈ model.nodes.keys := by
    rintro node - ⟨other, key⟩ hstep
    exact (h.joins_nodes ((h.mem_graph node other key).mp hstep)).2
  have hcount : model.nodes.keys.length ≤ model.nodes.size := by
    rw [Dictionary.keys, List.length_map]
    exact le_refl _
  obtain ⟨vertices, hexplored, -⟩ := search_explored hroot hclosed hcount
  have hinside : vertices ⊆ model.nodes.keys := fun vertex hvertex ↦
    hexplored.subset (· ∈ model.nodes.keys) hroot hclosed (List.mem_append_left _ hvertex)
  have hnodup : vertices.Nodup := by simpa using hexplored.nodup
  have hlength : (model.traverse root).length ≤ model.nodes.size := by
    have hsame := congrArg List.length hexplored.vertices
    rw [List.length_map, List.append_nil] at hsame
    rw [Model.traverse, hsame]
    exact ((hnodup.subperm hinside).length_le).trans hcount
  obtain ⟨⟨same, parent⟩, hentry, rfl⟩ := List.mem_map.mp (met_iff.mp hmet)
  obtain ⟨before, after, hsplit⟩ := List.append_of_mem hentry
  have hbefore : before.length ≤ model.nodes.size := by
    rw [hsplit, List.length_append] at hlength
    omega
  have hjoins : ∀ vertex, ∀ step ∈ model.graph vertex,
      model.multigraph.joins step.2 vertex step.1 := by
    rintro vertex ⟨other, key⟩ hstep
    exact (h.mem_graph vertex other key).mp hstep
  exact (hexplored.climb_path hjoins hsplit hbefore).1

theorem path_eq_nil (h : ¬ met (model.traverse root) node = true) :
    model.path root node = [] := by
  have hnone : (model.traverse root).lookup node = none := by
    rw [List.lookup_eq_none_iff]
    intro entry hentry
    rw [met_iff] at h
    have hne : node ≠ entry.1 := fun heq ↦ h (heq ▸ List.mem_map_of_mem hentry)
    simpa using hne
  rw [Model.path]
  cases model.nodes.size with
  | zero => rfl
  | succ count => rw [climb, hnone]

/-! ### The order of the request -/

include h in
theorem Built.joins_iff {key first second : String} :
    model.multigraph.joins key first second ↔
      (∃ item ∈ edges, item.id = key ∧ item.enabled = true ∧
        (item.source = first ∧ item.target = second ∨ item.source = second ∧ item.target = first)) ∨
      ∃ node ∈ nodes, ∃ definition, node.derivation = some definition ∧
        "derived:" ++ node.id = key ∧
        (node.id = first ∧ (derivedEdge node.id definition).target = second ∨
          node.id = second ∧ (derivedEdge node.id definition).target = first) := by
  constructor
  · rintro ⟨edge, hedge, henabled, hends⟩
    obtain ⟨rfl, ⟨item, hitem, hstands⟩ | ⟨source, found, definition, hfound, hdefinition, rfl⟩⟩ :=
      h.edge_cases hedge
    · rw [hstands.same] at henabled hends
      refine .inl ⟨item, hitem, ?_, henabled, hends⟩
      rw [hstands.same]
      rfl
    · obtain ⟨node, hnode, rfl, rfl⟩ := h.get?_node.mp hfound
      rw [derivedEdge_source] at hends
      exact .inr ⟨node, hnode, definition, hdefinition, (derivedEdge_id _ _).symm, hends⟩
  · rintro (⟨item, hitem, rfl, henabled, hends⟩ | ⟨node, hnode, definition, hdefinition, rfl, hends⟩)
    · obtain ⟨edge, hedge, hstands⟩ := h.authored_edge hitem
      refine ⟨edge, hedge, ?_, ?_⟩
      · rw [hstands.same]
        exact henabled
      · rw [hstands.same]
        exact hends
    · have hedge := h.derived_edge (h.get?_node.mpr ⟨node, hnode, rfl, rfl⟩) hdefinition
      exact ⟨_, hedge, derivedEdge_enabled _ _, by rwa [derivedEdge_source]⟩

include h in
/-- Assumes: models of requests with the same nodes and edges, in any order. Their multigraphs are
the same. -/
theorem multigraph_of_perm {nodes' : List Node} {edges' : List EdgeItem} {model' : Model}
    (h' : Built python catalog nodes' edges' model')
    (hnodes : nodes'.Perm nodes) (hedges : edges'.Perm edges) :
    model'.multigraph = model.multigraph := by
  ext key first second
  rw [h.joins_iff, h'.joins_iff]
  simp only [hnodes.mem_iff, hedges.mem_iff]

include h in
/-- Assumes: models of requests with the same nodes and edges, in any order, the one without cycles.
Traversals from a node meet the same nodes, by the same join paths. -/
theorem path_of_perm {nodes' : List Node} {edges' : List EdgeItem} {model' : Model}
    (h' : Built python catalog nodes' edges' model')
    (hnodes : nodes'.Perm nodes) (hedges : edges'.Perm edges) (hforest : model.multigraph.IsForest)
    (hroot : root ∈ model.nodes.keys) :
    met (model'.traverse root) node = met (model.traverse root) node ∧
      model'.path root node = model.path root node := by
  have hgraph := multigraph_of_perm h h' hnodes hedges
  have hroot' : root ∈ model'.nodes.keys := by
    rw [Dictionary.keys, h'.nodes_eq, List.map_map]
    rw [Dictionary.keys, h.nodes_eq, List.map_map] at hroot
    exact (hnodes.map _).mem_iff.mpr hroot
  have hmet : met (model'.traverse root) node = true ↔ met (model.traverse root) node = true := by
    rw [h'.met_traverse_iff hroot', h.met_traverse_iff hroot, hgraph]
  refine ⟨Bool.eq_iff_iff.mpr hmet, ?_⟩
  by_cases hfound : met (model.traverse root) node = true
  · have hpath := h'.path_of_traverse hroot' (hmet.mpr hfound)
    rw [hgraph] at hpath
    exact Multigraph.path_unique hforest hpath (h.path_of_traverse hroot hfound)
  · rw [path_eq_nil hfound, path_eq_nil fun hfound' ↦ hfound (hmet.mp hfound')]

/-- Assumes: a model of a request. `cycles` lists the enabled edges that lie on a cycle, each once, so
it is empty exactly when the enabled edges are a forest. Then a traversal meets the nodes that are
connected with its start, the join path to such a node is the only path, and neither depends on the
order of the nodes and edges of the request. -/
theorem join_paths_exact (h : buildModel python catalog nodes edges = .ok model) :
    (model.cycles.Nodup ∧ ∀ key, key ∈ model.cycles ↔ model.multigraph.OnCycle key) ∧
      (model.cycles = [] ↔ model.multigraph.IsForest) ∧
      (model.cycles = [] → ∀ root ∈ model.nodes.keys, ∀ node,
        (met (model.traverse root) node = true ↔ ∃ steps, Walk model.multigraph root steps node) ∧
        (met (model.traverse root) node = true →
          ∀ steps, Path model.multigraph root steps node ↔ steps = model.path root node) ∧
        ∀ nodes' edges' model', nodes'.Perm nodes → edges'.Perm edges →
          buildModel python catalog nodes' edges' = .ok model' →
          met (model'.traverse root) node = met (model.traverse root) node ∧
            model'.path root node = model.path root node) := by
  have hbuilt := buildModel_built h
  have hempty : model.cycles = [] ↔ model.multigraph.IsForest := by
    rw [Multigraph.isForest_iff, List.eq_nil_iff_forall_not_mem]
    exact forall_congr' fun key ↦ not_congr (hbuilt.mem_cycles_iff key)
  refine ⟨⟨hbuilt.nodup_cycles, hbuilt.mem_cycles_iff⟩, hempty, ?_⟩
  intro hnone root hroot node
  have hforest := hempty.mp hnone
  refine ⟨hbuilt.met_traverse_iff hroot, ?_, ?_⟩
  · intro hmet steps
    have hpath := hbuilt.path_of_traverse hroot hmet
    exact ⟨fun hsteps ↦ Multigraph.path_unique hforest hsteps hpath, fun hsteps ↦ hsteps ▸ hpath⟩
  · intro nodes' edges' model' hnodes hedges hother
    exact path_of_perm hbuilt (buildModel_built hother) hnodes hedges hforest hroot

/-- The join path from orders to customers. -/
theorem sample_join_path : ∃ model,
    buildModel sampleInterpreter sampleCatalog sampleNodes sampleEdges = .ok model ∧
      model.cycles = [] ∧ model.path "orders" "customers" = [("placed by", "customers")] ∧
      ∀ steps, Path model.multigraph "orders" steps "customers" ↔ steps = [("placed by", "customers")] := by
  have hmodel : buildModel sampleInterpreter sampleCatalog sampleNodes sampleEdges = .ok _ := rfl
  obtain ⟨-, -, hpaths⟩ := join_paths_exact hmodel
  have hpath := (hpaths (by decide) "orders" (by decide) "customers").2.1 (by decide)
  exact ⟨_, hmodel, by decide, by decide, hpath⟩

end Schemii.SemanticModels
