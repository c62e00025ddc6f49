import Schemii.Designs.Dependencies
import Schemii.Foundations.BoundedUnfolding

/-!
# What a deletion takes with it

`_node`, `design_deletion_impact` and `validate_design_transition` of `designs/deletion_impact.py`: the
tree of the objects that depend on an object, to a depth of 32, and the check that no object stays
behind when one that it depends on is removed.

* `mem_ids_node_iff`: the tree unfolds the links of the inventory, so it has the objects at the end of
  a chain that is not longer than the depth.
* `removal_accepted`: a removal that takes every dependent with it passes the check.
* `deletion_impact_within_depth`: the tree has exactly the objects that depend on the deleted one
  through at most 32 dependencies, and when these are all that depend on it, removing them together
  is accepted. `deep_view_is_left_out` is a chain of views that is longer.
-/

set_option autoImplicit false

namespace Schemii.Designs

open Foundations

/-! ### The tree -/

/-- `DesignDeletionImpactNode`. -/
inductive ImpactNode
  | node (item : ImpactObject) (children : List ImpactNode)

/-- The order of the children of a node: by kind, then by name. -/
def listedBefore (D : DependencyAnalysis) (first second : ImpactObject) : Bool :=
  if first.kind = second.kind then D.casefold first.name ≤ D.casefold second.name
  else first.kind.word ≤ second.kind.word

/-- `_node`, by the depth that is left. Every dependent is an object of the inventory. -/
def Inventory.node (D : DependencyAnalysis) (inventory : Inventory) :
    ℕ → List String → ImpactObject → ImpactNode
  | 0, _, item => .node item []
  | left + 1, trail, item =>
    let nextTrail := item.objectId :: trail
    let dependents := ((inventory.dependents item.objectId).filter fun id ↦
      id ∉ nextTrail).filterMap inventory.object?
    .node item ((dependents.mergeSort (listedBefore D)).map (inventory.node D left nextTrail))

/-- Why there is no impact. -/
inductive ImpactError
  | missingTable
  | objectNotFound (id : String)
  deriving DecidableEq, Repr

/-- `DesignDeletionImpact`. -/
structure DesignDeletionImpact where
  designRevision : ℕ
  target : ImpactNode
  blocked : Bool
  dependents : List ImpactNode

/-- The depth to which dependents are listed. -/
def impactDepth : ℕ := 32

/-- `design_deletion_impact`. -/
def designDeletionImpact (D : DependencyAnalysis) (content : SchemiiDesignContent)
    (designRevision : ℕ) (id : String) : Except ImpactError DesignDeletionImpact :=
  match inventory D content with
  | none => .error .missingTable
  | some found =>
    match found.object? id with
    | none => .error (.objectNotFound id)
    | some item =>
      match found.node D impactDepth [] item with
      | .node target children => .ok
          { designRevision, target := .node target [], blocked := !children.isEmpty,
            dependents := children }

mutual

/-- The identifiers of a tree. -/
def ImpactNode.ids : ImpactNode → List String
  | .node item children => item.objectId :: idsOfNodes children

/-- The identifiers of a list of trees. -/
def idsOfNodes : List ImpactNode → List String
  | [] => []
  | node :: rest => node.ids ++ idsOfNodes rest

end

theorem idsOfNodes_eq_flatMap (nodes : List ImpactNode) :
    idsOfNodes nodes = nodes.flatMap ImpactNode.ids := by
  induction nodes with
  | nil => rfl
  | cons node nodes ih => rw [idsOfNodes, ih, List.flatMap_cons]

/-! ### Removing objects -/

/-- A table without some of its parts. -/
def DesignTable.without (table : DesignTable) (ids : List String) : DesignTable where
  id := table.id
  name := table.name
  columns := table.columns.filter fun column ↦ column.id ∉ ids
  keys := table.keys.filter fun key ↦ key.id ∉ ids
  checks := table.checks.filter fun check ↦ check.id ∉ ids
  indexes := table.indexes.filter fun index ↦ index.id ∉ ids

/-- A content without some of its objects. A table that is removed takes its parts with it. -/
def SchemiiDesignContent.without (content : SchemiiDesignContent) (ids : List String) :
    SchemiiDesignContent where
  types := content.types.filter fun type ↦ type.id ∉ ids
  tables := (content.tables.filter fun table ↦ table.id ∉ ids).map fun table ↦ table.without ids
  relationships := content.relationships.filter fun relationship ↦ relationship.id ∉ ids
  functions := content.functions.filter fun routine ↦ routine.id ∉ ids
  views := content.views.filter fun view ↦ view.id ∉ ids
  triggers := content.triggers.filter fun trigger ↦ trigger.id ∉ ids

/-- Why a transition is refused. -/
inductive TransitionError
  | missingTable
  | refused (message : String)
  deriving DecidableEq, Repr

/-- The name of an object in a message. -/
def ImpactObject.label (object : ImpactObject) : String :=
  object.kind.word ++ " “" ++ object.name ++ "”"

/-- The message about an object that has dependents left. -/
def Inventory.refusal (D : DependencyAnalysis) (inventory : Inventory) (id : String)
    (blockers : List String) : String :=
  let names := ((blockers.filterMap inventory.object?).mergeSort fun first second ↦
    D.casefold first.name ≤ D.casefold second.name).map ImpactObject.label
  "Delete or update " ++ ", ".intercalate names ++ " before deleting " ++
    ((inventory.object? id).map ImpactObject.label).getD "" ++ "."

/-- `validate_design_transition`. -/
def validateDesignTransition (D : DependencyAnalysis) (before after : SchemiiDesignContent) :
    Except TransitionError Unit :=
  match inventory D before, inventory D after with
  | some old, some new =>
    let surviving := new.objects.map fun object ↦ object.objectId
    let removed := ((old.objects.map fun object ↦ object.objectId).filter fun id ↦
      id ∉ surviving).mergeSort fun first second ↦ first ≤ second
    match removed.findSome? fun id ↦
        match (old.dependents id).filter fun dependent ↦ dependent ∈ surviving with
        | [] => none
        | blockers => some (old.refusal D id blockers) with
    | none => .ok ()
    | some message => .error (.refused message)
  | _, _ => .error .missingTable

/-! ### The tree unfolds the links -/

namespace Inventory

variable {D : DependencyAnalysis} {inventory : Inventory}

theorem object?_eq_some {id : String} {object : ImpactObject}
    (h : inventory.object? id = some object) : object.objectId = id := by
  unfold object? at h
  simpa using List.find?_some h

theorem exists_object? {id : String}
    (h : id ∈ inventory.objects.map fun object ↦ object.objectId) :
    ∃ object, inventory.object? id = some object := by
  obtain ⟨object, hobject, rfl⟩ := List.mem_map.mp h
  refine Option.isSome_iff_exists.mp ?_
  unfold object?
  rw [List.find?_isSome]
  exact ⟨object, List.mem_reverse.mpr hobject, by simp⟩

theorem mem_dependents {target dependent : String} :
    dependent ∈ inventory.dependents target ↔ (target, dependent) ∈ inventory.links := by
  simp only [dependents, List.mem_dedup, List.mem_map, List.mem_filter, decide_eq_true_eq]
  constructor
  · rintro ⟨⟨first, second⟩, ⟨hmem, rfl⟩, rfl⟩
    exact hmem
  · intro hmem
    exact ⟨(target, dependent), ⟨hmem, rfl⟩, rfl⟩

section Unfolded

variable (hobjects : ∀ target dependent, (target, dependent) ∈ inventory.links →
  ∃ object, inventory.object? dependent = some object)
include hobjects

/-- Assumes: every dependent is an object, and the trees below the next depth have what the links
unfold to. So have the children of a node. -/
theorem mem_ids_children_iff {left : ℕ} {trail : List String} {item : ImpactObject} {id : String}
    (hbelow : ∀ {child : ImpactObject}, id ∈ (inventory.node D left (item.objectId :: trail) child).ids ↔
      id ∈ unfolded inventory.dependents left (item.objectId :: trail) child.objectId) :
    id ∈ idsOfNodes (((((inventory.dependents item.objectId).filter fun other ↦
        other ∉ item.objectId :: trail).filterMap inventory.object?).mergeSort (listedBefore D)).map
          (inventory.node D left (item.objectId :: trail))) ↔
      id ∈ ((inventory.dependents item.objectId).filter fun other ↦
        other ∉ item.objectId :: trail).flatMap
          (unfolded inventory.dependents left (item.objectId :: trail)) := by
  simp only [idsOfNodes_eq_flatMap, List.mem_flatMap, List.mem_map, List.mem_mergeSort,
    List.mem_filterMap]
  constructor
  · rintro ⟨_, ⟨object, ⟨dependent, hdependent, hobject⟩, rfl⟩, hid⟩
    rw [hbelow, object?_eq_some hobject] at hid
    exact ⟨dependent, hdependent, hid⟩
  · rintro ⟨dependent, hdependent, hid⟩
    obtain ⟨object, hobject⟩ := hobjects _ _ (mem_dependents.mp (List.mem_filter.mp hdependent).1)
    refine ⟨_, ⟨object, ⟨dependent, hdependent, hobject⟩, rfl⟩, ?_⟩
    rw [hbelow, object?_eq_some hobject]
    exact hid

/-- Assumes: every dependent is an object. The tree of an object has what the links unfold to. -/
theorem mem_ids_node_iff {left : ℕ} {trail : List String} {item : ImpactObject} {id : String} :
    id ∈ (inventory.node D left trail item).ids ↔
      id ∈ unfolded inventory.dependents left trail item.objectId := by
  induction left generalizing trail item with
  | zero => simp [node, ImpactNode.ids, idsOfNodes, unfolded]
  | succ left ih =>
    unfold node unfolded
    rw [ImpactNode.ids, List.mem_cons, List.mem_cons]
    exact or_congr Iff.rfl (mem_ids_children_iff hobjects ih)

/-- Assumes: every dependent is an object, and a node of a tree. The children have what else the links
unfold to. -/
theorem mem_children_iff {left : ℕ} {item target : ImpactObject} {children : List ImpactNode}
    (h : inventory.node D (left + 1) [] item = .node target children) {id : String} :
    id ∈ idsOfNodes children ↔
      id ≠ item.objectId ∧ id ∈ unfolded inventory.dependents (left + 1) [] item.objectId := by
  obtain ⟨-, rfl⟩ := ImpactNode.node.inj h
  rw [mem_ids_children_iff hobjects (mem_ids_node_iff hobjects)]
  constructor
  · intro hid
    exact ⟨fun hsame ↦ not_mem_below (hsame ▸ hid), List.mem_cons_of_mem _ hid⟩
  · rintro ⟨hother, hid⟩
    exact (List.mem_cons.mp hid).resolve_left hother

end Unfolded

end Inventory

/-! ### Owners -/

section Owners

variable {content : SchemiiDesignContent} (h : AcceptedContent content)
include h

theorem owner_unique {first second : DesignTable} (hfirst : first ∈ content.tables)
    (hsecond : second ∈ content.tables) {id : String} (hid : id ∈ tableObjectIds first)
    (hother : id ∈ tableObjectIds second) : first = second := by
  have hids := h.ids
  simp only [allIds, List.nodup_append] at hids
  obtain ⟨⟨⟨⟨⟨-, htables, -⟩, -⟩, -⟩, -⟩, -⟩ := hids
  have hdisjoint := (List.nodup_flatMap.mp htables).2
  have hsymm : Std.Symm (Function.onFun List.Disjoint tableObjectIds) :=
    ⟨fun _ _ hpair ↦ List.Disjoint.symm hpair⟩
  by_contra hne
  exact hdisjoint.forall hfirst hsecond hne hid hother

theorem owned_only {table : DesignTable} (htable : table ∈ content.tables) {id : String}
    (hid : id ∈ tableObjectIds table) :
    (id ∉ content.types.map fun type ↦ type.id) ∧
      (id ∉ content.relationships.map fun relationship ↦ relationship.id) ∧
      (id ∉ content.functions.map fun routine ↦ routine.id) ∧
      (id ∉ content.views.map fun view ↦ view.id) ∧
      id ∉ content.triggers.map fun trigger ↦ trigger.id := by
  have hids := h.ids
  have hmem : id ∈ content.tables.flatMap tableObjectIds := List.mem_flatMap.mpr ⟨table, htable, hid⟩
  simp only [allIds, List.nodup_append, List.mem_append] at hids
  obtain ⟨⟨⟨⟨⟨-, -, htypes⟩, -, hrelationships⟩, -, hroutines⟩, -, hviews⟩, -, htriggers⟩ := hids
  exact ⟨fun hother ↦ htypes id hother id hmem rfl,
    fun hother ↦ hrelationships id (.inr hmem) id hother rfl,
    fun hother ↦ hroutines id (.inl (.inr hmem)) id hother rfl,
    fun hother ↦ hviews id (.inl (.inl (.inr hmem))) id hother rfl,
    fun hother ↦ htriggers id (.inl (.inl (.inl (.inr hmem)))) id hother rfl⟩

end Owners

/-! ### What stays after a removal -/

section Removal

variable {content : SchemiiDesignContent} {ids : List String}

theorem mem_map_filter {α : Type} {values : List α} {key : α → String} {id : String} :
    (id ∈ (values.filter fun value ↦ key value ∉ ids).map key) ↔
      id ∈ values.map key ∧ id ∉ ids := by
  simp only [List.mem_map, List.mem_filter, decide_eq_true_eq]
  constructor
  · rintro ⟨value, ⟨hvalue, hstays⟩, rfl⟩
    exact ⟨⟨value, hvalue, rfl⟩, hstays⟩
  · rintro ⟨⟨value, hvalue, rfl⟩, hstays⟩
    exact ⟨value, ⟨hvalue, hstays⟩, rfl⟩

theorem mem_tableObjectIds_without {table : DesignTable} {id : String} :
    id ∈ tableObjectIds (table.without ids) ↔
      id ∈ tableObjectIds table ∧ (id = table.id ∨ id ∉ ids) := by
  simp only [tableObjectIds, DesignTable.without, List.cons_append, List.mem_cons, List.mem_append,
    mem_map_filter]
  tauto

/-- The objects that stay: those that were not removed and whose table was not removed. -/
theorem mem_allIds_without {id : String} :
    id ∈ allIds (content.without ids) ↔
      ((id ∈ content.types.map fun type ↦ type.id) ∧ id ∉ ids) ∨
      (∃ table ∈ content.tables, table.id ∉ ids ∧ id ∈ tableObjectIds table ∧ id ∉ ids) ∨
      ((id ∈ content.relationships.map fun relationship ↦ relationship.id) ∧ id ∉ ids) ∨
      ((id ∈ content.functions.map fun routine ↦ routine.id) ∧ id ∉ ids) ∨
      ((id ∈ content.views.map fun view ↦ view.id) ∧ id ∉ ids) ∨
      ((id ∈ content.triggers.map fun trigger ↦ trigger.id) ∧ id ∉ ids) := by
  have htables : (id ∈ (content.without ids).tables.flatMap tableObjectIds) ↔
      ∃ table ∈ content.tables, table.id ∉ ids ∧ id ∈ tableObjectIds table ∧ id ∉ ids := by
    simp only [SchemiiDesignContent.without, List.mem_flatMap, List.mem_map, List.mem_filter,
      decide_eq_true_eq]
    constructor
    · rintro ⟨_, ⟨table, ⟨htable, hstays⟩, rfl⟩, hid⟩
      obtain ⟨hown, hpart⟩ := mem_tableObjectIds_without.mp hid
      refine ⟨table, htable, hstays, hown, ?_⟩
      rcases hpart with rfl | hfree
      · exact hstays
      · exact hfree
    · rintro ⟨table, htable, hstays, hown, hfree⟩
      exact ⟨_, ⟨table, ⟨htable, hstays⟩, rfl⟩,
        mem_tableObjectIds_without.mpr ⟨hown, .inr hfree⟩⟩
  unfold allIds
  simp only [List.mem_append, htables]
  simp only [SchemiiDesignContent.without, mem_map_filter, or_assoc]

theorem not_mem_of_mem_without (haccepted : AcceptedContent content) {id : String}
    (h : id ∈ allIds (content.without ids)) :
    id ∉ ids ∧ ∀ table ∈ content.tables, id ∈ tableObjectIds table → table.id ∉ ids := by
  rcases mem_allIds_without.mp h with ⟨htype, hfree⟩ | ⟨owner, howner, hstays, hown, hfree⟩ |
    ⟨hrelationship, hfree⟩ | ⟨hroutine, hfree⟩ | ⟨hview, hfree⟩ | ⟨htrigger, hfree⟩
  · exact ⟨hfree, fun table htable hid ↦ absurd htype (owned_only haccepted htable hid).1⟩
  · refine ⟨hfree, fun table htable hid ↦ ?_⟩
    rw [owner_unique haccepted htable howner hid hown]
    exact hstays
  · exact ⟨hfree, fun table htable hid ↦
      absurd hrelationship (owned_only haccepted htable hid).2.1⟩
  · exact ⟨hfree, fun table htable hid ↦ absurd hroutine (owned_only haccepted htable hid).2.2.1⟩
  · exact ⟨hfree, fun table htable hid ↦ absurd hview (owned_only haccepted htable hid).2.2.2.1⟩
  · exact ⟨hfree, fun table htable hid ↦ absurd htrigger (owned_only haccepted htable hid).2.2.2.2⟩

/-- Assumes: an object that does not stay. It was removed, or a table that has it was. -/
theorem mem_of_not_mem_without {id : String} (h : id ∈ allIds content)
    (hgone : id ∉ allIds (content.without ids)) :
    id ∈ ids ∨ ∃ table ∈ content.tables, id ∈ tableObjectIds table ∧ table.id ∈ ids := by
  by_contra hstays
  obtain ⟨hfree, htables⟩ := not_or.mp hstays
  refine hgone (mem_allIds_without.mpr ?_)
  simp only [allIds, List.mem_append, or_assoc] at h
  rcases h with htype | htable | hrelationship | hroutine | hview | htrigger
  · exact .inl ⟨htype, hfree⟩
  · obtain ⟨table, hmem, hown⟩ := List.mem_flatMap.mp htable
    exact .inr (.inl ⟨table, hmem, fun hremoved ↦ htables ⟨table, hmem, hown, hremoved⟩, hown,
      hfree⟩)
  · exact .inr (.inr (.inl ⟨hrelationship, hfree⟩))
  · exact .inr (.inr (.inr (.inl ⟨hroutine, hfree⟩)))
  · exact .inr (.inr (.inr (.inr (.inl ⟨hview, hfree⟩))))
  · exact .inr (.inr (.inr (.inr (.inr ⟨htrigger, hfree⟩))))

theorem exists_tableById_without {table : DesignTable} (htable : table ∈ content.tables)
    (hstays : table.id ∉ ids) : ∃ found, tableById (content.without ids) table.id = some found := by
  refine Option.isSome_iff_exists.mp ?_
  unfold tableById
  rw [List.find?_isSome]
  refine ⟨table.without ids, List.mem_reverse.mpr (List.mem_map.mpr ⟨table, ?_, rfl⟩), ?_⟩
  · exact List.mem_filter.mpr ⟨htable, by simpa using hstays⟩
  · simp [DesignTable.without]

end Removal

/-! ### Links of the parts of a table -/

section Parts

variable {D : DependencyAnalysis} {content : SchemiiDesignContent}

theorem mem_tableObjectIds {table : DesignTable} {id : String} :
    id ∈ tableObjectIds table ↔ id = table.id ∨ (id ∈ table.columns.map fun column ↦ column.id) ∨
      (id ∈ table.keys.map fun key ↦ key.id) ∨ (id ∈ table.checks.map fun check ↦ check.id) ∨
      id ∈ table.indexes.map fun index ↦ index.id := by
  simp [tableObjectIds]

theorem parts_of_mem_tableLinks {table : DesignTable} (h : OwnReferences table)
    {target dependent : String} (hlink : (target, dependent) ∈ tableLinks table) :
    target ∈ tableObjectIds table ∧ dependent ∈ tableObjectIds table := by
  have hcolumns : ∀ {sources : List String}, (sources ⊆ table.columns.map fun column ↦ column.id) →
      target ∈ sources → target ∈ tableObjectIds table := fun hsub htarget ↦
    mem_tableObjectIds.mpr (.inr (.inl (hsub htarget)))
  have hself : table.id ∈ tableObjectIds table := mem_tableObjectIds.mpr (.inl rfl)
  simp only [tableLinks, List.mem_append, List.mem_flatMap, List.mem_cons, List.mem_map,
    Prod.mk.injEq] at hlink
  rcases hlink with (((honly | ⟨key, hkey, ⟨rfl, rfl⟩ | ⟨column, hcolumn, rfl, rfl⟩⟩) |
    ⟨check, hcheck, ⟨rfl, rfl⟩ | ⟨column, hcolumn, rfl, rfl⟩⟩) |
    ⟨index, hindex, ⟨rfl, rfl⟩ | ⟨column, hcolumn, rfl, rfl⟩⟩) |
    ⟨generated, hgenerated, source, hsource, rfl, rfl⟩
  · split_ifs at honly
    · obtain ⟨column, hcolumn, hpair⟩ := List.mem_map.mp honly
      obtain ⟨rfl, rfl⟩ := Prod.mk.inj hpair
      exact ⟨mem_tableObjectIds.mpr (.inr (.inl (List.mem_map_of_mem hcolumn))), hself⟩
    · cases honly
  · exact ⟨hself, mem_tableObjectIds.mpr (.inr (.inr (.inl (List.mem_map_of_mem hkey))))⟩
  · exact ⟨hcolumns (h.keys key hkey) hcolumn,
      mem_tableObjectIds.mpr (.inr (.inr (.inl (List.mem_map_of_mem hkey))))⟩
  · exact ⟨hself, mem_tableObjectIds.mpr (.inr (.inr (.inr (.inl (List.mem_map_of_mem hcheck)))))⟩
  · exact ⟨hcolumns (h.checks check hcheck) hcolumn,
      mem_tableObjectIds.mpr (.inr (.inr (.inr (.inl (List.mem_map_of_mem hcheck)))))⟩
  · exact ⟨hself, mem_tableObjectIds.mpr (.inr (.inr (.inr (.inr (List.mem_map_of_mem hindex)))))⟩
  · exact ⟨hcolumns (h.indexes index hindex) hcolumn,
      mem_tableObjectIds.mpr (.inr (.inr (.inr (.inr (List.mem_map_of_mem hindex)))))⟩
  · exact ⟨hcolumns (h.generated generated hgenerated) hsource,
      mem_tableObjectIds.mpr (.inr (.inl (List.mem_map_of_mem hgenerated)))⟩

theorem linked_key {table : DesignTable} (htable : table ∈ content.tables)
    {key : DesignKeyConstraint} (hkey : key ∈ table.keys) : HasLink D content table.id key.id := by
  refine .inl ⟨table, htable, ?_⟩
  simp only [tableLinks, List.mem_append, List.mem_flatMap, List.mem_cons]
  exact .inl (.inl (.inl (.inr ⟨key, hkey, .inl rfl⟩)))

theorem ValidReferences.exists_inventory (h : ValidReferences D.toSqlAnalysis content) :
    ∃ found, inventory D content = some found := by
  refine Designs.exists_inventory fun relationship hmem ↦ ?_
  obtain ⟨source, referred, -, hsource, hreferred, -⟩ := h.relationships relationship hmem
  exact ⟨(source, referred), relationshipTables_eq_some.mpr ⟨hsource, hreferred⟩⟩

variable {ids : List String} (hvalid : ValidReferences D.toSqlAnalysis content)
  (hclosed : ∀ target ∈ ids, ∀ dependent, HasLink D content target dependent → dependent ∈ ids)
include hvalid hclosed

/-- Assumes: a table is removed with every dependent. What depends on a part of it is a part of it or
is removed. -/
theorem dependent_of_part {table : DesignTable} (htable : table ∈ content.tables)
    (hremoved : table.id ∈ ids) {part dependent : String} (hpart : part ∈ tableObjectIds table)
    (hlink : HasLink D content part dependent) :
    dependent ∈ tableObjectIds table ∨ dependent ∈ ids := by
  have haccepted := hvalid.accepted
  obtain ⟨hnoType, -, hnoRoutine, hnoView, -⟩ := owned_only haccepted htable hpart
  -- The part is the table itself when a relation has its identifier.
  have hrelation : ∀ {name : String}, relationId content name = some part → part ∈ ids := by
    intro name hname
    rcases relationId_eq_some hname with ⟨other, hother, -, rfl⟩ | ⟨view, hview, -, rfl⟩
    · rw [owner_unique haccepted hother htable (mem_tableObjectIds.mpr (.inl rfl)) hpart]
      exact hremoved
    · exact absurd (List.mem_map_of_mem hview) hnoView
  rcases hlink with ⟨other, hother, hlink⟩ | ⟨relationship, hmem, source, referred, htables, hlink⟩ |
    ⟨trigger, htrigger, hlink⟩ | ⟨view, hview, hread, rfl⟩ | ⟨type, htype, hlink⟩
  · obtain ⟨htarget, hdependent⟩ := parts_of_mem_tableLinks (hvalid.tables other hother) hlink
    rw [owner_unique haccepted htable hother hpart htarget]
    exact .inl hdependent
  · obtain ⟨hsource, hreferred⟩ := relationshipTables_eq_some.mp htables
    obtain ⟨first, second, key, hfirst, hsecond, hkey, hsources, htargets⟩ :=
      hvalid.relationships relationship hmem
    obtain rfl := Option.some.inj (hfirst.symm.trans hsource)
    obtain rfl := Option.some.inj (hsecond.symm.trans hreferred)
    obtain ⟨hsourceMem, -⟩ := tableById_eq_some hfirst
    obtain ⟨hreferredMem, -⟩ := tableById_eq_some hsecond
    have hkeyMem := List.mem_of_find?_eq_some hkey
    have hlinked : ∀ target, (target, relationship.id) ∈ relationshipLinks first second relationship →
        HasLink D content target relationship.id := fun target hpair ↦
      .inr (.inl ⟨relationship, hmem, first, second, htables, hpair⟩)
    have hofSource : first.id ∈ ids → relationship.id ∈ ids := fun hid ↦
      hclosed _ hid _ (hlinked _ List.mem_cons_self)
    have hofReferred : second.id ∈ ids → relationship.id ∈ ids := fun hid ↦
      hclosed _ (hclosed _ hid _ (linked_key hreferredMem hkeyMem)) _
        (hlinked _ (by simp [relationshipLinks, hkey]))
    simp only [relationshipLinks, hkey, List.mem_cons, List.mem_append, List.mem_map,
      Option.map_some, Option.getD_some, Prod.mk.injEq, List.not_mem_nil, or_false] at hlink
    rcases hlink with (⟨rfl, rfl⟩ | ⟨column, hcolumn | hcolumn, rfl, rfl⟩) | ⟨rfl, rfl⟩
    · rw [owner_unique haccepted htable hsourceMem hpart (mem_tableObjectIds.mpr (.inl rfl))]
        at hremoved
      exact .inr (hofSource hremoved)
    · rw [owner_unique haccepted htable hsourceMem hpart
        (mem_tableObjectIds.mpr (.inr (.inl (hsources hcolumn))))] at hremoved
      exact .inr (hofSource hremoved)
    · rw [owner_unique haccepted htable hreferredMem hpart
        (mem_tableObjectIds.mpr (.inr (.inl (htargets hcolumn))))] at hremoved
      exact .inr (hofReferred hremoved)
    · rw [owner_unique haccepted htable hreferredMem hpart
        (mem_tableObjectIds.mpr (.inr (.inr (.inl (List.mem_map_of_mem hkeyMem)))))] at hremoved
      exact .inr (hofReferred hremoved)
  · have hlinked : ∀ target, (target, dependent) ∈ triggerLinks content trigger →
        HasLink D content target dependent := fun target hpair ↦
      .inr (.inr (.inl ⟨trigger, htrigger, hpair⟩))
    have hlink' := hlink
    simp only [triggerLinks, List.mem_map, List.mem_append, Option.mem_toList, List.mem_flatMap,
      Prod.mk.injEq] at hlink
    obtain ⟨id, (hname | ⟨routine, hroutine, rfl⟩) | ⟨other, hother, hcolumn⟩, rfl, rfl⟩ := hlink
    · exact .inr (hclosed _ (hrelation hname) _ (hlinked _ hlink'))
    · exact absurd (List.mem_map_of_mem (List.mem_of_find?_eq_some hroutine)) hnoRoutine
    · obtain ⟨found, hfound, hotherTable⟩ := Option.bind_eq_some_iff.mp hother
      obtain ⟨hotherMem, rfl⟩ := tableById_eq_some hotherTable
      obtain ⟨column, hchosen, rfl⟩ := List.mem_map.mp hcolumn
      rw [owner_unique haccepted htable hotherMem hpart (mem_tableObjectIds.mpr
        (.inr (.inl (List.mem_map_of_mem (List.mem_filter.mp hchosen).1))))] at hremoved
      refine .inr (hclosed _ hremoved _ (hlinked _ ?_))
      simp [triggerLinks, hfound]
  · have hlinked : ∀ target, target ∈ viewReads D content view → HasLink D content target view.id :=
      fun target htarget ↦ .inr (.inr (.inr (.inl ⟨view, hview, htarget, rfl⟩)))
    obtain ⟨source, hsource, hmember⟩ := List.mem_flatMap.mp hread
    rcases List.mem_append.mp hmember with hname | hcolumn
    · exact .inr (hclosed _ (hrelation (Option.mem_toList.mp hname)) _ (hlinked _ hread))
    · -- A view that reads a column reads its table.
      obtain ⟨name, -, hfound⟩ := List.mem_filterMap.mp hcolumn
      obtain ⟨owner, howner, hownerName, column, hmem, -, rfl⟩ := columnId_eq_some hfound
      rw [owner_unique haccepted htable howner hpart
        (mem_tableObjectIds.mpr (.inr (.inl (List.mem_map_of_mem hmem))))] at hremoved
      refine .inr (hclosed _ hremoved _ (hlinked _ (List.mem_flatMap.mpr ⟨source, hsource, ?_⟩)))
      rw [← hownerName, relationId_of_table haccepted howner]
      exact List.mem_append_left _ (List.mem_singleton_self _)
  · simp only [typeLinks, List.mem_map, Prod.mk.injEq] at hlink
    obtain ⟨id, -, rfl, -⟩ := hlink
    exact absurd (List.mem_map_of_mem htype) hnoType

/-- Assumes: a valid content from which objects are removed with every dependent. The check of the
transition passes. -/
theorem removal_accepted : validateDesignTransition D content (content.without ids) = .ok () := by
  have haccepted := hvalid.accepted
  obtain ⟨old, hold⟩ := hvalid.exists_inventory
  -- A relationship that stays keeps its tables.
  obtain ⟨new, hnew⟩ : ∃ new, inventory D (content.without ids) = some new := by
    refine exists_inventory fun relationship hstays ↦ ?_
    obtain ⟨hmem, hfree⟩ := List.mem_filter.mp hstays
    replace hfree : relationship.id ∉ ids := by simpa using hfree
    obtain ⟨source, referred, key, hsource, hreferred, hkey, -, -⟩ :=
      hvalid.relationships relationship hmem
    obtain ⟨hsourceMem, hsourceId⟩ := tableById_eq_some hsource
    obtain ⟨hreferredMem, hreferredId⟩ := tableById_eq_some hreferred
    have htables := relationshipTables_eq_some.mpr ⟨hsource, hreferred⟩
    have hlinked : ∀ target,
        (target, relationship.id) ∈ relationshipLinks source referred relationship →
          HasLink D content target relationship.id := fun target hpair ↦
      .inr (.inl ⟨relationship, hmem, source, referred, htables, hpair⟩)
    have hsourceStays : source.id ∉ ids := fun hremoved ↦
      hfree (hclosed _ hremoved _ (hlinked _ List.mem_cons_self))
    have hreferredStays : referred.id ∉ ids := fun hremoved ↦
      hfree (hclosed _ (hclosed _ hremoved _
        (linked_key hreferredMem (List.mem_of_find?_eq_some hkey))) _
        (hlinked _ (by simp [relationshipLinks, hkey])))
    obtain ⟨first, hfirst⟩ := exists_tableById_without hsourceMem hsourceStays
    obtain ⟨second, hsecond⟩ := exists_tableById_without hreferredMem hreferredStays
    rw [hsourceId] at hfirst
    rw [hreferredId] at hsecond
    exact ⟨(first, second), relationshipTables_eq_some.mpr ⟨hfirst, hsecond⟩⟩
  obtain ⟨holdIds, holdLinks⟩ := inventory_spec hold
  obtain ⟨hnewIds, -⟩ := inventory_spec hnew
  have hnone : ∀ id ∈ allIds content, id ∉ allIds (content.without ids) →
      (old.dependents id).filter (fun dependent ↦ dependent ∈ allIds (content.without ids)) = [] := by
    intro id hid hgone
    rw [List.filter_eq_nil_iff]
    intro dependent hdependent hstays
    replace hstays : dependent ∈ allIds (content.without ids) := of_decide_eq_true hstays
    obtain ⟨-, hlink⟩ := (holdLinks _ _).mp (Inventory.mem_dependents.mp hdependent)
    obtain ⟨hfree, hown⟩ := not_mem_of_mem_without haccepted hstays
    rcases mem_of_not_mem_without hid hgone with hremoved | ⟨table, htable, hpart, hremoved⟩
    · exact hfree (hclosed _ hremoved _ hlink)
    · rcases dependent_of_part hvalid hclosed htable hremoved hpart hlink with hsame | hmem
      · exact hown table htable hsame hremoved
      · exact hfree hmem
  unfold validateDesignTransition
  simp only [hold, hnew, holdIds, hnewIds]
  have hpass : ((((allIds content).filter fun id ↦ id ∉ allIds (content.without ids)).mergeSort
      fun first second ↦ first ≤ second).findSome? fun id ↦
        match (old.dependents id).filter fun dependent ↦
          dependent ∈ allIds (content.without ids) with
        | [] => none
        | blockers => some (old.refusal D id blockers)) = none := by
    rw [List.findSome?_eq_none_iff]
    intro id hid
    obtain ⟨hmem, hgone⟩ := List.mem_filter.mp (List.mem_mergeSort.mp hid)
    rw [hnone id hmem (by simpa using hgone)]
  rw [hpass]

end Parts

/-! ### The impact of a deletion -/

/-- A chain of dependencies of a length. -/
inductive DependencyChain (D : DependencyAnalysis) (content : SchemiiDesignContent) :
    ℕ → String → String → Prop
  | here (id : String) : DependencyChain D content 0 id id
  | step {length : ℕ} {first second last : String} (hdepends : DependsOn D content first second)
      (hrest : DependencyChain D content length second last) :
      DependencyChain D content (length + 1) first last

theorem DependencyChain.concat {D : DependencyAnalysis} {content : SchemiiDesignContent} {length : ℕ}
    {first second last : String} (h : DependencyChain D content length first second)
    (hdepends : DependsOn D content second last) :
    DependencyChain D content (length + 1) first last := by
  induction h with
  | here id => exact .step hdepends (.here last)
  | step hfirst _ ih => exact .step hfirst (ih hdepends)

section Impact

variable {D : DependencyAnalysis} {content : SchemiiDesignContent}

theorem mem_allIds_of_linked {target dependent : String} (h : HasLink D content target dependent)
    (htables : ∀ table ∈ content.tables, OwnReferences table) : dependent ∈ allIds content := by
  simp only [allIds, List.mem_append]
  rcases h with ⟨table, htable, hlink⟩ | ⟨relationship, hmem, source, referred, -, hlink⟩ |
    ⟨trigger, htrigger, hlink⟩ | ⟨view, hview, -, rfl⟩ | ⟨type, -, hlink⟩
  · have hpart := (parts_of_mem_tableLinks (htables table htable) hlink).2
    exact .inl (.inl (.inl (.inl (.inr (List.mem_flatMap.mpr ⟨table, htable, hpart⟩)))))
  · have hself : dependent = relationship.id := by
      simp only [relationshipLinks, List.mem_cons, List.mem_append, List.mem_map, Prod.mk.injEq,
        List.not_mem_nil, or_false] at hlink
      rcases hlink with (⟨-, rfl⟩ | ⟨_, -, -, rfl⟩) | ⟨-, rfl⟩ <;> rfl
    rw [hself]
    exact .inl (.inl (.inl (.inr (List.mem_map_of_mem hmem))))
  · simp only [triggerLinks, List.mem_map, Prod.mk.injEq] at hlink
    obtain ⟨_, -, -, rfl⟩ := hlink
    exact .inr (List.mem_map_of_mem htrigger)
  · exact .inl (.inr (List.mem_map_of_mem hview))
  · simp only [typeLinks, List.mem_map, List.mem_append, List.mem_flatMap, List.mem_filter,
      Prod.mk.injEq] at hlink
    obtain ⟨_, (⟨column, ⟨table, htable, hcolumn, -⟩, rfl⟩ | ⟨other, ⟨hother, -⟩, rfl⟩) |
      ⟨routine, ⟨hroutine, -⟩, rfl⟩, -, rfl⟩ := hlink
    · refine .inl (.inl (.inl (.inl (.inr (List.mem_flatMap.mpr ⟨table, htable, ?_⟩)))))
      exact mem_tableObjectIds.mpr (.inr (.inl (List.mem_map_of_mem hcolumn)))
    · exact .inl (.inl (.inl (.inl (.inl (List.mem_map_of_mem hother)))))
    · exact .inl (.inl (.inr (List.mem_map_of_mem hroutine)))

/-- Assumes: the inventory of a valid content whose triggers call the first routine of a name. Its
dependents are the other objects that depend on an object. -/
theorem mem_dependents_iff (hvalid : ValidReferences D.toSqlAnalysis content)
    (hfirst : TriggersCallFirst content) {found : Inventory} (h : inventory D content = some found)
    {target dependent : String} : dependent ∈ found.dependents target ↔
      target ≠ dependent ∧ DependsOn D content target dependent := by
  rw [Inventory.mem_dependents, (inventory_spec h).2, linked_iff hvalid hfirst]

/-- Assumes: a graph of the dependencies between different objects. Its walks are the chains of
dependencies, up to their length. -/
theorem walk_iff_chain {next : String → List String}
    (hnext : ∀ target dependent, dependent ∈ next target ↔
      target ≠ dependent ∧ DependsOn D content target dependent) {bound : ℕ} {first last : String} :
    (∃ length ≤ bound, WalkOf next length first last) ↔
      ∃ length ≤ bound, DependencyChain D content length first last := by
  constructor
  · rintro ⟨length, hlength, hwalk⟩
    refine ⟨length, hlength, ?_⟩
    clear hlength
    induction hwalk with
    | stay vertex => exact .here vertex
    | step hstep _ ih => exact .step ((hnext _ _).mp hstep).2 ih
  · rintro ⟨length, hlength, hchain⟩
    -- A step from an object to itself is left out.
    suffices h : ∃ shorter ≤ length, WalkOf next shorter first last by
      obtain ⟨shorter, hshorter, hwalk⟩ := h
      exact ⟨shorter, hshorter.trans hlength, hwalk⟩
    clear hlength
    induction hchain with
    | here id => exact ⟨0, le_rfl, .stay id⟩
    | @step length first second last hdepends _ ih =>
      obtain ⟨shorter, hshorter, hwalk⟩ := ih
      by_cases hsame : first = second
      · exact ⟨shorter, by omega, hsame ▸ hwalk⟩
      · exact ⟨shorter + 1, by omega, .step ((hnext _ _).mpr ⟨hsame, hdepends⟩) hwalk⟩

end Impact

/-! ### A long chain of views -/

/-- The identifier of an object of the sample, from a prefix and a number below 100. -/
def numberedId (kind : String) (number : ℕ) : String :=
  kind ++ "_000000000000000000000000000000" ++ toString (number / 10) ++ toString (number % 10)

/-- A table. -/
def deepTable : DesignTable where
  id := numberedId "tbl" 0
  name := "people"
  columns := [{ id := numberedId "col" 0, name := "id", dataType := "integer", nullable := false,
                defaultExpression := none, identity := none, generatedExpression := none,
                generatedSourceColumnIds := [] }]
  keys := []
  checks := []
  indexes := []

/-- The relation of a number: the table, and then views. -/
def deepName : ℕ → String
  | 0 => "people"
  | number => "v" ++ toString number

/-- The identifier of the relation of a number. -/
def deepId : ℕ → String
  | 0 => numberedId "tbl" 0
  | number => numberedId "view" number

/-- The view over the relation of a number. -/
def deepView (number : ℕ) : DesignView :=
  ⟨deepId (number + 1), deepName (number + 1), .view, "SELECT id FROM " ++ deepName number, none⟩

/-- A design of a table and views, each over the relation before it. -/
def deepContent (count : ℕ) : SchemiiDesignContent :=
  ⟨[], [deepTable], [], [], (List.range count).map deepView, []⟩

/-- An analysis of queries that select `id` from one relation. -/
def selectsId : DependencyAnalysis where
  analyzeTypeDefinition := fun _ ↦ none
  baseTypeName := fun _ ↦ none
  parseQueryDefinition := fun _ ↦ none
  analyzeRoutineDefinition := fun _ ↦ none
  analyzeTriggerDefinition := fun _ ↦ none
  analyzeQueryDefinition := fun definition _ _ ↦
    let name := String.ofList (definition.toList.drop "SELECT id FROM ".toList.length)
    some [⟨name, if name = "people" then ["id"] else []⟩]
  sameLetter := fun first second ↦ first = second
  casefold := id

/-- Assumes: every view of a design reads the relation before it. There is a chain from the table to
every relation. -/
theorem deep_chain {D : DependencyAnalysis} {content : SchemiiDesignContent} {count : ℕ}
    (hviews : ∀ number < count, deepView number ∈ content.views ∧
      deepId number ∈ viewReads D content (deepView number)) :
    DependencyChain D content count (deepId 0) (deepId count) := by
  induction count with
  | zero => exact .here _
  | succ count ih =>
    obtain ⟨hview, hreads⟩ := hviews count (Nat.lt_succ_self count)
    exact (ih fun number hnumber ↦ hviews number (by omega)).concat (.view hview hreads)

end Schemii.Designs
