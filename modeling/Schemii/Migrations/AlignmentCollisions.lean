import Schemii.Migrations.Alignment

/-!
# Objects that get one identifier

`_aligned_content` of `migrations/planner.py` gives a live object the identifier that the baseline has
for its key, else the one that the desired design has, and else leaves it its own. Two live objects of
one scope can get the same identifier in two ways: the desired design renamed an object of the
baseline, and PostgreSQL has objects of both names; or an object that neither design knows was
imported under an identifier that a design has for another one.

`aligned_ids_distinct_iff`: the identifiers of every scope are different exactly when no two live
objects of the scope collide in this way. `renamed_table_collides` is a collision: a table was renamed
in the design, and PostgreSQL has a new table of the new name.
-/

set_option autoImplicit false

namespace Schemii.Migrations

open Foundations Designs

/-! ### Scopes -/

/-- Objects that must have different identifiers. -/
inductive IdScope
  | types
  | tables
  | columns (owner : String)
  | constraints
  | indexes
  | relationships
  | functions
  | views
  | triggers
  deriving DecidableEq, Repr

/-- The identifiers of the objects of a scope. -/
def scopeIds (content : SchemiiDesignContent) : IdScope → List String
  | .types => content.types.map fun type ↦ type.id
  | .tables => content.tables.map fun table ↦ table.id
  | .columns name => (content.tables.filter fun table ↦ table.name = name).flatMap fun table ↦
      table.columns.map fun column ↦ column.id
  | .constraints => content.tables.flatMap fun table ↦
      (table.keys.map fun key ↦ key.id) ++ table.checks.map fun check ↦ check.id
  | .indexes => content.tables.flatMap fun table ↦ table.indexes.map fun index ↦ index.id
  | .relationships => content.relationships.map fun relationship ↦ relationship.id
  | .functions => content.functions.map fun routine ↦ routine.id
  | .views => content.views.map fun view ↦ view.id
  | .triggers => content.triggers.map fun trigger ↦ trigger.id

/-- Different objects of one scope have different identifiers. -/
def DistinctIds (content : SchemiiDesignContent) : Prop :=
  ∀ scope, (scopeIds content scope).Nodup

/-- The scope of an object. -/
def ObjectKey.scope : ObjectKey → IdScope
  | .type .. => .types
  | .table .. => .tables
  | .child .columns owner _ => .columns owner
  | .child .keys _ _ => .constraints
  | .child .checks _ _ => .constraints
  | .child .indexes _ _ => .indexes
  | .function _ _ _ => .functions
  | .view _ _ => .views
  | .trigger _ _ => .triggers
  | .relationship _ _ => .relationships

/-- The objects of a scope. -/
def scopeObjects (content : SchemiiDesignContent) (scope : IdScope) : List (String × ObjectKey) :=
  (keyedObjects content).filter fun object ↦ object.2.scope = scope

/-! ### Valid designs -/

/-- A design that passed the validation. Its identifiers have the form that its model asks for. -/
structure ValidDesign (analysis : SqlAnalysis) where
  content : SchemiiDesignContent
  identified : ∀ id ∈ allIds content, isDesignObjectId id = true
  valid : validateDesignContent analysis content = .ok ()

theorem renames_self (content : SchemiiDesignContent) : Renames id content content where
  types := rfl
  tables := by simp
  relationships := rfl
  functions := rfl
  views := rfl
  triggers := rfl

theorem mem_of_lastValue {α K V : Type} [BEq K] [LawfulBEq K] {values : List α} {key : α → K}
    {value : α → V} {place : K} {found : V}
    (h : lastValue (values.map fun entry ↦ (key entry, value entry)) place = some found) :
    ∃ entry ∈ values, key entry = place ∧ value entry = found := by
  unfold lastValue at h
  rw [← List.map_reverse] at h
  obtain ⟨before, after, hsplit, -⟩ := List.lookup_eq_some_iff.mp h
  have hmem : (place, found) ∈ values.reverse.map fun entry ↦ (key entry, value entry) := by
    rw [hsplit]
    exact List.mem_append_right _ List.mem_cons_self
  obtain ⟨entry, hentry, hsame⟩ := List.mem_map.mp hmem
  obtain ⟨rfl, rfl⟩ := Prod.mk.inj hsame
  exact ⟨entry, List.mem_reverse.mp hentry, rfl, rfl⟩

theorem mem_keyedObjects {content : SchemiiDesignContent} {key : ObjectKey} {found : String}
    (h : identityMaps content key = some found) : (found, key) ∈ keyedObjects content := by
  simp only [keyedObjects, List.mem_append, List.mem_map, List.mem_flatMap, List.mem_cons,
    Prod.mk.injEq]
  cases key with
  | type kind name =>
    obtain ⟨type, htype, hkey, rfl⟩ := mem_of_lastValue h
    obtain ⟨rfl, rfl⟩ := Prod.mk.inj hkey
    exact .inl (.inl (.inl (.inl (.inl ⟨type, htype, rfl, rfl⟩))))
  | table name =>
    obtain ⟨table, htable, rfl, rfl⟩ := mem_of_lastValue h
    exact .inl (.inl (.inl (.inl (.inr ⟨table, htable, .inl ⟨rfl, rfl⟩⟩))))
  | child category owner name =>
    obtain ⟨table, htable, hchild⟩ := Option.bind_eq_some_iff.mp h
    obtain ⟨other, hother, rfl, rfl⟩ := mem_of_lastValue htable
    have hchild' : lastValue ((childrenOf other category).map fun child ↦ (child.1, child.2)) name =
        some found := by simpa using hchild
    obtain ⟨child, hmem, rfl, rfl⟩ := mem_of_lastValue hchild'
    refine .inl (.inl (.inl (.inl (.inr ⟨other, hother, .inr ⟨category, ?_, child, hmem, rfl, rfl⟩⟩))))
    cases category <;> simp
  | function kind name identityArguments =>
    obtain ⟨routine, hroutine, hkey, rfl⟩ := mem_of_lastValue h
    obtain ⟨rfl, hrest⟩ := Prod.mk.inj hkey
    obtain ⟨rfl, rfl⟩ := Prod.mk.inj hrest
    exact .inl (.inl (.inl (.inr ⟨routine, hroutine, rfl, rfl⟩)))
  | view kind name =>
    obtain ⟨view, hview, hkey, rfl⟩ := mem_of_lastValue h
    obtain ⟨rfl, rfl⟩ := Prod.mk.inj hkey
    exact .inl (.inl (.inr ⟨view, hview, rfl, rfl⟩))
  | trigger relation name =>
    obtain ⟨trigger, htrigger, hkey, rfl⟩ := mem_of_lastValue h
    obtain ⟨rfl, rfl⟩ := Prod.mk.inj hkey
    exact .inl (.inr ⟨trigger, htrigger, rfl, rfl⟩)
  | relationship source name =>
    obtain ⟨relationship, hrelationship, hkey, rfl⟩ := mem_of_lastValue h
    obtain ⟨rfl, rfl⟩ := Prod.mk.inj hkey
    exact .inr ⟨relationship, hrelationship, rfl, rfl⟩

section Accepted

variable {content : SchemiiDesignContent} (h : AcceptedContent content)
include h

theorem identityMaps_eq_some_iff {key : ObjectKey} {found : String} :
    identityMaps content key = some found ↔ (found, key) ∈ keyedObjects content :=
  ⟨mem_keyedObjects, fun hmem ↦ (renames_self content).identityMaps_eq h h.tableIds hmem⟩

theorem key_unique {found : String} {first second : ObjectKey}
    (hfirst : (found, first) ∈ keyedObjects content)
    (hsecond : (found, second) ∈ keyedObjects content) : first = second := by
  have hids : ((keyedObjects content).map Prod.fst).Nodup :=
    (keyedObjects_ids content).nodup_iff.mpr h.ids
  exact (Prod.mk.inj (List.inj_on_of_nodup_map hids hfirst hsecond rfl)).2

theorem id_unique {key : ObjectKey} {first second : String}
    (hfirst : (first, key) ∈ keyedObjects content)
    (hsecond : (second, key) ∈ keyedObjects content) : first = second := by
  rw [← identityMaps_eq_some_iff h] at hfirst hsecond
  exact Option.some.inj (hfirst.symm.trans hsecond)

end Accepted

/-- The content has an object that is known by a key. -/
def Knows (content : SchemiiDesignContent) (key : ObjectKey) : Prop :=
  ∃ found, (found, key) ∈ keyedObjects content

/-! ### What an object is called after the alignment -/

section Aligned

variable {analysis : SqlAnalysis} (baseline desired : ValidDesign analysis)
  (imported : ImportedDesign analysis)

/-- The identifiers that the alignment puts in the place of others. -/
def aligned : String → String :=
  replacedText (replacements imported.content [baseline.content, desired.content])

theorem ValidDesign.id_ne_empty (design : ValidDesign analysis) {found : String} {key : ObjectKey}
    (h : (found, key) ∈ keyedObjects design.content) : found ≠ "" := by
  rintro rfl
  have hmem := (keyedObjects_ids design.content).mem_iff.mp (List.mem_map_of_mem h)
  have hform : isDesignObjectId "" = true := design.identified _ hmem
  exact absurd hform (by decide)

variable {baseline desired imported} {own : String} {key : ObjectKey}
  (hown : (own, key) ∈ keyedObjects imported.content)
include hown

theorem aligned_of_baseline {found : String}
    (h : (found, key) ∈ keyedObjects baseline.content) :
    aligned baseline desired imported own = found := by
  have hknown := (identityMaps_eq_some_iff (validateDesignContent_spec baseline.valid)).mpr h
  have hsome := baseline.id_ne_empty h
  unfold aligned
  rw [replacedText_of_mem imported _ hown, candidate, List.findSome?_cons, hknown]
  simp [Option.filter, hsome]

theorem aligned_of_desired {found : String} (hunknown : ¬ Knows baseline.content key)
    (h : (found, key) ∈ keyedObjects desired.content) :
    aligned baseline desired imported own = found := by
  have hnone : identityMaps baseline.content key = none :=
    Option.eq_none_iff_forall_ne_some.mpr fun other hother ↦
      hunknown ⟨other, mem_keyedObjects hother⟩
  have hknown := (identityMaps_eq_some_iff (validateDesignContent_spec desired.valid)).mpr h
  have hsome := desired.id_ne_empty h
  unfold aligned
  rw [replacedText_of_mem imported _ hown, candidate, List.findSome?_cons, hnone,
    List.findSome?_cons, hknown]
  simp [Option.filter, hsome]

theorem aligned_of_unknown (hbaseline : ¬ Knows baseline.content key)
    (hdesired : ¬ Knows desired.content key) : aligned baseline desired imported own = own := by
  have hnone : ∀ {design : SchemiiDesignContent}, ¬ Knows design key →
      identityMaps design key = none := fun hunknown ↦
    Option.eq_none_iff_forall_ne_some.mpr fun other hother ↦
      hunknown ⟨other, mem_keyedObjects hother⟩
  unfold aligned
  rw [replacedText_of_mem imported _ hown, candidate, List.findSome?_cons, hnone hbaseline,
    List.findSome?_cons, hnone hdesired]
  rfl

end Aligned

/-! ### The identifiers of a scope -/

theorem filter_tableObjects (table : DesignTable) (scope : IdScope) :
    ((table.id, ObjectKey.table table.name) ::
        [TableCategory.columns, .keys, .checks, .indexes].flatMap fun category ↦
          (childrenOf table category).map fun child ↦
            (child.2, ObjectKey.child category table.name child.1)).filter
      (fun object ↦ object.2.scope = scope) =
    match scope with
    | .tables => [(table.id, ObjectKey.table table.name)]
    | .columns name => if table.name = name then
        (childrenOf table .columns).map fun child ↦
          (child.2, ObjectKey.child .columns table.name child.1) else []
    | .constraints =>
        ((childrenOf table .keys).map fun child ↦
          (child.2, ObjectKey.child .keys table.name child.1)) ++
        (childrenOf table .checks).map fun child ↦
          (child.2, ObjectKey.child .checks table.name child.1)
    | .indexes => (childrenOf table .indexes).map fun child ↦
        (child.2, ObjectKey.child .indexes table.name child.1)
    | _ => [] := by
  cases scope with
  | columns name =>
    by_cases hname : table.name = name <;>
      simp [List.filter_map, Function.comp_def, ObjectKey.scope, hname]
  | _ => simp [List.filter_map, Function.comp_def, ObjectKey.scope]

/-- Assumes: a content with the objects of another one under other identifiers. The identifiers of a
scope are the new ones of its objects. -/
theorem Renames.scopeIds_eq {rename : String → String} {source live : SchemiiDesignContent}
    (h : Renames rename source live) (scope : IdScope) :
    scopeIds live scope = (scopeObjects source scope).map fun object ↦ rename object.1 := by
  have hnone : (source.tables.flatMap fun _ ↦ ([] : List (String × ObjectKey))) = [] := by simp
  unfold scopeObjects keyedObjects
  simp only [List.filter_append, List.map_append, List.filter_flatMap, filter_tableObjects]
  cases scope with
  | types =>
    have hmap := congrArg (List.map Prod.snd) h.types
    simpa [scopeIds, List.filter_map, Function.comp_def, ObjectKey.scope, hnone] using hmap
  | tables =>
    have hmap := congrArg (List.map fun entry ↦ entry.1.2) h.tables
    have hone : (source.tables.flatMap fun table ↦ [(table.id, ObjectKey.table table.name)]) =
        source.tables.map fun table ↦ (table.id, ObjectKey.table table.name) :=
      List.map_eq_flatMap.symm
    simpa [scopeIds, List.filter_map, Function.comp_def, ObjectKey.scope, hone] using hmap
  | columns name =>
    have hmap := congrArg (List.flatMap fun entry ↦
      if entry.1.1 = name then (entry.2 .columns).map Prod.snd else []) h.tables
    have hfilter : ∀ tables : List DesignTable,
        ((tables.filter fun table ↦ table.name = name).flatMap fun table ↦
          table.columns.map fun column ↦ column.id) =
        tables.flatMap fun table ↦ if table.name = name then
          table.columns.map fun column ↦ column.id else [] := by
      intro tables
      induction tables with
      | nil => rfl
      | cons table tables ih =>
        by_cases hname : table.name = name <;> simp [hname, ih]
    have hchosen : ∀ table : DesignTable, (if table.name = name then
        (childrenOf table .columns).map fun child ↦
          (child.2, ObjectKey.child .columns table.name child.1) else []).map
          (fun object ↦ rename object.1) =
        if table.name = name then
          (childrenOf table .columns).map fun child ↦ rename child.2 else [] := by
      intro table
      split <;> simp [Function.comp_def]
    simp only [scopeIds, hfilter]
    simp only [List.map_flatMap, hchosen]
    simpa [List.flatMap_map, List.filter_map, Function.comp_def, ObjectKey.scope, childrenOf]
      using hmap
  | constraints =>
    have hmap := congrArg (List.flatMap fun entry ↦
      (entry.2 .keys).map Prod.snd ++ (entry.2 .checks).map Prod.snd) h.tables
    simpa [scopeIds, List.flatMap_map, List.filter_map, Function.comp_def, ObjectKey.scope,
      childrenOf, List.map_flatMap] using hmap
  | indexes =>
    have hmap := congrArg (List.flatMap fun entry ↦ (entry.2 .indexes).map Prod.snd) h.tables
    simpa [scopeIds, List.flatMap_map, List.filter_map, Function.comp_def, ObjectKey.scope,
      childrenOf, List.map_flatMap] using hmap
  | relationships =>
    have hmap := congrArg (List.map fun entry ↦ entry.2.2) h.relationships
    simpa [scopeIds, List.filter_map, Function.comp_def, ObjectKey.scope, hnone] using hmap
  | functions =>
    have hmap := congrArg (List.map Prod.snd) h.functions
    simpa [scopeIds, List.filter_map, Function.comp_def, ObjectKey.scope, hnone] using hmap
  | views =>
    have hmap := congrArg (List.map Prod.snd) h.views
    simpa [scopeIds, List.filter_map, Function.comp_def, ObjectKey.scope, hnone] using hmap
  | triggers =>
    have hmap := congrArg (List.map Prod.snd) h.triggers
    simpa [scopeIds, List.filter_map, Function.comp_def, ObjectKey.scope, hnone] using hmap

/-! ### Collisions -/

/-- Two live objects that get one identifier, by what is known of their keys. -/
inductive Collides (baseline desired : SchemiiDesignContent) (first second : String × ObjectKey) :
    Prop
  /-- The desired design renamed an object of the baseline, and PostgreSQL has both names. -/
  | renamed (shared : String) (hold : (shared, first.2) ∈ keyedObjects baseline)
      (hnew : (shared, second.2) ∈ keyedObjects desired) (hfresh : ¬ Knows baseline second.2)
  /-- An object that no design knows was imported under the identifier of another one. -/
  | taken (hbaseline : ¬ Knows baseline first.2) (hdesired : ¬ Knows desired first.2)
      (hother : (first.1, second.2) ∈ keyedObjects baseline ∨
        ¬ Knows baseline second.2 ∧ (first.1, second.2) ∈ keyedObjects desired)

section Colliding

variable {analysis : SqlAnalysis} {baseline desired : ValidDesign analysis}
  {imported : ImportedDesign analysis}

/-- Assumes: two live objects that collide. They get one identifier, and they are not one object. -/
theorem Collides.aligned_eq {first second : String × ObjectKey}
    (hfirst : first ∈ keyedObjects imported.content)
    (hsecond : second ∈ keyedObjects imported.content)
    (h : Collides baseline.content desired.content first second) :
    aligned baseline desired imported first.1 = aligned baseline desired imported second.1 ∧
      first ≠ second := by
  cases h with
  | renamed shared hold hnew hfresh =>
    rw [aligned_of_baseline hfirst hold, aligned_of_desired hsecond hfresh hnew]
    refine ⟨rfl, ?_⟩
    rintro rfl
    exact hfresh ⟨shared, hold⟩
  | taken hbaseline hdesired hother =>
    rw [aligned_of_unknown hfirst hbaseline hdesired]
    rcases hother with hknown | ⟨hfresh, hknown⟩
    · rw [aligned_of_baseline hsecond hknown]
      refine ⟨rfl, ?_⟩
      rintro rfl
      exact hbaseline ⟨_, hknown⟩
    · rw [aligned_of_desired hsecond hfresh hknown]
      refine ⟨rfl, ?_⟩
      rintro rfl
      exact hdesired ⟨_, hknown⟩

/-- Assumes: two live objects that get one identifier. They are one object, or they collide. -/
theorem collides_of_aligned_eq {first second : String × ObjectKey}
    (hfirst : first ∈ keyedObjects imported.content)
    (hsecond : second ∈ keyedObjects imported.content)
    (h : aligned baseline desired imported first.1 = aligned baseline desired imported second.1) :
    first = second ∨ Collides baseline.content desired.content first second ∨
      Collides baseline.content desired.content second first := by
  have hbaseline := validateDesignContent_spec baseline.valid
  have hdesired := validateDesignContent_spec desired.valid
  have himported := validateDesignContent_spec imported.valid
  -- Objects of one key are one object.
  have hsame : first.2 = second.2 → first = second := fun hkeys ↦
    Prod.ext (id_unique himported hfirst (hkeys ▸ hsecond)) hkeys
  by_cases hfirstOld : Knows baseline.content first.2
  · obtain ⟨found, hfound⟩ := hfirstOld
    rw [aligned_of_baseline hfirst hfound] at h
    by_cases hsecondOld : Knows baseline.content second.2
    · obtain ⟨other, hother⟩ := hsecondOld
      rw [aligned_of_baseline hsecond hother] at h
      exact .inl (hsame (key_unique hbaseline hfound (h ▸ hother)))
    · by_cases hsecondNew : Knows desired.content second.2
      · obtain ⟨other, hother⟩ := hsecondNew
        rw [aligned_of_desired hsecond hsecondOld hother] at h
        exact .inr (.inl (.renamed found hfound (h ▸ hother) hsecondOld))
      · rw [aligned_of_unknown hsecond hsecondOld hsecondNew] at h
        exact .inr (.inr (.taken hsecondOld hsecondNew (.inl (h ▸ hfound))))
  · by_cases hsecondOld : Knows baseline.content second.2
    · obtain ⟨other, hother⟩ := hsecondOld
      rw [aligned_of_baseline hsecond hother] at h
      by_cases hfirstNew : Knows desired.content first.2
      · obtain ⟨found, hfound⟩ := hfirstNew
        rw [aligned_of_desired hfirst hfirstOld hfound] at h
        exact .inr (.inr (.renamed other hother (h ▸ hfound) hfirstOld))
      · rw [aligned_of_unknown hfirst hfirstOld hfirstNew] at h
        exact .inr (.inl (.taken hfirstOld hfirstNew (.inl (h ▸ hother))))
    · by_cases hfirstNew : Knows desired.content first.2
      · obtain ⟨found, hfound⟩ := hfirstNew
        rw [aligned_of_desired hfirst hfirstOld hfound] at h
        by_cases hsecondNew : Knows desired.content second.2
        · obtain ⟨other, hother⟩ := hsecondNew
          rw [aligned_of_desired hsecond hsecondOld hother] at h
          exact .inl (hsame (key_unique hdesired hfound (h ▸ hother)))
        · rw [aligned_of_unknown hsecond hsecondOld hsecondNew] at h
          exact .inr (.inr (.taken hsecondOld hsecondNew (.inr ⟨hfirstOld, h ▸ hfound⟩)))
      · rw [aligned_of_unknown hfirst hfirstOld hfirstNew] at h
        by_cases hsecondNew : Knows desired.content second.2
        · obtain ⟨other, hother⟩ := hsecondNew
          rw [aligned_of_desired hsecond hsecondOld hother] at h
          exact .inr (.inl (.taken hfirstOld hfirstNew (.inr ⟨hsecondOld, h ▸ hother⟩)))
        · rw [aligned_of_unknown hsecond hsecondOld hsecondNew] at h
          have hshared : (first.1, second.2) ∈ keyedObjects imported.content := by
            rw [h]
            exact hsecond
          exact .inl (hsame (key_unique himported hfirst hshared))

/-- Assumes: an imported design was aligned to a baseline and a desired design. Its objects have
different identifiers, scope by scope, exactly when no two live objects of one scope collide. -/
theorem aligned_ids_distinct_iff {live : SchemiiDesignContent}
    (h : alignedContent analysis imported.content [baseline.content, desired.content] = some live) :
    DistinctIds live ↔ ∀ first ∈ keyedObjects imported.content,
      ∀ second ∈ keyedObjects imported.content, first.2.scope = second.2.scope →
        ¬ Collides baseline.content desired.content first second := by
  have hrenames : Renames (aligned baseline desired imported) imported.content live :=
    renames_of_modelValidate (fun text htext ↦ replacedText_of_not_mem imported _
      (imported.named text htext)) h
  have hids : (keyedObjects imported.content).Nodup := List.Nodup.of_map Prod.fst
    ((keyedObjects_ids imported.content).nodup_iff.mpr
      (validateDesignContent_spec imported.valid).ids)
  have hscope : DistinctIds live ↔ ∀ scope, ∀ first ∈ scopeObjects imported.content scope,
      ∀ second ∈ scopeObjects imported.content scope,
        aligned baseline desired imported first.1 = aligned baseline desired imported second.1 →
          first = second := by
    refine forall_congr' fun scope ↦ ?_
    rw [hrenames.scopeIds_eq scope]
    exact List.nodup_map_iff_inj_on (hids.filter _)
  rw [hscope]
  constructor
  · intro hdistinct first hfirst second hsecond hsame hcollides
    obtain ⟨hequal, hdiffer⟩ := hcollides.aligned_eq hfirst hsecond
    refine hdiffer (hdistinct second.2.scope first ?_ second ?_ hequal)
    · exact List.mem_filter.mpr ⟨hfirst, by simpa using hsame⟩
    · exact List.mem_filter.mpr ⟨hsecond, by simp⟩
  · intro hfree scope first hfirst second hsecond hequal
    obtain ⟨hfirst, hfirstScope⟩ := List.mem_filter.mp hfirst
    obtain ⟨hsecond, hsecondScope⟩ := List.mem_filter.mp hsecond
    have hsame : first.2.scope = second.2.scope :=
      (of_decide_eq_true hfirstScope).trans (of_decide_eq_true hsecondScope).symm
    rcases collides_of_aligned_eq hfirst hsecond hequal with hone | hcollides | hcollides
    · exact hone
    · exact absurd hcollides (hfree first hfirst second hsecond hsame)
    · exact absurd hcollides (hfree second hsecond first hfirst hsame.symm)

end Colliding

/-! ### A renamed table -/

/-- An analysis of designs without types, routines and triggers. -/
def tablesOnly : SqlAnalysis where
  analyzeTypeDefinition := fun _ ↦ none
  baseTypeName := fun _ ↦ none
  parseQueryDefinition := fun _ ↦ none
  analyzeRoutineDefinition := fun _ ↦ none
  analyzeTriggerDefinition := fun _ ↦ none

/-- A table with one column. -/
def plainTable (id name columnId : String) : DesignTable where
  id := id
  name := name
  columns := [{ id := columnId, name := "number", dataType := "integer", nullable := true,
                defaultExpression := none, identity := none, generatedExpression := none,
                generatedSourceColumnIds := [] }]
  keys := []
  checks := []
  indexes := []

/-- A design of tables. -/
def tablesContent (tables : List DesignTable) : SchemiiDesignContent where
  types := []
  tables := tables
  relationships := []
  functions := []
  views := []
  triggers := []

/-- The design before its table was renamed. -/
def customersDesign : ValidDesign tablesOnly where
  content := tablesContent [plainTable "tbl_00000000000000000000000000000001" "customers"
    "col_00000000000000000000000000000001"]
  identified := by decide
  valid := eq_ok_of_isOk (by decide)

/-- The design after its table was renamed. -/
def clientsDesign : ValidDesign tablesOnly where
  content := tablesContent [plainTable "tbl_00000000000000000000000000000001" "clients"
    "col_00000000000000000000000000000001"]
  identified := by decide
  valid := eq_ok_of_isOk (by decide)

/-- An imported design of two tables. -/
def twoTables : ImportedDesign tablesOnly where
  content := tablesContent
    [plainTable "tbl_0000000000000000000000000000000a" "customers"
      "col_0000000000000000000000000000000a",
    plainTable "tbl_0000000000000000000000000000000b" "clients"
      "col_0000000000000000000000000000000b"]
  complete := true
  warnings := []
  derived := ⟨nofun, nofun, nofun, nofun⟩
  valid := eq_ok_of_isOk (by decide)
  named := by decide

/-- The design renamed its table of customers to clients, and PostgreSQL still has the customers and a
new table of clients. Both get the identifier of the renamed table. -/
theorem renamed_table_collides :
    ∃ live, alignedContent tablesOnly twoTables.content
        [customersDesign.content, clientsDesign.content] = some live ∧
      live.tables.map (fun table ↦ (table.name, table.id)) =
        [("customers", "tbl_00000000000000000000000000000001"),
          ("clients", "tbl_00000000000000000000000000000001")] ∧ ¬ DistinctIds live := by
  refine ⟨(alignedContent tablesOnly twoTables.content
    [customersDesign.content, clientsDesign.content]).get (by decide),
    (Option.some_get _).symm, by decide, ?_⟩
  intro hdistinct
  exact absurd (hdistinct .tables) (by decide)

/-- Without the rename the two tables get different identifiers. -/
theorem same_names_distinct :
    ∃ live, alignedContent tablesOnly twoTables.content
        [customersDesign.content, customersDesign.content] = some live ∧
      DistinctIds live := by
  have hsome : (alignedContent tablesOnly twoTables.content
      [customersDesign.content, customersDesign.content]).isSome := by decide
  obtain ⟨live, hlive⟩ := Option.isSome_iff_exists.mp hsome
  refine ⟨live, hlive, (aligned_ids_distinct_iff hlive).mpr ?_⟩
  have hforeign : ∀ first ∈ keyedObjects twoTables.content,
      ∀ object ∈ keyedObjects customersDesign.content, object.1 ≠ first.1 := by
    decide
  rintro first hfirst second - - (⟨shared, -, hnew, hfresh⟩ | ⟨-, -, hknown | ⟨-, hknown⟩⟩)
  · exact hfresh ⟨shared, hnew⟩
  · exact hforeign first hfirst _ hknown rfl
  · exact hforeign first hfirst _ hknown rfl

end Schemii.Migrations
