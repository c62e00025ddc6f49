import Schemii.Designs.Export
import Mathlib.Logic.Relation

/-!
# Designed types in the order of their dependencies

`design_types_in_dependency_order` of `designs/store.py` as a topological sort of the types that it
keeps under their names (`typesByName`).

`types_in_dependency_order_exact`: the types come back once each and every one after the type that it
is over, or the call fails; it fails exactly when the types that are kept are over each other in a
circle. Of types of one name only the last is kept: `shadowed_type_is_dropped`. The check of a content
refuses such types before it asks for the order.
-/

set_option autoImplicit false

open Relation

namespace Schemii.Designs

open Foundations

/-! ### Circles of names -/

/-- The type of a name is over the type of another. -/
def BasedOn (dependency : String → Option String) (name base : String) : Prop :=
  dependency name = some base

section Visiting

variable {dependency : String → Option String} {names : List String}

/-- Assumes: names in order. The name that one of them depends on is among them, and first there
before it. -/
theorem NamesOrdered.idxOf_lt (h : NamesOrdered dependency [] names) {name base : String}
    (hname : name ∈ names) (hbase : BasedOn dependency name base) :
    base ∈ names ∧ names.idxOf base < names.idxOf name := by
  obtain ⟨before, after, rfl, hfirst⟩ := List.eq_append_cons_of_mem hname
  have hmem : base ∈ before := by
    have hbefore := (createdInOrder_iff _ _).mp h
      (before.map fun name ↦ ⟨name, (dependency name).toList⟩) ⟨name, (dependency name).toList⟩
      (after.map fun name ↦ ⟨name, (dependency name).toList⟩) (by simp)
    simpa [createdIds, Function.comp_def] using hbefore (Option.mem_toList.mpr hbase)
  refine ⟨List.mem_append_left _ hmem, ?_⟩
  rw [List.idxOf_append_of_mem hmem, List.idxOf_append_of_notMem hfirst, List.idxOf_cons_self]
  exact lt_of_lt_of_le (List.idxOf_lt_length_of_mem hmem) (Nat.le_add_right _ _)

theorem NamesOrdered.no_circle (h : NamesOrdered dependency [] names) {name : String}
    (hname : name ∈ names) : ¬ TransGen (BasedOn dependency) name name := by
  have hbefore : ∀ {last}, TransGen (BasedOn dependency) name last →
      last ∈ names ∧ names.idxOf last < names.idxOf name := by
    intro last hlast
    induction hlast with
    | single hbase => exact h.idxOf_lt hname hbase
    | tail _ hbase ih =>
      obtain ⟨hmem, hlt⟩ := h.idxOf_lt ih.1 hbase
      exact ⟨hmem, hlt.trans ih.2⟩
  intro hcircle
  exact lt_irrefl _ (hbefore hcircle).2

/-- Assumes: names that are being visited lead to the name. A visit that fails has found a name that
leads back to itself. -/
theorem circle_of_visitType_error {depth : ℕ} {visiting visited : List String} {name : String}
    {error : DesignValidationError}
    (hleads : ∀ other ∈ visiting, TransGen (BasedOn dependency) other name)
    (h : visitType dependency depth visiting visited name = .error error) :
    ∃ name, TransGen (BasedOn dependency) name name := by
  induction depth generalizing visiting name error with
  | zero => cases h
  | succ depth ih =>
    unfold visitType at h
    split_ifs at h with hdone hcircle
    · exact ⟨name, hleads name hcircle⟩
    · cases hbase : dependency name with
      | none => simp only [hbase, reduceCtorEq] at h
      | some base =>
        simp only [hbase] at h
        cases hbefore : visitType dependency depth (name :: visiting) visited base with
        | error other =>
          refine ih (List.forall_mem_cons.mpr ⟨.single hbase, fun other hother ↦ ?_⟩) hbefore
          exact (hleads other hother).tail hbase
        | ok before =>
          rw [hbefore] at h
          cases h

/-- Assumes: names that are being visited were not visited. A visit adds a name once, and only names
that are not being visited. -/
theorem visitType_nodup {depth : ℕ} {visiting visited result : List String} {name : String}
    (hvisited : visited.Nodup) (hapart : visiting.Disjoint visited)
    (h : visitType dependency depth visiting visited name = .ok result) :
    result.Nodup ∧ visiting.Disjoint result := by
  induction depth generalizing visiting name result with
  | zero =>
    obtain rfl := Except.ok.inj h
    exact ⟨hvisited, hapart⟩
  | succ depth ih =>
    unfold visitType at h
    split_ifs at h with hdone hcircle
    · obtain rfl := Except.ok.inj h
      exact ⟨hvisited, hapart⟩
    · cases hbase : dependency name with
      | none =>
        simp only [hbase, Except.ok.injEq] at h
        obtain rfl := h
        refine ⟨List.nodup_append.mpr ⟨hvisited, List.nodup_singleton _, ?_⟩, ?_⟩
        · rintro other hother last hlast rfl
          exact hdone (List.mem_singleton.mp hlast ▸ hother)
        · simpa [List.disjoint_append_right] using ⟨hapart, hcircle⟩
      | some base =>
        simp only [hbase, bind_eq_ok, Except.ok.injEq] at h
        obtain ⟨before, hbefore, rfl⟩ := h
        obtain ⟨hnodup, hdisjoint⟩ :=
          ih (List.disjoint_cons_left.mpr ⟨hdone, hapart⟩) hbefore
        obtain ⟨hfresh, hrest⟩ := List.disjoint_cons_left.mp hdisjoint
        refine ⟨List.nodup_append.mpr ⟨hnodup, List.nodup_singleton _, ?_⟩, ?_⟩
        · rintro other hother last hlast rfl
          exact hfresh (List.mem_singleton.mp hlast ▸ hother)
        · simpa [List.disjoint_append_right] using ⟨hrest, hcircle⟩

/-- Assumes: dependencies are names of the list. A visit adds names of the list only. -/
theorem visitType_subset (hnames : ∀ name base, dependency name = some base → base ∈ names)
    {depth : ℕ} {visiting visited result : List String} {name : String} (hname : name ∈ names)
    (hvisited : visited ⊆ names)
    (h : visitType dependency depth visiting visited name = .ok result) : result ⊆ names := by
  induction depth generalizing visiting name result with
  | zero =>
    obtain rfl := Except.ok.inj h
    exact hvisited
  | succ depth ih =>
    unfold visitType at h
    split_ifs at h with hdone hcircle
    · obtain rfl := Except.ok.inj h
      exact hvisited
    · cases hbase : dependency name with
      | none =>
        simp only [hbase, Except.ok.injEq] at h
        obtain rfl := h
        exact List.append_subset.mpr ⟨hvisited, List.cons_subset.mpr ⟨hname, List.nil_subset _⟩⟩
      | some base =>
        simp only [hbase, bind_eq_ok, Except.ok.injEq] at h
        obtain ⟨before, hbefore, rfl⟩ := h
        exact List.append_subset.mpr
          ⟨ih (hnames name base hbase) hbefore, List.cons_subset.mpr ⟨hname, List.nil_subset _⟩⟩

end Visiting

/-! ### Types that are over each other -/

/-- The values of `type_by_name`: the last type of each name. -/
def typesByName (content : SchemiiDesignContent) : List DesignType :=
  (content.types.map fun type ↦ type.name).dedup.filterMap (typeNamed content)

/-- A type of a list is over another type of the list. -/
def TypeOver (analysis : SqlAnalysis) (types : List DesignType) (type base : DesignType) : Prop :=
  type ∈ types ∧ base ∈ types ∧ analysis.baseTypeName type.definition = some base.name

/-- Every type of a list comes after the types of the list that it is over. -/
def TypesSorted (analysis : SqlAnalysis) (types : List DesignType) : Prop :=
  ∀ before type after base, types = before ++ type :: after → TypeOver analysis types type base →
    base ∈ before

section Types

variable {analysis : SqlAnalysis} {content : SchemiiDesignContent}

theorem typeNamed_isSome {name : String} :
    (typeNamed content name).isSome ↔ name ∈ content.types.map fun type ↦ type.name := by
  simp [typeNamed, List.find?_isSome]

theorem mem_typesByName {type : DesignType} :
    type ∈ typesByName content ↔ typeNamed content type.name = some type := by
  rw [typesByName, List.mem_filterMap]
  constructor
  · rintro ⟨name, -, hnamed⟩
    rwa [(typeNamed_eq_some hnamed).2]
  · intro hnamed
    exact ⟨type.name, List.mem_dedup.mpr (List.mem_map_of_mem (typeNamed_eq_some hnamed).1), hnamed⟩

/-- Assumes: the names of some types of a content. The types of the names have these names. -/
theorem names_filterMap_typeNamed {names : List String}
    (h : names ⊆ content.types.map fun type ↦ type.name) :
    (names.filterMap (typeNamed content)).map (fun type ↦ type.name) = names := by
  induction names with
  | nil => rfl
  | cons name names ih =>
    obtain ⟨hname, hrest⟩ := List.cons_subset.mp h
    obtain ⟨type, htype⟩ := Option.isSome_iff_exists.mp (typeNamed_isSome.mpr hname)
    rw [List.filterMap_cons_some htype, List.map_cons, ih hrest, (typeNamed_eq_some htype).2]

theorem typesByName_of_nodup (hnames : (content.types.map fun type ↦ type.name).Nodup) :
    typesByName content = content.types := by
  rw [typesByName, List.dedup_eq_self.mpr hnames, List.filterMap_map]
  conv_rhs => rw [← List.filterMap_some (l := content.types)]
  exact List.filterMap_congr fun type htype ↦ typeNamed_of_mem hnames htype

/-- A type that is kept is over another exactly when its name depends on the other's. -/
theorem typeOver_iff {type base : DesignType} (htype : type ∈ typesByName content)
    (hbase : base ∈ typesByName content) :
    TypeOver analysis (typesByName content) type base ↔
      BasedOn (typeDependency analysis content) type.name base.name := by
  have hkept : (typeNamed content base.name).isSome := by
    rw [mem_typesByName.mp hbase, Option.isSome_some]
  unfold BasedOn typeDependency
  rw [mem_typesByName.mp htype, Option.bind_some]
  constructor
  · rintro ⟨-, -, hover⟩
    rw [hover, Option.bind_some, if_pos hkept]
  · intro hdepends
    obtain ⟨name, hname, hfound⟩ := Option.bind_eq_some_iff.mp hdepends
    split_ifs at hfound
    exact ⟨htype, hbase, Option.some.inj hfound ▸ hname⟩

/-- Assumes: a name depends on another. Both are names of types that are kept, one over the other. -/
theorem typeOver_of_basedOn {name base : String}
    (h : BasedOn (typeDependency analysis content) name base) :
    ∃ type under, typeNamed content name = some type ∧ typeNamed content base = some under ∧
      TypeOver analysis (typesByName content) type under := by
  obtain ⟨type, htype, -⟩ := Option.bind_eq_some_iff.mp h
  obtain ⟨under, hover⟩ := Option.isSome_iff_exists.mp (typeNamed_isSome.mpr (typeDependency_mem h))
  have hname := (typeNamed_eq_some htype).2
  have hbase := (typeNamed_eq_some hover).2
  refine ⟨type, under, htype, hover, (typeOver_iff ?_ ?_).mpr ?_⟩
  · rwa [mem_typesByName, hname]
  · rwa [mem_typesByName, hbase]
  · rwa [hname, hbase]

/-- A name that depends on itself in a circle is the name of a type that is over itself in one, and
the other way round. -/
theorem circle_iff :
    (∃ name, TransGen (BasedOn (typeDependency analysis content)) name name) ↔
      ∃ type, TransGen (TypeOver analysis (typesByName content)) type type := by
  constructor
  · rintro ⟨name, hcircle⟩
    have hlift : ∀ {last}, TransGen (BasedOn (typeDependency analysis content)) name last →
        ∃ type under, typeNamed content name = some type ∧ typeNamed content last = some under ∧
          TransGen (TypeOver analysis (typesByName content)) type under := by
      intro last hleads
      induction hleads with
      | single hbase =>
        obtain ⟨type, under, htype, hover, hedge⟩ := typeOver_of_basedOn hbase
        exact ⟨type, under, htype, hover, .single hedge⟩
      | tail _ hbase ih =>
        obtain ⟨first, type, hfirst, htype, hpath⟩ := ih
        obtain ⟨between, under, hbetween, hover, hedge⟩ := typeOver_of_basedOn hbase
        obtain rfl := Option.some.inj (htype.symm.trans hbetween)
        exact ⟨first, under, hfirst, hover, hpath.tail hedge⟩
    obtain ⟨type, under, htype, hover, hpath⟩ := hlift hcircle
    obtain rfl := Option.some.inj (htype.symm.trans hover)
    exact ⟨type, hpath⟩
  · rintro ⟨type, hcircle⟩
    exact ⟨type.name, TransGen.lift (fun type : DesignType ↦ type.name)
      (fun _ _ hover ↦ (typeOver_iff hover.1 hover.2.1).mp hover) _ _ hcircle⟩

/-! ### The order -/

/-- Names that are visited one after the other: each comes once, each is a name of a type, and a
failure shows a circle. -/
theorem foldlM_visitType_cases (analysis : SqlAnalysis) (content : SchemiiDesignContent)
    (depth : ℕ) {rest visited : List String}
    (hrest : rest ⊆ content.types.map fun type ↦ type.name) (hvisited : visited.Nodup)
    (hamong : visited ⊆ content.types.map fun type ↦ type.name) :
    match rest.foldlM (fun visited name ↦
      visitType (typeDependency analysis content) depth [] visited name) visited with
    | .ok names => names.Nodup ∧ names ⊆ content.types.map fun type ↦ type.name
    | .error _ => ∃ name, TransGen (BasedOn (typeDependency analysis content)) name name := by
  induction rest generalizing visited with
  | nil => exact ⟨hvisited, hamong⟩
  | cons name rest ih =>
    obtain ⟨hname, hrest⟩ := List.cons_subset.mp hrest
    rw [List.foldlM_cons]
    cases hfirst : visitType (typeDependency analysis content) depth [] visited name with
    | error error => exact circle_of_visitType_error (List.forall_mem_nil _) hfirst
    | ok between =>
      exact ih hrest (visitType_nodup hvisited (List.disjoint_nil_left _) hfirst).1
        (visitType_subset (fun _ _ ↦ typeDependency_mem) hname hamong hfirst)

/-- Assumes: the names of the types of a content, each once and in order. The types of the names are
those that are kept, sorted. -/
theorem sorted_of_names {names : List String} (hnodup : names.Nodup)
    (hamong : names ⊆ content.types.map fun type ↦ type.name)
    (hall : (content.types.map fun type ↦ type.name) ⊆ names)
    (hordered : NamesOrdered (typeDependency analysis content) [] names) :
    (names.filterMap (typeNamed content)).Perm (typesByName content) ∧
      TypesSorted analysis (names.filterMap (typeNamed content)) := by
  have hperm : (names.filterMap (typeNamed content)).Perm (typesByName content) := by
    refine List.Perm.filterMap _ ((List.perm_ext_iff_of_nodup hnodup (List.nodup_dedup _)).mpr ?_)
    intro name
    rw [List.mem_dedup]
    exact ⟨fun hname ↦ hamong hname, fun hname ↦ hall hname⟩
  refine ⟨hperm, ?_⟩
  rintro before type after base hsplit ⟨htype, hbase, hover⟩
  have hnames := names_filterMap_typeNamed hamong
  rw [hsplit, List.map_append, List.map_cons] at hnames
  have hdepends : BasedOn (typeDependency analysis content) type.name base.name :=
    (typeOver_iff (hperm.subset htype) (hperm.subset hbase)).mp
      ⟨hperm.subset htype, hperm.subset hbase, hover⟩
  have hbefore : base.name ∈ before.map fun type ↦ type.name := by
    have hcreated := (createdInOrder_iff _ _).mp hordered
      ((before.map fun type ↦ type.name).map fun name ↦
        ⟨name, (typeDependency analysis content name).toList⟩)
      ⟨type.name, (typeDependency analysis content type.name).toList⟩
      ((after.map fun type ↦ type.name).map fun name ↦
        ⟨name, (typeDependency analysis content name).toList⟩) (by rw [← hnames]; simp)
    simpa [createdIds, Function.comp_def] using hcreated (Option.mem_toList.mpr hdepends)
  obtain ⟨found, hfound, hname⟩ := List.mem_map.mp hbefore
  have hkept : found ∈ typesByName content :=
    hperm.subset (hsplit ▸ List.mem_append_left _ hfound)
  have hsame : some found = some base := by
    rw [← mem_typesByName.mp hkept, hname, mem_typesByName.mp (hperm.subset hbase)]
  exact Option.some.inj hsame ▸ hfound

/-- The types that are kept under their names come back once each, every one after those that it is
over, or the call fails. It fails exactly when they are over each other in a circle. Types of
different names are all kept. -/
theorem types_in_dependency_order_exact (analysis : SqlAnalysis) (content : SchemiiDesignContent) :
    (∀ types, designTypesInDependencyOrder analysis content = .ok types →
      types.Perm (typesByName content) ∧ TypesSorted analysis types) ∧
    ((∃ error, designTypesInDependencyOrder analysis content = .error error) ↔
      ∃ type, TransGen (TypeOver analysis (typesByName content)) type type) ∧
    ((content.types.map fun type ↦ type.name).Nodup → typesByName content = content.types) := by
  have hcases := foldlM_visitType_cases analysis content (content.types.length + 1)
    (List.Subset.refl _) List.nodup_nil (List.nil_subset _)
  have hordered : ∀ {names}, (content.types.map fun type ↦ type.name).foldlM
      (fun visited name ↦ visitType (typeDependency analysis content) (content.types.length + 1) []
        visited name) [] = .ok names →
      (content.types.map fun type ↦ type.name) ⊆ names ∧
        NamesOrdered (typeDependency analysis content) [] names := by
    intro names hnames
    have hstart : NamesOrdered (typeDependency analysis content) [] [] := trivial
    exact (foldlM_visitType (fun _ _ ↦ typeDependency_mem) (List.Subset.refl _) (by simp) hstart
      hnames).2
  unfold designTypesInDependencyOrder
  cases hnames : (content.types.map fun type ↦ type.name).foldlM (fun visited name ↦
      visitType (typeDependency analysis content) (content.types.length + 1) [] visited name) [] with
  | error error =>
    rw [hnames] at hcases
    exact ⟨nofun, iff_of_true ⟨error, rfl⟩ (circle_iff.mp hcases), typesByName_of_nodup⟩
  | ok names =>
    rw [hnames] at hcases
    obtain ⟨hall, horder⟩ := hordered hnames
    refine ⟨?_, iff_of_false (fun ⟨error, herror⟩ ↦ nomatch herror) ?_, typesByName_of_nodup⟩
    · intro types htypes
      obtain rfl := Except.ok.inj htypes
      exact sorted_of_names hcases.1 hcases.2 hall horder
    · intro hcircle
      obtain ⟨name, hname⟩ := circle_iff.mpr hcircle
      obtain ⟨base, hbase, -⟩ := TransGen.head'_iff.mp hname
      have hmem : name ∈ names := by
        obtain ⟨type, -, htype, -, -⟩ := typeOver_of_basedOn hbase
        exact hall (typeNamed_isSome.mp (htype ▸ rfl))
      exact horder.no_circle hmem hname

end Types

/-! ### Grades over marks -/

/-- A domain over a type. -/
def sampleDomain (id name base : String) : DesignType where
  name := name
  kind := .domain
  enumValues := []
  baseType := some base
  defaultExpression := none
  notNull := false
  checks := []
  collation := none
  id := id
  definition := "CREATE DOMAIN " ++ name ++ " AS " ++ base

/-- An analysis of the definitions of two domains. -/
def sampleDomains : SqlAnalysis where
  analyzeTypeDefinition := fun _ ↦ none
  baseTypeName := fun definition ↦
    if definition = "CREATE DOMAIN grade AS mark" then some "mark"
    else if definition = "CREATE DOMAIN mark AS grade" then some "grade"
    else if definition = "CREATE DOMAIN mark AS integer" then some "integer"
    else none
  parseQueryDefinition := fun _ ↦ none
  analyzeRoutineDefinition := fun _ ↦ none
  analyzeTriggerDefinition := fun _ ↦ none

/-- A content of types only. -/
def typesOnly (types : List DesignType) : SchemiiDesignContent :=
  ⟨types, [], [], [], [], []⟩

/-- A domain that is listed before its base comes after it. -/
theorem base_comes_first :
    designTypesInDependencyOrder sampleDomains
        (typesOnly [sampleDomain "g" "grade" "mark", sampleDomain "m" "mark" "integer"]) =
      .ok [sampleDomain "m" "mark" "integer", sampleDomain "g" "grade" "mark"] ∧
    TypesSorted sampleDomains
      [sampleDomain "m" "mark" "integer", sampleDomain "g" "grade" "mark"] :=
  ⟨rfl, ((types_in_dependency_order_exact sampleDomains
    (typesOnly [sampleDomain "g" "grade" "mark", sampleDomain "m" "mark" "integer"])).1 _ rfl).2⟩

/-- Two domains have one name. The second is what comes back, which is no rearrangement of the two. -/
theorem shadowed_type_is_dropped :
    designTypesInDependencyOrder sampleDomains
        (typesOnly [sampleDomain "m" "mark" "integer", sampleDomain "n" "mark" "numeric"]) =
      .ok [sampleDomain "n" "mark" "numeric"] ∧
    ¬ [sampleDomain "n" "mark" "numeric"].Perm
      [sampleDomain "m" "mark" "integer", sampleDomain "n" "mark" "numeric"] :=
  ⟨rfl, fun hperm ↦ absurd hperm.length_eq (by decide)⟩

end Schemii.Designs
