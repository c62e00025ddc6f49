import Schemii.Designs.Validation
import Schemii.Migrations.ValueEquivalence

/-!
# Aligning an imported design

`_aligned_content` of `migrations/planner.py`: the identifiers of a design that was imported from
PostgreSQL are replaced by those that the reference designs give to the objects of the same names.
An object is known by an `ObjectKey`, and a reference knows the identifier of a key
(`identityMaps`).

`alignedContent_again`: a design that was aligned once is aligned to itself, whatever further
references there are, when its tables got different identifiers.
-/

set_option autoImplicit false

namespace Schemii.Migrations

open Foundations Designs

/-! ### Keys -/

/-- The lists of objects a table owns. -/
inductive TableCategory
  | columns
  | keys
  | checks
  | indexes
  deriving DecidableEq, Repr

/-- What an object is known by. -/
inductive ObjectKey
  | type (kind : TypeKind) (name : String)
  | table (name : String)
  | child (category : TableCategory) (table name : String)
  | function (kind : RoutineKind) (name identityArguments : String)
  | view (kind : ViewKind) (name : String)
  | trigger (relation name : String)
  | relationship (source : Option String) (name : String)
  deriving DecidableEq, Repr

/-- The names and identifiers of the objects a table owns. -/
def childrenOf (table : DesignTable) : TableCategory → List (String × String)
  | .columns => table.columns.map fun column ↦ (column.name, column.id)
  | .keys => table.keys.map fun key ↦ (key.name, key.id)
  | .checks => table.checks.map fun check ↦ (check.name, check.id)
  | .indexes => table.indexes.map fun index ↦ (index.name, index.id)

/-- The last value under a key, as in a dictionary that was filled in order. -/
def lastValue {K V : Type} [BEq K] (entries : List (K × V)) (key : K) : Option V :=
  entries.reverse.lookup key

/-- The name of the table with an identifier. -/
def tableName (content : SchemiiDesignContent) (id : String) : Option String :=
  lastValue (content.tables.map fun table ↦ (table.id, table.name)) id

/-- `_identity_maps`. -/
def identityMaps (content : SchemiiDesignContent) : ObjectKey → Option String
  | .type kind name =>
    lastValue (content.types.map fun type ↦ ((type.kind, type.name), type.id)) (kind, name)
  | .table name => lastValue (content.tables.map fun table ↦ (table.name, table.id)) name
  | .child category table name =>
    (lastValue (content.tables.map fun table ↦ (table.name, table)) table).bind fun table ↦
      lastValue (childrenOf table category) name
  | .function kind name identityArguments =>
    lastValue (content.functions.map fun routine ↦
      ((routine.kind, routine.name, routine.identityArguments), routine.id))
      (kind, name, identityArguments)
  | .view kind name =>
    lastValue (content.views.map fun view ↦ ((view.kind, view.name), view.id)) (kind, name)
  | .trigger relation name =>
    lastValue (content.triggers.map fun trigger ↦
      ((trigger.relationName, trigger.name), trigger.id)) (relation, name)
  | .relationship source name =>
    lastValue (content.relationships.map fun relationship ↦
      ((tableName content relationship.sourceTableId, relationship.name), relationship.id))
      (source, name)

/-- `candidate`: the identifier of the first reference that knows the key. -/
def candidate (references : List SchemiiDesignContent) (key : ObjectKey) : Option String :=
  references.findSome? fun reference ↦ identityMaps reference key

/-- The objects of an imported design with the keys they are looked up by, in the order of the
source. -/
def keyedObjects (content : SchemiiDesignContent) : List (String × ObjectKey) :=
  (content.types.map fun type ↦ (type.id, .type type.kind type.name)) ++
  (content.tables.flatMap fun table ↦ (table.id, .table table.name) ::
    [TableCategory.columns, .keys, .checks, .indexes].flatMap fun category ↦
      (childrenOf table category).map fun child ↦
        (child.2, .child category table.name child.1)) ++
  (content.functions.map fun routine ↦
    (routine.id, .function routine.kind routine.name routine.identityArguments)) ++
  (content.views.map fun view ↦ (view.id, .view view.kind view.name)) ++
  (content.triggers.map fun trigger ↦ (trigger.id, .trigger trigger.relationName trigger.name)) ++
  content.relationships.map fun relationship ↦
    (relationship.id, .relationship (tableName content relationship.sourceTableId) relationship.name)

/-- `replacements`. An empty identifier replaces nothing. -/
def replacements (source : SchemiiDesignContent) (references : List SchemiiDesignContent) :
    List (String × String) :=
  (keyedObjects source).filterMap fun (id, key) ↦
    ((candidate references key).filter (· ≠ "")).map fun replacement ↦ (id, replacement)

/-- The text that stands for a text. -/
def replacedText (entries : List (String × String)) (text : String) : String :=
  (lastValue entries text).getD text

mutual

/-- `replace`: every text of a document, with the names of fields left alone. -/
def replaceTexts (rename : String → String) : Json → Json
  | .string text => .string (rename text)
  | .array items => .array (replaceItems rename items)
  | .object fields => .object (replaceFields rename fields)
  | document => document

/-- Every text of a list. -/
def replaceItems (rename : String → String) : List Json → List Json
  | [] => []
  | item :: rest => replaceTexts rename item :: replaceItems rename rest

/-- Every text of a dictionary. -/
def replaceFields (rename : String → String) : List (String × Json) → List (String × Json)
  | [] => []
  | (name, value) :: rest => (name, replaceTexts rename value) :: replaceFields rename rest

end

/-- `_aligned_content`. -/
def alignedContent (analysis : SqlAnalysis) (source : SchemiiDesignContent)
    (references : List SchemiiDesignContent) : Option SchemiiDesignContent :=
  SchemiiDesignContent.modelValidate analysis
    (replaceTexts (replacedText (replacements source references)) source.modelDump)

/-! ### Dictionaries filled in order -/

section LastValue

variable {α K V : Type} [BEq K] [LawfulBEq K] {values : List α} {key : α → K} {value : α → V}

/-- Assumes: keys that do not repeat. What is under the key of a value is what was put there for
it. -/
theorem lastValue_of_mem (hkeys : (values.map key).Nodup) {found : α} (hfound : found ∈ values) :
    lastValue (values.map fun value' ↦ (key value', value value')) (key found) =
      some (value found) := by
  unfold lastValue
  rw [← List.map_reverse]
  have hnodup : (values.reverse.map key).Nodup := by
    rw [List.map_reverse]
    exact List.nodup_reverse.mpr hkeys
  have hmem : found ∈ values.reverse := List.mem_reverse.mpr hfound
  generalize values.reverse = reversed at hnodup hmem
  induction reversed with
  | nil => exact nomatch hmem
  | cons first rest ih =>
    rw [List.map_cons, List.nodup_cons] at hnodup
    rw [List.map_cons, List.lookup_cons]
    rcases List.mem_cons.mp hmem with rfl | hrest
    · rw [beq_self_eq_true]
    · have hne : key found ≠ key first := fun hsame ↦
        hnodup.1 (hsame ▸ List.mem_map_of_mem hrest)
      rw [beq_eq_false_iff_ne.mpr hne]
      exact ih hnodup.2 hrest

theorem lastValue_filterMap (hkeys : (values.map key).Nodup) (value? : α → Option V) {found : α}
    (hfound : found ∈ values) :
    lastValue (values.filterMap fun value' ↦ (value? value').map fun put ↦ (key value', put))
      (key found) = value? found := by
  unfold lastValue
  rw [← List.filterMap_reverse]
  have hnodup : (values.reverse.map key).Nodup := by
    rw [List.map_reverse]
    exact List.nodup_reverse.mpr hkeys
  have hmem : found ∈ values.reverse := List.mem_reverse.mpr hfound
  generalize values.reverse = reversed at hnodup hmem
  induction reversed with
  | nil => exact nomatch hmem
  | cons first rest ih =>
    rw [List.map_cons, List.nodup_cons] at hnodup
    have habsent : first = found →
        (rest.filterMap fun value' ↦ (value? value').map fun put ↦ (key value', put)).lookup
          (key found) = none := by
      rintro rfl
      rw [List.lookup_eq_none_iff]
      intro entry hentry
      obtain ⟨other, hother, hput⟩ := List.mem_filterMap.mp hentry
      obtain ⟨put, -, rfl⟩ := Option.map_eq_some_iff.mp hput
      exact bne_iff_ne.mpr fun hsame ↦ hnodup.1 (hsame ▸ List.mem_map_of_mem hother)
    rw [List.filterMap_cons]
    rcases List.mem_cons.mp hmem with rfl | hrest
    · cases hput : value? found with
      | none => exact habsent rfl
      | some put => simp
    · have hne : key found ≠ key first := fun hsame ↦
        hnodup.1 (hsame ▸ List.mem_map_of_mem hrest)
      cases hput : value? first with
      | none => exact ih hnodup.2 hrest
      | some put =>
        rw [Option.map_some, List.lookup_cons, beq_eq_false_iff_ne.mpr hne]
        exact ih hnodup.2 hrest

omit [LawfulBEq K] in
theorem lastValue_map {W : Type} (f : V → W) (entries : List (K × V)) (place : K) :
    lastValue (entries.map fun entry ↦ (entry.1, f entry.2)) place =
      (lastValue entries place).map f := by
  unfold lastValue
  rw [← List.map_reverse]
  induction entries.reverse with
  | nil => rfl
  | cons entry rest ih =>
    rw [List.map_cons, List.lookup_cons, List.lookup_cons, ih]
    split <;> rfl

end LastValue

/-! ### What a replacement does to a document -/

theorem replaceItems_eq_map (rename : String → String) (items : List Json) :
    replaceItems rename items = items.map (replaceTexts rename) := by
  induction items with
  | nil => rfl
  | cons item items ih => rw [replaceItems, ih, List.map_cons]

/-- Assumes: a list of written values is read after a replacement. Its values are read one by one,
and so are functions of them. -/
theorem map_of_readList {α β γ : Type} {dump : α → Json} {read : Json → Option β}
    {rename : String → String} {minimum maximum : ℕ} {values : List α} {found : List β}
    (h : Json.readList read minimum maximum (replaceTexts rename (.array (values.map dump))) =
      some found)
    {f : β → γ} {g : α → γ}
    (hread : ∀ value ∈ values, ∀ other, read (replaceTexts rename (dump value)) = some other →
      f other = g value) : found.map f = values.map g := by
  simp only [replaceTexts, replaceItems_eq_map, Json.readList, Option.ite_none_right_eq_some] at h
  replace h := h.2
  induction values generalizing found with
  | nil => simp_all
  | cons value values ih =>
    simp only [List.map_cons, List.mapM_cons, Option.bind_eq_bind, Option.bind_eq_some_iff,
      Option.pure_def, Option.some.injEq] at h
    obtain ⟨first, hfirst, rest, hrest, rfl⟩ := h
    rw [List.map_cons, List.map_cons, hread value List.mem_cons_self first hfirst,
      ih (fun value hvalue ↦ hread value (List.mem_cons_of_mem _ hvalue)) hrest]

section Renamed

variable {analysis : SqlAnalysis} {rename : String → String}

theorem column_renamed {column found : DesignColumn}
    (h : DesignColumn.codec.read (replaceTexts rename (DesignColumn.codec.dump column)) =
      some found) : (found.name, found.id) = (rename column.name, rename column.id) := by
  simp only [DesignColumn.codec, Option.bind_eq_bind, Option.bind_eq_some_iff, Option.pure_def,
    Option.some.injEq] at h
  obtain ⟨-, -, id, hid, name, hname, -, -, -, -, -, -, -, -, -, -, -, -, rfl⟩ := h
  exact Prod.ext (Codec.field_dump (by rfl) hname) (Codec.field_dump (by rfl) hid)

theorem key_renamed {key found : DesignKeyConstraint}
    (h : DesignKeyConstraint.codec.read (replaceTexts rename (DesignKeyConstraint.codec.dump key)) =
      some found) : (found.name, found.id) = (rename key.name, rename key.id) := by
  simp only [DesignKeyConstraint.codec, Option.bind_eq_bind, Option.bind_eq_some_iff,
    Option.pure_def, Option.some.injEq] at h
  obtain ⟨-, -, id, hid, name, hname, -, -, -, -, rfl⟩ := h
  exact Prod.ext (Codec.field_dump (by rfl) hname) (Codec.field_dump (by rfl) hid)

theorem check_renamed {check found : DesignCheckConstraint}
    (h : DesignCheckConstraint.codec.read
      (replaceTexts rename (DesignCheckConstraint.codec.dump check)) = some found) :
    (found.name, found.id) = (rename check.name, rename check.id) := by
  simp only [DesignCheckConstraint.codec, Option.bind_eq_bind, Option.bind_eq_some_iff,
    Option.pure_def, Option.some.injEq] at h
  obtain ⟨-, -, id, hid, name, hname, -, -, -, -, rfl⟩ := h
  exact Prod.ext (Codec.field_dump (by rfl) hname) (Codec.field_dump (by rfl) hid)

theorem index_renamed {index found : DesignIndex}
    (h : DesignIndex.codec.read (replaceTexts rename (DesignIndex.codec.dump index)) =
      some found) : (found.name, found.id) = (rename index.name, rename index.id) := by
  simp only [DesignIndex.codec, Option.bind_eq_bind, Option.bind_eq_some_iff, Option.pure_def,
    Option.some.injEq] at h
  obtain ⟨-, -, id, hid, name, hname, -, -, -, -, -, -, -, -, -, -, -, -, -, -, -, -, rfl⟩ := h
  exact Prod.ext (Codec.field_dump (by rfl) hname) (Codec.field_dump (by rfl) hid)

theorem table_renamed {table found : DesignTable}
    (h : DesignTable.codec.read (replaceTexts rename (DesignTable.codec.dump table)) =
      some found) :
    (found.name, found.id) = (rename table.name, rename table.id) ∧
      ∀ category, childrenOf found category = (childrenOf table category).map fun child ↦
        (rename child.1, rename child.2) := by
  simp only [DesignTable.codec, Option.bind_eq_bind, Option.bind_eq_some_iff, Option.pure_def,
    Option.some.injEq] at h
  obtain ⟨-, -, id, hid, name, hname, columns, hcolumns, keys, hkeys, checks, hchecks, indexes,
    hindexes, rfl⟩ := h
  refine ⟨Prod.ext (Codec.field_dump (by rfl) hname) (Codec.field_dump (by rfl) hid),
    fun category ↦ ?_⟩
  cases category with
  | columns =>
    have hread := (Json.readField_of_lookup (by rfl)).symm.trans hcolumns
    rw [childrenOf, childrenOf, List.map_map]
    exact map_of_readList hread fun column _ _ ↦ column_renamed
  | keys =>
    have hread := (Json.readField_of_lookup (by rfl)).symm.trans hkeys
    rw [childrenOf, childrenOf, List.map_map]
    exact map_of_readList hread fun key _ _ ↦ key_renamed
  | checks =>
    have hread := (Json.readField_of_lookup (by rfl)).symm.trans hchecks
    rw [childrenOf, childrenOf, List.map_map]
    exact map_of_readList hread fun check _ _ ↦ check_renamed
  | indexes =>
    have hread := (Json.readField_of_lookup (by rfl)).symm.trans hindexes
    rw [childrenOf, childrenOf, List.map_map]
    exact map_of_readList hread fun index _ _ ↦ index_renamed

theorem relationship_renamed {relationship found : DesignRelationship}
    (h : DesignRelationship.codec.read
      (replaceTexts rename (DesignRelationship.codec.dump relationship)) = some found) :
    (found.sourceTableId, found.name, found.id) =
      (rename relationship.sourceTableId, rename relationship.name, rename relationship.id) := by
  simp only [DesignRelationship.codec, Option.bind_eq_bind, Option.bind_eq_some_iff,
    Option.pure_def, Option.some.injEq] at h
  obtain ⟨-, -, id, hid, name, hname, source, hsource, -, -, -, -, -, -, -, -, -, -, -, -, -, -,
    rfl⟩ := h
  exact Prod.ext (Codec.field_dump (by rfl) hsource)
    (Prod.ext (Codec.field_dump (by rfl) hname) (Codec.field_dump (by rfl) hid))

/-- Assumes: a view is read after a replacement that leaves the words for its kind alone. -/
theorem view_renamed {view found : DesignView}
    (hkind : rename (Spelled.word view.kind) = Spelled.word view.kind)
    (h : DesignView.read (replaceTexts rename view.dump) = some found) :
    ((found.kind, found.name), found.id) = ((view.kind, rename view.name), rename view.id) := by
  simp only [DesignView.read, Option.bind_eq_bind, Option.bind_eq_some_iff, Option.pure_def,
    Option.some.injEq] at h
  obtain ⟨-, -, id, hid, name, hname, kind, hread, -, -, -, -, -, -, rfl⟩ := h
  have hlookup : kind = view.kind := by
    refine Codec.field_dump ?_ hread
    show some (Json.string (rename (Spelled.word view.kind))) = _
    rw [hkind]
    rfl
  exact Prod.ext (Prod.ext hlookup (Codec.field_dump (by rfl) hname))
    (Codec.field_dump (by rfl) hid)

/-- Assumes: a type whose metadata is the derived one is read after a replacement that leaves its
definition alone. -/
theorem type_renamed {type found : DesignType}
    (hderived : analysis.analyzeTypeDefinition type.definition = some type.toTypeContract)
    (hdefinition : rename type.definition = type.definition)
    (h : DesignType.read analysis (replaceTexts rename type.dump) = some found) :
    (found.toTypeContract, found.id) = (type.toTypeContract, rename type.id) := by
  simp only [DesignType.read, Option.bind_eq_bind, Option.bind_eq_some_iff, Option.pure_def,
    Option.some.injEq] at h
  obtain ⟨-, -, id, hid, definition, hread, contract, hcontract, -, -, rfl⟩ := h
  have hsame : definition = rename type.definition := Codec.field_dump (by rfl) hread
  rw [hsame, hdefinition, hderived] at hcontract
  exact Prod.ext (Option.some.inj hcontract).symm (Codec.field_dump (by rfl) hid)

/-- Assumes: a routine whose metadata is the derived one is read after a replacement that leaves its
definition alone. -/
theorem routine_renamed {routine found : DesignFunction}
    (hderived : analysis.analyzeRoutineDefinition routine.definition =
      some routine.toRoutineContract)
    (hdefinition : rename routine.definition = routine.definition)
    (h : DesignFunction.read analysis (replaceTexts rename routine.dump) = some found) :
    (found.toRoutineContract, found.id) = (routine.toRoutineContract, rename routine.id) := by
  simp only [DesignFunction.read, Option.bind_eq_bind, Option.bind_eq_some_iff, Option.pure_def,
    Option.some.injEq] at h
  obtain ⟨-, -, id, hid, definition, hread, contract, hcontract, -, -, rfl⟩ := h
  have hsame : definition = rename routine.definition := Codec.field_dump (by rfl) hread
  rw [hsame, hdefinition, hderived] at hcontract
  exact Prod.ext (Option.some.inj hcontract).symm (Codec.field_dump (by rfl) hid)

/-- Assumes: a trigger whose metadata is the derived one is read after a replacement that leaves its
definition alone. -/
theorem trigger_renamed {trigger found : DesignTrigger}
    (hderived : analysis.analyzeTriggerDefinition trigger.definition =
      some trigger.toTriggerContract)
    (hdefinition : rename trigger.definition = trigger.definition)
    (h : DesignTrigger.read analysis (replaceTexts rename trigger.dump) = some found) :
    (found.toTriggerContract, found.id) = (trigger.toTriggerContract, rename trigger.id) := by
  simp only [DesignTrigger.read, Option.bind_eq_bind, Option.bind_eq_some_iff, Option.pure_def,
    Option.some.injEq] at h
  obtain ⟨-, -, id, hid, definition, hread, contract, hcontract, -, -, rfl⟩ := h
  have hsame : definition = rename trigger.definition := Codec.field_dump (by rfl) hread
  rw [hsame, hdefinition, hderived] at hcontract
  exact Prod.ext (Option.some.inj hcontract).symm (Codec.field_dump (by rfl) hid)

end Renamed

/-! ### Imported designs -/

/-- The texts that the keys of a design are made of. -/
def keyTexts (content : SchemiiDesignContent) : List String :=
  (content.types.map fun type ↦ type.definition) ++
  (content.functions.map fun routine ↦ routine.definition) ++
  (content.triggers.map fun trigger ↦ trigger.definition) ++
  (content.views.flatMap fun view ↦ [Spelled.word view.kind, view.name]) ++
  (content.tables.flatMap fun table ↦ table.name ::
    [TableCategory.columns, .keys, .checks, .indexes].flatMap fun category ↦
      (childrenOf table category).map Prod.fst) ++
  content.relationships.map fun relationship ↦ relationship.name

/-- The result of `import_postgres_catalog`. The import derives the metadata of its objects and ends
with the validation of the content; its identifiers are digests of the catalog, and no name and no
definition of the catalog is one of them. -/
structure ImportedDesign (analysis : SqlAnalysis) where
  content : SchemiiDesignContent
  complete : Bool
  warnings : List String
  derived : content.Derived analysis
  valid : validateDesignContent analysis content = .ok ()
  named : ∀ text ∈ keyTexts content, text ∉ allIds content

theorem keyedObjects_ids (content : SchemiiDesignContent) :
    ((keyedObjects content).map Prod.fst).Perm (allIds content) := by
  have htable : ∀ table : DesignTable,
      ((table.id, ObjectKey.table table.name) ::
        [TableCategory.columns, .keys, .checks, .indexes].flatMap fun category ↦
          (childrenOf table category).map fun child ↦
            (child.2, ObjectKey.child category table.name child.1)).map Prod.fst =
        tableObjectIds table := by
    intro table
    simp [childrenOf, tableObjectIds, Function.comp_def]
  simp only [keyedObjects, allIds, List.map_append, List.map_map, List.map_flatMap, htable,
    Function.comp_def, List.append_assoc]
  refine List.Perm.append_left _ (List.Perm.append_left _ ?_)
  simp only [← List.append_assoc]
  refine List.perm_append_comm.trans ?_
  simp only [List.append_assoc, List.Perm.refl]

section Again

variable {analysis : SqlAnalysis} {imported : ImportedDesign analysis}
  {references : List SchemiiDesignContent}

theorem replacedText_of_mem (imported : ImportedDesign analysis)
    (references : List SchemiiDesignContent) {id : String} {key : ObjectKey}
    (h : (id, key) ∈ keyedObjects imported.content) :
    replacedText (replacements imported.content references) id =
      ((candidate references key).filter (· ≠ "")).getD id := by
  have hids : ((keyedObjects imported.content).map Prod.fst).Nodup :=
    (keyedObjects_ids imported.content).nodup_iff.mpr
      (validateDesignContent_spec imported.valid).ids
  have hput := lastValue_filterMap hids
    (fun entry ↦ (candidate references entry.2).filter (· ≠ "")) h
  unfold replacedText replacements
  rw [hput]

theorem replacedText_of_not_mem (imported : ImportedDesign analysis)
    (references : List SchemiiDesignContent) {text : String}
    (h : text ∉ allIds imported.content) :
    replacedText (replacements imported.content references) text = text := by
  have habsent : lastValue (replacements imported.content references) text = none := by
    unfold lastValue
    rw [List.lookup_eq_none_iff]
    intro entry hentry
    obtain ⟨object, hobject, hput⟩ := List.mem_filterMap.mp (List.mem_reverse.mp hentry)
    obtain ⟨replacement, -, rfl⟩ := Option.map_eq_some_iff.mp hput
    have hid := (keyedObjects_ids imported.content).mem_iff.mp (List.mem_map_of_mem hobject)
    exact bne_iff_ne.mpr fun hsame ↦ h (hsame ▸ hid)
  unfold replacedText
  rw [habsent]
  rfl

/-- One content has the objects of another, in order, under other identifiers. -/
structure Renames (rename : String → String) (source target : SchemiiDesignContent) : Prop where
  types : (target.types.map fun type ↦ (type.toTypeContract, type.id)) =
    source.types.map fun type ↦ (type.toTypeContract, rename type.id)
  tables : (target.tables.map fun table ↦ ((table.name, table.id), childrenOf table)) =
    source.tables.map fun table ↦ ((table.name, rename table.id),
      fun category ↦ (childrenOf table category).map fun child ↦ (child.1, rename child.2))
  relationships : (target.relationships.map fun relationship ↦
      (relationship.sourceTableId, relationship.name, relationship.id)) =
    source.relationships.map fun relationship ↦
      (rename relationship.sourceTableId, relationship.name, rename relationship.id)
  functions : (target.functions.map fun routine ↦ (routine.toRoutineContract, routine.id)) =
    source.functions.map fun routine ↦ (routine.toRoutineContract, rename routine.id)
  views : (target.views.map fun view ↦ ((view.kind, view.name), view.id)) =
    source.views.map fun view ↦ ((view.kind, view.name), rename view.id)
  triggers : (target.triggers.map fun trigger ↦ (trigger.toTriggerContract, trigger.id)) =
    source.triggers.map fun trigger ↦ (trigger.toTriggerContract, rename trigger.id)

/-- Assumes: an imported design is read after a replacement that leaves the texts of its keys alone.
Only its identifiers changed. -/
theorem renames_of_modelValidate {rename : String → String} {live : SchemiiDesignContent}
    (hkeys : ∀ text ∈ keyTexts imported.content, rename text = text)
    (h : SchemiiDesignContent.modelValidate analysis
      (replaceTexts rename imported.content.modelDump) = some live) :
    Renames rename imported.content live := by
  simp only [SchemiiDesignContent.modelValidate, Option.bind_eq_bind, Option.bind_eq_some_iff,
    Option.pure_def, Option.some.injEq] at h
  obtain ⟨-, -, types, htypes, tables, htables, relationships, hrelationships, functions, hfunctions,
    views, hviews, triggers, htriggers, rfl⟩ := h
  simp only [keyTexts, List.mem_append, List.mem_map, List.mem_flatMap] at hkeys
  constructor
  · have hread := (Json.readField_of_lookup (by rfl)).symm.trans htypes
    refine map_of_readList hread fun type htype _ ↦ type_renamed
      (imported.derived.types type htype) (hkeys _ ?_)
    exact .inl (.inl (.inl (.inl (.inl ⟨type, htype, rfl⟩))))
  · have hread := (Json.readField_of_lookup (by rfl)).symm.trans htables
    refine map_of_readList hread fun table htable found hfound ↦ ?_
    obtain ⟨hname, hchildren⟩ := table_renamed hfound
    have htext : ∀ text ∈ table.name ::
        [TableCategory.columns, .keys, .checks, .indexes].flatMap (fun category ↦
          (childrenOf table category).map Prod.fst), rename text = text :=
      fun text htext ↦ hkeys text (.inl (.inr ⟨table, htable, htext⟩))
    refine Prod.ext (hname.trans ?_) (funext fun category ↦ (hchildren category).trans ?_)
    · rw [htext table.name List.mem_cons_self]
    · refine List.map_congr_left fun child hchild ↦ ?_
      refine Prod.ext (htext child.1 (List.mem_cons_of_mem _ ?_)) rfl
      rw [List.mem_flatMap]
      exact ⟨category, by cases category <;> simp, List.mem_map_of_mem hchild⟩
  · have hread := (Json.readField_of_lookup (by rfl)).symm.trans hrelationships
    refine map_of_readList hread fun relationship hrelationship _ hfound ↦ ?_
    rw [relationship_renamed hfound, hkeys relationship.name (.inr ⟨relationship, hrelationship, rfl⟩)]
  · have hread := (Json.readField_of_lookup (by rfl)).symm.trans hfunctions
    refine map_of_readList hread fun routine hroutine _ ↦ routine_renamed
      (imported.derived.functions routine hroutine) (hkeys _ ?_)
    exact .inl (.inl (.inl (.inl (.inr ⟨routine, hroutine, rfl⟩))))
  · have hread := (Json.readField_of_lookup (by rfl)).symm.trans hviews
    refine map_of_readList hread fun view hview _ hfound ↦ ?_
    have htext : ∀ text ∈ [Spelled.word view.kind, view.name], rename text = text :=
      fun text htext ↦ hkeys text (.inl (.inl (.inr ⟨view, hview, htext⟩)))
    rw [view_renamed (htext _ (by simp)) hfound, htext view.name (by simp)]
  · have hread := (Json.readField_of_lookup (by rfl)).symm.trans htriggers
    refine map_of_readList hread fun trigger htrigger _ ↦ trigger_renamed
      (imported.derived.triggers trigger htrigger) (hkeys _ ?_)
    exact .inl (.inl (.inl (.inr ⟨trigger, htrigger, rfl⟩)))

theorem Renames.tableName_eq {rename : String → String} {source live : SchemiiDesignContent}
    (h : Renames rename source live) (hids : (live.tables.map fun table ↦ table.id).Nodup)
    {table : DesignTable} (htable : table ∈ source.tables) :
    tableName live (rename table.id) = some table.name := by
  have hentries : (live.tables.map fun table ↦ (table.id, table.name)) =
      source.tables.map fun table ↦ (rename table.id, table.name) := by
    simpa [Function.comp_def] using
      congrArg (List.map fun entry ↦ (entry.1.2, entry.1.1)) h.tables
  have hrenamed : (live.tables.map fun table ↦ table.id) =
      source.tables.map fun table ↦ rename table.id := by
    simpa [Function.comp_def] using congrArg (List.map Prod.fst) hentries
  rw [hrenamed] at hids
  unfold tableName
  rw [hentries]
  exact lastValue_of_mem hids htable

/-- The children of a table of an accepted content have different names, category by category. -/
theorem childNames_nodup {table : DesignTable} (h : AcceptedTable table)
    (category : TableCategory) : ((childrenOf table category).map Prod.fst).Nodup := by
  obtain ⟨hkeys, hchecks, -⟩ := List.nodup_append.mp h.constraintNames
  cases category with
  | columns => simpa [childrenOf, Function.comp_def] using h.columnNames
  | keys => simpa [childrenOf, Function.comp_def] using hkeys
  | checks => simpa [childrenOf, Function.comp_def] using hchecks
  | indexes => simpa [childrenOf, Function.comp_def] using h.indexNames

/-- Assumes: a renamed content whose tables have different identifiers. It knows every object of the
source under its key. -/
theorem Renames.identityMaps_eq {rename : String → String} {source live : SchemiiDesignContent}
    (h : Renames rename source live) (haccepted : AcceptedContent source)
    (hids : (live.tables.map fun table ↦ table.id).Nodup) {id : String} {key : ObjectKey}
    (hkey : (id, key) ∈ keyedObjects source) : identityMaps live key = some (rename id) := by
  obtain ⟨htypeNames, hothers, -⟩ := List.nodup_append.mp haccepted.names
  obtain ⟨htableNames, hviewNames, -⟩ := List.nodup_append.mp hothers
  simp only [keyedObjects, List.mem_append, List.mem_map, List.mem_flatMap, List.mem_cons,
    Prod.mk.injEq] at hkey
  rcases hkey with ((((⟨type, htype, rfl, rfl⟩ | ⟨table, htable, hobject⟩) |
    ⟨routine, hroutine, rfl, rfl⟩) | ⟨view, hview, rfl, rfl⟩) | ⟨trigger, htrigger, rfl, rfl⟩) |
    ⟨relationship, hrelationship, rfl, rfl⟩
  · have hentries : (live.types.map fun type ↦ ((type.kind, type.name), type.id)) =
        source.types.map fun type ↦ ((type.kind, type.name), rename type.id) := by
      simpa [Function.comp_def] using
        congrArg (List.map fun entry ↦ ((entry.1.kind, entry.1.name), entry.2)) h.types
    have hnodup : (source.types.map fun type ↦ (type.kind, type.name)).Nodup :=
      List.Nodup.of_map Prod.snd (by simpa [Function.comp_def] using htypeNames)
    rw [identityMaps, hentries]
    exact lastValue_of_mem hnodup htype
  · rcases hobject with ⟨rfl, rfl⟩ | ⟨category, -, child, hchild, rfl, rfl⟩
    · have hentries : (live.tables.map fun table ↦ (table.name, table.id)) =
          source.tables.map fun table ↦ (table.name, rename table.id) := by
        simpa [Function.comp_def] using congrArg (List.map Prod.fst) h.tables
      rw [identityMaps, hentries]
      exact lastValue_of_mem htableNames htable
    · have hentries : (live.tables.map fun table ↦ (table.name, childrenOf table category)) =
          source.tables.map fun table ↦ (table.name,
            (childrenOf table category).map fun child ↦ (child.1, rename child.2)) := by
        simpa [Function.comp_def] using
          congrArg (List.map fun entry ↦ (entry.1.1, entry.2 category)) h.tables
      have hfound : lastValue (live.tables.map fun table ↦
          (table.name, childrenOf table category)) table.name =
            some ((childrenOf table category).map fun child ↦ (child.1, rename child.2)) := by
        rw [hentries]
        exact lastValue_of_mem htableNames htable
      have hmap : lastValue (live.tables.map fun table ↦ (table.name, childrenOf table category))
          table.name = (lastValue (live.tables.map fun table ↦ (table.name, table))
            table.name).map fun table ↦ childrenOf table category := by
        rw [← lastValue_map, List.map_map]
        rfl
      obtain ⟨other, hother, hchildren⟩ := Option.map_eq_some_iff.mp (hmap.symm.trans hfound)
      rw [identityMaps, hother, Option.bind_some, hchildren]
      exact lastValue_of_mem (childNames_nodup (haccepted.tables table htable) category) hchild
  · have hentries : (live.functions.map fun routine ↦
        ((routine.kind, routine.name, routine.identityArguments), routine.id)) =
        source.functions.map fun routine ↦
          ((routine.kind, routine.name, routine.identityArguments), rename routine.id) := by
      simpa [Function.comp_def] using congrArg (List.map fun entry ↦
        ((entry.1.kind, entry.1.name, entry.1.identityArguments), entry.2)) h.functions
    have hnodup : (source.functions.map fun routine ↦
        (routine.kind, routine.name, routine.identityArguments)).Nodup :=
      List.Nodup.of_map (fun entry ↦ entry.2.1 ++ "(" ++ entry.2.2 ++ ")")
        (by simpa [Function.comp_def] using haccepted.signatures)
    rw [identityMaps, hentries]
    exact lastValue_of_mem hnodup hroutine
  · have hnodup : (source.views.map fun view ↦ (view.kind, view.name)).Nodup :=
      List.Nodup.of_map Prod.snd (by simpa [Function.comp_def] using hviewNames)
    rw [identityMaps, h.views]
    exact lastValue_of_mem hnodup hview
  · have hentries : (live.triggers.map fun trigger ↦
        ((trigger.relationName, trigger.name), trigger.id)) =
        source.triggers.map fun trigger ↦
          ((trigger.relationName, trigger.name), rename trigger.id) := by
      simpa [Function.comp_def] using congrArg (List.map fun entry ↦
        ((entry.1.relationName, entry.1.name), entry.2)) h.triggers
    have hnodup : (source.triggers.map fun trigger ↦
        (trigger.relationName, trigger.name)).Nodup :=
      List.Nodup.of_map (fun entry ↦ entry.1 ++ "." ++ entry.2)
        (by simpa [Function.comp_def] using haccepted.triggerNames)
    rw [identityMaps, hentries]
    exact lastValue_of_mem hnodup htrigger
  · have hsource : ∀ relationship ∈ source.relationships,
        ∃ table ∈ source.tables, table.id = relationship.sourceTableId := by
      intro relationship hrelationship
      obtain ⟨table, htable, -⟩ := (haccepted.relationships relationship hrelationship).source
      exact ⟨table, tableById_eq_some htable⟩
    have hown : ∀ table ∈ source.tables, tableName source table.id = some table.name :=
      fun table htable ↦ lastValue_of_mem haccepted.tableIds htable
    have hentries : (live.relationships.map fun relationship ↦
        ((tableName live relationship.sourceTableId, relationship.name), relationship.id)) =
        source.relationships.map fun relationship ↦
          ((tableName source relationship.sourceTableId, relationship.name),
            rename relationship.id) := by
      have hmap := congrArg (List.map fun entry ↦ ((tableName live entry.1, entry.2.1), entry.2.2))
        h.relationships
      rw [List.map_map, List.map_map] at hmap
      refine hmap.trans (List.map_congr_left fun relationship hrelationship ↦ ?_)
      obtain ⟨table, htable, hid⟩ := hsource relationship hrelationship
      have hlive := h.tableName_eq hids htable
      have htarget := hown table htable
      rw [hid] at hlive htarget
      simp only [Function.comp_apply, hlive, htarget]
    have hnodup : (source.relationships.map fun relationship ↦
        (tableName source relationship.sourceTableId, relationship.name)).Nodup := by
      refine (List.nodup_map_iff_inj_on ?_).mpr ?_
      · exact List.Nodup.of_map _ haccepted.relationshipNames
      · intro first hfirst second hsecond hsame
        obtain ⟨table, htable, hid⟩ := hsource first hfirst
        obtain ⟨other, hother, hotherId⟩ := hsource second hsecond
        rw [← hid, ← hotherId, hown table htable, hown other hother] at hsame
        have hnames := Option.some.inj (Prod.ext_iff.mp hsame).1
        have htables := List.inj_on_of_nodup_map htableNames htable hother hnames
        refine List.inj_on_of_nodup_map haccepted.relationshipNames hfirst hsecond ?_
        exact Prod.ext (hid ▸ hotherId ▸ htables ▸ rfl) (Prod.ext_iff.mp hsame).2
    rw [identityMaps, hentries]
    exact lastValue_of_mem hnodup hrelationship

theorem filter_nonempty_again (found : Option String) (text : String) :
    ((some ((found.filter (· ≠ "")).getD text)).filter (· ≠ "")).getD text =
      (found.filter (· ≠ "")).getD text := by
  have hkept : ∀ other : String, ((some other).filter (· ≠ "")).getD text =
      if other = "" then text else other := by
    intro other
    by_cases hempty : other = "" <;> simp [Option.filter, hempty]
  rw [hkept]
  split_ifs with hempty
  · cases found with
    | none => rfl
    | some other =>
      rw [hkept] at hempty ⊢
      split_ifs at hempty ⊢ with hother
      · rfl
      · exact absurd hempty hother
  · rfl

/-- Assumes: an imported design was aligned, and its tables have different identifiers. Aligned to the
result first, it is the same design. -/
theorem alignedContent_again {live : SchemiiDesignContent}
    (h : alignedContent analysis imported.content references = some live)
    (hids : (live.tables.map fun table ↦ table.id).Nodup) (more : List SchemiiDesignContent) :
    alignedContent analysis imported.content (live :: more) = some live := by
  have hkeys : ∀ text ∈ keyTexts imported.content,
      replacedText (replacements imported.content references) text = text :=
    fun text htext ↦ replacedText_of_not_mem imported references (imported.named text htext)
  have hrenames := renames_of_modelValidate hkeys h
  have hsame : replacedText (replacements imported.content (live :: more)) =
      replacedText (replacements imported.content references) := by
    funext text
    by_cases htext : text ∈ allIds imported.content
    · obtain ⟨⟨id, key⟩, hobject, rfl⟩ := List.mem_map.mp
        ((keyedObjects_ids imported.content).mem_iff.mpr htext)
      have hknown := hrenames.identityMaps_eq (validateDesignContent_spec imported.valid) hids
        hobject
      have hcandidate : candidate (live :: more) key =
          some (replacedText (replacements imported.content references) id) := by
        rw [candidate, List.findSome?_cons, hknown]
      rw [replacedText_of_mem imported _ hobject, hcandidate]
      rw [replacedText_of_mem imported _ hobject]
      exact filter_nonempty_again (candidate references key) id
    · rw [replacedText_of_not_mem imported _ htext, replacedText_of_not_mem imported _ htext]
  unfold alignedContent at h ⊢
  rw [hsame]
  exact h

end Again

end Schemii.Migrations
