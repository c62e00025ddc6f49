import Schemii.Designs.Validation
import Schemii.Migrations.Merge

/-!
# The layout of a design document

Where the dumps of two contents can differ in what they have. A `Layout` says which values are
records, which are lists of identified objects and which have nothing below them. The dump of a
content `Fits` the layout of contents: its records have all their fields, so two dumps only differ in
which identified objects they list.

A document that `model_validate` accepts `Reads` as the dump of the content: the same identified
objects are listed, and fields that it did not have are filled.

* `Fits.items_of_missing`: a value that one dump has and another one misses, below a value that both
  have, is an item of a list.
* `Reads.get`, `Reads.items_iff`: what a document has is in the dump of its content.
* `mergeWithin_of_same_live`: a merge whose baseline is the live document returns the design.
-/

set_option autoImplicit false

namespace Schemii.Migrations

open Foundations Common Designs

/-! ### Layouts -/

/-- Which values of a document have values below them. -/
inductive Layout
  | leaf
  | record (fields : List (String × Layout))
  | items (item : Layout)

/-- The layout at a path. -/
def Layout.at? : Layout → List PathStep → Option Layout
  | layout, [] => some layout
  | .record fields, .field name :: rest => (fields.lookup name).bind fun below ↦ below.at? rest
  | .items item, .item _ :: rest => item.at? rest
  | _, _ :: _ => none

/-- A document has a layout: its records have all fields in the order of the layout. -/
inductive Fits : Layout → Json → Prop
  | leaf {value : Json} (hbelow : ∀ step, childAt value step = none) : Fits .leaf value
  | record {fields : List (String × Layout)} {values : List (String × Json)}
      (hnodup : (fields.map Prod.fst).Nodup) (hnames : values.map Prod.fst = fields.map Prod.fst)
      (hfields : ∀ name below value, fields.lookup name = some below →
        values.lookup name = some value → Fits below value) :
      Fits (.record fields) (.object values)
  | items {item : Layout} {values : List Json} (hids : isIdList (.array values) = true)
      (hitems : ∀ value ∈ values, Fits item value) : Fits (.items item) (.array values)

/-- A document is read as another one that has a layout. -/
inductive Reads : Layout → Json → Json → Prop
  | leaf {document value : Json} : Reads .leaf document value
  | record {fields : List (String × Layout)} {documents values : List (String × Json)}
      (hknown : ∀ name, documents.lookup name ≠ none → fields.lookup name ≠ none)
      (hall : ∀ name, fields.lookup name ≠ none → values.lookup name ≠ none)
      (hfields : ∀ name below document value, fields.lookup name = some below →
        documents.lookup name = some document → values.lookup name = some value →
          Reads below document value) :
      Reads (.record fields) (.object documents) (.object values)
  | items {item : Layout} {documents values : List Json}
      (hdocuments : isIdList (.array documents) = true) (hvalues : isIdList (.array values) = true)
      (hids : ∀ id, itemOf documents id ≠ none ↔ itemOf values id ≠ none)
      (hitems : ∀ id document value, itemOf documents id = some document →
        itemOf values id = some value → Reads item document value) :
      Reads (.items item) (.array documents) (.array values)

theorem Fits.child {layout : Layout} {value below : Json} {step : PathStep} (h : Fits layout value)
    (hbelow : childAt value step = some below) :
    ∃ next, layout.at? [step] = some next ∧ Fits next below := by
  cases h with
  | leaf hnone => exact nomatch (hnone step).symm.trans hbelow
  | @record fields values hnodup hnames hfields =>
    cases step with
    | item id => exact nomatch hbelow
    | field name =>
      have hname : name ∈ fields.map Prod.fst := by
        rw [← hnames, mem_keys_iff]
        exact fun hnone ↦ nomatch hnone.symm.trans hbelow
      obtain ⟨next, hnext⟩ : ∃ next, fields.lookup name = some next := by
        rw [← Option.isSome_iff_exists, List.lookup_isSome_iff]
        obtain ⟨field, hfield, rfl⟩ := List.mem_map.mp hname
        exact ⟨field, hfield, beq_self_eq_true _⟩
      exact ⟨next, by simp [Layout.at?, hnext], hfields name next below hnext hbelow⟩
  | @items item values hids hitems =>
    cases step with
    | field name => exact nomatch hbelow
    | item id =>
      simp only [childAt, hids, if_true] at hbelow
      exact ⟨item, rfl, hitems below (itemOf_eq_some hbelow).1⟩

theorem Layout.at?_append (layout : Layout) (path rest : List PathStep) :
    layout.at? (path ++ rest) = (layout.at? path).bind fun below ↦ below.at? rest := by
  induction path generalizing layout with
  | nil => rfl
  | cons step path ih =>
    cases layout with
    | leaf => cases step <;> rfl
    | record fields =>
      cases step with
      | item id => rfl
      | field name =>
        simp only [List.cons_append, Layout.at?, Option.bind_assoc]
        congr 1
        funext below
        exact ih below
    | items item =>
      cases step with
      | field name => rfl
      | item id => exact ih item

variable {path : List PathStep}

theorem Fits.get {layout : Layout} {value found : Json}
    (h : Fits layout value) (hfound : designDocuments.get (some value) path = some found) :
    ∃ next, layout.at? path = some next ∧ Fits next found := by
  induction path generalizing layout value with
  | nil =>
    obtain rfl := Option.some.inj hfound
    exact ⟨layout, rfl, h⟩
  | cons step path ih =>
    rw [Documents.get_cons] at hfound
    cases hbelow : childAt value step with
    | none =>
      have hmissing : designDocuments.below (some value) step = none := hbelow
      rw [hmissing, Documents.get_none] at hfound
      exact nomatch hfound
    | some below =>
      have hpresent : designDocuments.below (some value) step = some below := hbelow
      rw [hpresent] at hfound
      obtain ⟨between, hbetween, hfits⟩ := h.child hbelow
      obtain ⟨next, hnext, hlast⟩ := ih hfits hfound
      refine ⟨next, ?_, hlast⟩
      rw [← List.singleton_append, Layout.at?_append, hbetween]
      exact hnext

/-- A record of one layout has the fields that another one has, so what it misses is an item. -/
theorem Fits.items_of_missing {layout : Layout} {first second : Json} {step : PathStep}
    (hfirst : Fits layout first) (hsecond : Fits layout second)
    (hmissing : childAt first step = none) (hpresent : childAt second step ≠ none) :
    ∃ item, layout = .items item := by
  cases hfirst with
  | leaf =>
    cases hsecond with
    | leaf hnone => exact absurd (hnone step) hpresent
  | @record fields values _ hnames =>
    cases hsecond with
    | @record _ others _ hothers =>
      cases step with
      | item id => exact absurd rfl hpresent
      | field name =>
        refine absurd hmissing ?_
        have hname := (mem_keys_iff others name).mpr hpresent
        rw [hothers, ← hnames] at hname
        exact (mem_keys_iff values name).mp hname
  | items => exact ⟨_, rfl⟩

variable {value : Json}

/-- Assumes: a layout that has something below it. A value that fits it is composite. -/
theorem Fits.composite {layout : Layout} (h : Fits layout value) (hinner : layout ≠ .leaf) :
    (dictionaryOrMissing (some value) = true ∧ ∃ fields, layout = .record fields) ∨
      (idListOrMissing (some value) = true ∧ ∃ item, layout = .items item) := by
  cases h with
  | leaf => exact absurd rfl hinner
  | record => exact .inl ⟨rfl, _, rfl⟩
  | items hids => exact .inr ⟨hids, _, rfl⟩

theorem Reads.child {layout next : Layout} {document value found : Json} {step : PathStep}
    (h : Reads layout document value) (hnext : layout.at? [step] = some next)
    (hfound : childAt document step = some found) :
    ∃ other, childAt value step = some other ∧ Reads next found other := by
  cases h with
  | leaf => cases step <;> cases hnext
  | @record fields documents values hknown hall hfields =>
    cases step with
    | item id => cases hfound
    | field name =>
      obtain ⟨below, hbelow, hat⟩ := Option.bind_eq_some_iff.mp hnext
      obtain rfl := Option.some.inj hat
      obtain ⟨other, hother⟩ := Option.ne_none_iff_exists'.mp
        (hall name (Option.ne_none_iff_exists'.mpr ⟨below, hbelow⟩))
      exact ⟨other, hother, hfields name below found other hbelow hfound hother⟩
  | @items item documents values hdocuments hvalues hids hitems =>
    cases step with
    | field name => cases hfound
    | item id =>
      obtain rfl := Option.some.inj hnext
      simp only [childAt, hdocuments, hvalues, if_true] at hfound ⊢
      obtain ⟨other, hother⟩ := Option.ne_none_iff_exists'.mp
        ((hids id).mp (Option.ne_none_iff_exists'.mpr ⟨found, hfound⟩))
      exact ⟨other, hother, hitems id found other hfound hother⟩

theorem Reads.get {layout next : Layout} {document value found : Json}
    (h : Reads layout document value) (hnext : layout.at? path = some next)
    (hfound : designDocuments.get (some document) path = some found) :
    ∃ other, designDocuments.get (some value) path = some other ∧ Reads next found other := by
  induction path generalizing layout document value with
  | nil =>
    obtain rfl := Option.some.inj hfound
    obtain rfl := Option.some.inj hnext
    exact ⟨value, rfl, h⟩
  | cons step path ih =>
    rw [← List.singleton_append, Layout.at?_append] at hnext
    obtain ⟨between, hbetween, hrest⟩ := Option.bind_eq_some_iff.mp hnext
    rw [Documents.get_cons] at hfound ⊢
    cases hbelow : childAt document step with
    | none =>
      have hmissing : designDocuments.below (some document) step = none := hbelow
      rw [hmissing, Documents.get_none] at hfound
      exact nomatch hfound
    | some below =>
      have hpresent : designDocuments.below (some document) step = some below := hbelow
      rw [hpresent] at hfound
      obtain ⟨other, hother, hreads⟩ := h.child hbetween hbelow
      have hvalue : designDocuments.below (some value) step = some other := hother
      rw [hvalue]
      exact ih hreads hrest hfound

theorem Reads.items_iff {item : Layout} {document value : Json}
    (h : Reads (.items item) document value) (id : String) :
    childAt document (.item id) ≠ none ↔ childAt value (.item id) ≠ none := by
  cases h with
  | items hdocuments hvalues hids =>
    simp only [childAt, hdocuments, hvalues, if_true]
    exact hids id

/-! ### Merging with the live document as the baseline -/

/-- No list of identified objects of a document lists an object twice. -/
def DistinctItems (value : Option Json) : Prop :=
  ∀ path items, designDocuments.get value path = some (.array items) →
    isIdList (.array items) = true → (itemIds items).Nodup

theorem DistinctItems.below {value : Option Json} (h : DistinctItems value) (step : PathStep) :
    DistinctItems (designDocuments.below value step) :=
  fun path items hitems ↦ h (step :: path) items hitems

variable {names others : List String}

theorem extendNew_of_nodup (h : (names ++ others).Nodup) :
    extendNew names others = names ++ others := by
  unfold extendNew
  induction others generalizing names with
  | nil => simp
  | cons first others ih =>
    have hnew : first ∉ names := fun hmem ↦
      (List.nodup_append.mp h).2.2 first hmem first List.mem_cons_self rfl
    rw [List.foldl_cons, if_neg hnew, ih (by simpa using h)]
    simp

variable {names : List String}

theorem extendNew_nil (h : names.Nodup) : extendNew [] names = names := by
  rw [extendNew_of_nodup (by simpa using h), List.nil_append]

theorem extendNew_of_subset (h : others ⊆ names) :
    extendNew names others = names := by
  unfold extendNew
  induction others generalizing names with
  | nil => rfl
  | cons first others ih =>
    obtain ⟨hfirst, hrest⟩ := List.cons_subset.mp h
    rw [List.foldl_cons, if_pos hfirst, ih hrest]

variable {α : Type}

theorem filterMap_extendNew {f : String → Option α} (h : ∀ name ∉ names, f name = none) :
    (extendNew names others).filterMap f = names.filterMap f := by
  unfold extendNew
  induction others generalizing names with
  | nil => rfl
  | cons first others ih =>
    rw [List.foldl_cons]
    split
    next => exact ih h
    next hnew =>
      rw [ih fun name hname ↦ h name fun hmem ↦ hname (List.mem_append_left _ hmem),
        List.filterMap_append, List.filterMap_cons, h first hnew]
      simp

variable {fields : List (String × Json)}

theorem filterMap_lookup (h : (fields.map Prod.fst).Nodup) :
    ((fields.map Prod.fst).filterMap fun key ↦ (fields.lookup key).map fun value ↦ (key, value)) =
      fields := by
  induction fields with
  | nil => rfl
  | cons field fields ih =>
    obtain ⟨name, value⟩ := field
    obtain ⟨hnew, hrest⟩ := List.nodup_cons.mp h
    rw [List.map_cons, List.filterMap_cons]
    simp only [List.lookup_cons, beq_self_eq_true, Option.map_some]
    refine congrArg _ (Eq.trans (List.filterMap_congr fun key hkey ↦ ?_) (ih hrest))
    have hne : key ≠ name := fun hsame ↦ hnew (hsame ▸ hkey)
    rw [beq_eq_false_iff_ne.mpr hne]

/-- Assumes: identified items, none of them twice. The item with the identifier of an item is that
item. -/
theorem itemOf_of_mem {items : List Json} (h : (itemIds items).Nodup) {item : Json}
    (hitem : item ∈ items) {id : String} (hid : identifier item = some id) :
    itemOf items id = some item := by
  unfold itemOf
  have hreversed : (items.reverse.filterMap identifier).Nodup := by
    rw [List.filterMap_reverse]
    exact List.nodup_reverse.mpr h
  have hmem : item ∈ items.reverse := List.mem_reverse.mpr hitem
  generalize items.reverse = reversed at hreversed hmem
  induction reversed with
  | nil => exact nomatch hmem
  | cons first rest ih =>
    rcases List.mem_cons.mp hmem with rfl | hrest
    · exact List.find?_cons_of_pos (by simpa using hid)
    · have hne : identifier first ≠ some id := by
        intro hsame
        rw [List.filterMap_cons, hsame] at hreversed
        exact (List.nodup_cons.mp hreversed).1 (List.mem_filterMap.mpr ⟨item, hrest, hid⟩)
      have hothers : (rest.filterMap identifier).Nodup := by
        rw [List.filterMap_cons] at hreversed
        split at hreversed
        · exact hreversed
        · exact (List.nodup_cons.mp hreversed).2
      rw [List.find?_cons_of_neg (by simpa using hne)]
      exact ih hothers hrest

/-- Assumes: identified items, none of them twice. The list is rebuilt from their identifiers. -/
theorem filterMap_itemOf {items : List Json} (hids : isIdList (.array items) = true)
    (h : (itemIds items).Nodup) : (itemIds items).filterMap (itemOf items) = items := by
  have hall : ∀ item ∈ items, (identifier item).isSome := by
    simpa [isIdList] using hids
  have hitem : ∀ item ∈ items, (identifier item).bind (itemOf items) = some item := by
    intro item hmem
    obtain ⟨id, hid⟩ := Option.isSome_iff_exists.mp (hall item hmem)
    rw [hid]
    exact itemOf_of_mem h hmem hid
  unfold itemIds
  rw [List.filterMap_filterMap, List.filterMap_congr hitem, List.filterMap_some]

variable {N : Type} [DecidableEq N]

/-- Assumes: two dictionaries of one layout, of which one may be missing. They have the same keys. -/
theorem keys_of_same_live {layout : Layout} {live : Option Json}
    (hdesign : Fits layout (.object fields)) (hlive : ∀ value ∈ live, Fits layout value)
    (hdictionary : dictionaryOrMissing live = true) :
    (fields.map Prod.fst).Nodup ∧
      extendNew (extendNew (extendNew [] (keysOf live)) (keysOf (some (.object fields))))
        (keysOf live) = fields.map Prod.fst := by
  have hkeys : (fields.map Prod.fst).Nodup ∧
      (keysOf live = [] ∨ keysOf live = fields.map Prod.fst) := by
    cases hdesign with
    | leaf hnone =>
      have hempty : ∀ {others : List (String × Json)},
          (∀ step, childAt (.object others) step = none) → others.map Prod.fst = [] := by
        intro others hothers
        rw [List.eq_nil_iff_forall_not_mem]
        intro name hname
        exact (mem_keys_iff others name).mp hname (hothers (.field name))
      refine ⟨by simp [hempty hnone], .inl ?_⟩
      match live, hdictionary with
      | none, _ => rfl
      | some (.object others), _ =>
        cases hlive _ rfl with
        | leaf hothers => exact hempty hothers
    | record hnodup hnames =>
      refine ⟨hnames ▸ hnodup, ?_⟩
      match live, hdictionary with
      | none, _ => exact .inl rfl
      | some (.object others), _ =>
        cases hlive _ rfl with
        | record _ hothers => exact .inr (hothers.trans hnames.symm)
  obtain ⟨hnodup, hlive | hlive⟩ := hkeys
  · refine ⟨hnodup, ?_⟩
    rw [hlive]
    exact extendNew_nil hnodup
  · refine ⟨hnodup, ?_⟩
    have hfirst : extendNew [] (fields.map Prod.fst) = fields.map Prod.fst :=
      extendNew_nil hnodup
    rw [hlive, hfirst]
    exact (congrArg (fun names ↦ extendNew names _) (extendNew_of_subset (List.Subset.refl _))).trans
      (extendNew_of_subset (List.Subset.refl _))

/-- Assumes: designs of one layout, of which the desired one lists no object twice, and no
resolutions. The merge with the live document as the baseline returns the design. -/
theorem mergeWithin_of_same_live {M : Merger N} (hresolutions : ∀ id, M.resolutions id = none)
    {depth : ℕ} {layout : Layout} {design live : Option Json}
    (hdesign : ∀ value ∈ design, Fits layout value) (hlive : ∀ value ∈ live, Fits layout value)
    (hdistinct : DistinctItems design) (hdepth : DepthBelow depth design) :
    (M.mergeWithin depth path live design live).value = design := by
  induction depth generalizing path layout design live with
  | zero =>
    cases design with
    | none => rfl
    | some value => exact absurd (hdepth value rfl) (Nat.not_lt_zero _)
  | succ depth ih =>
    have hbelow : ∀ step, (M.mergeWithin depth (path ++ [step]) (designDocuments.below live step)
        (designDocuments.below design step) (designDocuments.below live step)).value =
        designDocuments.below design step := by
      intro step
      have hfits : ∀ side : Option Json, (∀ value ∈ side, Fits layout value) →
          ∀ value ∈ designDocuments.below side step,
            ∃ next, layout.at? [step] = some next ∧ Fits next value := by
        intro side hside value hvalue
        obtain ⟨present, rfl, hchild⟩ := Option.bind_eq_some_iff.mp hvalue
        exact (hside present rfl).child hchild
      refine @ih (path ++ [step]) ((layout.at? [step]).getD .leaf) _ _ (fun value hvalue ↦ ?_)
        (fun value hvalue ↦ ?_) (hdistinct.below step) (hdepth.child step)
      · obtain ⟨next, hnext, hvalue⟩ := hfits design hdesign value hvalue
        rwa [hnext]
      · obtain ⟨next, hnext, hvalue⟩ := hfits live hlive value hvalue
        rwa [hnext]
    have hconflict : ∀ category, (M.conflict category path live design live).value = design := by
      intro category
      simp only [Merger.conflict, hresolutions]
    unfold Merger.mergeWithin
    simp only
    split_ifs with hmissing hsame hstructural hdictionary hlist hbaseline
    · exact (Option.isNone_iff_eq_none.mp hmissing.1).symm
    · rfl
    · exact hconflict _
    · obtain ⟨value, rfl⟩ : ∃ value, design = some value := by
        cases design with
        | none => cases live <;> simp_all
        | some value => exact ⟨value, rfl⟩
      cases value with
      | object fields =>
        have hkeys := keys_of_same_live (hdesign _ rfl) hlive hdictionary.1
        simp only [hbelow]
        rw [hkeys.2]
        exact congrArg (fun fields ↦ some (Json.object fields)) (filterMap_lookup hkeys.1)
      | _ => exact absurd hdictionary.2.1 (by simp [dictionaryOrMissing])
    · obtain ⟨value, rfl⟩ : ∃ value, design = some value := by
        cases design with
        | none => cases live <;> simp_all
        | some value => exact ⟨value, rfl⟩
      cases value with
      | array items =>
        have hids : isIdList (.array items) = true := hlist.2.1
        have hnodup : (itemIds items).Nodup := hdistinct [] items rfl hids
        have hitem : (fun id ↦ designDocuments.below (some (.array items)) (.item id)) =
            itemOf items := by
          funext id
          show childAt (.array items) (.item id) = _
          simp only [childAt, hids, if_true]
        have hothers : ∀ names : List String, itemIds items ⊆ names → ∀ id ∉ names,
            itemOf items id = none := by
          intro names hnames id hid
          by_contra hpresent
          exact hid (hnames ((mem_itemIds_iff items id).mpr hpresent))
        simp only [hbelow]
        rw [hitem, filterMap_extendNew, filterMap_extendNew, idsOf, extendNew_nil hnodup,
          filterMap_itemOf hids hnodup]
        · exact hothers _ (by simp [idsOf, mem_extendNew, List.subset_def])
        · exact hothers _ (by simp +contextual [idsOf, mem_extendNew, List.subset_def])
      | _ => exact absurd hlist.2.1 (by simp [idListOrMissing, isIdList])
    · rfl
    · exact absurd (equivalent_refl M.checkColumnTypes path live) hbaseline

/-! ### The layout of contents -/

/-- A record of values with nothing below them. -/
def leafRecord (names : List String) : Layout :=
  .record (names.map fun name ↦ (name, .leaf))

/-- The layout of tables. -/
def tableLayout : Layout :=
  .record [("id", .leaf), ("name", .leaf),
    ("columns", .items (leafRecord ["id", "name", "data_type", "nullable", "default_expression",
      "identity", "generated_expression", "generated_source_column_ids"])),
    ("keys", .items (leafRecord ["id", "name", "kind", "column_ids"])),
    ("checks", .items (leafRecord ["id", "name", "expression", "column_ids"])),
    ("indexes", .items (leafRecord ["id", "name", "method", "column_ids", "include_column_ids",
      "expression", "expression_source_column_ids", "predicate", "predicate_column_ids",
      "unique"]))]

/-- The layout of contents. -/
def contentLayout : Layout :=
  .record [
    ("types", .items (leafRecord ["id", "name", "kind", "enum_values", "base_type",
      "default_expression", "not_null", "checks", "collation", "definition"])),
    ("tables", .items tableLayout),
    ("relationships", .items (leafRecord ["id", "name", "source_table_id", "source_column_ids",
      "target_table_id", "target_column_ids", "on_update", "on_delete", "deferrable",
      "initially_deferred"])),
    ("functions", .items (leafRecord ["id", "name", "kind", "arguments", "identity_arguments",
      "return_type", "language", "definition"])),
    ("views", .items (leafRecord ["id", "name", "kind", "definition", "populate_on_create"])),
    ("triggers", .items (leafRecord ["id", "name", "relation_name", "timing", "events",
      "orientation", "function_name", "function_arguments", "update_columns", "referenced_columns",
      "when_expression", "transition_relations", "constraint", "deferrable", "initially_deferred",
      "definition"]))]

/-- Nothing is below a value. -/
def NoneBelow (value : Json) : Prop :=
  ∀ step, childAt value step = none

theorem noneBelow_string (text : String) : NoneBelow (.string text) := by
  rintro (_ | _) <;> rfl

theorem noneBelow_bool (value : Bool) : NoneBelow (.bool value) := by
  rintro (_ | _) <;> rfl

theorem noneBelow_null : NoneBelow .null := by
  rintro (_ | _) <;> rfl

theorem noneBelow_array {items : List Json} (h : ∀ item ∈ items, identifier item = none) :
    NoneBelow (.array items) := by
  rintro (_ | id)
  · rfl
  · simp only [childAt]
    split_ifs with hids
    · cases hitem : itemOf items id with
      | none => rfl
      | some item =>
        obtain ⟨hmem, hid⟩ := itemOf_eq_some hitem
        exact absurd ((h item hmem).symm.trans hid) (Option.some_ne_none _).symm
    · rfl

variable {dump : α → Json}

theorem noneBelow_option (h : ∀ value, NoneBelow (dump value))
    (value : Option α) : NoneBelow ((value.map dump).getD .null) := by
  cases value with
  | none => exact noneBelow_null
  | some value => exact h value

theorem lookup_map_fields {α β : Type} (f : α → β) (fields : List (String × α)) (name : String) :
    (fields.map fun field ↦ (field.1, f field.2)).lookup name = (fields.lookup name).map f := by
  induction fields with
  | nil => rfl
  | cons field fields ih =>
    rw [List.map_cons, List.lookup_cons, List.lookup_cons, ih]
    split <;> rfl

theorem fits_record {fields : List (String × Layout × Json)} (hnodup : (fields.map Prod.fst).Nodup)
    (h : ∀ field ∈ fields, Fits field.2.1 field.2.2) :
    Fits (.record (fields.map fun field ↦ (field.1, field.2.1)))
      (.object (fields.map fun field ↦ (field.1, field.2.2))) := by
  refine .record (by simpa [Function.comp_def] using hnodup) (by simp [Function.comp_def])
    fun name below value hbelow hvalue ↦ ?_
  rw [lookup_map_fields Prod.fst] at hbelow
  rw [lookup_map_fields Prod.snd] at hvalue
  obtain ⟨found, hfound, rfl⟩ := Option.map_eq_some_iff.mp hbelow
  rw [hfound] at hvalue
  obtain rfl := Option.some.inj hvalue
  obtain ⟨before, after, rfl, -⟩ := List.lookup_eq_some_iff.mp hfound
  exact h (name, found) (by simp)

theorem fits_leafRecord {values : List (String × Json)}
    (hnodup : names.Nodup) (hnames : values.map Prod.fst = names)
    (hvalues : ∀ value ∈ values, NoneBelow value.2) : Fits (leafRecord names) (.object values) := by
  subst hnames
  have hfits := @fits_record (values.map fun value ↦ (value.1, Layout.leaf, value.2))
    (by simpa [Function.comp_def] using hnodup) (fun field hfield ↦ by
      obtain ⟨value, hvalue, rfl⟩ := List.mem_map.mp hfield
      exact .leaf (hvalues value hvalue))
  simpa [leafRecord, Function.comp_def] using hfits

/-! ### Dumps fit their layout -/

theorem noneBelow_texts (texts : List String) : NoneBelow (.array (texts.map Json.string)) := by
  refine noneBelow_array fun item hitem ↦ ?_
  obtain ⟨text, -, rfl⟩ := List.mem_map.mp hitem
  rfl

theorem noneBelow_nullable {codec : Codec α}
    {hnull : ∀ value, codec.dump value ≠ .null} (h : ∀ value, NoneBelow (codec.dump value))
    (value : Option α) : NoneBelow ((codec.nullable hnull).dump value) := by
  cases value with
  | none => exact noneBelow_null
  | some value => exact h value

theorem noneBelow_expression (value : Option String) : NoneBelow (nullableExpression.dump value) := by
  cases value with
  | none => exact noneBelow_null
  | some text => exact noneBelow_string text

theorem fits_column (column : DesignColumn) :
    Fits (leafRecord ["id", "name", "data_type", "nullable", "default_expression", "identity",
      "generated_expression", "generated_source_column_ids"]) (DesignColumn.codec.dump column) := by
  refine fits_leafRecord (by decide) rfl ?_
  simp only [List.forall_mem_cons, List.not_mem_nil, false_implies, implies_true, and_true]
  exact ⟨noneBelow_string _, noneBelow_string _, noneBelow_string _, noneBelow_bool _,
    noneBelow_expression _, noneBelow_nullable (fun _ ↦ noneBelow_string _) _,
    noneBelow_expression _, noneBelow_texts _⟩

theorem fits_key (key : DesignKeyConstraint) :
    Fits (leafRecord ["id", "name", "kind", "column_ids"]) (DesignKeyConstraint.codec.dump key) := by
  refine fits_leafRecord (by decide) rfl ?_
  simp only [List.forall_mem_cons, List.not_mem_nil, false_implies, implies_true, and_true]
  exact ⟨noneBelow_string _, noneBelow_string _, noneBelow_string _, noneBelow_texts _⟩

theorem fits_check (check : DesignCheckConstraint) :
    Fits (leafRecord ["id", "name", "expression", "column_ids"])
      (DesignCheckConstraint.codec.dump check) := by
  refine fits_leafRecord (by decide) rfl ?_
  simp only [List.forall_mem_cons, List.not_mem_nil, false_implies, implies_true, and_true]
  exact ⟨noneBelow_string _, noneBelow_string _, noneBelow_string _, noneBelow_texts _⟩

theorem fits_index (index : DesignIndex) :
    Fits (leafRecord ["id", "name", "method", "column_ids", "include_column_ids", "expression",
      "expression_source_column_ids", "predicate", "predicate_column_ids", "unique"])
      (DesignIndex.codec.dump index) := by
  refine fits_leafRecord (by decide) rfl ?_
  simp only [List.forall_mem_cons, List.not_mem_nil, false_implies, implies_true, and_true]
  exact ⟨noneBelow_string _, noneBelow_string _, noneBelow_string _, noneBelow_texts _,
    noneBelow_texts _, noneBelow_expression _, noneBelow_texts _,
    noneBelow_expression _, noneBelow_texts _, noneBelow_bool _⟩

theorem fits_relationship (relationship : DesignRelationship) :
    Fits (leafRecord ["id", "name", "source_table_id", "source_column_ids", "target_table_id",
      "target_column_ids", "on_update", "on_delete", "deferrable", "initially_deferred"])
      (DesignRelationship.codec.dump relationship) := by
  refine fits_leafRecord (by decide) rfl ?_
  simp only [List.forall_mem_cons, List.not_mem_nil, false_implies, implies_true, and_true]
  exact ⟨noneBelow_string _, noneBelow_string _, noneBelow_string _, noneBelow_texts _,
    noneBelow_string _, noneBelow_texts _, noneBelow_string _, noneBelow_string _,
    noneBelow_bool _, noneBelow_bool _⟩

theorem fits_type (type : DesignType) :
    Fits (leafRecord ["id", "name", "kind", "enum_values", "base_type", "default_expression",
      "not_null", "checks", "collation", "definition"]) type.dump := by
  refine fits_leafRecord (by decide) rfl ?_
  simp only [List.forall_mem_cons, List.not_mem_nil, false_implies, implies_true, and_true]
  refine ⟨noneBelow_string _, noneBelow_string _, noneBelow_string _, noneBelow_texts _,
    noneBelow_option noneBelow_string _, noneBelow_option noneBelow_string _, noneBelow_bool _,
    noneBelow_array fun item hitem ↦ ?_, noneBelow_option noneBelow_string _, noneBelow_string _⟩
  obtain ⟨check, -, rfl⟩ := List.mem_map.mp hitem
  rfl

theorem fits_routine (routine : DesignFunction) :
    Fits (leafRecord ["id", "name", "kind", "arguments", "identity_arguments", "return_type",
      "language", "definition"]) routine.dump := by
  refine fits_leafRecord (by decide) rfl ?_
  simp only [List.forall_mem_cons, List.not_mem_nil, false_implies, implies_true, and_true]
  exact ⟨noneBelow_string _, noneBelow_string _, noneBelow_string _, noneBelow_string _,
    noneBelow_string _, noneBelow_option noneBelow_string _, noneBelow_string _,
    noneBelow_string _⟩

theorem fits_view (view : DesignView) :
    Fits (leafRecord ["id", "name", "kind", "definition", "populate_on_create"]) view.dump := by
  refine fits_leafRecord (by decide) rfl ?_
  simp only [List.forall_mem_cons, List.not_mem_nil, false_implies, implies_true, and_true]
  exact ⟨noneBelow_string _, noneBelow_string _, noneBelow_string _, noneBelow_string _,
    noneBelow_nullable noneBelow_bool _⟩

theorem fits_trigger (trigger : DesignTrigger) :
    Fits (leafRecord ["id", "name", "relation_name", "timing", "events", "orientation",
      "function_name", "function_arguments", "update_columns", "referenced_columns",
      "when_expression", "transition_relations", "constraint", "deferrable", "initially_deferred",
      "definition"]) trigger.dump := by
  refine fits_leafRecord (by decide) rfl ?_
  simp only [List.forall_mem_cons, List.not_mem_nil, false_implies, implies_true, and_true]
  refine ⟨noneBelow_string _, noneBelow_string _, noneBelow_string _, noneBelow_string _,
    noneBelow_array fun item hitem ↦ ?_, noneBelow_string _, noneBelow_string _,
    noneBelow_texts _, noneBelow_texts _, noneBelow_texts _, noneBelow_option noneBelow_string _,
    noneBelow_texts _, noneBelow_bool _, noneBelow_bool _, noneBelow_bool _, noneBelow_string _⟩
  obtain ⟨event, -, rfl⟩ := List.mem_map.mp hitem
  rfl

variable {id : α → String}

theorem fits_items {layout : Layout} (hids : ∀ value, identifier (dump value) = some (id value))
    (h : ∀ value, Fits layout (dump value)) (values : List α) :
    Fits (.items layout) (.array (values.map dump)) := by
  refine .items ?_ fun value hvalue ↦ ?_
  · simp [isIdList, hids]
  · obtain ⟨written, -, rfl⟩ := List.mem_map.mp hvalue
    exact h written

theorem fits_table (table : DesignTable) : Fits tableLayout (DesignTable.codec.dump table) := by
  refine @fits_record [("id", .leaf, .string table.id), ("name", .leaf, .string table.name),
    ("columns", .items _, .array (table.columns.map DesignColumn.codec.dump)),
    ("keys", .items _, .array (table.keys.map DesignKeyConstraint.codec.dump)),
    ("checks", .items _, .array (table.checks.map DesignCheckConstraint.codec.dump)),
    ("indexes", .items _, .array (table.indexes.map DesignIndex.codec.dump))] (by simp) ?_
  simp only [List.forall_mem_cons, List.not_mem_nil, false_implies, implies_true, and_true]
  exact ⟨.leaf (noneBelow_string _), .leaf (noneBelow_string _),
    fits_items (fun _ ↦ rfl) fits_column _, fits_items (fun _ ↦ rfl) fits_key _,
    fits_items (fun _ ↦ rfl) fits_check _, fits_items (fun _ ↦ rfl) fits_index _⟩

theorem fits_modelDump (content : SchemiiDesignContent) : Fits contentLayout content.modelDump := by
  refine @fits_record [("types", .items _, .array (content.types.map DesignType.dump)),
    ("tables", .items _, .array (content.tables.map DesignTable.codec.dump)),
    ("relationships", .items _,
      .array (content.relationships.map DesignRelationship.codec.dump)),
    ("functions", .items _, .array (content.functions.map DesignFunction.dump)),
    ("views", .items _, .array (content.views.map DesignView.dump)),
    ("triggers", .items _, .array (content.triggers.map DesignTrigger.dump))] (by simp) ?_
  simp only [List.forall_mem_cons, List.not_mem_nil, false_implies, implies_true, and_true]
  exact ⟨fits_items (fun _ ↦ rfl) fits_type _, fits_items (fun _ ↦ rfl) fits_table _,
    fits_items (fun _ ↦ rfl) fits_relationship _, fits_items (fun _ ↦ rfl) fits_routine _,
    fits_items (fun _ ↦ rfl) fits_view _, fits_items (fun _ ↦ rfl) fits_trigger _⟩

/-! ### Accepted documents are read as dumps -/

/-- Assumes: a dictionary of known fields, of which each is read as the field of the written record
that has its name. -/
theorem reads_record {fields : List (String × Layout × Json)} {document : Json}
    (hknown : document.Known (fields.map Prod.fst) = true)
    (h : ∀ name layout value, (name, layout, value) ∈ fields →
      ∀ written, childAt document (.field name) = some written → Reads layout written value) :
    Reads (.record (fields.map fun field ↦ (field.1, field.2.1))) document
      (.object (fields.map fun field ↦ (field.1, field.2.2))) := by
  cases document with
  | object documents =>
    have hfields : ∀ name, name ∈ fields.map Prod.fst →
        (fields.map fun field ↦ (field.1, field.2.1)).lookup name ≠ none := by
      intro name hname
      rw [lookup_map_fields Prod.fst, Ne, Option.map_eq_none_iff]
      rw [← Ne, ← Option.isSome_iff_ne_none, List.lookup_isSome_iff]
      obtain ⟨field, hfield, rfl⟩ := List.mem_map.mp hname
      exact ⟨field, hfield, beq_self_eq_true _⟩
    refine .record (fun name hname ↦ hfields name ?_) (fun name hname ↦ ?_)
      fun name below written value hbelow hwritten hvalue ↦ ?_
    · obtain ⟨field, hfield, rfl⟩ := List.mem_map.mp ((mem_keys_iff documents name).mpr hname)
      simpa using List.all_eq_true.mp hknown field hfield
    · rw [lookup_map_fields Prod.snd]
      rw [lookup_map_fields Prod.fst] at hname
      simpa using hname
    · rw [lookup_map_fields Prod.fst] at hbelow
      rw [lookup_map_fields Prod.snd] at hvalue
      obtain ⟨found, hfound, rfl⟩ := Option.map_eq_some_iff.mp hbelow
      rw [hfound] at hvalue
      obtain rfl := Option.some.inj hvalue
      obtain ⟨before, after, rfl, -⟩ := List.lookup_eq_some_iff.mp hfound
      exact h name found.1 found.2 (by simp) written hwritten
  | _ => exact nomatch hknown

/-- Assumes: a dictionary of known fields, read as a record of values with nothing below them. -/
theorem reads_leafRecord {document : Json} {values : List (String × Json)}
    (hknown : document.Known names = true) (hnames : values.map Prod.fst = names) :
    Reads (leafRecord names) document (.object values) := by
  subst hnames
  have hreads := @reads_record (values.map fun value ↦ (value.1, Layout.leaf, value.2)) document
    (by simpa [Function.comp_def] using hknown) (fun name layout value hfield written _ ↦ by
      obtain ⟨_, -, hsame⟩ := List.mem_map.mp hfield
      obtain ⟨-, rfl, -⟩ := by simpa using hsame
      exact .leaf)
  simpa [leafRecord, Function.comp_def] using hreads

variable {values : List α} {read : Json → Option α}

theorem forall₂_of_mapM {documents : List Json} (h : documents.mapM read = some values) :
    List.Forall₂ (fun document value ↦ read document = some value) documents values := by
  induction documents generalizing values with
  | nil =>
    obtain rfl : values = [] := by simpa using h.symm
    exact .nil
  | cons document documents ih =>
    simp only [List.mapM_cons, Option.bind_eq_bind, Option.bind_eq_some_iff, Option.pure_def,
      Option.some.injEq] at h
    obtain ⟨value, hvalue, rest, hrest, rfl⟩ := h
    exact .cons hvalue (ih hrest)

/-- Assumes: two lists of related values, of which related ones pass a test together. What is found
first in both is related. -/
theorem related_find? {α β : Type} {R : α → β → Prop} {p : α → Bool} {q : β → Bool}
    {first : List α} {second : List β} (h : List.Forall₂ R first second)
    (htest : ∀ a b, R a b → p a = q b) :
    (first.find? p = none ↔ second.find? q = none) ∧
      ∀ a b, first.find? p = some a → second.find? q = some b → R a b := by
  induction h with
  | nil => exact ⟨by simp, fun a b ha ↦ nomatch ha⟩
  | @cons a b first second hab hrest ih =>
    by_cases hpass : p a = true
    · have hother : q b = true := (htest a b hab).symm.trans hpass
      rw [List.find?_cons_of_pos hpass, List.find?_cons_of_pos hother]
      refine ⟨by simp, fun a' b' ha hb ↦ ?_⟩
      obtain rfl := Option.some.inj ha
      obtain rfl := Option.some.inj hb
      exact hab
    · have hother : ¬ q b = true := fun hq ↦ hpass ((htest a b hab).trans hq)
      rw [List.find?_cons_of_neg hpass, List.find?_cons_of_neg hother]
      exact ih

/-- Assumes: a list was read, and every item is read as what is written for its value, under the same
identifier. -/
theorem reads_items {layout : Layout} {minimum maximum : ℕ} {document : Json}
    (h : Json.readList read minimum maximum document = some values)
    (hids : ∀ value, identifier (dump value) = some (id value))
    (hitems : ∀ item value, read item = some value →
      identifier item = some (id value) ∧ Reads layout item (dump value)) :
    Reads (.items layout) document (.array (values.map dump)) := by
  cases document with
  | array documents =>
    simp only [Json.readList, Option.ite_none_right_eq_some] at h
    have hrelated : List.Forall₂ (fun item written ↦ identifier item = identifier written ∧
        (identifier item).isSome ∧ Reads layout item written) documents (values.map dump) := by
      rw [List.forall₂_map_right_iff]
      refine (forall₂_of_mapM h.2).imp fun item value hread ↦ ?_
      obtain ⟨hid, hreads⟩ := hitems item value hread
      exact ⟨hid.trans (hids value).symm, by simp [hid], hreads⟩
    have hfind : ∀ key, _ := fun key ↦ @related_find? _ _ _
      (fun item ↦ decide (identifier item = some key))
      (fun item ↦ decide (identifier item = some key)) _ _ (List.forall₂_reverse_iff.mpr hrelated)
      (fun item written hitem ↦ by simp [hitem.1])
    refine .items ?_ ?_ (fun key ↦ not_congr (hfind key).1) fun key item written hitem hwritten ↦
      ((hfind key).2 item written hitem hwritten).2.2
    · rw [isIdList, List.all_eq_true]
      generalize values.map dump = written at hrelated
      clear h hfind
      induction hrelated with
      | nil => exact List.forall_mem_nil _
      | cons hitem _ ih => exact List.forall_mem_cons.mpr ⟨hitem.2.1, ih⟩
    · simp [isIdList, hids]
  | _ => cases h

theorem identifier_of_field {document : Json} {id : String}
    (h : objectId.field document "id" none = some id) : identifier document = some id := by
  obtain ⟨fields, rfl, ⟨written, hwritten, hread⟩ | ⟨-, hmissing⟩⟩ := Json.readField_eq_some h
  · cases written with
    | string text =>
      have htext : text = id := by
        simpa [objectId, Codec.text, Option.ite_none_right_eq_some] using
          (Option.ite_none_right_eq_some.mp hread).2
      rw [identifier, hwritten]
      exact congrArg some htext
    | _ => cases hread
  · cases hmissing

theorem guard_eq_some {holds : Bool} {done : Unit} (h : guard (holds = true) = some done) :
    holds = true := by
  by_contra hfails
  simp [guard, hfails] at h

theorem reads_column {document : Json} {column : DesignColumn}
    (h : DesignColumn.codec.read document = some column) :
    identifier document = some column.id ∧
      Reads (leafRecord ["id", "name", "data_type", "nullable", "default_expression", "identity",
        "generated_expression", "generated_source_column_ids"]) document
        (DesignColumn.codec.dump column) := by
  simp only [DesignColumn.codec, Option.bind_eq_bind, Option.bind_eq_some_iff, Option.pure_def,
    Option.some.injEq] at h
  obtain ⟨_, hknown, id, hid, -, -, -, -, -, -, -, -, -, -, -, -, -, -, rfl⟩ := h
  exact ⟨identifier_of_field hid, reads_leafRecord (guard_eq_some hknown) rfl⟩

theorem reads_key {document : Json} {key : DesignKeyConstraint}
    (h : DesignKeyConstraint.codec.read document = some key) :
    identifier document = some key.id ∧
      Reads (leafRecord ["id", "name", "kind", "column_ids"]) document
        (DesignKeyConstraint.codec.dump key) := by
  simp only [DesignKeyConstraint.codec, Option.bind_eq_bind, Option.bind_eq_some_iff,
    Option.pure_def, Option.some.injEq] at h
  obtain ⟨_, hknown, id, hid, -, -, -, -, -, -, rfl⟩ := h
  exact ⟨identifier_of_field hid, reads_leafRecord (guard_eq_some hknown) rfl⟩

theorem reads_check {document : Json} {check : DesignCheckConstraint}
    (h : DesignCheckConstraint.codec.read document = some check) :
    identifier document = some check.id ∧
      Reads (leafRecord ["id", "name", "expression", "column_ids"]) document
        (DesignCheckConstraint.codec.dump check) := by
  simp only [DesignCheckConstraint.codec, Option.bind_eq_bind, Option.bind_eq_some_iff,
    Option.pure_def, Option.some.injEq] at h
  obtain ⟨_, hknown, id, hid, -, -, -, -, -, -, rfl⟩ := h
  exact ⟨identifier_of_field hid, reads_leafRecord (guard_eq_some hknown) rfl⟩

theorem reads_index {document : Json} {index : DesignIndex}
    (h : DesignIndex.codec.read document = some index) :
    identifier document = some index.id ∧
      Reads (leafRecord ["id", "name", "method", "column_ids", "include_column_ids", "expression",
        "expression_source_column_ids", "predicate", "predicate_column_ids", "unique"]) document
        (DesignIndex.codec.dump index) := by
  simp only [DesignIndex.codec, Option.bind_eq_bind, Option.bind_eq_some_iff,
    Option.pure_def, Option.some.injEq] at h
  obtain ⟨_, hknown, id, hid, -, -, -, -, -, -, -, -, -, -, -, -, -, -, -, -, -, -, rfl⟩ := h
  exact ⟨identifier_of_field hid, reads_leafRecord (guard_eq_some hknown) rfl⟩

theorem reads_relationship {document : Json} {relationship : DesignRelationship}
    (h : DesignRelationship.codec.read document = some relationship) :
    identifier document = some relationship.id ∧
      Reads (leafRecord ["id", "name", "source_table_id", "source_column_ids", "target_table_id",
        "target_column_ids", "on_update", "on_delete", "deferrable", "initially_deferred"])
        document
        (DesignRelationship.codec.dump relationship) := by
  simp only [DesignRelationship.codec, Option.bind_eq_bind, Option.bind_eq_some_iff,
    Option.pure_def, Option.some.injEq] at h
  obtain ⟨_, hknown, id, hid, -, -, -, -, -, -, -, -, -, -, -, -, -, -, -, -, -, -, rfl⟩ := h
  exact ⟨identifier_of_field hid, reads_leafRecord (guard_eq_some hknown) rfl⟩

variable {analysis : SqlAnalysis}

theorem reads_type {document : Json} {type : DesignType}
    (h : DesignType.read analysis document = some type) :
    identifier document = some type.id ∧
      Reads (leafRecord ["id", "name", "kind", "enum_values", "base_type", "default_expression", "not_null",
        "checks", "collation", "definition"]) document
        type.dump := by
  simp only [DesignType.read, Option.bind_eq_bind, Option.bind_eq_some_iff,
    Option.pure_def, Option.some.injEq] at h
  obtain ⟨_, hknown, id, hid, -, -, -, -, -, -, rfl⟩ := h
  exact ⟨identifier_of_field hid, reads_leafRecord (guard_eq_some hknown) rfl⟩

theorem reads_routine {document : Json} {routine : DesignFunction}
    (h : DesignFunction.read analysis document = some routine) :
    identifier document = some routine.id ∧
      Reads (leafRecord ["id", "name", "kind", "arguments", "identity_arguments", "return_type", "language",
        "definition"]) document
        routine.dump := by
  simp only [DesignFunction.read, Option.bind_eq_bind, Option.bind_eq_some_iff,
    Option.pure_def, Option.some.injEq] at h
  obtain ⟨_, hknown, id, hid, -, -, -, -, -, -, rfl⟩ := h
  exact ⟨identifier_of_field hid, reads_leafRecord (guard_eq_some hknown) rfl⟩

theorem reads_view {document : Json} {view : DesignView}
    (h : DesignView.read document = some view) :
    identifier document = some view.id ∧
      Reads (leafRecord ["id", "name", "kind", "definition", "populate_on_create"]) document
        view.dump := by
  simp only [DesignView.read, Option.bind_eq_bind, Option.bind_eq_some_iff,
    Option.pure_def, Option.some.injEq] at h
  obtain ⟨_, hknown, id, hid, -, -, -, -, -, -, -, -, -, -, rfl⟩ := h
  exact ⟨identifier_of_field hid, reads_leafRecord (guard_eq_some hknown) rfl⟩

theorem reads_trigger {document : Json} {trigger : DesignTrigger}
    (h : DesignTrigger.read analysis document = some trigger) :
    identifier document = some trigger.id ∧
      Reads (leafRecord ["id", "name", "relation_name", "timing", "events", "orientation", "function_name",
        "function_arguments", "update_columns", "referenced_columns", "when_expression",
        "transition_relations", "constraint", "deferrable", "initially_deferred", "definition"])
        document
        trigger.dump := by
  simp only [DesignTrigger.read, Option.bind_eq_bind, Option.bind_eq_some_iff,
    Option.pure_def, Option.some.injEq] at h
  obtain ⟨_, hknown, id, hid, -, -, -, -, -, -, rfl⟩ := h
  exact ⟨identifier_of_field hid, reads_leafRecord (guard_eq_some hknown) rfl⟩

theorem reads_field {layout : Layout}
    {minimum maximum : ℕ} {document written : Json} {name : String} {default : Option (List α)}
    (h : document.readField (Json.readList read minimum maximum) name default = some values)
    (hwritten : childAt document (.field name) = some written)
    (hids : ∀ value, identifier (dump value) = some (id value))
    (hitems : ∀ item value, read item = some value →
      identifier item = some (id value) ∧ Reads layout item (dump value)) :
    Reads (.items layout) written (.array (values.map dump)) := by
  obtain ⟨fields, rfl, ⟨found, hfound, hread⟩ | ⟨hmissing, -⟩⟩ := Json.readField_eq_some h
  · obtain rfl := Option.some.inj (hfound.symm.trans hwritten)
    exact reads_items hread hids hitems
  · exact nomatch hmissing.symm.trans hwritten

theorem reads_table {document : Json} {table : DesignTable}
    (h : DesignTable.codec.read document = some table) :
    identifier document = some table.id ∧
      Reads tableLayout document (DesignTable.codec.dump table) := by
  simp only [DesignTable.codec, Option.bind_eq_bind, Option.bind_eq_some_iff, Option.pure_def,
    Option.some.injEq] at h
  obtain ⟨_, hknown, id, hid, name, -, columns, hcolumns, keys, hkeys, checks, hchecks, indexes,
    hindexes, rfl⟩ := h
  refine ⟨identifier_of_field hid, @reads_record [("id", .leaf, .string id),
    ("name", .leaf, .string name), ("columns", .items _, .array (columns.map DesignColumn.codec.dump)),
    ("keys", .items _, .array (keys.map DesignKeyConstraint.codec.dump)),
    ("checks", .items _, .array (checks.map DesignCheckConstraint.codec.dump)),
    ("indexes", .items _, .array (indexes.map DesignIndex.codec.dump))] document
    (guard_eq_some hknown) ?_⟩
  intro field layout value hfield written hwritten
  simp only [List.mem_cons, Prod.mk.injEq, List.not_mem_nil, or_false] at hfield
  rcases hfield with ⟨rfl, rfl, rfl⟩ | ⟨rfl, rfl, rfl⟩ | ⟨rfl, rfl, rfl⟩ | ⟨rfl, rfl, rfl⟩ |
    ⟨rfl, rfl, rfl⟩ | ⟨rfl, rfl, rfl⟩
  · exact .leaf
  · exact .leaf
  · exact reads_field hcolumns hwritten (fun _ ↦ rfl) fun _ _ ↦ reads_column
  · exact reads_field hkeys hwritten (fun _ ↦ rfl) fun _ _ ↦ reads_key
  · exact reads_field hchecks hwritten (fun _ ↦ rfl) fun _ _ ↦ reads_check
  · exact reads_field hindexes hwritten (fun _ ↦ rfl) fun _ _ ↦ reads_index

theorem reads_modelValidate {document : Json} {content : SchemiiDesignContent}
    (h : SchemiiDesignContent.modelValidate analysis document = some content) :
    Reads contentLayout document content.modelDump := by
  simp only [SchemiiDesignContent.modelValidate, Option.bind_eq_bind, Option.bind_eq_some_iff,
    Option.pure_def, Option.some.injEq] at h
  obtain ⟨_, hknown, types, htypes, tables, htables, relationships, hrelationships, functions,
    hfunctions, views, hviews, triggers, htriggers, rfl⟩ := h
  refine @reads_record [("types", .items _, .array (types.map DesignType.dump)),
    ("tables", .items _, .array (tables.map DesignTable.codec.dump)),
    ("relationships", .items _, .array (relationships.map DesignRelationship.codec.dump)),
    ("functions", .items _, .array (functions.map DesignFunction.dump)),
    ("views", .items _, .array (views.map DesignView.dump)),
    ("triggers", .items _, .array (triggers.map DesignTrigger.dump))] document
    (guard_eq_some hknown) ?_
  intro field layout value hfield written hwritten
  simp only [List.mem_cons, Prod.mk.injEq, List.not_mem_nil, or_false] at hfield
  rcases hfield with ⟨rfl, rfl, rfl⟩ | ⟨rfl, rfl, rfl⟩ | ⟨rfl, rfl, rfl⟩ | ⟨rfl, rfl, rfl⟩ |
    ⟨rfl, rfl, rfl⟩ | ⟨rfl, rfl, rfl⟩
  · exact reads_field htypes hwritten (fun _ ↦ rfl) fun _ _ ↦ reads_type
  · exact reads_field htables hwritten (fun _ ↦ rfl) fun _ _ ↦ reads_table
  · exact reads_field hrelationships hwritten (fun _ ↦ rfl) fun _ _ ↦ reads_relationship
  · exact reads_field hfunctions hwritten (fun _ ↦ rfl) fun _ _ ↦ reads_routine
  · exact reads_field hviews hwritten (fun _ ↦ rfl) fun _ _ ↦ reads_view
  · exact reads_field htriggers hwritten (fun _ ↦ rfl) fun _ _ ↦ reads_trigger

/-! ### An accepted content lists no object twice -/

/-- Assumes: a value that lists no object twice itself, and neither does what is below it. -/
theorem distinctItems_of_child
    (hroot : ∀ items, value = .array items → isIdList (.array items) = true → (itemIds items).Nodup)
    (hchild : ∀ step below, childAt value step = some below → DistinctItems (some below)) :
    DistinctItems (some value) := by
  intro path items hitems hids
  cases path with
  | nil => exact hroot items (Option.some.inj hitems) hids
  | cons step path =>
    rw [Documents.get_cons] at hitems
    cases hbelow : childAt value step with
    | none =>
      have hmissing : designDocuments.below (some value) step = none := hbelow
      rw [hmissing, Documents.get_none] at hitems
      exact nomatch hitems
    | some below =>
      have hpresent : designDocuments.below (some value) step = some below := hbelow
      rw [hpresent] at hitems
      exact hchild step below hbelow path items hitems hids

theorem distinctItems_of_noneBelow (h : NoneBelow value) :
    DistinctItems (some value) := by
  refine distinctItems_of_child (fun items hvalue hids ↦ ?_)
    fun step below hbelow ↦ nomatch (h step).symm.trans hbelow
  subst hvalue
  have hempty : itemIds items = [] := by
    rw [List.eq_nil_iff_forall_not_mem]
    intro id hid
    have hnone := h (.item id)
    simp only [childAt, hids, if_true] at hnone
    exact (mem_itemIds_iff items id).mp hid hnone
  rw [hempty]
  exact List.nodup_nil

theorem distinctItems_of_leafRecord (h : Fits (leafRecord names) value) : DistinctItems (some value) := by
  cases h with
  | record _ _ hfields =>
    refine distinctItems_of_child (fun items hvalue ↦ nomatch hvalue) fun step below hbelow ↦ ?_
    obtain ⟨next, hnext, hfits⟩ := (Fits.record ‹_› ‹_› hfields).child hbelow
    have hleaf : next = .leaf := by
      cases step with
      | item id => exact nomatch hnext
      | field name =>
        obtain ⟨found, hfound, hat⟩ := Option.bind_eq_some_iff.mp hnext
        obtain rfl := Option.some.inj hat
        have hmap : (names.map fun name ↦ (name, Layout.leaf)).lookup name = some found := hfound
        obtain ⟨_, _, hlist, -⟩ := List.lookup_eq_some_iff.mp hmap
        have hmem : (name, found) ∈ names.map fun name ↦ (name, Layout.leaf) := by
          rw [hlist]
          simp
        obtain ⟨_, -, hsame⟩ := List.mem_map.mp hmem
        exact (Prod.ext_iff.mp hsame).2.symm
    subst hleaf
    cases hfits with
    | leaf hnone => exact distinctItems_of_noneBelow hnone

theorem distinctItems_list
    (hids : ∀ value, identifier (dump value) = some (id value)) (hnodup : (values.map id).Nodup)
    (h : ∀ value ∈ values, DistinctItems (some (dump value))) :
    DistinctItems (some (.array (values.map dump))) := by
  have hitems : itemIds (values.map dump) = values.map id := by
    simp only [itemIds, List.filterMap_map, Function.comp_def, hids, List.filterMap_eq_map']
  refine distinctItems_of_child (fun items hvalue _ ↦ ?_) fun step below hbelow ↦ ?_
  · obtain rfl := Json.array.inj hvalue
    rwa [hitems]
  · cases step with
    | field name => exact nomatch hbelow
    | item key =>
      simp only [childAt] at hbelow
      split_ifs at hbelow
      obtain ⟨hmem, -⟩ := itemOf_eq_some hbelow
      obtain ⟨value, hvalue, rfl⟩ := List.mem_map.mp hmem
      exact h value hvalue

theorem distinctItems_object (h : ∀ field ∈ fields, DistinctItems (some field.2)) :
    DistinctItems (some (.object fields)) := by
  refine distinctItems_of_child (fun items hvalue ↦ nomatch hvalue) fun step below hbelow ↦ ?_
  cases step with
  | item id => exact nomatch hbelow
  | field name => exact h (name, below) (Json.mem_of_lookup hbelow)

theorem distinctItems_table {table : DesignTable} (h : (tableObjectIds table).Nodup) :
    DistinctItems (some (DesignTable.codec.dump table)) := by
  simp only [tableObjectIds, List.cons_append, List.nodup_cons, List.nodup_append] at h
  obtain ⟨-, ⟨⟨hcolumns, hkeys, -⟩, hchecks, -⟩, hindexes, -⟩ := h
  refine distinctItems_object ?_
  simp only [List.forall_mem_cons, List.not_mem_nil, false_implies, implies_true, and_true]
  exact ⟨distinctItems_of_noneBelow (noneBelow_string _),
    distinctItems_of_noneBelow (noneBelow_string _),
    distinctItems_list (fun _ ↦ rfl) hcolumns fun column _ ↦
      distinctItems_of_leafRecord (fits_column column),
    distinctItems_list (fun _ ↦ rfl) hkeys fun key _ ↦ distinctItems_of_leafRecord (fits_key key),
    distinctItems_list (fun _ ↦ rfl) hchecks fun check _ ↦
      distinctItems_of_leafRecord (fits_check check),
    distinctItems_list (fun _ ↦ rfl) hindexes fun index _ ↦
      distinctItems_of_leafRecord (fits_index index)⟩

theorem distinctItems_modelDump {content : SchemiiDesignContent} (h : AcceptedContent content) :
    DistinctItems (some content.modelDump) := by
  have hids := h.ids
  simp only [allIds, List.nodup_append] at hids
  obtain ⟨⟨⟨⟨⟨htypes, htables, -⟩, hrelationships, -⟩, hfunctions, -⟩, hviews, -⟩, htriggers, -⟩ :=
    hids
  rw [List.nodup_flatMap] at htables
  refine distinctItems_object ?_
  simp only [List.forall_mem_cons, List.not_mem_nil, false_implies, implies_true, and_true]
  exact ⟨distinctItems_list (fun _ ↦ rfl) htypes fun type _ ↦
      distinctItems_of_leafRecord (fits_type type),
    distinctItems_list (fun _ ↦ rfl) h.tableIds fun table htable ↦
      distinctItems_table (htables.1 table htable),
    distinctItems_list (fun _ ↦ rfl) hrelationships fun relationship _ ↦
      distinctItems_of_leafRecord (fits_relationship relationship),
    distinctItems_list (fun _ ↦ rfl) hfunctions fun routine _ ↦
      distinctItems_of_leafRecord (fits_routine routine),
    distinctItems_list (fun _ ↦ rfl) hviews fun view _ ↦
      distinctItems_of_leafRecord (fits_view view),
    distinctItems_list (fun _ ↦ rfl) htriggers fun trigger _ ↦
      distinctItems_of_leafRecord (fits_trigger trigger)⟩

end Schemii.Migrations
