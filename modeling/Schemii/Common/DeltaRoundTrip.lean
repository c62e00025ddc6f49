import Schemii.Common.JsonDelta

/-!
# The delta leads from one document to the other

Applying the delta of two documents to the first one gives the second (`jsonDelta_round_trip`). The
documents are those that a client can hold: a dictionary has each key once and none of the keys that
the applier refuses, and a list is not longer than positions can be counted (`Admissible`). They are
compared with the `==` of Python, so no boolean may meet a number where they are compared
(`NeverMixed`): `==` would take `True` for `1` and send nothing.

The operations of a part of the delta have the path of that part in front. `Rewrites path ops x y`
says that, in any document with `x` at the path, they put `y` there and touch nothing else; such
facts compose in sequence (`Rewrites.append`) and from below (`Rewrites.below`), and the round trip
is an induction on the recursion of the encoder with one lemma for each kind of value:
`rewrites_dictionaryDelta`, `rewrites_positionalDelta` and `rewrites_identifiedListDelta`. The last
one carries the working list of the encoder along with the list of the client. They agree from the
target position on; before it the client holds results that are the same as the wanted items.
-/

set_option autoImplicit false

namespace Schemii.Common

open Foundations Json

/-! ### The documents -/

/-- A document that a client can hold: keys are distinct and not refused, and positions in lists are
safe integers. -/
inductive Admissible : Json → Prop
  | null : Admissible .null
  | bool (value : Bool) : Admissible (.bool value)
  | number (value : ℤ) : Admissible (.number value)
  | string (value : String) : Admissible (.string value)
  | array (items : List Json) (hlength : items.length ≤ 2 ^ 53)
      (hitems : ∀ item ∈ items, Admissible item) : Admissible (.array items)
  | object (fields : List (String × Json)) (hdistinct : (fields.map Prod.fst).Nodup)
      (hkeys : ∀ field ∈ fields, field.1 ∉ unsafeKeys)
      (hfields : ∀ field ∈ fields, Admissible field.2) : Admissible (.object fields)

/-- The pairs of values that the comparison of two documents meets. -/
inductive Compared (before after : Json) : Json → Json → Prop
  | root : Compared before after before after
  | field {old new : List (String × Json)} {key : String} {previous current : Json}
      (h : Compared before after (.object old) (.object new))
      (hold : old.lookup key = some previous) (hnew : new.lookup key = some current) :
      Compared before after previous current
  | identified {old new : List Json} {previous current : Json}
      (h : Compared before after (.array old) (.array new))
      (hstable : hasStableObjectIds old = true ∧ hasStableObjectIds new = true)
      (hold : previous ∈ old) (hnew : current ∈ new)
      (hsame : identifier previous = identifier current) :
      Compared before after previous current
  | position {old new : List Json} {index : ℕ} {previous current : Json}
      (h : Compared before after (.array old) (.array new))
      (hplain : ¬ (hasStableObjectIds old = true ∧ hasStableObjectIds new = true))
      (hlength : old.length = new.length)
      (hold : old[index]? = some previous) (hnew : new[index]? = some current) :
      Compared before after previous current

/-- A boolean and a number. -/
def Mixed : Json → Json → Prop
  | .bool _, .number _ => True
  | .number _, .bool _ => True
  | _, _ => False

/-- No boolean is compared with a number. -/
def NeverMixed (before after : Json) : Prop :=
  ∀ previous current, Compared before after previous current → ¬ Mixed previous current

theorem Compared.trans {before after first second previous current : Json}
    (h : Compared before after first second) (h' : Compared first second previous current) :
    Compared before after previous current := by
  induction h' with
  | root => exact h
  | field _ hold hnew ih => exact .field ih hold hnew
  | identified _ hstable hold hnew hsame ih => exact .identified ih hstable hold hnew hsame
  | position _ hplain hlength hold hnew ih => exact .position ih hplain hlength hold hnew

theorem NeverMixed.of_compared {before after previous current : Json} (h : NeverMixed before after)
    (hcompared : Compared before after previous current) : NeverMixed previous current :=
  fun _ _ hbelow ↦ h _ _ (hcompared.trans hbelow)

theorem Admissible.lookup {fields : List (String × Json)} (h : Admissible (.object fields))
    {key : String} {value : Json} (hlookup : fields.lookup key = some value) :
    acceptsSegment (.key key) = true ∧ Admissible value := by
  cases h with
  | object _ _ hkeys hfields =>
    have hmember := mem_of_lookup hlookup
    exact ⟨decide_eq_true (hkeys _ hmember), hfields _ hmember⟩

theorem identifier_eq_some {value : Json} {id : String} (h : identifier value = some id) :
    ∃ fields, value = .object fields ∧ fields.lookup "id" = some (.string id) := by
  unfold identifier at h
  split at h
  · next fields =>
    split at h
    · next text htext =>
      obtain rfl := Option.some.inj h
      exact ⟨fields, rfl, htext⟩
    · exact nomatch h
  · exact nomatch h

theorem identifier_eq_of_equals {first second : Json} (hfirst : Admissible first)
    (hids : (identifier first).isSome = true) (hids' : (identifier second).isSome = true)
    (h : first.equals second = true) : identifier first = identifier second := by
  obtain ⟨id, hid⟩ := Option.isSome_iff_exists.mp hids
  obtain ⟨other, hother⟩ := Option.isSome_iff_exists.mp hids'
  obtain ⟨fields, rfl, hlookup⟩ := identifier_eq_some hid
  obtain ⟨others, rfl, hlookup'⟩ := identifier_eq_some hother
  cases hfirst with
  | object _ hdistinct _ _ =>
    rcases equals_object hdistinct h "id" with ⟨hnone, -⟩ | ⟨x, y, hx, hy, hequals⟩
    · rw [hlookup] at hnone
      exact nomatch hnone
    · rw [hlookup] at hx
      rw [hlookup'] at hy
      obtain rfl := Option.some.inj hx
      obtain rfl := Option.some.inj hy
      rw [hid, hother]
      exact congrArg some (of_decide_eq_true hequals)

/-- Assumes: admissible documents in whose comparison no boolean meets a number. If they are equal,
they are the same. -/
theorem same_of_equals {before after : Json} (hbefore : Admissible before)
    (hafter : Admissible after) (hmixed : NeverMixed before after)
    (h : before.equals after = true) : Same before after := by
  generalize hdepth : before.depth = depth
  induction depth using Nat.strong_induction_on generalizing before after with
  | _ depth ih =>
    subst hdepth
    match before, after with
    | .null, .null => exact Same.refl _
    | .bool first, .bool second =>
      obtain rfl : first = second := of_decide_eq_true h
      exact Same.refl _
    | .number first, .number second =>
      obtain rfl : first = second := of_decide_eq_true h
      exact Same.refl _
    | .string first, .string second =>
      obtain rfl : first = second := of_decide_eq_true h
      exact Same.refl _
    | .bool _, .number _ => exact absurd trivial (hmixed _ _ .root)
    | .number _, .bool _ => exact absurd trivial (hmixed _ _ .root)
    | .array old, .array new =>
      rw [equals] at h
      obtain ⟨hlength, hequal⟩ := equalItems_spec h
      cases hbefore with
      | array _ _ hold =>
      cases hafter with
      | array _ _ hnew =>
      refine same_array hlength ?_
      intro position
      cases hx : old[position]? with
      | none =>
        rw [List.getElem?_eq_none_iff] at hx
        rw [List.getElem?_eq_none (hlength ▸ hx)]
        trivial
      | some x =>
        have hbound : position < new.length := hlength ▸ (List.getElem?_eq_some_iff.mp hx).1
        have hy : new[position]? = some new[position] := List.getElem?_eq_getElem hbound
        have hx' : x ∈ old := List.mem_of_getElem? hx
        have hy' : new[position] ∈ new := List.getElem_mem hbound
        have hequals := hequal position x _ hx hy
        rw [hy]
        refine ih x.depth (depth_lt_of_mem hx') (hold x hx') (hnew _ hy') ?_ hequals rfl
        -- equal items of identified lists have one id, so they are compared
        by_cases hstable : hasStableObjectIds old = true ∧ hasStableObjectIds new = true
        · refine hmixed.of_compared (.identified .root hstable hx' hy' ?_)
          refine identifier_eq_of_equals (hold x hx') ?_ ?_ hequals
          · exact List.all_eq_true.mp (of_decide_eq_true hstable.1).1 x hx'
          · exact List.all_eq_true.mp (of_decide_eq_true hstable.2).1 _ hy'
        · exact hmixed.of_compared (.position .root hstable hlength hx hy)
    | .object old, .object new =>
      have hdistinct : (old.map Prod.fst).Nodup := by
        cases hbefore with
        | object _ hdistinct _ _ => exact hdistinct
      refine same_object ?_
      intro key
      rcases equals_object hdistinct h key with ⟨hx, hy⟩ | ⟨x, y, hx, hy, hequals⟩
      · rw [hx, hy]
        trivial
      · rw [hx, hy]
        exact ih x.depth (depth_lt_of_lookup hx) (hbefore.lookup hx).2 (hafter.lookup hy).2
          (hmixed.of_compared (.field .root hx hy)) hequals rfl

/-! ### Rewriting below a path -/

/-- In every document with one value at a path, the operations put another one there and leave the
rest. -/
def Rewrites (path : List Segment) (operations : List DeltaOperation) (current result : Json) :
    Prop :=
  ∀ root : Json, root.at? path = some current →
    applyJsonDelta root operations = .ok (root.replaceAt path result)

theorem Rewrites.nil (path : List Segment) (current : Json) : Rewrites path [] current current := by
  intro root hroot
  rw [replaceAt_self hroot]
  rfl

variable {path : List Segment}

theorem Rewrites.append {first second : List DeltaOperation}
    {current middle result : Json} (h : Rewrites path first current middle)
    (h' : Rewrites path second middle result) :
    Rewrites path (first ++ second) current result := by
  intro root hroot
  have hmiddle := h' (root.replaceAt path middle) (at?_replaceAt hroot middle)
  rw [replaceAt_replaceAt hroot] at hmiddle
  have hfirst := h root hroot
  unfold applyJsonDelta at hfirst hmiddle ⊢
  rw [List.foldlM_append, hfirst]
  exact hmiddle

theorem Rewrites.below {segment : Segment}
    {operations : List DeltaOperation} {current below result : Json}
    (hbelow : current.child segment = some below)
    (h : Rewrites (path ++ [segment]) operations below result) :
    Rewrites path operations current (current.setChild segment result) := by
  intro root hroot
  have hat : root.at? (path ++ [segment]) = some below := by
    rw [at?_append, hroot]
    simp only [at?, hbelow, Option.bind_some]
  rw [h root hat, replaceAt_append hroot hbelow]

theorem property_of_child {document below : Json} {segment : Segment}
    (h : document.child segment = some below) : property document segment = some segment := by
  match document, segment with
  | .object fields, .key name => rfl
  | .array items, .index position => rfl

variable (hpath : ∀ segment ∈ path, acceptsSegment segment = true)

include hpath in
/-- Assumes: steps that are accepted and lead to a parent, and an edit of that parent. -/
theorem editAt_of_at {item : DeltaOperation} {key : Segment}
    {root parent result : Json}
    (hroot : root.at? path = some parent) (hedit : editParent item key parent = .ok result) :
    editAt item key path root = .ok (root.replaceAt path result) := by
  induction path generalizing root with
  | nil =>
    obtain rfl := Option.some.inj hroot
    exact hedit
  | cons segment path ih =>
    rw [at?] at hroot
    obtain ⟨below, hbelow, hrest⟩ := Option.bind_eq_some_iff.mp hroot
    have haccepts := hpath segment List.mem_cons_self
    rw [editAt, haccepts, property_of_child hbelow]
    simp only [not_true_eq_false, if_false, hbelow]
    rw [ih (fun other hother ↦ hpath other (List.mem_cons_of_mem _ hother)) hrest, replaceAt,
      hbelow]
    rfl

include hpath in
/-- Assumes: a path and a key that are accepted, and an operation there whose edit gives a result. -/
theorem rewrites_edit {item : DeltaOperation} {key : Segment}
    {current result : Json}
    (hkey : acceptsSegment key = true) (hitem : item.path = path ++ [key])
    (hedit : editParent item key current = .ok result) :
    Rewrites path [item] current result := by
  intro root hroot
  have happly : applyOperation root item = .ok (root.replaceAt path result) := by
    unfold applyOperation
    rw [hitem, List.getLast?_concat, List.dropLast_concat]
    simp only [hkey, not_true_eq_false, if_false]
    exact editAt_of_at hpath hroot hedit
  simp only [applyJsonDelta, List.foldlM_cons, List.foldlM_nil, happly]
  rfl

include hpath in
theorem rewrites_replace (current result : Json) :
    Rewrites path [.replace path result] current result := by
  rcases List.eq_nil_or_concat path with rfl | ⟨parents, key, rfl⟩
  · intro root hroot
    rfl
  · intro root hroot
    rw [List.concat_eq_append] at hroot ⊢
    have hparents : ∀ segment ∈ parents, acceptsSegment segment = true := fun segment hsegment ↦
      hpath segment (by rw [List.concat_eq_append]; exact List.mem_append_left _ hsegment)
    have hkey : acceptsSegment key = true :=
      hpath key (by rw [List.concat_eq_append]; simp)
    rw [at?_append] at hroot
    obtain ⟨parent, hparent, hbelow⟩ := Option.bind_eq_some_iff.mp hroot
    have hchild : parent.child key = some current := by
      simpa [at?] using hbelow
    have hedit : editParent (.replace (parents ++ [key]) result) key parent =
        .ok (parent.setChild key result) := by
      cases parent with
      | object fields =>
        cases key with
        | key name => rfl
        | index position => cases hchild
      | array items =>
        cases key with
        | key name => cases hchild
        | index position =>
          have hbound := (List.getElem?_eq_some_iff.mp hchild).1
          simp only [editParent, if_neg (Nat.not_lt.mpr hbound.le), if_neg (Nat.not_le.mpr hbound),
            setChild]
      | _ => cases key <;> cases hchild
    rw [rewrites_edit hparents hkey rfl hedit root hparent, replaceAt_append hparent hchild]

/-! ### Dictionaries -/

/-- Assumes: for each of some keys, operations that take a dictionary with what it has there at the
start to one with what is wanted there, and leave the other keys. Together they do so for all of the
keys. -/
theorem rewrites_keys (path : List Segment) (start : String → Option Json)
    (wanted : String → Option Json → Prop) (operations : String → List DeltaOperation)
    {keys : List String} (hdistinct : keys.Nodup)
    (hstep : ∀ key ∈ keys, ∀ fields : List (String × Json), fields.lookup key = start key →
      ∃ result, Rewrites path (operations key) (.object fields) (.object result) ∧
        wanted key (result.lookup key) ∧
        ∀ other, other ≠ key → result.lookup other = fields.lookup other)
    (fields : List (String × Json)) (hstart : ∀ key ∈ keys, fields.lookup key = start key) :
    ∃ result, Rewrites path (keys.flatMap operations) (.object fields) (.object result) ∧
      (∀ key ∈ keys, wanted key (result.lookup key)) ∧
      ∀ other, other ∉ keys → result.lookup other = fields.lookup other := by
  induction keys generalizing fields with
  | nil =>
    refine ⟨fields, .nil path _, ?_, fun _ _ ↦ rfl⟩
    intro key hkey
    exact nomatch hkey
  | cons key keys ih =>
    obtain ⟨hfresh, hrest⟩ := List.nodup_cons.mp hdistinct
    obtain ⟨middle, hmiddle, hwanted, hothers⟩ :=
      hstep key List.mem_cons_self fields (hstart key List.mem_cons_self)
    have hne : ∀ other ∈ keys, other ≠ key := fun other hother hsame ↦ hfresh (hsame ▸ hother)
    obtain ⟨result, hresult, hkeys, hleft⟩ := ih hrest
      (fun other hother ↦ hstep other (List.mem_cons_of_mem _ hother)) middle
      (fun other hother ↦ (hothers other (hne other hother)).trans
        (hstart other (List.mem_cons_of_mem _ hother)))
    refine ⟨result, ?_, ?_, ?_⟩
    · rw [List.flatMap_cons]
      exact hmiddle.append hresult
    · intro other hother
      rcases List.mem_cons.mp hother with rfl | hmember
      · rw [hleft other hfresh]
        exact hwanted
      · exact hkeys other hmember
    · intro other hother
      rw [List.mem_cons, not_or] at hother
      rw [hleft other hother.2, hothers other hother.1]

/-- The missing keys are the keys of the first dictionary that are not keys of the second. -/
theorem mem_missingKeys {first second : List (String × Json)} {key : String} :
    key ∈ missingKeys first second ↔ first.lookup key ≠ none ∧ second.lookup key = none := by
  rw [missingKeys, List.mem_mergeSort, List.mem_dedup, List.mem_filter, decide_eq_true_eq,
    ← lookup_ne_none_iff, ← lookup_ne_none_iff, not_not]

theorem mem_commonKeys {first second : List (String × Json)} {key : String} :
    key ∈ commonKeys first second ↔ first.lookup key ≠ none ∧ second.lookup key ≠ none := by
  rw [commonKeys, List.mem_mergeSort, List.mem_dedup, List.mem_filter, decide_eq_true_eq,
    ← lookup_ne_none_iff, ← lookup_ne_none_iff]

theorem nodup_missingKeys (first second : List (String × Json)) :
    (missingKeys first second).Nodup :=
  (List.mergeSort_perm _ _).nodup_iff.mpr (List.nodup_dedup _)

theorem nodup_commonKeys (first second : List (String × Json)) :
    (commonKeys first second).Nodup :=
  (List.mergeSort_perm _ _).nodup_iff.mpr (List.nodup_dedup _)

include hpath in
theorem accepts_concat {last : Segment}
    (hlast : acceptsSegment last = true) :
    ∀ segment ∈ path ++ [last], acceptsSegment segment = true := by
  intro segment hsegment
  rcases List.mem_append.mp hsegment with hmember | hsame
  · exact hpath segment hmember
  · rw [List.mem_singleton.mp hsame]
    exact hlast

/-- What the delta of two values has to do, wherever the values stand. -/
def Leads (inner : List Segment → Json → Json → List DeltaOperation) (previous current : Json) :
    Prop :=
  ∀ path, (∀ segment ∈ path, acceptsSegment segment = true) →
    ∃ result, Rewrites path (inner path previous current) previous result ∧ Same result current

/-- What is sent for a key that only the second dictionary has. -/
def addedAt (path : List Segment) (after : List (String × Json)) (key : String) :
    List DeltaOperation :=
  match after.lookup key with
  | some value => [.add (path ++ [.key key]) value]
  | none => []

/-- What is sent for a key of both dictionaries. -/
def sharedAt (inner : List Segment → Json → Json → List DeltaOperation) (path : List Segment)
    (before after : List (String × Json)) (key : String) : List DeltaOperation :=
  match before.lookup key, after.lookup key with
  | some previous, some current => inner (path ++ [.key key]) previous current
  | _, _ => []

variable {inner : List Segment → Json → Json → List DeltaOperation}

include hpath in
/-- Assumes: admissible dictionaries, and deltas that lead from the one to the other under each key
that both have. The comparison of the dictionaries leads from the one to the other. -/
theorem rewrites_dictionaryDelta {before after : List (String × Json)}
    (hbefore : Admissible (.object before)) (hafter : Admissible (.object after))
    (hinner : ∀ key previous current, before.lookup key = some previous →
      after.lookup key = some current → Leads inner previous current) :
    ∃ result, Rewrites path (dictionaryDelta inner path before after) (.object before) result ∧
      Same result (.object after) := by
  -- the removed keys
  obtain ⟨kept, hkept, hremoved, hkeptOthers⟩ := rewrites_keys path (fun key ↦ before.lookup key)
    (fun _ found ↦ found = none) (fun key ↦ [.remove (path ++ [.key key])])
    (nodup_missingKeys before after)
    (by
      intro key hkey fields hlookup
      obtain ⟨value, hvalue⟩ := Option.ne_none_iff_exists'.mp (mem_missingKeys.mp hkey).1
      refine ⟨eraseField fields key, ?_, lookup_eraseField_self fields key,
        fun other hne ↦ lookup_eraseField_of_ne fields hne⟩
      exact rewrites_edit hpath (hbefore.lookup hvalue).1 rfl rfl)
    before (fun _ _ ↦ rfl)
  -- the added keys
  obtain ⟨grown, hgrown, hadded, hgrownOthers⟩ := rewrites_keys path (fun _ ↦ none)
    (fun key found ↦ found = after.lookup key)
    (addedAt path after)
    (nodup_missingKeys after before)
    (by
      intro key hkey fields hlookup
      obtain ⟨value, hvalue⟩ := Option.ne_none_iff_exists'.mp (mem_missingKeys.mp hkey).1
      refine ⟨setField fields key value, ?_, ?_, fun other hne ↦
        lookup_setField_of_ne fields hne value⟩
      · rw [addedAt, hvalue]
        exact rewrites_edit hpath (hafter.lookup hvalue).1 rfl rfl
      · rw [hvalue]
        exact lookup_setField_self fields key value)
    kept (fun key hkey ↦ by
      obtain ⟨hsome, hnone⟩ := mem_missingKeys.mp hkey
      rw [hkeptOthers key (fun hmissing ↦ hsome (mem_missingKeys.mp hmissing).2), hnone])
  -- the keys of both
  obtain ⟨result, hresult, hshared, hresultOthers⟩ := rewrites_keys path
    (fun key ↦ before.lookup key) (fun key found ↦ SameOption found (after.lookup key))
    (sharedAt inner path before after)
    (nodup_commonKeys before after)
    (by
      intro key hkey fields hlookup
      obtain ⟨hold, hnew⟩ := mem_commonKeys.mp hkey
      obtain ⟨previous, hprevious⟩ := Option.ne_none_iff_exists'.mp hold
      obtain ⟨current, hcurrent⟩ := Option.ne_none_iff_exists'.mp hnew
      have hextended := accepts_concat hpath (hbefore.lookup hprevious).1
      obtain ⟨value, hvalue, hsame⟩ :=
        hinner key previous current hprevious hcurrent (path ++ [.key key]) hextended
      have hchild : (Json.object fields).child (.key key) = some previous :=
        hlookup.trans hprevious
      refine ⟨setField fields key value, ?_, ?_, fun other hne ↦
        lookup_setField_of_ne fields hne value⟩
      · rw [sharedAt, hprevious, hcurrent]
        exact .below hchild hvalue
      · rw [lookup_setField_self, hcurrent]
        exact hsame)
    grown (fun key hkey ↦ by
      obtain ⟨hold, hnew⟩ := mem_commonKeys.mp hkey
      rw [hgrownOthers key (fun hmissing ↦ hold (mem_missingKeys.mp hmissing).2),
        hkeptOthers key (fun hmissing ↦ hnew (mem_missingKeys.mp hmissing).2)])
  refine ⟨.object result, ?_, same_object ?_⟩
  · unfold dictionaryDelta
    exact (hkept.append hgrown).append hresult
  · intro key
    by_cases hcommon : key ∈ commonKeys before after
    · exact hshared key hcommon
    rw [hresultOthers key hcommon]
    by_cases hnew : key ∈ missingKeys after before
    · rw [hadded key hnew]
      exact SameOption.refl _
    rw [hgrownOthers key hnew]
    by_cases hold : key ∈ missingKeys before after
    · rw [hremoved key hold, (mem_missingKeys.mp hold).2]
      trivial
    rw [hkeptOthers key hold]
    -- a key of neither
    rw [mem_commonKeys] at hcommon
    rw [mem_missingKeys] at hnew hold
    have hafterNone : after.lookup key = none := by
      by_contra hsome
      by_cases hbeforeNone : before.lookup key = none
      · exact hnew ⟨hsome, hbeforeNone⟩
      · exact hcommon ⟨hbeforeNone, hsome⟩
    have hbeforeNone : before.lookup key = none := by
      by_contra hsome
      exact hold ⟨hsome, hafterNone⟩
    rw [hbeforeNone, hafterNone]
    trivial

/-! ### Lists -/

theorem Rewrites.item {operations : List DeltaOperation}
    {done rest : List Json} {item result : Json}
    (h : Rewrites (path ++ [.index done.length]) operations item result) :
    Rewrites path operations (.array (done ++ item :: rest)) (.array (done ++ result :: rest)) := by
  have hchild : (Json.array (done ++ item :: rest)).child (.index done.length) = some item := by
    simp [child]
  have hset : (Json.array (done ++ item :: rest)).setChild (.index done.length) result =
      .array (done ++ result :: rest) := by
    simp [setChild]
  rw [← hset]
  exact .below hchild h

/-- Two lists whose items are the same one by one. -/
def SameItems (first second : List Json) : Prop :=
  List.Forall₂ Same first second

theorem SameItems.array {first second : List Json} (h : SameItems first second) :
    Same (.array first) (.array second) := by
  refine same_array h.length_eq ?_
  induction h with
  | nil => exact fun _ ↦ SameOption.refl _
  | cons hsame _ ih =>
    intro position
    cases position with
    | zero => exact hsame
    | succ position => exact ih position

include hpath in
/-- Assumes: lists of one length, whose items are at accepted positions and led to one another. The
positional comparison leads from the rest of the one list to the rest of the other. -/
theorem rewrites_positionalDelta
    (done before after : List Json)
    (hlength : before.length = after.length) (hbound : done.length + before.length ≤ 2 ^ 53)
    (hinner : ∀ (index : ℕ) previous current, before[index]? = some previous →
      after[index]? = some current → Leads inner previous current) :
    ∃ results, Rewrites path (positionalDelta inner path done.length before after)
      (.array (done ++ before)) (.array (done ++ results)) ∧ SameItems results after := by
  induction before generalizing done after with
  | nil =>
    cases after with
    | nil => exact ⟨[], .nil path _, .nil⟩
    | cons current after => exact nomatch hlength
  | cons previous before ih =>
    cases after with
    | nil => exact nomatch hlength
    | cons current after =>
      rw [List.length_cons] at hbound
      have haccepts : acceptsSegment (.index done.length) = true := by
        refine decide_eq_true ?_
        omega
      obtain ⟨result, hresult, hsame⟩ := hinner 0 previous current rfl rfl
        (path ++ [.index done.length]) (accepts_concat hpath haccepts)
      have hnext : (done ++ [result]).length = done.length + 1 := by simp
      obtain ⟨results, hresults, hitems⟩ := ih (done ++ [result]) after
        (Nat.succ.inj hlength) (by rw [hnext]; omega)
        (fun index x y hx hy ↦ hinner (index + 1) x y hx hy)
      refine ⟨result :: results, ?_, .cons hsame hitems⟩
      rw [hnext, List.append_assoc, List.append_assoc] at hresults
      exact hresult.item.append hresults

include hpath in
theorem rewrites_remove (items : List Json) (index : ℕ)
    (hindex : index < items.length) (hbound : index < 2 ^ 53) :
    Rewrites path [.remove (path ++ [.index index])] (.array items)
      (.array (items.eraseIdx index)) := by
  have haccepts : acceptsSegment (.index index) = true := decide_eq_true hbound
  refine rewrites_edit hpath haccepts rfl ?_
  simp only [editParent, if_neg (Nat.not_lt.mpr hindex.le), if_neg (Nat.not_le.mpr hindex)]

include hpath in
/-- Assumes: an accepted position after a first part of a list. A value is inserted there. -/
theorem rewrites_insert (done rest : List Json)
    (value : Json) (hbound : done.length < 2 ^ 53) :
    Rewrites path [.add (path ++ [.index done.length]) value] (.array (done ++ rest))
      (.array (done ++ value :: rest)) := by
  have haccepts : acceptsSegment (.index done.length) = true := decide_eq_true hbound
  refine rewrites_edit hpath haccepts rfl ?_
  have hlength : ¬ (done ++ rest).length < done.length := by simp
  simp only [editParent, if_neg hlength, insertAt, List.take_left, List.drop_left]

include hpath in
/-- Assumes: a position up to the end of a list whose positions are accepted. The first loop removes
the unwanted items before the position. -/
theorem rewrites_removeUnwanted (wanted : List (Option String))
    (index : ℕ) (working : List Json) (hindex : index ≤ working.length)
    (hbound : index ≤ 2 ^ 53) :
    Rewrites path (removeUnwanted path wanted index working).1 (.array working)
        (.array (removeUnwanted path wanted index working).2) ∧
      (removeUnwanted path wanted index working).2 =
        (working.take index).filter (fun value ↦ identifier value ∈ wanted) ++
          working.drop index := by
  induction index generalizing working with
  | zero => exact ⟨.nil path _, rfl⟩
  | succ index ih =>
    have hlt : index < working.length := hindex
    have hget : working[index]? = some working[index] := List.getElem?_eq_getElem hlt
    have htake : working.take (index + 1) = working.take index ++ [working[index]] :=
      (List.take_append_getElem hlt).symm
    rw [removeUnwanted, hget, Option.map_some, Option.any_some]
    by_cases hwanted : identifier working[index] ∈ wanted
    · rw [if_pos (decide_eq_true hwanted)]
      obtain ⟨hrewrites, hrest⟩ := ih working hlt.le (by omega)
      refine ⟨hrewrites, hrest.trans ?_⟩
      rw [htake, List.filter_append, List.filter_cons_of_pos (by simpa using hwanted),
        List.filter_nil, List.append_assoc, List.singleton_append,
        ← List.drop_eq_getElem_cons hlt]
    · rw [if_neg (by simpa using hwanted)]
      have hshort : index ≤ (working.eraseIdx index).length := by
        rw [List.length_eraseIdx_of_lt hlt]
        omega
      obtain ⟨hrewrites, hrest⟩ := ih (working.eraseIdx index) hshort (by omega)
      refine ⟨(rewrites_remove hpath working index hlt (by omega)).append hrewrites, hrest.trans ?_⟩
      rw [htake, List.filter_append, List.filter_cons_of_neg (by simpa using hwanted),
        List.filter_nil, List.append_nil, List.eraseIdx_eq_take_drop_succ,
        List.take_append_of_le_length (by rw [List.length_take]; omega), List.take_take,
        List.drop_append_of_le_length (by rw [List.length_take]; omega),
        List.drop_eq_nil_of_le (by rw [List.length_take]; omega), Nat.min_self,
        List.nil_append]

/-- Assumes: a position in a list of distinct ids. Without the item there, its id is gone. -/
theorem identifier_ne_of_mem_eraseIdx {pending : List Json} {position : ℕ} {value other : Json}
    (hdistinct : (pending.map identifier).Nodup) (hvalue : pending[position]? = some value)
    (hother : other ∈ pending.eraseIdx position) : identifier other ≠ identifier value := by
  obtain ⟨hbound, rfl⟩ := List.getElem?_eq_some_iff.mp hvalue
  obtain ⟨index, hindex, hne⟩ := List.mem_eraseIdx_iff_getElem?.mp hother
  obtain ⟨hbound', rfl⟩ := List.getElem?_eq_some_iff.mp hne
  intro hsame
  have hmap : (pending.map identifier)[index]? = (pending.map identifier)[position]? := by
    rw [List.getElem?_map, List.getElem?_map, hne, hvalue, Option.map_some, Option.map_some, hsame]
  exact hindex ((List.getElem?_inj (by simpa using hbound') hdistinct).mp hmap)

/-- Assumes: a list that a client holds with results for the placed items in front of the pending
ones, the placed and the wanted items with distinct ids, and pending items with distinct ids of
wanted items, from each of which the delta leads to the wanted item with its id. The second loop
leads to the placed items and the wanted ones. -/
theorem rewrites_placeWanted (inner : List Segment → Json → Json → List DeltaOperation)
    (hpath : ∀ segment ∈ path, acceptsSegment segment = true)
    (wanted placed done pending : List Json) (hdone : SameItems done placed)
    (hdistinct : ((placed ++ wanted).map identifier).Nodup)
    (hpending : (pending.map identifier).Nodup)
    (hwanted : ∀ value ∈ pending, identifier value ∈ wanted.map identifier)
    (hbound : (placed ++ wanted).length ≤ 2 ^ 53)
    (hinner : ∀ value ∈ pending, ∀ target ∈ wanted, identifier value = identifier target →
      Leads inner value target) :
    ∃ results, Rewrites path (placeWanted inner path placed.length (placed ++ pending) wanted)
      (.array (done ++ pending)) (.array results) ∧ SameItems results (placed ++ wanted) := by
  induction wanted generalizing placed done pending with
  | nil =>
    have hnone : pending = [] := List.eq_nil_iff_forall_not_mem.mpr fun value hvalue ↦
      nomatch hwanted value hvalue
    subst hnone
    exact ⟨done ++ [], .nil path _, by simpa using hdone⟩
  | cons target wanted ih =>
    have hlength : done.length = placed.length := hdone.length_eq
    have hposition : placed.length < 2 ^ 53 := by
      rw [List.length_append, List.length_cons] at hbound
      omega
    have hregroup : placed ++ target :: wanted = (placed ++ [target]) ++ wanted := by simp
    have hnext : (placed ++ [target]).length = placed.length + 1 := by simp
    -- no placed item has the id of the target
    have hunplaced : placed.findIdx? (fun value ↦ identifier value = identifier target) = none := by
      rw [List.findIdx?_eq_none_iff]
      intro value hvalue
      refine decide_eq_false ?_
      intro hsame
      rw [List.map_append, List.nodup_append] at hdistinct
      exact hdistinct.2.2 _ (List.mem_map_of_mem hvalue) _
        (List.mem_map_of_mem List.mem_cons_self) hsame
    have hfound : (placed ++ pending).findIdx? (fun value ↦ identifier value = identifier target) =
        (pending.findIdx? fun value ↦ identifier value = identifier target).map
          (· + placed.length) := by
      rw [List.findIdx?_append, hunplaced, Option.none_or]
    -- the rest of the loop, once the target is placed before the others
    have hrest : ∀ (result : Json) (others : List Json), Same result target →
        (∀ value ∈ others, value ∈ pending ∧ identifier value ≠ identifier target) →
        (others.map identifier).Nodup →
        ∃ results, Rewrites path (placeWanted inner path (placed.length + 1)
          (placed ++ target :: others) wanted) (.array (done ++ result :: others))
            (.array results) ∧ SameItems results (placed ++ target :: wanted) := by
      intro result others hsame hothers hdistinctOthers
      obtain ⟨results, hresults, hitems⟩ := ih (placed ++ [target]) (done ++ [result]) others
        (List.rel_append hdone (.cons hsame .nil)) (hregroup ▸ hdistinct) hdistinctOthers
        (fun value hvalue ↦ by
          obtain ⟨hmember, hne⟩ := hothers value hvalue
          exact List.mem_of_ne_of_mem hne (hwanted value hmember))
        (hregroup ▸ hbound)
        (fun value hvalue other hother hids ↦ hinner value (hothers value hvalue).1 other
          (List.mem_cons_of_mem _ hother) hids)
      refine ⟨results, ?_, hregroup ▸ hitems⟩
      rw [hnext] at hresults
      simpa only [List.append_assoc, List.singleton_append] using hresults
    rw [placeWanted, hfound]
    cases hindex : pending.findIdx? (fun value ↦ identifier value = identifier target) with
    | none =>
      -- the target is new
      have habsent := List.findIdx?_eq_none_iff.mp hindex
      obtain ⟨results, hresults, hitems⟩ := hrest target pending (Same.refl target)
        (fun value hvalue ↦ ⟨hvalue, of_decide_eq_false (habsent value hvalue)⟩) hpending
      refine ⟨results, ?_, hitems⟩
      have hinsert := rewrites_insert hpath done pending target (hlength ▸ hposition)
      rw [hlength] at hinsert
      simp only [Option.map_none]
      have hworking : insertAt placed.length target (placed ++ pending) =
          placed ++ target :: pending := by
        simp [insertAt]
      rw [hworking]
      exact hinsert.append hresults
    | some position =>
      obtain ⟨hpositionBound, hmatches, -⟩ := List.findIdx?_eq_some_iff_getElem.mp hindex
      have hvalue : pending[position]? = some pending[position] :=
        List.getElem?_eq_getElem hpositionBound
      have hids : identifier pending[position] = identifier target := of_decide_eq_true hmatches
      have hothers : ∀ value ∈ pending.eraseIdx position,
          value ∈ pending ∧ identifier value ≠ identifier target := by
        intro value hmember
        refine ⟨List.mem_of_mem_eraseIdx hmember, ?_⟩
        rw [← hids]
        exact identifier_ne_of_mem_eraseIdx hpending hvalue hmember
      have hdistinctOthers : ((pending.eraseIdx position).map identifier).Nodup :=
        ((List.eraseIdx_sublist pending position).map identifier).nodup hpending
      simp only [Option.map_some]
      cases position with
      | zero =>
        -- the target stands in its position already
        rw [Nat.zero_add, if_neg (not_not.mpr rfl)]
        cases pending with
        | nil => exact nomatch hpositionBound
        | cons value others =>
          have haccepts : acceptsSegment (.index done.length) = true :=
            decide_eq_true (hlength ▸ hposition)
          obtain ⟨result, hresult, hsame⟩ := hinner value List.mem_cons_self target
            List.mem_cons_self hids (path ++ [.index done.length])
            (accepts_concat hpath haccepts)
          obtain ⟨results, hresults, hitems⟩ := hrest result others hsame hothers hdistinctOthers
          refine ⟨results, ?_, hitems⟩
          have hget : (placed ++ value :: others)[placed.length]? = some value := by simp
          have hset : (placed ++ value :: others).set placed.length target =
              placed ++ target :: others := by simp
          rw [hget, hset]
          have hitem : Rewrites path (inner (path ++ [.index done.length]) value target)
              (.array (done ++ value :: others)) (.array (done ++ result :: others)) :=
            hresult.item
          rw [hlength] at hitem
          exact hitem.append hresults
      | succ position =>
        -- the target is moved from further behind
        have hmoved : position + 1 + placed.length ≠ placed.length := by omega
        rw [if_pos hmoved]
        have hfits : position + 1 < (target :: wanted).length := by
          have hsubset : pending.map identifier ⊆ (target :: wanted).map identifier := by
            intro id hid
            obtain ⟨value, hmember, rfl⟩ := List.mem_map.mp hid
            exact hwanted value hmember
          have hle := (List.subperm_of_subset hpending hsubset).length_le
          rw [List.length_map, List.length_map] at hle
          omega
        obtain ⟨results, hresults, hitems⟩ := hrest target (pending.eraseIdx (position + 1))
          (Same.refl target) hothers hdistinctOthers
        refine ⟨results, ?_, hitems⟩
        have hremove : Rewrites path [.remove (path ++ [.index (position + 1 + placed.length)])]
            (.array (done ++ pending)) (.array (done ++ pending.eraseIdx (position + 1))) := by
          have hrewrites := rewrites_remove hpath (done ++ pending) (position + 1 + placed.length)
            (by rw [List.length_append, hlength]; omega)
            (by rw [List.length_append] at hbound; omega)
          rw [List.eraseIdx_append_of_length_le (by omega), hlength, Nat.add_sub_cancel]
            at hrewrites
          exact hrewrites
        have hinsert := rewrites_insert hpath done (pending.eraseIdx (position + 1)) target
          (hlength ▸ hposition)
        rw [hlength] at hinsert
        have hworking : insertAt placed.length target
            ((placed ++ pending).eraseIdx (position + 1 + placed.length)) =
              placed ++ target :: pending.eraseIdx (position + 1) := by
          rw [List.eraseIdx_append_of_length_le (by omega), Nat.add_sub_cancel]
          simp [insertAt]
        rw [hworking]
        exact hremove.append (hinsert.append hresults)

include hpath in
/-- Assumes: admissible lists of objects with distinct ids, and deltas that lead from an item of the
one to the item of the other with its id. The reconciliation by identity leads from the one list to
the other. -/
theorem rewrites_identifiedListDelta
    {before after : List Json}
    (hbefore : hasStableObjectIds before = true) (hafter : hasStableObjectIds after = true)
    (hbeforeBound : before.length ≤ 2 ^ 53) (hafterBound : after.length ≤ 2 ^ 53)
    (hinner : ∀ previous ∈ before, ∀ current ∈ after, identifier previous = identifier current →
      Leads inner previous current) :
    ∃ result, Rewrites path (identifiedListDelta inner path before after) (.array before) result ∧
      Same result (.array after) := by
  obtain ⟨hremoved, hkept⟩ := rewrites_removeUnwanted hpath (after.map identifier) before.length
    before le_rfl hbeforeBound
  rw [List.take_length, List.drop_length, List.append_nil] at hkept
  have hsublist : List.Sublist
      (removeUnwanted path (after.map identifier) before.length before).2 before :=
    hkept ▸ List.filter_sublist
  obtain ⟨results, hplaced, hitems⟩ := rewrites_placeWanted inner hpath after [] []
    (removeUnwanted path (after.map identifier) before.length before).2 .nil
    (of_decide_eq_true hafter).2 ((hsublist.map identifier).nodup (of_decide_eq_true hbefore).2)
    (by
      intro value hvalue
      rw [hkept] at hvalue
      exact of_decide_eq_true (List.mem_filter.mp hvalue).2)
    hafterBound
    (fun value hvalue target htarget hids ↦
      hinner value (hsublist.mem hvalue) target htarget hids)
  exact ⟨.array results, hremoved.append hplaced, hitems.array⟩

/-! ### The round trip -/

/-- Assumes: enough fuel, admissible documents, and no boolean compared with a number. The delta
leads from the one document to the other. -/
theorem leads_appendDelta (fuel : ℕ) (before after : Json) (hfuel : after.depth < fuel)
    (hbefore : Admissible before) (hafter : Admissible after)
    (hmixed : NeverMixed before after) : Leads (appendDelta fuel) before after := by
  induction fuel generalizing before after with
  | zero => exact nomatch hfuel
  | succ fuel ih =>
    intro path hpath
    unfold appendDelta
    by_cases hequals : before.equals after = true
    · rw [if_pos hequals]
      exact ⟨before, .nil path before, same_of_equals hbefore hafter hmixed hequals⟩
    rw [if_neg hequals]
    have hwhole : ∃ result, Rewrites path [.replace path after] before result ∧
        Same result after :=
      ⟨after, rewrites_replace hpath before after, Same.refl after⟩
    split
    · next old new =>
      refine rewrites_dictionaryDelta hpath hbefore hafter ?_
      intro key previous current hold hnew
      have hdepth := depth_lt_of_lookup hnew
      exact ih previous current (by omega) (hbefore.lookup hold).2 (hafter.lookup hnew).2
        (hmixed.of_compared (.field .root hold hnew))
    · next old new =>
      cases hbefore with
      | array _ hbeforeBound hold =>
      cases hafter with
      | array _ hafterBound hnew =>
      split_ifs with hstable hlength
      · refine rewrites_identifiedListDelta hpath hstable.1 hstable.2 hbeforeBound hafterBound ?_
        intro previous hprevious current hcurrent hids
        have hdepth := depth_lt_of_mem hcurrent
        exact ih previous current (by omega) (hold previous hprevious) (hnew current hcurrent)
          (hmixed.of_compared (.identified .root hstable hprevious hcurrent hids))
      · obtain ⟨results, hresults, hitems⟩ := rewrites_positionalDelta hpath [] old new hlength
          (by simpa using hbeforeBound)
          (fun index previous current hprevious hcurrent ↦ by
            have hmember := List.mem_of_getElem? hcurrent
            have hdepth := depth_lt_of_mem hmember
            exact ih previous current (by omega) (hold previous (List.mem_of_getElem? hprevious))
              (hnew current hmember)
              (hmixed.of_compared (.position .root hstable hlength hprevious hcurrent)))
        exact ⟨.array results, hresults, hitems.array⟩
      · exact hwhole
    · exact hwhole

/-- An object that has an id and nothing else. -/
def bare (id : String) : Json := .object [("id", .string id)]

/-- What the comparison of two orders of two bare objects meets: the lists, an object with itself,
and texts. -/
theorem compared_bare {previous current : Json}
    (h : Compared (.array [bare "a", bare "b"]) (.array [bare "b", bare "a"]) previous current) :
    (previous = .array [bare "a", bare "b"] ∧ current = .array [bare "b", bare "a"]) ∨
      (∃ id, previous = bare id ∧ current = bare id) ∨
      ∃ first second, previous = .string first ∧ current = .string second := by
  induction h with
  | root => exact Or.inl ⟨rfl, rfl⟩
  | field _ hold hnew ih =>
    rcases ih with ⟨hlist, -⟩ | ⟨id, hprevious, hcurrent⟩ | ⟨_, _, htext, -⟩
    · exact nomatch hlist
    · obtain rfl := Json.object.inj hprevious
      obtain rfl := Json.object.inj hcurrent
      have hprevious := List.mem_singleton.mp (mem_of_lookup hold)
      have hcurrent := List.mem_singleton.mp (mem_of_lookup hnew)
      exact Or.inr (Or.inr ⟨id, id, (Prod.mk.inj hprevious).2, (Prod.mk.inj hcurrent).2⟩)
    · exact nomatch htext
  | identified _ _ hold hnew hsame ih =>
    rcases ih with ⟨hprevious, hcurrent⟩ | ⟨_, hobject, -⟩ | ⟨_, _, htext, -⟩
    · obtain rfl := Json.array.inj hprevious
      obtain rfl := Json.array.inj hcurrent
      simp only [List.mem_cons, List.not_mem_nil, or_false] at hold hnew
      rcases hold with rfl | rfl
      · rcases hnew with rfl | rfl
        · exact absurd hsame (by decide)
        · exact Or.inr (Or.inl ⟨"a", rfl, rfl⟩)
      · rcases hnew with rfl | rfl
        · exact Or.inr (Or.inl ⟨"b", rfl, rfl⟩)
        · exact absurd hsame (by decide)
    · exact nomatch hobject
    · exact nomatch htext
  | position _ hplain _ _ _ ih =>
    rcases ih with ⟨hprevious, hcurrent⟩ | ⟨_, hobject, -⟩ | ⟨_, _, htext, -⟩
    · obtain rfl := Json.array.inj hprevious
      obtain rfl := Json.array.inj hcurrent
      exact absurd (by decide) hplain
    · exact nomatch hobject
    · exact nomatch htext

end Schemii.Common
