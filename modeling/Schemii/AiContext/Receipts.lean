import Schemii.Foundations.JsonText

/-!
# Receipts of tool values

`bounded_tool_receipt` of `common/ai/context.py`: the facts that are kept of a JSON value, at most 48,
and whether something was left out.

What the traversal meets is a list of readings that does not depend on the facts so far (`readings`),
and the traversal takes them one by one (`visit_eq_foldl`). `faithful_iff`: a receipt that admits no
omission has every scalar of the value exactly when no scalar is the whole value or an item of a list
that is read item by item, or something else is left out. `bare_scalar_is_dropped` is a list whose
receipt hides its item.
-/

set_option autoImplicit false

namespace Schemii.AiContext

open Foundations

/-! ### The projection -/

/-- `_BULK_KEYS`. -/
def bulkKeys : List String :=
  ["rows", "data", "model", "definition", "schema", "desiredSchema", "layout",
    "tables", "columns", "arguments", "content", "thinking", "thinkingSignature"]

/-- `_FACT_KEYS`. -/
def factKeys : List String :=
  ["action", "operation", "kind", "name", "label", "status", "error", "code", "message", "revision",
    "errorCode", "errorMessage", "statusCode", "resourceKind", "resourceId", "outcome", "meaning",
    "valid", "layoutRevision", "exploreRevision", "expectedRevision", "operationSucceeded",
    "approvalRequired", "requiredPermission", "requiredActions", "rerun", "rerunOf",
    "rowCount", "totalRows", "offset", "hasMore", "nextCursor", "id", "modelId", "operationId",
    "proposalId", "previewId", "runId", "runIds", "executionId", "queryId", "workspaceId", "resultId"]

/-- The keys of the outcome, which are read first. -/
def outcomeKeys : List String :=
  ["error", "status", "code", "message", "errorCode", "errorMessage", "operation", "nextCursor"]

/-- A scalar and where it stands. -/
structure Fact where
  path : String
  value : JsonValue
  deriving Repr

/-- What `bounded_tool_receipt` returns. -/
structure ToolReceipt where
  facts : List Fact
  detailsOmitted : Bool
  deriving Repr

/-- `str.lstrip` of dots. -/
def lstripDots (text : String) : String :=
  String.ofList (text.toList.dropWhile fun c ↦ c = '.')

/-- The path of the value of a key. -/
def childPath (path key : String) : String :=
  lstripDots (path ++ "." ++ key)

/-- The place of an item of a list. -/
def position (index : ℕ) : String :=
  "[" ++ toString index ++ "]"

/-- The first characters of a text. -/
def firstChars (limit : ℕ) (text : String) : String :=
  String.ofList (text.toList.take limit)

/-- How much of the text of a key is kept. -/
def keyLimit (key : String) : ℕ :=
  if key = "nextCursor" then 512 else 240

/-- `sorted(item, …)`: the outcome before everything else. -/
def outcomeFirst (members : List (String × JsonValue)) : List (String × JsonValue) :=
  (members.filter fun member ↦ member.1 ∈ outcomeKeys) ++
    members.filter fun member ↦ !decide (member.1 ∈ outcomeKeys)

namespace ToolReceipt

/-- No more facts are taken. -/
def full (receipt : ToolReceipt) : Bool :=
  48 ≤ receipt.facts.length

/-- Something is left out. -/
def withOmission (receipt : ToolReceipt) : ToolReceipt :=
  { receipt with detailsOmitted := true }

/-- A fact is added, a text cut to a limit. -/
def add (receipt : ToolReceipt) (path : String) (value : JsonValue) (limit : ℕ) : ToolReceipt :=
  match value with
  | .string text =>
    { facts := receipt.facts ++ [⟨path, .string (firstChars limit text)⟩]
      detailsOmitted := receipt.detailsOmitted || firstChars limit text != text }
  | value => { receipt with facts := receipt.facts ++ [⟨path, value⟩] }

end ToolReceipt

/-- The loop over the items of a list. -/
def visitItems (visit : String → JsonValue → ToolReceipt → ToolReceipt) (path : String) :
    ℕ → List JsonValue → ToolReceipt → ToolReceipt
  | _, [], receipt => receipt
  | index, child :: rest, receipt =>
    if 16 ≤ index then receipt.withOmission
    else visitItems visit path (index + 1) rest (visit (path ++ position index) child receipt)

/-- The loop over the scalars of the list of a key. -/
def addItems (path key : String) : ℕ → List JsonValue → ToolReceipt → ToolReceipt
  | _, [], receipt => receipt
  | index, value :: rest, receipt =>
    if receipt.full then receipt.withOmission
    else addItems path key (index + 1) rest
      (receipt.add (lstripDots (path ++ "." ++ key ++ position index)) value 240)

/-- The loop over the keys of a dictionary. -/
def visitMembers (visit : String → JsonValue → ToolReceipt → ToolReceipt) (path : String) :
    List (String × JsonValue) → ToolReceipt → ToolReceipt
  | [], receipt => receipt
  | (key, child) :: rest, receipt =>
    if key ∈ bulkKeys then visitMembers visit path rest receipt.withOmission
    else if key ∈ factKeys ∧ child.isScalar then
      if receipt.full then receipt.withOmission
      else visitMembers visit path rest (receipt.add (childPath path key) child (keyLimit key))
    else
      match child with
      | .array items =>
        if key ∈ factKeys ∧ items.all JsonValue.isScalar then
          let added := addItems path key 0 (items.take 16) receipt
          visitMembers visit path rest (if 16 < items.length then added.withOmission else added)
        else visitMembers visit path rest (visit (childPath path key) child receipt)
      | .object _ => visitMembers visit path rest (visit (childPath path key) child receipt)
      | _ => visitMembers visit path rest receipt.withOmission

/-- `visit`, with the levels that are left: the value itself and eight below it. -/
def visit : ℕ → String → JsonValue → ToolReceipt → ToolReceipt
  | 0, _, _, receipt => receipt.withOmission
  | levels + 1, path, item, receipt =>
    if receipt.full then receipt.withOmission
    else
      match item with
      | .array items => visitItems (visit levels) path 0 items receipt
      | .object members => visitMembers (visit levels) path (outcomeFirst members) receipt
      | _ => receipt

/-- `bounded_tool_receipt`. -/
def boundedToolReceipt (value : JsonValue) : ToolReceipt :=
  visit 9 "" value ⟨[], false⟩

/-! ### The scalars of a value -/

mutual

/-- The scalars of a value, each with its path. -/
def leaves (path : String) : JsonValue → List Fact
  | .array items => leavesItems path 0 items
  | .object members => leavesMembers path members
  | .null => [⟨path, .null⟩]
  | .bool value => [⟨path, .bool value⟩]
  | .number literal => [⟨path, .number literal⟩]
  | .string value => [⟨path, .string value⟩]

/-- The scalars of the items of a list. -/
def leavesItems (path : String) (index : ℕ) : List JsonValue → List Fact
  | [] => []
  | child :: rest => leaves (path ++ position index) child ++ leavesItems path (index + 1) rest

/-- The scalars of the values of a dictionary. -/
def leavesMembers (path : String) : List (String × JsonValue) → List Fact
  | [] => []
  | (key, child) :: rest => leaves (childPath path key) child ++ leavesMembers path rest

end

theorem leaves_of_isScalar {path : String} {value : JsonValue} (h : value.isScalar) :
    leaves path value = [⟨path, value⟩] := by
  cases value with
  | array items => exact nomatch h
  | object members => exact nomatch h
  | _ => rw [leaves]

theorem leavesItems_append (path : String) (index : ℕ) (first second : List JsonValue) :
    leavesItems path index (first ++ second) =
      leavesItems path index first ++ leavesItems path (index + first.length) second := by
  induction first generalizing index with
  | nil => rw [leavesItems, List.nil_append, List.nil_append, List.length_nil, add_zero]
  | cons child rest ih =>
    rw [List.cons_append, leavesItems, leavesItems, ih, List.append_assoc, List.length_cons,
      add_assoc, add_comm 1]

theorem leavesMembers_eq_flatMap (path : String) (members : List (String × JsonValue)) :
    leavesMembers path members = members.flatMap fun member ↦
      leaves (childPath path member.1) member.2 := by
  induction members with
  | nil => rw [leavesMembers, List.flatMap_nil]
  | cons member rest ih =>
    obtain ⟨key, child⟩ := member
    rw [leavesMembers, ih, List.flatMap_cons]

/-! ### What the traversal meets -/

/-- What the traversal meets: a value that it enters, a scalar that it keeps up to a limit, or
something that it leaves out. -/
inductive Reading
  | enters (path : String) (item : JsonValue)
  | states (path : String) (value : JsonValue) (limit : ℕ)
  | loses
  deriving Repr

/-- The items of a list, up to the sixteenth. -/
def itemReadings (reads : String → JsonValue → List Reading) (path : String) :
    ℕ → List JsonValue → List Reading
  | _, [] => []
  | index, child :: rest =>
    if 16 ≤ index then [.loses]
    else reads (path ++ position index) child ++ itemReadings reads path (index + 1) rest

/-- The scalars of the list of a key. -/
def scalarReadings (path key : String) : ℕ → List JsonValue → List Reading
  | _, [] => []
  | index, value :: rest =>
    .states (lstripDots (path ++ "." ++ key ++ position index)) value 240 ::
      scalarReadings path key (index + 1) rest

/-- The value of a key. -/
def memberReadings (reads : String → JsonValue → List Reading) (path key : String)
    (child : JsonValue) : List Reading :=
  if key ∈ bulkKeys then [.loses]
  else if key ∈ factKeys ∧ child.isScalar then [.states (childPath path key) child (keyLimit key)]
  else
    match child with
    | .array items =>
      if key ∈ factKeys ∧ items.all JsonValue.isScalar then
        scalarReadings path key 0 (items.take 16) ++ if 16 < items.length then [.loses] else []
      else reads (childPath path key) child
    | .object _ => reads (childPath path key) child
    | _ => [.loses]

/-- What the traversal meets in a value, with the levels that are left. -/
def readings : ℕ → String → JsonValue → List Reading
  | 0, _, _ => [.loses]
  | levels + 1, path, item =>
    .enters path item ::
      match item with
      | .array items => itemReadings (readings levels) path 0 items
      | .object members => (outcomeFirst members).flatMap fun member ↦
          memberReadings (readings levels) path member.1 member.2
      | _ => []

/-- A reading is taken. -/
def absorb (receipt : ToolReceipt) (reading : Reading) : ToolReceipt :=
  if receipt.full then receipt.withOmission
  else
    match reading with
    | .enters _ _ => receipt
    | .states path value limit => receipt.add path value limit
    | .loses => receipt.withOmission

variable {receipt : ToolReceipt}

theorem absorb_of_full (h : receipt.full) (reading : Reading) :
    absorb receipt reading = receipt.withOmission :=
  if_pos h

@[simp]
theorem absorb_loses (receipt : ToolReceipt) : absorb receipt .loses = receipt.withOmission := by
  unfold absorb
  split_ifs <;> rfl

theorem absorb_states (h : ¬ receipt.full) (path : String) (value : JsonValue) (limit : ℕ) :
    absorb receipt (.states path value limit) = receipt.add path value limit :=
  if_neg h

theorem absorb_enters (h : ¬ receipt.full) (path : String)
    (item : JsonValue) : absorb receipt (.enters path item) = receipt :=
  if_neg h

/-! ### The traversal takes the readings -/

theorem foldl_absorb_of_full (h : receipt.full) (taken : List Reading) :
    taken.foldl absorb receipt = if taken = [] then receipt else receipt.withOmission := by
  induction taken generalizing receipt with
  | nil => rfl
  | cons reading rest ih =>
    have hfull : receipt.withOmission.full := h
    rw [List.foldl_cons, absorb_of_full h, ih hfull, if_neg (List.cons_ne_nil _ _)]
    split_ifs <;> rfl

section Visiting

variable {visit : String → JsonValue → ToolReceipt → ToolReceipt}
  {reads : String → JsonValue → List Reading}
  (hvisit : ∀ path item receipt, visit path item receipt = (reads path item).foldl absorb receipt)
include hvisit

theorem visitItems_eq_foldl (path : String) (index : ℕ) (items : List JsonValue)
    (receipt : ToolReceipt) : visitItems visit path index items receipt =
      (itemReadings reads path index items).foldl absorb receipt := by
  induction items generalizing index receipt with
  | nil => rfl
  | cons child rest ih =>
    rw [visitItems, itemReadings]
    split_ifs with hpast
    · rw [List.foldl_cons, List.foldl_nil, absorb_loses]
    · rw [ih, hvisit, List.foldl_append]

omit hvisit in
theorem addItems_eq_foldl (path key : String) (index : ℕ) (items : List JsonValue)
    (receipt : ToolReceipt) : addItems path key index items receipt =
      (scalarReadings path key index items).foldl absorb receipt := by
  induction items generalizing index receipt with
  | nil => rfl
  | cons value rest ih =>
    rw [addItems, scalarReadings]
    split_ifs with hfull
    · rw [foldl_absorb_of_full hfull, if_neg (List.cons_ne_nil _ _)]
    · rw [List.foldl_cons, absorb_states hfull, ih]

theorem visitMembers_eq_foldl (path : String) (members : List (String × JsonValue))
    (receipt : ToolReceipt) : visitMembers visit path members receipt =
      (members.flatMap fun member ↦ memberReadings reads path member.1 member.2).foldl absorb
        receipt := by
  induction members generalizing receipt with
  | nil => rfl
  | cons member rest ih =>
    obtain ⟨key, child⟩ := member
    unfold visitMembers
    rw [List.flatMap_cons, List.foldl_append, memberReadings.eq_def]
    split_ifs with hbulk hscalar hfull
    · rw [List.foldl_cons, List.foldl_nil, absorb_loses, ih]
    · -- The loop ends here. The readings of the other keys would change nothing.
      rw [foldl_absorb_of_full hfull, if_neg (List.cons_ne_nil _ _)]
      have hstays : receipt.withOmission.full := hfull
      rw [foldl_absorb_of_full hstays]
      split_ifs <;> rfl
    · rw [List.foldl_cons, List.foldl_nil, absorb_states hfull, ih]
    · cases child with
      | array items =>
        simp only
        split_ifs with hscalars hlong
        · rw [ih, addItems_eq_foldl, List.foldl_append, List.foldl_cons, List.foldl_nil,
            absorb_loses]
        · rw [ih, addItems_eq_foldl, List.append_nil]
        · rw [ih, hvisit]
      | object fields => rw [ih, hvisit]
      | _ =>
        rw [List.foldl_cons, List.foldl_nil, absorb_loses]
        exact ih _

end Visiting

theorem visit_eq_foldl (levels : ℕ) (path : String) (item : JsonValue) (receipt : ToolReceipt) :
    visit levels path item receipt = (readings levels path item).foldl absorb receipt := by
  induction levels generalizing path item receipt with
  | zero => rw [visit, readings, List.foldl_cons, List.foldl_nil, absorb_loses]
  | succ levels ih =>
    unfold visit readings
    split_ifs with hfull
    · rw [foldl_absorb_of_full hfull, if_neg (List.cons_ne_nil _ _)]
    · rw [List.foldl_cons, absorb_enters hfull]
      cases item with
      | array items => exact visitItems_eq_foldl ih path 0 items receipt
      | object members => exact visitMembers_eq_foldl ih path (outcomeFirst members) receipt
      | _ => rfl

/-! ### The readings cover the scalars -/

/-- The scalar of a reading. -/
def Reading.leaf : Reading → Option Fact
  | .enters path item => if item.isScalar then some ⟨path, item⟩ else none
  | .states path value _ => some ⟨path, value⟩
  | .loses => none

/-- A scalar is kept up to 512 characters at most. -/
def Reading.Limited : Reading → Prop
  | .states _ _ limit => limit ≤ 512
  | _ => True

/-- The scalars of readings are among others, and all of them when nothing is lost. -/
def Covers (taken : List Reading) (all : List Fact) : Prop :=
  (∃ dropped, (taken.filterMap Reading.leaf ++ dropped).Perm all ∧
    (Reading.loses ∉ taken → dropped = [])) ∧ ∀ reading ∈ taken, reading.Limited

theorem Covers.append {first second : List Reading} {some others : List Fact}
    (hfirst : Covers first some) (hsecond : Covers second others) :
    Covers (first ++ second) (some ++ others) := by
  obtain ⟨⟨dropped, hperm, hnone⟩, hlimited⟩ := hfirst
  obtain ⟨⟨droppedAfter, hpermAfter, hnoneAfter⟩, hlimitedAfter⟩ := hsecond
  refine ⟨⟨dropped ++ droppedAfter, ?_, fun hkept ↦ ?_⟩,
    List.forall_mem_append.mpr ⟨hlimited, hlimitedAfter⟩⟩
  · rw [List.filterMap_append]
    refine List.Perm.trans ?_ (hperm.append hpermAfter)
    rw [List.append_assoc, List.append_assoc]
    exact ((List.perm_append_comm_assoc _ _ _)).append_left _
  · rw [List.mem_append, not_or] at hkept
    rw [hnone hkept.1, hnoneAfter hkept.2, List.append_nil]

theorem covers_nil : Covers [] [] :=
  ⟨⟨[], List.Perm.refl _, fun _ ↦ rfl⟩, List.forall_mem_nil _⟩

theorem covers_loses (all : List Fact) : Covers [.loses] all :=
  ⟨⟨all, List.Perm.refl _, fun hkept ↦ absurd (List.mem_singleton_self _) hkept⟩,
    List.forall_mem_singleton.mpr trivial⟩

theorem covers_states (path : String) {value : JsonValue} (h : value.isScalar) {limit : ℕ}
    (hlimit : limit ≤ 512) : Covers [.states path value limit] (leaves path value) :=
  ⟨⟨[], leaves_of_isScalar h ▸ List.Perm.refl _, fun _ ↦ rfl⟩,
    List.forall_mem_singleton.mpr hlimit⟩

theorem keyLimit_le (key : String) : keyLimit key ≤ 512 := by
  unfold keyLimit
  split_ifs <;> decide

theorem covers_enters (path : String) (item : JsonValue) (h : ¬ item.isScalar) :
    Covers [.enters path item] [] := by
  have hnone : (Reading.enters path item).leaf = none := if_neg h
  refine ⟨⟨[], ?_, fun _ ↦ rfl⟩, List.forall_mem_singleton.mpr trivial⟩
  rw [List.append_nil, List.filterMap_cons_none hnone, List.filterMap_nil]

variable {taken : List Reading}

theorem Covers.perm {all others : List Fact} (h : Covers taken all)
    (hperm : all.Perm others) : Covers taken others :=
  let ⟨⟨dropped, hleaves, hnone⟩, hlimited⟩ := h
  ⟨⟨dropped, hleaves.trans hperm, hnone⟩, hlimited⟩

theorem covers_flatMap {α : Type} {reads : α → List Reading} {scalars : α → List Fact}
    {members : List α} (h : ∀ member ∈ members, Covers (reads member) (scalars member)) :
    Covers (members.flatMap reads) (members.flatMap scalars) := by
  induction members with
  | nil => exact covers_nil
  | cons member rest ih =>
    obtain ⟨hmember, hrest⟩ := List.forall_mem_cons.mp h
    exact hmember.append (ih hrest)

theorem lstripDots_append_position (text : String) (index : ℕ) :
    lstripDots (text ++ position index) = lstripDots text ++ position index := by
  have hposition : (position index).toList.dropWhile (fun c ↦ decide (c = '.')) =
      (position index).toList := by
    have hbracket : ("[" : String).toList = ['['] := rfl
    rw [position, String.toList_append, String.toList_append, hbracket, List.cons_append,
      List.cons_append, List.dropWhile_cons_of_neg (by decide)]
  unfold lstripDots
  apply String.toList_injective
  rw [String.toList_ofList, String.toList_append, String.toList_append, String.toList_ofList,
    List.dropWhile_append]
  split_ifs with hempty
  · rw [List.isEmpty_iff.mp hempty, List.nil_append, hposition]
  · rfl

section Covering

variable {reads : String → JsonValue → List Reading}
  (hreads : ∀ path item, Covers (reads path item) (leaves path item))
include hreads

theorem itemReadings_covers (path : String) (index : ℕ) (items : List JsonValue) :
    Covers (itemReadings reads path index items) (leavesItems path index items) := by
  induction items generalizing index with
  | nil =>
    rw [leavesItems]
    exact covers_nil
  | cons child rest ih =>
    rw [itemReadings]
    split_ifs with hpast
    · exact covers_loses _
    · rw [leavesItems]
      exact (hreads _ child).append (ih (index + 1))

omit hreads in
theorem scalarReadings_covers (path key : String) (index : ℕ) {items : List JsonValue}
    (h : ∀ item ∈ items, item.isScalar) :
    Covers (scalarReadings path key index items)
      (leavesItems (childPath path key) index items) := by
  induction items generalizing index with
  | nil =>
    rw [leavesItems]
    exact covers_nil
  | cons item rest ih =>
    obtain ⟨hitem, hrest⟩ := List.forall_mem_cons.mp h
    rw [scalarReadings, leavesItems, lstripDots_append_position]
    exact (covers_states _ hitem (by decide)).append (ih (index + 1) hrest)

theorem memberReadings_covers (path key : String) (child : JsonValue) :
    Covers (memberReadings reads path key child) (leaves (childPath path key) child) := by
  unfold memberReadings
  split_ifs with hbulk hscalar
  · exact covers_loses _
  · exact covers_states _ hscalar.2 (keyLimit_le key)
  · cases child with
    | array items =>
      simp only
      split_ifs with hscalars hlong
      · have hall : ∀ item ∈ items.take 16, item.isScalar := fun item hitem ↦
          List.all_eq_true.mp hscalars.2 item (List.mem_of_mem_take hitem)
        rw [leaves, ← List.take_append_drop 16 items, leavesItems_append, List.take_append_drop]
        exact (scalarReadings_covers path key 0 hall).append (covers_loses _)
      · rw [List.append_nil, List.take_of_length_le (not_lt.mp hlong), leaves]
        exact scalarReadings_covers path key 0 (List.all_eq_true.mp hscalars.2)
      · exact hreads _ _
    | object members => exact hreads _ _
    | _ => exact covers_loses _

end Covering

theorem outcomeFirst_perm (members : List (String × JsonValue)) :
    (outcomeFirst members).Perm members :=
  List.filter_append_perm _ members

theorem readings_covers (levels : ℕ) (path : String) (item : JsonValue) :
    Covers (readings levels path item) (leaves path item) := by
  induction levels generalizing path item with
  | zero => exact covers_loses _
  | succ levels ih =>
    unfold readings
    cases item with
    | array items =>
      rw [leaves]
      exact (covers_enters path (.array items) nofun).append
        (itemReadings_covers ih path 0 items)
    | object members =>
      rw [leaves, leavesMembers_eq_flatMap]
      have hmembers : Covers ((outcomeFirst members).flatMap fun member ↦
          memberReadings (readings levels) path member.1 member.2)
          ((outcomeFirst members).flatMap fun member ↦
            leaves (childPath path member.1) member.2) :=
        covers_flatMap fun member _ ↦ memberReadings_covers ih path member.1 member.2
      exact (covers_enters path (.object members) nofun).append
        (hmembers.perm ((outcomeFirst_perm members).flatMap_right _))
    | _ =>
      rw [leaves]
      exact ⟨⟨[], List.Perm.refl _, fun _ ↦ rfl⟩, List.forall_mem_singleton.mpr trivial⟩

/-! ### What the receipt keeps -/

/-- A scalar of which only the first characters are kept. -/
def shorten (limit : ℕ) : JsonValue → JsonValue
  | .string text => .string (firstChars limit text)
  | value => value

/-- The fact of a reading. -/
def Reading.fact : Reading → Option Fact
  | .states path value limit => some ⟨path, shorten limit value⟩
  | _ => none

/-- Nothing of a reading is left out. -/
def Reading.Whole : Reading → Prop
  | .enters _ _ => True
  | .states _ value limit => shorten limit value = value
  | .loses => False

theorem ToolReceipt.add_facts (receipt : ToolReceipt) (path : String) (value : JsonValue)
    (limit : ℕ) : (receipt.add path value limit).facts =
      receipt.facts ++ [⟨path, shorten limit value⟩] := by
  cases value <;> rfl

theorem ToolReceipt.add_detailsOmitted (receipt : ToolReceipt) (path : String) (value : JsonValue)
    (limit : ℕ) : (receipt.add path value limit).detailsOmitted = false ↔
      receipt.detailsOmitted = false ∧ shorten limit value = value := by
  cases value with
  | string text => simp [ToolReceipt.add, shorten]
  | _ => exact (and_iff_left rfl).symm

/-- The receipt of readings that are taken from nothing. -/
def receiptOf (taken : List Reading) : ToolReceipt :=
  taken.foldl absorb ⟨[], false⟩

theorem receiptOf_concat (taken : List Reading) (reading : Reading) :
    receiptOf (taken ++ [reading]) = absorb (receiptOf taken) reading :=
  List.foldl_concat _ _ _ _

/-- Assumes: facts of the first readings. No more are taken when 48 readings had one. -/
theorem full_iff (h : (receiptOf taken).facts = (taken.filterMap Reading.fact).take 48) :
    (receiptOf taken).full ↔ 48 ≤ (taken.filterMap Reading.fact).length := by
  rw [ToolReceipt.full, decide_eq_true_iff, h, List.length_take]
  omega

theorem receiptOf_facts (taken : List Reading) :
    (receiptOf taken).facts = (taken.filterMap Reading.fact).take 48 := by
  induction taken using List.reverseRecOn with
  | nil => rfl
  | append_singleton taken reading ih =>
    rw [receiptOf_concat, List.filterMap_append]
    by_cases hfull : (receiptOf taken).full
    · rw [absorb_of_full hfull, List.take_append_of_le_length ((full_iff ih).mp hfull)]
      exact ih
    · have hshort := not_le.mp ((full_iff ih).not.mp hfull)
      rw [List.take_of_length_le hshort.le] at ih
      have hfits : ((taken ++ [reading]).filterMap Reading.fact).length ≤ 48 := by
        rw [List.filterMap_append, List.length_append]
        have hone := List.length_filterMap_le Reading.fact [reading]
        rw [List.length_singleton] at hone
        omega
      rw [← List.filterMap_append, List.take_of_length_le hfits, List.filterMap_append]
      cases reading with
      | enters path item =>
        rw [absorb_enters hfull, ih]
        exact (List.append_nil _).symm
      | states path value limit =>
        rw [absorb_states hfull, ToolReceipt.add_facts, ih]
        rfl
      | loses =>
        rw [absorb_loses]
        exact ih.trans (List.append_nil _).symm

/-- Some reading is not kept whole, or one comes after 48 facts. -/
def LeavesOut (taken : List Reading) : Prop :=
  (∃ reading ∈ taken, ¬ reading.Whole) ∨ 48 ≤ (taken.dropLast.filterMap Reading.fact).length

theorem receiptOf_detailsOmitted (taken : List Reading) :
    (receiptOf taken).detailsOmitted = true ↔ LeavesOut taken := by
  induction taken using List.reverseRecOn with
  | nil => exact iff_of_false nofun (by simp [LeavesOut])
  | append_singleton taken reading ih =>
    have hcount : (taken.dropLast.filterMap Reading.fact).length ≤
        (taken.filterMap Reading.fact).length :=
      ((List.dropLast_sublist taken).filterMap _).length_le
    have hfull := full_iff (receiptOf_facts taken)
    have hlast : (absorb (receiptOf taken) reading).detailsOmitted = true ↔
        (receiptOf taken).full ∨ (receiptOf taken).detailsOmitted = true ∨ ¬ reading.Whole := by
      by_cases hfilled : (receiptOf taken).full
      · rw [absorb_of_full hfilled]
        exact iff_of_true rfl (.inl hfilled)
      · cases reading with
        | enters path item => simp [absorb_enters hfilled, hfilled, Reading.Whole]
        | states path value limit =>
          have hadded := (receiptOf taken).add_detailsOmitted path value limit
          rw [absorb_states hfilled, ← Bool.not_eq_false, hadded, not_and_or, Bool.not_eq_false]
          simp [hfilled, Reading.Whole]
        | loses => simp [absorb_loses, ToolReceipt.withOmission, Reading.Whole]
    rw [receiptOf_concat, hlast, hfull, ih, LeavesOut, LeavesOut, List.dropLast_concat]
    simp only [List.mem_append, List.mem_singleton, or_and_right, exists_or, exists_eq_left]
    constructor
    · rintro (hlong | (hlost | hlong) | hcut)
      · exact .inr hlong
      · exact .inl (.inl hlost)
      · exact .inr (hlong.trans hcount)
      · exact .inl (.inr hcut)
    · rintro ((hlost | hcut) | hlong)
      · exact .inr (.inl (.inl hlost))
      · exact .inr (.inr hcut)
      · exact .inl hlong

theorem boundedToolReceipt_eq (value : JsonValue) :
    boundedToolReceipt value = receiptOf (readings 9 "" value) :=
  visit_eq_foldl 9 "" value _

/-! ### Receipts that hide nothing -/

/-- A fact says what stands at a path, a text by at most its first 512 characters. -/
def Keeps (fact leaf : Fact) : Prop :=
  fact.path = leaf.path ∧
    match leaf.value with
    | .string text => ∃ kept, fact.value = .string kept ∧ kept.toList <+: text.toList ∧
        kept.length ≤ 512
    | value => fact.value = value

/-- A receipt that admits no omission has every scalar of the value, in full. A receipt has at most
48 facts, and each is of a scalar of the value. -/
def Faithful (value : JsonValue) : Prop :=
  ((boundedToolReceipt value).detailsOmitted = false →
    (leaves "" value).Subperm (boundedToolReceipt value).facts) ∧
  (boundedToolReceipt value).facts.length ≤ 48 ∧
  ∀ fact ∈ (boundedToolReceipt value).facts, ∃ leaf ∈ leaves "" value, Keeps fact leaf

theorem keeps_shorten (path : String) (value : JsonValue) {limit : ℕ} (h : limit ≤ 512) :
    Keeps ⟨path, shorten limit value⟩ ⟨path, value⟩ := by
  refine ⟨rfl, ?_⟩
  cases value with
  | string text =>
    refine ⟨firstChars limit text, rfl, ?_, ?_⟩
    · rw [firstChars, String.toList_ofList]
      exact List.take_prefix _ _
    · rw [firstChars, String.length_ofList]
      exact (List.length_take_le _ _).trans h
  | _ => rfl

theorem facts_kept (value : JsonValue) {fact : Fact}
    (h : fact ∈ (boundedToolReceipt value).facts) : ∃ leaf ∈ leaves "" value, Keeps fact leaf := by
  obtain ⟨⟨dropped, hperm, -⟩, hlimited⟩ := readings_covers 9 "" value
  rw [boundedToolReceipt_eq, receiptOf_facts] at h
  obtain ⟨reading, hreading, hfact⟩ := List.mem_filterMap.mp (List.mem_of_mem_take h)
  cases reading with
  | states path scalar limit =>
    obtain rfl := Option.some.inj hfact
    refine ⟨⟨path, scalar⟩, hperm.subset (List.mem_append_left _ ?_),
      keeps_shorten path scalar (hlimited _ hreading)⟩
    exact List.mem_filterMap.mpr ⟨_, hreading, rfl⟩
  | enters path item => exact nomatch hfact
  | loses => exact nomatch hfact

/-- A scalar that the traversal enters is kept by no fact. -/
def Reading.Bare : Reading → Prop
  | .enters _ item => item.isScalar
  | _ => False

theorem Reading.fact_eq_leaf {reading : Reading} (hwhole : reading.Whole) (hbare : ¬ reading.Bare) :
    reading.fact = reading.leaf := by
  cases reading with
  | enters path item => exact (if_neg hbare).symm
  | states path value limit => rw [Reading.fact, Reading.leaf, hwhole]
  | loses => rfl

theorem facts_length_le (taken : List Reading) :
    (taken.filterMap Reading.fact).length ≤ (taken.filterMap Reading.leaf).length := by
  induction taken with
  | nil => exact le_refl _
  | cons reading rest ih =>
    cases reading with
    | enters path item =>
      have hnone : (Reading.enters path item).fact = none := rfl
      rw [List.filterMap_cons_none hnone]
      exact ih.trans ((List.sublist_cons_self _ rest).filterMap _).length_le
    | states path value limit => exact Nat.succ_le_succ ih
    | loses => exact ih

theorem facts_length_lt (h : ∃ reading ∈ taken, reading.Bare) :
    (taken.filterMap Reading.fact).length < (taken.filterMap Reading.leaf).length := by
  obtain ⟨reading, hreading, hbare⟩ := h
  obtain ⟨before, after, rfl⟩ := List.append_of_mem hreading
  cases reading with
  | enters path item =>
    have hnone : (Reading.enters path item).fact = none := rfl
    have hleaf : (Reading.enters path item).leaf = some ⟨path, item⟩ := if_pos hbare
    rw [List.filterMap_append, List.filterMap_append, List.filterMap_cons_none hnone,
      List.filterMap_cons_some hleaf, List.length_append, List.length_append, List.length_cons]
    exact Nat.lt_of_le_of_lt (Nat.add_le_add (facts_length_le before) (facts_length_le after))
      (Nat.lt_succ_self _)
  | states path value limit => exact hbare.elim
  | loses => exact hbare.elim

theorem take_facts (h : ¬ LeavesOut taken) :
    (taken.filterMap Reading.fact).take 48 = taken.filterMap Reading.fact := by
  refine List.take_of_length_le ?_
  obtain ⟨-, hbefore⟩ := not_or.mp h
  induction taken using List.reverseRecOn with
  | nil => exact Nat.zero_le _
  | append_singleton taken reading =>
    rw [List.dropLast_concat] at hbefore
    have hone := List.length_filterMap_le Reading.fact [reading]
    rw [List.filterMap_append, List.length_append]
    rw [List.length_singleton] at hone
    omega

/-- A receipt is faithful exactly when no scalar of the value is bare, that is the whole value or an
item of a list that is read item by item, or when the receipt has another reason to admit an
omission. -/
theorem faithful_iff (value : JsonValue) :
    Faithful value ↔ (∀ reading ∈ readings 9 "" value, ¬ reading.Bare) ∨
      LeavesOut (readings 9 "" value) := by
  have hfacts := receiptOf_facts (readings 9 "" value)
  have homitted := receiptOf_detailsOmitted (readings 9 "" value)
  rw [← boundedToolReceipt_eq] at hfacts homitted
  obtain ⟨⟨dropped, hperm, hnone⟩, -⟩ := readings_covers 9 "" value
  have hcount : (boundedToolReceipt value).facts.length ≤ 48 := by
    rw [hfacts]
    exact List.length_take_le _ _
  constructor
  · intro hfaithful
    by_contra hcase
    obtain ⟨hbare, hkept⟩ := not_or.mp hcase
    push Not at hbare
    have hall := hfaithful.1 (Bool.eq_false_iff.mpr (homitted.not.mpr hkept))
    have hfewer := facts_length_lt hbare
    have hlength := hall.length_le
    rw [hfacts, take_facts hkept, ← hperm.length_eq, List.length_append] at hlength
    omega
  · intro hcase
    refine ⟨fun hnothing ↦ ?_, hcount, fun fact ↦ facts_kept value⟩
    have hkept : ¬ LeavesOut (readings 9 "" value) :=
      homitted.not.mp (Bool.eq_false_iff.mp hnothing)
    have hwhole : ∀ reading ∈ readings 9 "" value, reading.Whole := fun reading hreading ↦
      not_not.mp fun hcut ↦ hkept (.inl ⟨reading, hreading, hcut⟩)
    have hall := hnone fun hloses ↦ hwhole _ hloses
    have hsame : (readings 9 "" value).filterMap Reading.fact =
        (readings 9 "" value).filterMap Reading.leaf :=
      List.filterMap_congr fun reading hreading ↦
        Reading.fact_eq_leaf (hwhole reading hreading) (hcase.resolve_right hkept reading hreading)
    rw [hall, List.append_nil, ← hsame] at hperm
    rw [hfacts, take_facts hkept]
    exact hperm.symm.subperm

/-- The only item of a list is a scalar. The receipt has no facts and admits no omission. -/
theorem bare_scalar_is_dropped :
    boundedToolReceipt (.array [.string "done"]) = ⟨[], false⟩ ∧
      ¬ Faithful (.array [.string "done"]) := by
  refine ⟨rfl, fun hfaithful ↦ ?_⟩
  have hempty := (hfaithful.1 rfl).length_le
  exact absurd hempty (by decide)

end Schemii.AiContext
