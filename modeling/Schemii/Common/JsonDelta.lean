import Schemii.Foundations.Json

/-!
# Deltas between JSON documents

The delta that the server sends with a move through the design history, and the client's projection
of it: `json_delta` of `common/json_delta.py` and `applyJsonDelta` of `json-delta.js`.

The encoder (`jsonDelta`) walks two documents side by side. Dictionaries are compared key by key.
Lists of objects with distinct text ids are reconciled by identity: a loop from the end removes what
is not wanted, and a loop over the wanted items inserts, moves, or descends, with positions that are
valid after the operations emitted before. Other lists of one length are compared by position, and
everything else is replaced as a whole. The recursion of the source ends because the second document
gets less deep; here it has the depth as fuel, which `appendDelta` never exhausts.

The applier (`applyJsonDelta`) follows each path in a copy and edits the parent of its last step. It
refuses the keys that reach a prototype, positions that are not safe integers, and paths that lead
nowhere. A step into an object reads the property of that name, and a step into a list by a text
reads the position that the text writes.
-/

set_option autoImplicit false

namespace Schemii.Common

open Foundations Json

/-! ### The encoder -/

/-- One operation of a delta. -/
inductive DeltaOperation
  | add (path : List Segment) (value : Json)
  | remove (path : List Segment)
  | replace (path : List Segment) (value : Json)

/-- The text under `id` of an object. -/
def identifier : Json → Option String
  | .object fields =>
    match fields.lookup "id" with
    | some (.string value) => some value
    | _ => none
  | _ => none

/-- `_has_stable_object_ids`: every value is an object with a text as id, and no id occurs twice. -/
def hasStableObjectIds (values : List Json) : Bool :=
  values.all (fun value ↦ (identifier value).isSome) ∧ (values.map identifier).Nodup

/-- `list.insert`. -/
def insertAt (position : ℕ) (value : Json) (items : List Json) : List Json :=
  items.take position ++ value :: items.drop position

/-- The first loop of `_append_identified_list_delta`, from a position down: remove the items whose
id is not wanted. Returns the operations and the working list. -/
def removeUnwanted (path : List Segment) (wanted : List (Option String)) :
    ℕ → List Json → List DeltaOperation × List Json
  | 0, working => ([], working)
  | index + 1, working =>
    if (working[index]?.map identifier).any (· ∈ wanted) then removeUnwanted path wanted index working
    else
      let rest := removeUnwanted path wanted index (working.eraseIdx index)
      (.remove (path ++ [.index index]) :: rest.1, rest.2)

/-- The second loop of `_append_identified_list_delta`: bring each wanted item to its position in the
working list. `inner` is the delta of two items. -/
def placeWanted (inner : List Segment → Json → Json → List DeltaOperation)
    (path : List Segment) : ℕ → List Json → List Json → List DeltaOperation
  | _, _, [] => []
  | targetIndex, working, target :: rest =>
    match working.findIdx? (fun value ↦ identifier value = identifier target) with
    | none =>
      .add (path ++ [.index targetIndex]) target ::
        placeWanted inner path (targetIndex + 1) (insertAt targetIndex target working) rest
    | some currentIndex =>
      if currentIndex ≠ targetIndex then
        .remove (path ++ [.index currentIndex]) :: .add (path ++ [.index targetIndex]) target ::
          placeWanted inner path (targetIndex + 1)
            (insertAt targetIndex target (working.eraseIdx currentIndex)) rest
      else
        (match working[targetIndex]? with
          | some value => inner (path ++ [.index targetIndex]) value target
          | none => []) ++
          placeWanted inner path (targetIndex + 1) (working.set targetIndex target) rest

/-- `_append_identified_list_delta`. -/
def identifiedListDelta (inner : List Segment → Json → Json → List DeltaOperation)
    (path : List Segment) (before after : List Json) : List DeltaOperation :=
  let removed := removeUnwanted path (after.map identifier) before.length before
  removed.1 ++ placeWanted inner path 0 removed.2 after

/-- The positional comparison of two lists, from a position on. -/
def positionalDelta (inner : List Segment → Json → Json → List DeltaOperation)
    (path : List Segment) : ℕ → List Json → List Json → List DeltaOperation
  | index, previous :: before, current :: after =>
    inner (path ++ [.index index]) previous current ++
      positionalDelta inner path (index + 1) before after
  | _, _, _ => []

/-- The keys of the first dictionary that the second lacks, sorted. -/
def missingKeys (first second : List (String × Json)) : List String :=
  ((first.map Prod.fst).filter fun key ↦ key ∉ second.map Prod.fst).dedup.mergeSort (· ≤ ·)

/-- The keys of both dictionaries, sorted. -/
def commonKeys (first second : List (String × Json)) : List String :=
  ((first.map Prod.fst).filter fun key ↦ key ∈ second.map Prod.fst).dedup.mergeSort (· ≤ ·)

/-- The comparison of two dictionaries. -/
def dictionaryDelta (inner : List Segment → Json → Json → List DeltaOperation)
    (path : List Segment) (before after : List (String × Json)) : List DeltaOperation :=
  ((missingKeys before after).flatMap fun key ↦ [.remove (path ++ [.key key])]) ++
    ((missingKeys after before).flatMap fun key ↦
      match after.lookup key with
      | some value => [.add (path ++ [.key key]) value]
      | none => []) ++
    (commonKeys before after).flatMap fun key ↦
      match before.lookup key, after.lookup key with
      | some previous, some current => inner (path ++ [.key key]) previous current
      | _, _ => []

/-- `_append_delta`. -/
def appendDelta : ℕ → List Segment → Json → Json → List DeltaOperation
  | 0, _, _, _ => []
  | fuel + 1, path, before, after =>
    if before.equals after then []
    else
      match before, after with
      | .object old, .object new => dictionaryDelta (appendDelta fuel) path old new
      | .array old, .array new =>
        if hasStableObjectIds old ∧ hasStableObjectIds new then
          identifiedListDelta (appendDelta fuel) path old new
        else if old.length = new.length then positionalDelta (appendDelta fuel) path 0 old new
        else [.replace path after]
      | _, _ => [.replace path after]

/-- `json_delta`. -/
def jsonDelta (before after : Json) : List DeltaOperation :=
  appendDelta (after.depth + 1) [] before after

/-! ### The applier -/

/-- `UNSAFE_KEYS`. -/
def unsafeKeys : List String := ["__proto__", "constructor", "prototype"]

/-- `assertSegment`: a safe integer, or a key that is not unsafe. -/
def acceptsSegment : Segment → Bool
  | .index position => position < 2 ^ 53
  | .key name => name ∉ unsafeKeys

/-- The property that a step names: of an object the key with the text of the step, of a list the
position that the step is or writes. -/
def property : Json → Segment → Option Segment
  | .object _, .key name => some (.key name)
  | .object _, .index position => some (.key (toString position))
  | .array _, .index position => some (.index position)
  | .array items, .key name =>
    ((List.range items.length).find? fun position ↦ toString position = name).map Segment.index
  | _, _ => none

/-- The edit of the parent that the path of an operation leads to. -/
def editParent (item : DeltaOperation) (key : Segment) : Json → Except String Json
  | .array items =>
    match key with
    | .key _ => .error "Invalid JSON delta array index"
    | .index position =>
      if items.length < position then .error "Invalid JSON delta array index"
      else
        match item with
        | .add _ value => .ok (.array (insertAt position value items))
        | .remove _ =>
          if items.length ≤ position then .error "JSON delta array index does not exist"
          else .ok (.array (items.eraseIdx position))
        | .replace _ value =>
          if items.length ≤ position then .error "JSON delta array index does not exist"
          else .ok (.array (items.set position value))
  | .object fields =>
    match property (.object fields) key with
    | some (.key name) =>
      match item with
      | .add _ value => .ok (.object (setField fields name value))
      | .remove _ => .ok (.object (eraseField fields name))
      | .replace _ value => .ok (.object (setField fields name value))
    | _ => .error "Invalid JSON delta parent"
  | _ => .error "Invalid JSON delta parent"

/-- `parentAt` and the edit of what it finds. -/
def editAt (item : DeltaOperation) (key : Segment) : List Segment → Json → Except String Json
  | [], parent => editParent item key parent
  | segment :: rest, document =>
    if ¬ acceptsSegment segment then .error "Invalid JSON delta path"
    else
      match property document segment with
      | none => .error "JSON delta path does not exist"
      | some named =>
        match document.child named with
        | none => .error "JSON delta path does not exist"
        | some below => (editAt item key rest below).map fun value ↦ document.setChild named value

/-- The path of an operation. -/
def DeltaOperation.path : DeltaOperation → List Segment
  | .add path _ => path
  | .remove path => path
  | .replace path _ => path

/-- The body of the loop of `applyJsonDelta`. -/
def applyOperation (document : Json) (item : DeltaOperation) : Except String Json :=
  match item.path.getLast? with
  | none =>
    match item with
    | .remove _ => .error "Cannot remove the JSON document root"
    | .add _ value => .ok value
    | .replace _ value => .ok value
  | some key =>
    if ¬ acceptsSegment key then .error "Invalid JSON delta path"
    else editAt item key item.path.dropLast document

/-- `applyJsonDelta`. -/
def applyJsonDelta (value : Json) (operations : List DeltaOperation) : Except String Json :=
  operations.foldlM applyOperation value

end Schemii.Common
