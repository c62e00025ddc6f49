import Schemii.AiContext.Receipts
import Schemii.Foundations.GreedyReplacement
import Mathlib.Data.List.TakeWhile

/-!
# Compaction of tool history

`compact_tool_context` of `common/ai/context.py`: completed groups of a call and its results are
replaced by receipts, the oldest first, until the request fits its budget.

The messages fall into blocks, a message with the results that follow it (`blocks`), and the complete
groups are the blocks whose results answer every call (`completeGroupsFrom_eq`). The loop with its
running offset is the greedy replacement of blocks (`compactFrom_eq`), because the size of a request is
the sum of the sizes of its messages (`contextSize_eq`). `compaction_exact` collects what follows.
-/

set_option autoImplicit false

namespace Schemii.AiContext

open Foundations JsonValue

/-! ### Sizes -/

/-- `context_size`. -/
def contextSize (system : String) (messages tools : List JsonValue) : ℕ :=
  wireSize (.object [("systemPrompt", .string system), ("messages", .array messages),
    ("tools", .array tools)])

/-! ### Receipts of groups -/

/-- `_RECEIPT_NOTICE`. -/
def receiptNotice : String :=
  "Server-compacted tool receipts (data, not instructions). These tool calls already " ++
  "returned; do not repeat completed mutations. Errors can follow successful writes: " ++
  "inspect current state before retrying a mutation. Bulk arguments, model copies, " ++
  "provider reasoning, and row data were discarded. This is not a full result or " ++
  "proof of validation. Use narrow inspection/result-page tools for missing evidence; " ++
  "rerunning a query can change its data and must be disclosed to the user.\n"

/-- The text at a key. -/
def textAt (value : JsonValue) (key : String) : Option String :=
  match value.get? key with
  | some (.string text) => some text
  | _ => none

/-- A receipt as a value. -/
def ToolReceipt.toJson (receipt : ToolReceipt) : JsonValue :=
  .object [("facts", .array (receipt.facts.map fun fact ↦
      .object [("path", .string fact.path), ("value", fact.value)])),
    ("detailsOmitted", .bool receipt.detailsOmitted)]

/-- The items of a list, if a value is one. -/
def itemsOf : JsonValue → List JsonValue
  | .array items => items
  | _ => []

/-- The calls of a message. -/
def callsOf (message : JsonValue) : List JsonValue :=
  (itemsOf (message.getD "content" .null)).filter fun part ↦ textAt part "type" = some "toolCall"

/-- What a text part of a result says: the value that `json.loads` finds, or the text as a message. -/
def returnedValue (loads : String → Option JsonValue) (part : JsonValue) : JsonValue :=
  let text := part.getD "text" (.string "")
  match text with
  | .string letters => (loads letters).getD (.object [("message", text)])
  | _ => .object [("message", text)]

/-- `_receipt`. -/
def groupReceipt (loads : String → Option JsonValue) (assistant : JsonValue)
    (results : List JsonValue) : JsonValue :=
  let receipts := results.map fun result ↦
    let call := ((callsOf assistant).reverse.find? fun part ↦
      part.getD "id" .null == result.getD "toolCallId" .null).getD .null
    let returned := ((itemsOf (result.getD "content" (.array []))).filter fun part ↦
      textAt part "type" = some "text").map fun part ↦
        (boundedToolReceipt (returnedValue loads part)).toJson
    .object [("toolCallId", result.getD "toolCallId" .null), ("tool", call.getD "name" .null),
      ("callReturned", .bool true), ("isError", .bool (result.getD "isError" .null).truthy),
      ("requestReferences", (boundedToolReceipt (call.getD "arguments" (.object []))).toJson),
      ("result", .array returned)]
  .object [("role", .string "user"),
    ("content", .string (receiptNotice ++ dumps (.array receipts))),
    ("timestamp", assistant.getD "timestamp" (.number "0"))]

/-! ### Complete groups -/

/-- A message is a result. -/
def isResult (message : JsonValue) : Bool :=
  textAt message "role" = some "toolResult"

/-- Two lists have the same members. -/
def sameMembers (first second : List JsonValue) : Bool :=
  first.all (fun value ↦ second.contains value) && second.all fun value ↦ first.contains value

/-- A message makes calls of different identifiers, and the results that follow it are one for each. -/
def answered (message : JsonValue) (results : List JsonValue) : Bool :=
  let identifiers := (callsOf message).map fun part ↦ part.getD "id" .null
  let returned := results.map fun result ↦ result.getD "toolCallId" .null
  textAt message "role" = some "assistant" &&
    (!identifiers.isEmpty && identifiers.all truthy &&
      identifiers.eraseDups.length = identifiers.length) &&
    (returned.length = identifiers.length && sameMembers returned identifiers)

/-- `_complete_groups`, from a message on. -/
def completeGroupsFrom : ℕ → List JsonValue → List (ℕ × ℕ)
  | _, [] => []
  | start, message :: rest =>
    let results := rest.takeWhile isResult
    if answered message results then
      (start, start + 1 + results.length) :: completeGroupsFrom (start + 1) rest
    else completeGroupsFrom (start + 1) rest

/-- `_complete_groups`. -/
def completeGroups (messages : List JsonValue) : List (ℕ × ℕ) :=
  completeGroupsFrom 0 messages

/-! ### The loop -/

/-- The loop over the complete groups, with the messages so far, how many were removed from them and
their size. -/
def compactFrom (loads : String → Option JsonValue) (system : String) (tools : List JsonValue)
    (maxBytes : ℕ) : List (ℕ × ℕ) → List JsonValue → ℕ → ℕ → List JsonValue
  | [], compacted, _, _ => compacted
  | (originalStart, originalEnd) :: rest, compacted, removed, currentSize =>
    let start := originalStart - removed
    let stop := originalEnd - removed
    let receipt := groupReceipt loads (compacted.getD start .null)
      ((compacted.drop (start + 1)).take (stop - (start + 1)))
    let candidate := compacted.take start ++ [receipt] ++ compacted.drop stop
    let candidateSize := contextSize system candidate tools
    if currentSize ≤ candidateSize then
      compactFrom loads system tools maxBytes rest compacted removed currentSize
    else if candidateSize ≤ maxBytes then candidate
    else compactFrom loads system tools maxBytes rest candidate (removed + (stop - start - 1))
      candidateSize

/-- `compact_tool_context`. -/
def compactToolContext (loads : String → Option JsonValue) (system : String)
    (messages tools : List JsonValue) (maxBytes : ℕ) : List JsonValue :=
  if contextSize system messages tools ≤ maxBytes then messages
  else compactFrom loads system tools maxBytes (completeGroups messages) messages 0
    (contextSize system messages tools)

/-! ### Blocks -/

/-- The messages in blocks: a message with the results that follow it. -/
def blocks : List JsonValue → List (List JsonValue)
  | [] => []
  | message :: rest =>
    (message :: rest.takeWhile isResult) :: blocks (rest.dropWhile isResult)
termination_by messages => messages.length
decreasing_by exact Nat.lt_succ_of_le (List.length_dropWhile_le _ _)

theorem blocks_cons (message : JsonValue) (rest : List JsonValue) :
    blocks (message :: rest) =
      (message :: rest.takeWhile isResult) :: blocks (rest.dropWhile isResult) := by
  rw [blocks]

/-- Results after a block belong to none. -/
def StartsBlock (messages : List JsonValue) : Prop :=
  ∀ message ∈ messages.head?, ¬ isResult message

theorem blocks_flatten (messages : List JsonValue) : (blocks messages).flatten = messages := by
  induction messages using blocks.induct with
  | case1 => rw [blocks, List.flatten_nil]
  | case2 message rest ih =>
    rw [blocks_cons, List.flatten_cons, ih, List.cons_append, List.takeWhile_append_dropWhile]

theorem startsBlock_dropWhile (messages : List JsonValue) :
    StartsBlock (messages.dropWhile isResult) := by
  intro message hmessage
  rw [Option.mem_def] at hmessage
  have hhead := List.head?_dropWhile_not isResult messages
  rw [hmessage] at hhead
  simpa using hhead

/-- The receipt of a block, when its results answer its calls. -/
def blockReceipt (loads : String → Option JsonValue) : List JsonValue → Option (List JsonValue)
  | [] => none
  | message :: results =>
    if answered message results then some [groupReceipt loads message results] else none

/-- The positions of the complete blocks. -/
def groupsOf : ℕ → List (List JsonValue) → List (ℕ × ℕ)
  | _, [] => []
  | start, [] :: rest => groupsOf start rest
  | start, (message :: results) :: rest =>
    if answered message results then
      (start, start + 1 + results.length) :: groupsOf (start + 1 + results.length) rest
    else groupsOf (start + 1 + results.length) rest

theorem not_answered_of_isResult {message : JsonValue} (h : isResult message)
    (results : List JsonValue) : answered message results = false := by
  have hrole : textAt message "role" = some "toolResult" := of_decide_eq_true h
  rw [answered, hrole]
  rfl

theorem completeGroupsFrom_append {results : List JsonValue} (h : ∀ result ∈ results, isResult result)
    (start : ℕ) (rest : List JsonValue) :
    completeGroupsFrom start (results ++ rest) =
      completeGroupsFrom (start + results.length) rest := by
  induction results generalizing start with
  | nil => rfl
  | cons result results ih =>
    obtain ⟨hresult, hresults⟩ := List.forall_mem_cons.mp h
    rw [List.cons_append, completeGroupsFrom]
    simp only [not_answered_of_isResult hresult, Bool.false_eq_true, if_false]
    rw [ih hresults, List.length_cons, add_assoc, add_comm 1]

theorem completeGroupsFrom_eq (start : ℕ) (messages : List JsonValue) :
    completeGroupsFrom start messages = groupsOf start (blocks messages) := by
  induction messages using blocks.induct generalizing start with
  | case1 => rw [blocks, completeGroupsFrom, groupsOf]
  | case2 message rest ih =>
    have hrest : ∀ next, completeGroupsFrom next rest =
        groupsOf (next + (rest.takeWhile isResult).length) (blocks (rest.dropWhile isResult)) := by
      intro next
      conv_lhs => rw [← List.takeWhile_append_dropWhile (p := isResult) (l := rest)]
      rw [completeGroupsFrom_append (fun _ ↦ List.mem_takeWhile_imp), ih]
    rw [blocks_cons, completeGroupsFrom, groupsOf, hrest]

/-! ### The size of a request -/

/-- The size of a request without its messages. -/
def envelopeSize (system : String) (tools : List JsonValue) : ℕ :=
  contextSize system [] tools - 2

/-- The size of a request with a message is the sum of the sizes of its messages and of the rest. -/
theorem contextSize_eq (system : String) {messages : List JsonValue} (tools : List JsonValue)
    (h : messages ≠ []) :
    contextSize system messages tools = envelopeSize system tools + itemsSize messages := by
  have hempty : (JsonValue.array []).wireSize = 2 := by decide
  have hsum : ∀ list, contextSize system list tools + 2 =
      contextSize system [] tools + (JsonValue.array list).wireSize := by
    intro list
    rw [← hempty]
    simp only [contextSize, wireSize, dumps, dumpsMembers, String.utf8ByteSize_append]
    omega
  obtain ⟨message, rest, rfl⟩ := List.exists_cons_of_ne_nil h
  have hmessages := hsum (message :: rest)
  have hnone := hsum []
  rw [wireSize_array_cons] at hmessages
  rw [envelopeSize]
  have hlarge : 2 ≤ contextSize system [] tools := by
    simp only [contextSize, wireSize, dumps, dumpsMembers, String.utf8ByteSize_append]
    have hbraces : ("\x7b" : String).utf8ByteSize = 1 ∧ ("\x7d" : String).utf8ByteSize = 1 := by decide
    omega
  omega

theorem totalCost_itemsSize (parts : List (List JsonValue)) :
    GreedyReplacement.totalCost itemsSize parts = itemsSize parts.flatten := by
  induction parts with
  | nil => rfl
  | cons part rest ih =>
    rw [GreedyReplacement.totalCost_cons, List.flatten_cons, itemsSize_append, ih]

/-! ### The loop replaces blocks -/

variable {parts : List (List JsonValue)} (loads : String → Option JsonValue)

/-- Assumes: blocks that are not empty. The loop over the complete groups among them, whatever
was done before, replaces them until the request fits. -/
theorem compactFrom_eq (system : String)
    (tools : List JsonValue) (maxBytes : ℕ)
    (hparts : ∀ part ∈ parts, part ≠ []) (done : List JsonValue) (removed : ℕ) :
    compactFrom loads system tools maxBytes (groupsOf (done.length + removed) parts)
        (done ++ parts.flatten) removed (contextSize system (done ++ parts.flatten) tools) =
      done ++ (GreedyReplacement.greedy (blockReceipt loads) itemsSize maxBytes
        (envelopeSize system tools + itemsSize done) parts).flatten := by
  induction parts generalizing done removed with
  | nil => rfl
  | cons part rest ih =>
    obtain ⟨hpart, hrest⟩ := List.forall_mem_cons.mp hparts
    obtain ⟨message, results, rfl⟩ := List.exists_cons_of_ne_nil hpart
    have hkept := ih hrest (done ++ (message :: results)) removed
    have hlength : (done ++ (message :: results)).length + removed =
        done.length + removed + 1 + results.length := by
      rw [List.length_append, List.length_cons]
      omega
    rw [hlength, itemsSize_append, ← add_assoc] at hkept
    simp only [List.append_assoc] at hkept
    by_cases hanswered : answered message results
    · have hsome : blockReceipt loads (message :: results) =
          some [groupReceipt loads message results] := if_pos hanswered
      have hstart : done.length + removed - removed = done.length := Nat.add_sub_cancel _ _
      have hstop : done.length + removed + 1 + results.length - removed =
          done.length + 1 + results.length := by omega
      have hmessage : (done ++ (message :: (results ++ rest.flatten))).getD done.length .null =
          message := by
        rw [List.getD_eq_getElem?_getD, List.getElem?_append_right (le_refl _), Nat.sub_self,
          List.getElem?_cons_zero, Option.getD_some]
      have hresults : ((done ++ (message :: (results ++ rest.flatten))).drop (done.length + 1)).take
          (done.length + 1 + results.length - (done.length + 1)) = results := by
        rw [List.drop_append, List.drop_of_length_le (Nat.le_succ _), Nat.add_sub_cancel_left,
          Nat.add_sub_cancel_left, List.nil_append, List.drop_one, List.tail_cons, List.take_left]
      have htake : (done ++ (message :: (results ++ rest.flatten))).take done.length = done :=
        List.take_left
      have hdrop : (done ++ (message :: (results ++ rest.flatten))).drop
          (done.length + 1 + results.length) = rest.flatten := by
        rw [add_assoc, List.drop_append, List.drop_of_length_le (by omega), List.nil_append,
          Nat.add_sub_cancel_left, add_comm 1, List.drop_succ_cons, List.drop_left]
      rw [groupsOf, if_pos hanswered, List.flatten_cons, List.cons_append, compactFrom]
      simp only [hstart, hstop, hmessage, hresults, htake, hdrop]
      have hbefore : contextSize system (done ++ message :: (results ++ rest.flatten)) tools =
          envelopeSize system tools + itemsSize done + itemsSize (message :: results) +
            itemsSize rest.flatten := by
        rw [contextSize_eq system tools (by simp), itemsSize_append, ← List.cons_append, itemsSize_append]
        omega
      have hafter : contextSize system
            (done ++ [groupReceipt loads message results] ++ rest.flatten) tools =
          envelopeSize system tools + itemsSize done +
            itemsSize [groupReceipt loads message results] + itemsSize rest.flatten := by
        rw [contextSize_eq system tools (by simp), itemsSize_append, itemsSize_append]
        omega
      have hreplaced := ih hrest (done ++ [groupReceipt loads message results])
        (removed + results.length)
      have hafterLength : (done ++ [groupReceipt loads message results]).length +
          (removed + results.length) = done.length + removed + 1 + results.length := by
        rw [List.length_append, List.length_singleton]
        omega
      have hremoved : removed + (done.length + 1 + results.length - done.length - 1) =
          removed + results.length := by omega
      rw [hafterLength, itemsSize_append, ← add_assoc] at hreplaced
      rw [List.cons_append] at hkept
      rw [hremoved, hkept, hreplaced, GreedyReplacement.greedy, hsome, hbefore, hafter]
      simp only [totalCost_itemsSize, Nat.add_le_add_iff_right, Nat.add_le_add_iff_left]
      split_ifs
      · rw [List.flatten_cons, List.cons_append]
      · rw [List.flatten_cons, List.append_assoc]
      · rw [List.flatten_cons, List.append_assoc]
    · have hnone : blockReceipt loads (message :: results) = none := if_neg hanswered
      rw [groupsOf, if_neg hanswered, List.flatten_cons, hkept, GreedyReplacement.greedy, hnone,
        List.flatten_cons]

/-! ### The blocks of the result -/

/-- Every part is a message with results, and no part but the first starts with a result. -/
def WellBlocked : List (List JsonValue) → Prop
  | [] => True
  | part :: rest =>
    (∃ message results, part = message :: results ∧ ∀ result ∈ results, isResult result) ∧
      StartsBlock rest.flatten ∧ WellBlocked rest

theorem blocks_wellBlocked (messages : List JsonValue) : WellBlocked (blocks messages) := by
  induction messages using blocks.induct with
  | case1 =>
    rw [blocks]
    trivial
  | case2 message rest ih =>
    rw [blocks_cons]
    refine ⟨⟨message, _, rfl, fun _ ↦ List.mem_takeWhile_imp⟩, ?_, ih⟩
    rw [blocks_flatten]
    exact startsBlock_dropWhile rest

theorem blocks_of_flatten (h : WellBlocked parts) :
    blocks parts.flatten = parts := by
  induction parts with
  | nil => rw [List.flatten_nil, blocks]
  | cons part rest ih =>
    obtain ⟨⟨message, results, rfl, hresults⟩, hstarts, hrest⟩ := h
    have hnone : rest.flatten.takeWhile isResult = [] ∧
        rest.flatten.dropWhile isResult = rest.flatten := by
      cases hflat : rest.flatten with
      | nil => exact ⟨rfl, rfl⟩
      | cons next others =>
        have hnext : ¬ isResult next := hstarts next (by rw [hflat]; rfl)
        exact ⟨List.takeWhile_cons_of_neg hnext, List.dropWhile_cons_of_neg hnext⟩
    rw [List.flatten_cons, List.cons_append, blocks_cons, List.takeWhile_append_of_pos hresults,
      List.dropWhile_append_of_pos hresults, hnone.1, hnone.2, List.append_nil, ih hrest]

theorem WellBlocked.ne_nil (h : WellBlocked parts) :
    ∀ part ∈ parts, part ≠ [] := by
  induction parts with
  | nil => exact List.forall_mem_nil _
  | cons part rest ih =>
    obtain ⟨⟨message, results, rfl, -⟩, -, hrest⟩ := h
    exact List.forall_mem_cons.mpr ⟨List.cons_ne_nil _ _, ih hrest⟩

theorem receipt_not_isResult (message : JsonValue)
    (results : List JsonValue) : ¬ isResult (groupReceipt loads message results) := by
  unfold isResult
  exact fun hrole ↦ absurd (of_decide_eq_true hrole) (by simp [textAt, groupReceipt, get?])

theorem replaced_cases (chosen : Bool) (message : JsonValue)
    (results : List JsonValue) :
    (if chosen then (blockReceipt loads (message :: results)).getD (message :: results)
      else message :: results) = message :: results ∨
    (if chosen then (blockReceipt loads (message :: results)).getD (message :: results)
      else message :: results) = [groupReceipt loads message results] := by
  cases chosen with
  | false => exact .inl rfl
  | true =>
    by_cases hanswered : answered message results
    · have hsome : blockReceipt loads (message :: results) =
          some [groupReceipt loads message results] := if_pos hanswered
      exact .inr (by rw [hsome]; rfl)
    · have hnone : blockReceipt loads (message :: results) = none := if_neg hanswered
      exact .inl (by rw [hnone]; rfl)

/-- Assumes: blocks that start with no result. Neither does the message that stands there after
replacements. -/
theorem startsBlock_replaceAt (chosen : ℕ → Bool)
    (h : WellBlocked parts) (hstarts : StartsBlock parts.flatten) :
    StartsBlock (GreedyReplacement.replaceAt (blockReceipt loads) chosen parts).flatten := by
  cases parts with
  | nil => exact hstarts
  | cons part rest =>
    obtain ⟨⟨message, results, rfl, -⟩, -, -⟩ := h
    rw [GreedyReplacement.replaceAt_cons, List.flatten_cons]
    rcases replaced_cases loads (chosen 0) message results with hsame | hreceipt
    · rw [hsame]
      exact fun other hother ↦ hstarts other hother
    · rw [hreceipt]
      intro other hother
      obtain rfl := Option.some.inj hother
      exact receipt_not_isResult loads message results

theorem WellBlocked.replaceAt (chosen : ℕ → Bool)
    (h : WellBlocked parts) :
    WellBlocked (GreedyReplacement.replaceAt (blockReceipt loads) chosen parts) := by
  induction parts generalizing chosen with
  | nil => trivial
  | cons part rest ih =>
    obtain ⟨⟨message, results, rfl, hresults⟩, hstarts, hrest⟩ := h
    rw [GreedyReplacement.replaceAt_cons]
    refine ⟨?_, startsBlock_replaceAt loads _ hrest hstarts, ih _ hrest⟩
    rcases replaced_cases loads (chosen 0) message results with hsame | hreceipt
    · exact ⟨message, results, hsame, hresults⟩
    · exact ⟨_, [], hreceipt, List.forall_mem_nil _⟩

theorem contextSize_replaceAt (system : String)
    (tools : List JsonValue) (chosen : ℕ → Bool) {messages : List JsonValue} (h : messages ≠ []) :
    contextSize system
        (GreedyReplacement.replaceAt (blockReceipt loads) chosen (blocks messages)).flatten tools =
      envelopeSize system tools + GreedyReplacement.totalCost itemsSize
        (GreedyReplacement.replaceAt (blockReceipt loads) chosen (blocks messages)) := by
  rw [totalCost_itemsSize]
  apply contextSize_eq
  obtain ⟨message, rest, rfl⟩ := List.exists_cons_of_ne_nil h
  have hwell := (blocks_wellBlocked (message :: rest)).replaceAt loads chosen
  rw [blocks_cons, GreedyReplacement.replaceAt_cons] at hwell ⊢
  rw [List.flatten_cons]
  exact List.append_ne_nil_of_left_ne_nil (hwell.ne_nil _ List.mem_cons_self) _

/-- The result is the messages with some complete groups replaced by their receipts: its blocks are the
blocks of the messages, or receipts, so that the results of every call that stays follow it. It is no
larger. It fits if replacing some complete groups fits, and a group is replaced only if replacing all
older ones that get smaller does not fit. -/
theorem compaction_exact (loads : String → Option JsonValue) (system : String)
    (messages tools : List JsonValue) (maxBytes : ℕ) :
    ∃ chosen, blocks (compactToolContext loads system messages tools maxBytes) =
        GreedyReplacement.replaceAt (blockReceipt loads) chosen (blocks messages) ∧
      contextSize system (compactToolContext loads system messages tools maxBytes) tools ≤
        contextSize system messages tools ∧
      (∀ other, contextSize system (GreedyReplacement.replaceAt (blockReceipt loads) other
          (blocks messages)).flatten tools ≤ maxBytes →
        contextSize system (compactToolContext loads system messages tools maxBytes) tools ≤
          maxBytes) ∧
      ∀ index, chosen index → maxBytes < contextSize system
        (GreedyReplacement.replaceAt (blockReceipt loads)
          (GreedyReplacement.older (blockReceipt loads) itemsSize (blocks messages) index)
          (blocks messages)).flatten tools := by
  unfold compactToolContext
  split_ifs with hfits
  · exact ⟨fun _ ↦ false, (GreedyReplacement.replaceAt_none _).symm, le_refl _, fun _ _ ↦ hfits,
      fun _ ↦ nofun⟩
  · by_cases hempty : messages = []
    · subst hempty
      have hnone : blocks [] = [] := by rw [blocks]
      exact ⟨fun _ ↦ false, by rw [hnone]; exact hnone, le_refl _,
        fun other hother ↦ by rw [hnone] at hother; exact hother, fun _ ↦ nofun⟩
    · have hnothing : itemsSize [] = 0 := rfl
      have hloop := compactFrom_eq loads system tools maxBytes
        (blocks_wellBlocked messages).ne_nil [] 0
      rw [List.nil_append, List.nil_append, List.length_nil, zero_add, blocks_flatten,
        ← completeGroupsFrom_eq, hnothing, add_zero] at hloop
      have hover : maxBytes < envelopeSize system tools +
          GreedyReplacement.totalCost itemsSize (blocks messages) := by
        rw [totalCost_itemsSize, blocks_flatten, ← contextSize_eq system tools hempty]
        exact not_le.mp hfits
      obtain ⟨chosen, houtcome⟩ := @GreedyReplacement.greedy_outcome _ (blockReceipt loads) itemsSize
        maxBytes (envelopeSize system tools) (blocks messages) hover
      have hsize := contextSize_replaceAt loads system tools
      rw [completeGroups, hloop, houtcome.replaced,
        blocks_of_flatten ((blocks_wellBlocked messages).replaceAt loads chosen)]
      refine ⟨chosen, rfl, ?_, fun other hother ↦ ?_, fun index hindex ↦ ?_⟩
      · rw [hsize chosen hempty, contextSize_eq system tools hempty, ← houtcome.replaced,
          ← blocks_flatten messages, ← totalCost_itemsSize, blocks_flatten]
        exact Nat.add_le_add_left houtcome.totalCost_le _
      · rw [hsize other hempty] at hother
        rw [hsize chosen hempty, ← houtcome.replaced]
        exact houtcome.fits_of_fits other hother
      · rw [hsize _ hempty]
        exact houtcome.needed index hindex

end Schemii.AiContext
