import Schemii.Foundations.JsonText
import Mathlib.Data.List.Infix

/-!
# Samples of raw results

`results` of `ai/raw_actions.py`: what an assistant sees of an execution, its results with a sample of
their rows, its error message and its notices, within a budget of bytes and one of rows.

The response is built piece by piece, and a piece that makes it too large is taken out again. Counters
grow afterwards, so results are taken out at the end until the response fits. `results_exact`: the
response respects its budgets and says what it leaves out, if the response without any piece fits with
the counter of left out results at its largest. `counter_exceeds_budget` is a budget for which only the
empty response fits, and a receipt with a hundred results.
-/

set_option autoImplicit false

namespace Schemii.AiContext

open Foundations JsonValue

/-! ### Receipts and responses -/

/-- A result of an execution: its members other than the rows, and its rows. -/
structure StoredResult where
  members : List (String × JsonValue)
  rows : List JsonValue
  deriving Repr

/-- A receipt of an execution. -/
structure ExecutionReceipt where
  status : String
  results : List StoredResult
  errorMessage : Option String
  notices : List JsonValue
  deriving Repr

/-- A result in a response. -/
structure SampledResult where
  source : StoredResult
  rows : List JsonValue
  returnedRows : ℕ
  sampled : Bool
  deriving Repr

/-- A response. -/
structure ResultsResponse where
  sessionId : String
  executionId : String
  status : String
  results : List SampledResult
  sampled : Bool
  omittedResults : ℕ
  notices : List JsonValue
  errorMessage : Option String
  deriving Repr

/-- `dict.update` of one key. -/
def setKey (members : List (String × JsonValue)) (key : String) (value : JsonValue) :
    List (String × JsonValue) :=
  if members.any fun member ↦ member.1 = key then
    members.map fun member ↦ if member.1 = key then (key, value) else member
  else members ++ [(key, value)]

/-- A number. -/
def count (number : ℕ) : JsonValue :=
  .number (toString number)

/-- A result as a value. -/
def SampledResult.toJson (result : SampledResult) : JsonValue :=
  .object (setKey (setKey (setKey result.source.members "rows" (.array result.rows))
    "returnedRows" (count result.returnedRows)) "sampled" (.bool result.sampled))

/-- A response as a value. -/
def ResultsResponse.toJson (response : ResultsResponse) : JsonValue :=
  .object ([("sessionId", .string response.sessionId), ("executionId", .string response.executionId),
    ("status", .string response.status),
    ("results", .array (response.results.map SampledResult.toJson)), ("transientData", .bool true),
    ("sampled", .bool response.sampled), ("omittedResults", count response.omittedResults),
    ("notices", .array response.notices),
    ("sampleNotice",
      .string "Values are bounded samples from this session. SQL was not replayed.")] ++
    (response.errorMessage.map fun message ↦ ("errorMessage", JsonValue.string message)).toList)

/-- The size of a response. -/
def ResultsResponse.size (response : ResultsResponse) : ℕ :=
  response.toJson.wireSize

/-! ### The pieces -/

/-- The loop over the rows of a result: the rows that are taken, and how many more there may be. -/
def takeRows (fits : List JsonValue → Bool) : ℕ → List JsonValue → List JsonValue →
    List JsonValue × ℕ
  | remaining, taken, [] => (taken, remaining)
  | 0, taken, _ :: _ => (taken, 0)
  | remaining + 1, taken, row :: rest =>
    if fits (taken ++ [row]) then takeRows fits remaining (taken ++ [row]) rest
    else (taken, remaining + 1)

section Pieces

variable (maxBytes : ℕ)

/-- `fits`. -/
def fits (response : ResultsResponse) : Bool :=
  response.size ≤ maxBytes

/-- The loop body for a result. -/
def addResult (state : ResultsResponse × ℕ) (source : StoredResult) : ResultsResponse × ℕ :=
  let (response, remaining) := state
  let result : SampledResult :=
    ⟨source, [], 0, ((source.members.lookup "truncated").getD .null).truthy⟩
  if fits maxBytes { response with results := response.results ++ [result] } then
    let (rows, left) := takeRows (fun rows ↦ fits maxBytes
      { response with results := response.results ++ [{ result with rows := rows }] })
      remaining [] source.rows
    let result := { result with
      rows := rows
      returnedRows := rows.length
      sampled := result.sampled || decide (rows.length ≠ source.rows.length) }
    ({ response with
      results := response.results ++ [result]
      sampled := response.sampled || result.sampled }, left)
  else
    ({ response with omittedResults := response.omittedResults + 1, sampled := true }, remaining)

/-- The error message, if there is one that is not empty. -/
def addErrorMessage (response : ResultsResponse) (errorMessage : Option String) : ResultsResponse :=
  match errorMessage with
  | none => response
  | some message =>
    if message = "" then response
    else if fits maxBytes { response with errorMessage := some message } then
      { response with errorMessage := some message }
    else { response with sampled := true }

/-- The loop over the notices. -/
def addNotices : ResultsResponse → List JsonValue → ResultsResponse
  | response, [] => response
  | response, notice :: rest =>
    if fits maxBytes { response with notices := response.notices ++ [notice] } then
      addNotices { response with notices := response.notices ++ [notice] } rest
    else { response with sampled := true }

/-- A result is taken out. -/
def dropResult (response : ResultsResponse) : ResultsResponse :=
  { response with
    results := response.results.dropLast
    omittedResults := response.omittedResults + 1
    sampled := true }

/-- The last loop, which ends after as many steps as there are results. -/
def dropResults : ℕ → ResultsResponse → ResultsResponse
  | 0, response => response
  | steps + 1, response =>
    if fits maxBytes response ∨ response.results = [] then response
    else dropResults steps (dropResult response)

/-- The response without any piece. -/
def emptyResponse (sessionId executionId : String) (receipt : ExecutionReceipt) : ResultsResponse :=
  ⟨sessionId, executionId, receipt.status, [], false, 0, [], none⟩

/-- The response for a receipt. -/
def sampleResults (maxRows : ℕ) (sessionId executionId : String) (receipt : ExecutionReceipt) :
    ResultsResponse :=
  let (response, _) := receipt.results.foldl (addResult maxBytes)
    (emptyResponse sessionId executionId receipt, maxRows)
  let response := addErrorMessage maxBytes response receipt.errorMessage
  let response := addNotices maxBytes response receipt.notices
  dropResults maxBytes response.results.length response

end Pieces

/-- `ApiProblem`. -/
structure ApiProblem where
  status : ℕ
  code : String
  message : String
  deriving DecidableEq, Repr

/-- `results`, with what is found of a session. -/
def results (structuredDataRead : Bool)
    (session : String → Except ApiProblem (String → Option ExecutionReceipt))
    (maxBytes maxRows : ℕ) (sessionId executionId : String) : Except ApiProblem ResultsResponse :=
  if structuredDataRead then
    match session sessionId with
    | .error problem => .error problem
    | .ok executions =>
      match executions executionId with
      | none => .error
          ⟨404, "console_execution_not_found", "The result expired; SQL was not replayed"⟩
      | some receipt => .ok (sampleResults maxBytes maxRows sessionId executionId receipt)
  else .error ⟨403, "ai_permission_required", "Enable Analyze query results"⟩

/-! ### What the response says -/

/-- The rows of a response. -/
def ResultsResponse.rowCount (response : ResultsResponse) : ℕ :=
  (response.results.map fun result ↦ result.rows.length).sum

/-- What a response says of results: it has samples of some of them, within a budget of rows, counts the
others, and says so when rows or results are missing. -/
structure Samples (stored : List StoredResult) (maxRows : ℕ) (response : ResultsResponse) : Prop where
  rows : response.rowCount ≤ maxRows
  included : (response.results.map fun result ↦ result.source).Sublist stored
  prefixes : ∀ result ∈ response.results,
    result.rows <+: result.source.rows ∧ result.returnedRows = result.rows.length
  omitted : response.omittedResults + response.results.length = stored.length
  omittedSampled : response.omittedResults ≠ 0 → response.sampled
  rowsSampled : ∀ result ∈ response.results, result.rows ≠ result.source.rows → response.sampled

/-- What a response says of an execution. -/
structure SamplesReceipt (receipt : ExecutionReceipt) (maxRows : ℕ)
    (response : ResultsResponse) : Prop extends Samples receipt.results maxRows response where
  noticesSampled : response.notices ≠ receipt.notices → response.sampled
  errorSampled : ∀ message, receipt.errorMessage = some message → message ≠ "" →
    response.errorMessage ≠ some message → response.sampled

/-! ### Rows -/

theorem takeRows_spec (fits : List JsonValue → Bool) (remaining : ℕ) (taken rest : List JsonValue) :
    ∃ more, (takeRows fits remaining taken rest).1 = taken ++ more ∧ more <+: rest ∧
      more.length + (takeRows fits remaining taken rest).2 = remaining := by
  induction rest generalizing remaining taken with
  | nil =>
    refine ⟨[], ?_, List.prefix_refl _, ?_⟩
    · rw [takeRows, List.append_nil]
    · rw [takeRows, List.length_nil, zero_add]
  | cons row rest ih =>
    cases remaining with
    | zero => exact ⟨[], (List.append_nil _).symm, List.nil_prefix, rfl⟩
    | succ remaining =>
      unfold takeRows
      split_ifs with hfits
      · obtain ⟨more, htaken, hinitial, hcount⟩ := ih remaining (taken ++ [row])
        refine ⟨row :: more, ?_, List.cons_prefix_cons.mpr ⟨rfl, hinitial⟩, ?_⟩
        · rw [htaken, List.append_assoc, List.singleton_append]
        · rw [List.length_cons]
          omega
      · exact ⟨[], (List.append_nil _).symm, List.nil_prefix, by rw [List.length_nil, zero_add]⟩

/-! ### Results -/

section Pieces

variable (maxBytes : ℕ) {maxRows : ℕ} {stored : List StoredResult} {response : ResultsResponse}

/-- Assumes: samples of results, with rows to spare. So are those with the next result. -/
theorem addResult_samples {remaining : ℕ} (source : StoredResult)
    (h : Samples stored (maxRows - remaining) response) (hremaining : remaining ≤ maxRows) :
    Samples (stored ++ [source]) (maxRows - (addResult maxBytes (response, remaining) source).2)
        (addResult maxBytes (response, remaining) source).1 ∧
      (addResult maxBytes (response, remaining) source).2 ≤ maxRows := by
  unfold addResult
  simp only
  split_ifs with hfits
  · have hspec := takeRows_spec (fun rows ↦ fits maxBytes
      { response with results := response.results ++ [⟨source, rows, 0,
        ((source.members.lookup "truncated").getD .null).truthy⟩] }) remaining [] source.rows
    generalize takeRows (fun rows ↦ fits maxBytes
      { response with results := response.results ++ [⟨source, rows, 0,
        ((source.members.lookup "truncated").getD .null).truthy⟩] })
      remaining [] source.rows = taken at hspec ⊢
    obtain ⟨rows, left⟩ := taken
    obtain ⟨more, htaken, hinitial, hcount⟩ := hspec
    obtain rfl : rows = more := htaken
    have hcount : rows.length + left = remaining := hcount
    refine ⟨⟨?_, ?_, ?_, ?_, ?_, ?_⟩, (by omega : left ≤ maxRows)⟩
    · have hrows := h.rows
      unfold ResultsResponse.rowCount at hrows ⊢
      rw [List.map_append, List.sum_append, List.map_singleton, List.sum_singleton]
      have hsum : (response.results.map fun result ↦ result.rows.length).sum + rows.length ≤
          maxRows - left := by omega
      exact hsum
    · rw [List.map_append]
      exact h.included.append (List.Sublist.refl _)
    · exact List.forall_mem_append.mpr
        ⟨h.prefixes, List.forall_mem_singleton.mpr ⟨hinitial, rfl⟩⟩
    · have homitted := h.omitted
      rw [List.length_append, List.length_append, List.length_singleton, List.length_singleton,
        ← add_assoc]
      exact congrArg (· + 1) homitted
    · intro homitted
      rw [h.omittedSampled homitted]
      rfl
    · refine List.forall_mem_append.mpr ⟨fun result hresult hcut ↦ ?_,
        List.forall_mem_singleton.mpr fun hcut ↦ ?_⟩
      · rw [h.rowsSampled result hresult hcut]
        rfl
      · have hlength : decide (rows.length ≠ source.rows.length) = true :=
          decide_eq_true fun hsame ↦ hcut (hinitial.eq_of_length hsame)
        simp only [hlength, Bool.or_true]
  · refine ⟨⟨h.rows, h.included.trans (List.sublist_append_left _ _), h.prefixes, ?_,
      fun _ ↦ rfl, fun _ _ _ ↦ rfl⟩, hremaining⟩
    have homitted := h.omitted
    rw [List.length_append, List.length_singleton, ← homitted]
    simp only
    omega

theorem addResults_samples {remaining : ℕ} (sources : List StoredResult)
    (h : Samples stored (maxRows - remaining) response) (hremaining : remaining ≤ maxRows) :
    Samples (stored ++ sources) maxRows
      (sources.foldl (addResult maxBytes) (response, remaining)).1 := by
  induction sources generalizing stored response remaining with
  | nil =>
    rw [List.append_nil]
    exact { h with rows := h.rows.trans (Nat.sub_le _ _) }
  | cons source sources ih =>
    obtain ⟨hsamples, hleft⟩ := addResult_samples maxBytes source h hremaining
    rw [List.foldl_cons, List.append_cons]
    exact ih hsamples hleft

/-- What no piece changes. -/
def ResultsResponse.envelope (response : ResultsResponse) : ResultsResponse :=
  { response with
    results := []
    sampled := false
    omittedResults := 0
    notices := []
    errorMessage := none }

theorem addResult_of_not_fits (source : StoredResult) (remaining : ℕ)
    (h : ¬ fits maxBytes { response with results := response.results ++
      [⟨source, [], 0, ((source.members.lookup "truncated").getD .null).truthy⟩] }) :
    addResult maxBytes (response, remaining) source =
      ({ response with omittedResults := response.omittedResults + 1, sampled := true },
        remaining) := by
  unfold addResult
  simp only [h, Bool.false_eq_true, if_false]

theorem addResult_frame (state : ResultsResponse × ℕ) (source : StoredResult) :
    (addResult maxBytes state source).1.envelope = state.1.envelope ∧
      (addResult maxBytes state source).1.notices = state.1.notices ∧
      (addResult maxBytes state source).1.errorMessage = state.1.errorMessage := by
  unfold addResult
  simp only
  split_ifs <;> exact ⟨rfl, rfl, rfl⟩

theorem addResults_frame (state : ResultsResponse × ℕ) (sources : List StoredResult) :
    (sources.foldl (addResult maxBytes) state).1.envelope = state.1.envelope ∧
      (sources.foldl (addResult maxBytes) state).1.notices = state.1.notices ∧
      (sources.foldl (addResult maxBytes) state).1.errorMessage = state.1.errorMessage := by
  induction sources generalizing state with
  | nil => exact ⟨rfl, rfl, rfl⟩
  | cons source sources ih =>
    obtain ⟨henvelope, hnotices, herror⟩ := ih (addResult maxBytes state source)
    obtain ⟨hfirstEnvelope, hfirstNotices, hfirstError⟩ :=
      addResult_frame maxBytes state source
    exact ⟨henvelope.trans hfirstEnvelope, hnotices.trans hfirstNotices,
      herror.trans hfirstError⟩

/-! ### The error message and the notices -/

omit maxBytes in
theorem Samples.mark (h : Samples stored maxRows response) :
    Samples stored maxRows { response with sampled := true } :=
  { h with
    omittedSampled := fun _ ↦ rfl
    rowsSampled := fun _ _ _ ↦ rfl }

theorem fits_mark (h : fits maxBytes response) : fits maxBytes { response with sampled := true } := by
  refine decide_eq_true (le_trans ?_ (of_decide_eq_true h))
  have hfalse : ("false" : String).utf8ByteSize = 5 := by decide
  have htrue : ("true" : String).utf8ByteSize = 4 := by decide
  cases hsampled : response.sampled with
  | true => rw [ResultsResponse.size, ResultsResponse.size, ResultsResponse.toJson,
      ResultsResponse.toJson, hsampled]
  | false =>
    cases hmessage : response.errorMessage with
    | none | some message =>
      simp only [ResultsResponse.size, ResultsResponse.toJson, hsampled, hmessage, wireSize, dumps,
        dumpsMembers, Option.map_none, Option.map_some, Option.toList_none, Option.toList_some,
        List.append_nil, List.cons_append, List.nil_append, String.utf8ByteSize_append, hfalse,
        htrue]
      omega

/-- Assumes: samples without an error message or notices. The error message is there, or the response
says that it is sampled. -/
theorem addErrorMessage_spec (errorMessage : Option String)
    (h : Samples stored maxRows response) (herror : response.errorMessage = none) :
    Samples stored maxRows (addErrorMessage maxBytes response errorMessage) ∧
      (addErrorMessage maxBytes response errorMessage).envelope = response.envelope ∧
      (addErrorMessage maxBytes response errorMessage).notices = response.notices ∧
      (fits maxBytes (addErrorMessage maxBytes response errorMessage) ∨
        (addErrorMessage maxBytes response errorMessage).errorMessage = none) ∧
      ∀ message, errorMessage = some message → message ≠ "" →
        (addErrorMessage maxBytes response errorMessage).errorMessage ≠ some message →
        (addErrorMessage maxBytes response errorMessage).sampled := by
  cases errorMessage with
  | none => exact ⟨h, rfl, rfl, .inr herror, nofun⟩
  | some message =>
    unfold addErrorMessage
    simp only
    split_ifs with hempty hfits
    · refine ⟨h, rfl, rfl, .inr herror, ?_⟩
      rintro other hother hfull
      exact absurd (Option.some.inj hother ▸ hempty) hfull
    · refine ⟨{ h with }, rfl, rfl, .inl hfits, ?_⟩
      rintro other hother - hmissing
      exact absurd hother hmissing
    · exact ⟨h.mark, rfl, rfl, .inr herror, fun _ _ _ _ ↦ rfl⟩

/-- Assumes: samples that fit, or have neither an error message nor notices. So do those with the
notices, and the notices are there or the response says that it is sampled. -/
theorem addNotices_spec (rest : List JsonValue) (h : Samples stored maxRows response)
    (hfits : fits maxBytes response ∨ response.notices = [] ∧ response.errorMessage = none) :
    Samples stored maxRows (addNotices maxBytes response rest) ∧
      (addNotices maxBytes response rest).envelope = response.envelope ∧
      (addNotices maxBytes response rest).errorMessage = response.errorMessage ∧
      (fits maxBytes (addNotices maxBytes response rest) ∨
        (addNotices maxBytes response rest).notices = [] ∧
          (addNotices maxBytes response rest).errorMessage = none) ∧
      (response.sampled → (addNotices maxBytes response rest).sampled) ∧
      ((addNotices maxBytes response rest).notices ≠ response.notices ++ rest →
        (addNotices maxBytes response rest).sampled) := by
  induction rest generalizing response with
  | nil =>
    refine ⟨h, rfl, rfl, hfits, id, fun hmissing ↦ ?_⟩
    rw [List.append_nil] at hmissing
    exact absurd rfl hmissing
  | cons notice rest ih =>
    unfold addNotices
    split_ifs with hnotice
    · obtain ⟨hsamples, henvelope, herror, hlater, hsampled, hmissing⟩ :=
        @ih { response with notices := response.notices ++ [notice] } { h with } (.inl hnotice)
      rw [List.append_assoc, List.singleton_append] at hmissing
      exact ⟨hsamples, henvelope, herror, hlater, hsampled, hmissing⟩
    · exact ⟨h.mark, rfl, rfl, hfits.imp_left (fits_mark maxBytes), fun _ ↦ rfl, fun _ ↦ rfl⟩

/-! ### The last loop -/

omit maxBytes in
theorem Samples.drop (h : Samples stored maxRows response) (hsome : response.results ≠ []) :
    Samples stored maxRows (dropResult response) where
  rows := by
    have hsublist : (response.results.dropLast.map fun result ↦ result.rows.length).Sublist
        (response.results.map fun result ↦ result.rows.length) :=
      (List.dropLast_sublist _).map _
    exact (hsublist.sum_le_sum fun _ _ ↦ Nat.zero_le _).trans h.rows
  included := ((List.dropLast_sublist _).map _).trans h.included
  prefixes := fun result hresult ↦ h.prefixes result (List.mem_of_mem_dropLast hresult)
  omitted := by
    have homitted := h.omitted
    have hpositive := List.length_pos_iff.mpr hsome
    have hlength : response.omittedResults + 1 + response.results.dropLast.length =
        stored.length := by
      rw [List.length_dropLast]
      omega
    exact hlength
  omittedSampled := fun _ ↦ rfl
  rowsSampled := fun _ _ _ ↦ rfl

theorem dropResults_spec {steps : ℕ} (h : Samples stored maxRows response)
    (hsteps : response.results.length ≤ steps) :
    Samples stored maxRows (dropResults maxBytes steps response) ∧
      (dropResults maxBytes steps response).envelope = response.envelope ∧
      (dropResults maxBytes steps response).notices = response.notices ∧
      (dropResults maxBytes steps response).errorMessage = response.errorMessage ∧
      (response.sampled → (dropResults maxBytes steps response).sampled) ∧
      (fits maxBytes (dropResults maxBytes steps response) ∨
        ¬ fits maxBytes response ∧ (dropResults maxBytes steps response).results = []) := by
  induction steps generalizing response with
  | zero =>
    have hnone : response.results = [] := List.length_eq_zero_iff.mp (Nat.le_zero.mp hsteps)
    refine ⟨h, rfl, rfl, rfl, id, ?_⟩
    by_cases hfits : fits maxBytes response
    · exact .inl hfits
    · exact .inr ⟨hfits, hnone⟩
  | succ steps ih =>
    unfold dropResults
    split_ifs with hdone
    · refine ⟨h, rfl, rfl, rfl, id, ?_⟩
      by_cases hfits : fits maxBytes response
      · exact .inl hfits
      · exact .inr ⟨hfits, hdone.resolve_left hfits⟩
    · obtain ⟨hlarge, hsome⟩ := not_or.mp hdone
      have hfewer : (dropResult response).results.length ≤ steps := by
        rw [dropResult, List.length_dropLast]
        omega
      obtain ⟨hsamples, henvelope, hnotices, herror, hsampled, hlast⟩ := ih (h.drop hsome) hfewer
      exact ⟨hsamples, henvelope, hnotices, herror, fun _ ↦ hsampled rfl,
        hlast.imp_right fun hnone ↦ ⟨hlarge, hnone.2⟩⟩

end Pieces

/-! ### The response -/

/-- The response without any piece, when it has left out all results. -/
def fullestEnvelope (sessionId executionId : String) (receipt : ExecutionReceipt) : ResultsResponse :=
  { emptyResponse sessionId executionId receipt with
    sampled := true
    omittedResults := receipt.results.length }

theorem fits_of_empty {maxBytes maxRows : ℕ} {sessionId executionId : String}
    {receipt : ExecutionReceipt} {response : ResultsResponse}
    (hempty : fits maxBytes (emptyResponse sessionId executionId receipt))
    (hfullest : fits maxBytes (fullestEnvelope sessionId executionId receipt))
    (h : Samples receipt.results maxRows response)
    (henvelope : response.envelope = emptyResponse sessionId executionId receipt)
    (hresults : response.results = []) (hnotices : response.notices = [])
    (herror : response.errorMessage = none) : fits maxBytes response := by
  have homitted : response.omittedResults = receipt.results.length := by
    rw [← h.omitted, hresults, List.length_nil, add_zero]
  have hshape : response = { emptyResponse sessionId executionId receipt with
      sampled := response.sampled
      omittedResults := response.omittedResults } := by
    rw [← henvelope]
    obtain ⟨_, _, _, _, _, _, _, _⟩ := response
    obtain rfl := hresults
    obtain rfl := hnotices
    obtain rfl := herror
    rfl
  by_cases hnone : response.omittedResults = 0
  · rw [hshape, hnone]
    cases response.sampled with
    | true => exact fits_mark maxBytes hempty
    | false => exact hempty
  · rw [hshape, h.omittedSampled hnone, homitted]
    exact hfullest

theorem results_ok {session : String → Except ApiProblem (String → Option ExecutionReceipt)}
    {maxBytes maxRows : ℕ} {sessionId executionId : String}
    {executions : String → Option ExecutionReceipt} {receipt : ExecutionReceipt}
    (hsession : session sessionId = .ok executions)
    (hreceipt : executions executionId = some receipt) :
    results true session maxBytes maxRows sessionId executionId =
      .ok (sampleResults maxBytes maxRows sessionId executionId receipt) := by
  simp only [results, hsession, hreceipt, if_true]

/-- Assumes: budgets for which the response without any piece fits, also when it has left out all
results. The response respects its budgets and says what it leaves out. -/
theorem results_exact {session : String → Except ApiProblem (String → Option ExecutionReceipt)}
    {maxBytes maxRows : ℕ} {sessionId executionId : String}
    {executions : String → Option ExecutionReceipt} {receipt : ExecutionReceipt}
    (hsession : session sessionId = .ok executions) (hreceipt : executions executionId = some receipt)
    (hempty : fits maxBytes (emptyResponse sessionId executionId receipt))
    (hfullest : fits maxBytes (fullestEnvelope sessionId executionId receipt)) :
    ∃ response, results true session maxBytes maxRows sessionId executionId = .ok response ∧
      response.size ≤ maxBytes ∧ SamplesReceipt receipt maxRows response := by
  have hstart : Samples [] (maxRows - maxRows) (emptyResponse sessionId executionId receipt) :=
    ⟨Nat.zero_le _, List.Sublist.refl _, List.forall_mem_nil _, rfl, fun hnone ↦ absurd rfl hnone,
      List.forall_mem_nil _⟩
  have hadded := addResults_samples maxBytes receipt.results hstart (le_refl _)
  obtain ⟨henvelope, hnoNotices, hnoError⟩ := addResults_frame maxBytes
    (emptyResponse sessionId executionId receipt, maxRows) receipt.results
  rw [List.nil_append] at hadded
  generalize hfold : receipt.results.foldl (addResult maxBytes)
    (emptyResponse sessionId executionId receipt, maxRows) = state at hadded henvelope hnoNotices hnoError
  obtain ⟨herrorSamples, herrorEnvelope, herrorNotices, herrorFits, herrorSampled⟩ :=
    addErrorMessage_spec maxBytes receipt.errorMessage hadded hnoError
  have hwithout := herrorNotices.trans hnoNotices
  obtain ⟨hnoticeSamples, hnoticeEnvelope, hnoticeError, hnoticeFits, hstays, hnoticeSampled⟩ :=
    addNotices_spec maxBytes receipt.notices herrorSamples
      (herrorFits.imp_right fun hnone ↦ ⟨hwithout, hnone⟩)
  obtain ⟨hsamples, hlastEnvelope, hlastNotices, hlastError, hlastSampled, hlast⟩ :=
    dropResults_spec maxBytes hnoticeSamples (le_refl _)
  have hresponse : sampleResults maxBytes maxRows sessionId executionId receipt =
      dropResults maxBytes (addNotices maxBytes (addErrorMessage maxBytes state.1
        receipt.errorMessage) receipt.notices).results.length
        (addNotices maxBytes (addErrorMessage maxBytes state.1 receipt.errorMessage)
          receipt.notices) := by
    rw [sampleResults, hfold]
  rw [← hresponse] at hsamples hlastEnvelope hlastNotices hlastError hlastSampled hlast
  refine ⟨_, results_ok hsession hreceipt, ?_, { hsamples with noticesSampled := ?_, errorSampled := ?_ }⟩
  · refine of_decide_eq_true (p := _ ≤ maxBytes) ?_
    rcases hlast with hfits | ⟨hlarge, hnone⟩
    · exact hfits
    · obtain ⟨hnotices, herror⟩ := hnoticeFits.resolve_left hlarge
      exact fits_of_empty hempty hfullest hsamples
        (hlastEnvelope.trans (hnoticeEnvelope.trans (herrorEnvelope.trans henvelope))) hnone
        (hlastNotices.trans hnotices) (hlastError.trans herror)
  · intro hmissing
    refine hlastSampled (hnoticeSampled ?_)
    rwa [← hlastNotices, hwithout]
  · intro message hmessage hsome hmissing
    refine hlastSampled (hstays (herrorSampled message hmessage hsome ?_))
    rwa [← hnoticeError, ← hlastError]

/-! ### Samples of two receipts -/

/-- A receipt of results without rows. -/
def manyResults (number : ℕ) : ExecutionReceipt :=
  ⟨"succeeded", List.replicate number ⟨[], []⟩, none, []⟩

/-- A session with one execution. -/
def oneExecution (receipt : ExecutionReceipt) (_ : String) :
    Except ApiProblem (String → Option ExecutionReceipt) :=
  .ok fun executionId ↦ if executionId = "rex" then some receipt else none

set_option maxRecDepth 4000 in
/-- Two results of no rows, within the budgets that are given by default. -/
theorem two_results_sampled :
    fits 262144 (emptyResponse "raw" "rex" (manyResults 2)) ∧
      fits 262144 (fullestEnvelope "raw" "rex" (manyResults 2)) ∧
      ∃ response, results true (oneExecution (manyResults 2)) 262144 100 "raw" "rex" =
        .ok response ∧ response.size ≤ 262144 ∧ SamplesReceipt (manyResults 2) 100 response := by
  have hempty : fits 262144 (emptyResponse "raw" "rex" (manyResults 2)) := by decide
  have hfullest : fits 262144 (fullestEnvelope "raw" "rex" (manyResults 2)) := by decide
  exact ⟨hempty, hfullest, results_exact rfl rfl hempty hfullest⟩

theorem no_room (receipt : ExecutionReceipt) (omitted : ℕ) (sampled : Bool) :
    ¬ fits (emptyResponse "raw" "rex" receipt).size
      { emptyResponse "raw" "rex" receipt with
        results := [⟨⟨[], []⟩, [], 0, false⟩]
        sampled := sampled
        omittedResults := omitted } := by
  have hzero : (toString 0).utf8ByteSize = 1 := by decide
  have hfalse : ("false" : String).utf8ByteSize = 5 := by decide
  have htrue : ("true" : String).utf8ByteSize = 4 := by decide
  have hnothing : ("" : String).utf8ByteSize = 0 := by decide
  have hresult : 3 ≤ (dumps (SampledResult.toJson ⟨⟨[], []⟩, [], 0, false⟩)).utf8ByteSize := by
    decide
  intro hfits
  have hsize := of_decide_eq_true hfits
  cases sampled <;>
  · simp only [ResultsResponse.size, ResultsResponse.toJson, emptyResponse, wireSize, dumps,
      dumpsItems, dumpsMembers, count, List.map_nil, List.map_cons, List.nil_append,
      List.cons_append, Option.map_none, Option.toList_none, String.utf8ByteSize_append, hfalse,
      htrue, hzero, hnothing] at hsize
    omega

theorem none_added (number omitted : ℕ) (sampled : Bool) (receipt : ExecutionReceipt) (maxRows : ℕ) :
    (List.replicate (number + 1) ⟨[], []⟩).foldl
        (addResult (emptyResponse "raw" "rex" receipt).size)
        ({ emptyResponse "raw" "rex" receipt with
          sampled := sampled
          omittedResults := omitted }, maxRows) =
      ({ emptyResponse "raw" "rex" receipt with
        sampled := true
        omittedResults := omitted + number + 1 }, maxRows) := by
  have hstep : ∀ omitted sampled, addResult (emptyResponse "raw" "rex" receipt).size
      ({ emptyResponse "raw" "rex" receipt with
        sampled := sampled
        omittedResults := omitted }, maxRows) ⟨[], []⟩ =
      ({ emptyResponse "raw" "rex" receipt with
        sampled := true
        omittedResults := omitted + 1 }, maxRows) := by
    intro omitted sampled
    exact addResult_of_not_fits _ ⟨[], []⟩ maxRows (no_room receipt omitted sampled)
  induction number generalizing omitted sampled with
  | zero =>
    rw [List.replicate_succ, List.replicate_zero, List.foldl_cons, List.foldl_nil, hstep, add_zero]
  | succ number ih =>
    rw [List.replicate_succ, List.foldl_cons, hstep, ih]
    have hcount : omitted + 1 + number + 1 = omitted + (number + 1) + 1 := by omega
    rw [hcount]

/-- Assumes: a receipt without an error message and notices, no result of which is in the response. -/
theorem sampleResults_of_foldl {maxBytes maxRows left : ℕ} {sessionId executionId : String}
    {receipt : ExecutionReceipt} {response : ResultsResponse} (herror : receipt.errorMessage = none)
    (hnotices : receipt.notices = []) (hresults : response.results = [])
    (h : receipt.results.foldl (addResult maxBytes)
      (emptyResponse sessionId executionId receipt, maxRows) = (response, left)) :
    sampleResults maxBytes maxRows sessionId executionId receipt = response := by
  unfold sampleResults
  rw [h, herror, hnotices]
  simp only [addErrorMessage, addNotices, hresults, List.length_nil, dropResults]

/-- The response without any piece fits exactly, and the counter of a hundred results that are left out
makes it too large. An error message without text is left out, and the response does not say so. -/
theorem counter_exceeds_budget :
    (∃ maxBytes response, fits maxBytes (emptyResponse "raw" "rex" (manyResults 100)) ∧
      results true (oneExecution (manyResults 100)) maxBytes 5 "raw" "rex" = .ok response ∧
      maxBytes < response.size) ∧
    ∃ response, results true (oneExecution ⟨"failed", [], some "", []⟩) 16384 5 "raw" "rex" =
      .ok response ∧ response.errorMessage = none ∧ response.sampled = false := by
  refine ⟨⟨(emptyResponse "raw" "rex" (manyResults 100)).size,
    { emptyResponse "raw" "rex" (manyResults 100) with
      sampled := true
      omittedResults := 100 }, decide_eq_true (le_refl _), ?_, ?_⟩, _, rfl, rfl, rfl⟩
  · rw [results_ok rfl rfl]
    exact congrArg Except.ok (sampleResults_of_foldl rfl rfl rfl
      (none_added 99 0 false (manyResults 100) 5))
  · have hzero : (toString 0).utf8ByteSize = 1 := by decide
    have hhundred : (toString 100).utf8ByteSize = 3 := by decide
    have hfalse : ("false" : String).utf8ByteSize = 5 := by decide
    have htrue : ("true" : String).utf8ByteSize = 4 := by decide
    simp only [ResultsResponse.size, ResultsResponse.toJson, emptyResponse, wireSize, dumps,
      dumpsItems, dumpsMembers, count, List.map_nil, List.cons_append, List.nil_append,
      Option.map_none, Option.toList_none, String.utf8ByteSize_append, hfalse, htrue, hzero,
      hhundred]
    omega

end Schemii.AiContext
