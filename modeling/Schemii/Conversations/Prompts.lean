import Schemii.Foundations.Dictionary
import Schemii.Foundations.Json

/-!
# Chats and the messages of a provider request

The stored chat document, and the messages that a worker hands to the provider. A text is modelled by
what it is made of: the stored messages, the saved context and receipts, the replies of the provider
and the results of dispatched actions (`Origin`), in their order. How many bytes a chat or a request
takes is up to the encoding (`Sizes`).

`compactToolContext` and `finalResponseMessages` replace completed groups of a native assistant message
and its tool results by one user message; `groupLength` says where such a group stands.
-/

set_option autoImplicit false

namespace Schemii.Conversations

open Schemii.Foundations

/-! ### The stored chat -/

/-- An owner and the number of a chat. -/
abbrev Key := String × ℕ

/-- Permission modes. -/
inductive Mode
  | disabled
  | ask
  | automatic
  deriving DecidableEq, Repr

/-- The statuses of a chat. -/
inductive ChatStatus
  | idle
  | working
  | waitingApproval
  | failed
  deriving DecidableEq, Repr

/-- An action that a provider asks for. -/
structure Action where
  operation : String
  args : Json

/-- The text of a stored message. -/
inductive Text
  | user (text : String)
  | preferencesChanged
  | notStored
  | reply (reply : ℕ)
  deriving DecidableEq, Repr

/-- The role of a stored message. -/
inductive Role
  | user
  | assistant
  | system
  deriving DecidableEq, Repr

/-- A stored message. -/
structure Message where
  id : ℕ
  role : Role
  text : Text
  deriving DecidableEq, Repr

/-- Whether an action succeeded. -/
inductive ActionStatus
  | succeeded
  | failed
  deriving DecidableEq, Repr

/-- A receipt of an action. -/
structure Receipt where
  id : ℕ
  operation : String
  status : ActionStatus
  deriving DecidableEq, Repr

/-- A review that waits for the user. -/
structure Pending where
  id : ℕ
  actions : List Action
  createdAt : ℕ

/-- The errors that a chat shows. -/
inductive ChatError
  | preferencesChanged
  | accessChanged
  | restarted
  | raised
  deriving DecidableEq, Repr

/-- A chat document. -/
structure Chat where
  revision : ℕ
  status : ChatStatus
  modes : Dictionary String Mode
  messages : List Message
  activity : List Receipt
  pending : Option Pending
  error : Option ChatError
  turnUsedRows : Bool
  turnId : Option ℕ

/-! ### Provider requests -/

/-- A tool call of a reply. -/
structure ToolCall where
  id : String
  name : String
  args : Json

/-- A reply of the provider: its number, whether its text has more than blanks, its tool calls, and
whether it came with the native assistant message. -/
structure Reply where
  number : ℕ
  answers : Bool
  calls : List ToolCall
  native : Bool

/-- What a text is made of. -/
inductive Origin
  | stored (message : Message)
  | saved (receipts : List Receipt)
  | reply (reply : ℕ)
  | result (dispatch : ℕ)
  | notice
  deriving DecidableEq, Repr

/-- How a text is laid out. -/
inductive Form
  | plain
  | receipt
  | evidence
  deriving DecidableEq, Repr

/-- A message of a provider request. -/
inductive PromptMessage
  | user (form : Form) (content : List Origin)
  | assistant (content : List Origin)
  | native (reply : ℕ) (calls : List ToolCall)
  | toolResult (callId : String) (content : List Origin)

/-- What a message is made of. -/
def PromptMessage.content : PromptMessage → List Origin
  | .user _ content => content
  | .assistant content => content
  | .native number _ => [.reply number]
  | .toolResult _ content => content

/-- The sizes of chats and of requests. -/
structure Sizes where
  chat : Chat → ℕ
  request : Bool → List PromptMessage → ℕ

/-! ### Compaction -/

/-- The call ids of the tool results at the beginning of a list. -/
def returnedIds : List PromptMessage → List String
  | .toolResult callId _ :: rest => callId :: returnedIds rest
  | _ => []

/-- The number of tool results of the complete group at the beginning of a list: one item of
`_complete_groups`. -/
def groupLength : List PromptMessage → Option ℕ
  | .native _ calls :: rest =>
    let identifiers := calls.map ToolCall.id
    let returned := returnedIds rest
    if identifiers ≠ [] ∧ (∀ id ∈ identifiers, id ≠ "") ∧ identifiers.Nodup ∧
        returned.length = identifiers.length ∧ (∀ id ∈ returned, id ∈ identifiers) ∧
        ∀ id ∈ identifiers, id ∈ returned then
      some returned.length
    else none
  | _ => none

/-- What a group is made of. -/
def groupContent (group : List PromptMessage) : List Origin := group.flatMap PromptMessage.content

/-- The loop of `compact_tool_context`: what is done, how many messages of a replaced group are left
out, and what is left. -/
def compactFrom (size : List PromptMessage → ℕ) (limit : ℕ) :
    List PromptMessage → ℕ → List PromptMessage → List PromptMessage
  | finished, _, [] => finished
  | finished, skip + 1, _ :: rest => compactFrom size limit finished skip rest
  | finished, 0, message :: rest =>
    if size (finished ++ message :: rest) ≤ limit then finished ++ message :: rest
    else
      match groupLength (message :: rest) with
      | none => compactFrom size limit (finished ++ [message]) 0 rest
      | some results =>
        let receipt := .user .receipt (groupContent (message :: rest.take results))
        if size (finished ++ receipt :: rest.drop results) < size (finished ++ message :: rest) then
          compactFrom size limit (finished ++ [receipt]) results rest
        else compactFrom size limit (finished ++ [message]) 0 rest

/-- `compact_tool_context`. -/
def compactToolContext (size : List PromptMessage → ℕ) (limit : ℕ) (messages : List PromptMessage) :
    List PromptMessage :=
  compactFrom size limit [] 0 messages

/-- The first loop of `final_response_messages`: completed groups become evidence. -/
def evidenceOf : ℕ → List PromptMessage → List PromptMessage
  | _, [] => []
  | skip + 1, _ :: rest => evidenceOf skip rest
  | 0, message :: rest =>
    match groupLength (message :: rest) with
    | none => message :: evidenceOf 0 rest
    | some results =>
      .user .evidence (groupContent (message :: rest.take results)) :: evidenceOf results rest

/-- The second loop of `final_response_messages`: the oldest evidence becomes receipts. -/
def reduceEvidence (size : List PromptMessage → ℕ) (limit : ℕ) :
    List PromptMessage → List PromptMessage → List PromptMessage
  | finished, [] => finished
  | finished, message :: rest =>
    if size (finished ++ message :: rest) ≤ limit then finished ++ message :: rest
    else
      match message with
      | .user .evidence content =>
        reduceEvidence size limit (finished ++ [.user .receipt content]) rest
      | other => reduceEvidence size limit (finished ++ [other]) rest

/-- `final_response_messages`. -/
def finalResponseMessages (size : List PromptMessage → ℕ) (limit : ℕ)
    (messages : List PromptMessage) : List PromptMessage :=
  reduceEvidence size limit [] (evidenceOf 0 messages)

end Schemii.Conversations
