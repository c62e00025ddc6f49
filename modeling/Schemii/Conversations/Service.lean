import Schemii.Conversations.Prompts
import Schemii.Foundations.Interaction

/-!
# The conversation service

`Conversations` with its `ConversationStore`. What runs under the lock of the service is one call; the
programs are the requests, and the workers that `send` and `approval` start. Only the deletion of a
chat goes to the store without the lock: one that comes while another call holds the lock is one before
or after it, or a failure of its access to the store.

What the account authority, the adapter and the provider answer is up to them. An access of a worker to
the store may fail, before or after it was carried out; a request that fails has changed nothing. The
store, the authority and the adapter outside of `execute_action` raise no `ValueError` and no
`TypeError`.

Some fields record what happened and are read by nothing: `turnOf`, the turn that a program started;
`roots`, the turn that a user's message started, of which a turn is a part; `lost`, the turns whose
worker found the authority lost while the turn was active; and `events`.
-/

set_option autoImplicit false

namespace Schemii.Conversations

open Schemii.Foundations

/-! ### Settings -/

/-- What the functions raise: `ValueError` and `TypeError`, or another exception. -/
inductive Raised
  | value
  | other
  deriving DecidableEq, Repr

/-- An entry of `ACTIONS`. -/
structure Descriptor where
  mutates : Bool
  readsRows : Bool
  group : String
  defaultMode : Option Mode

/-- The policy and the adapter. -/
structure Settings where
  actions : Dictionary String Descriptor
  toolName : String
  validateAction : Json → Option Action
  maximumConcurrentTurns : ℕ
  maximumConcurrentTurnsPerUser : ℕ
  maximumToolRounds : ℕ
  maximumReadQueriesPerBatch : ℕ
  proposalTtlSeconds : ℕ
  messageHistoryLimit : ℕ
  activityHistoryLimit : ℕ
  contextBytes : ℕ
  proposalBytesPerTurn : ℕ
  sizes : Sizes

/-- The mode of an action that a user did not choose one for. -/
def Descriptor.mode (descriptor : Descriptor) : Mode :=
  descriptor.defaultMode.getD
    (if descriptor.mutates || descriptor.readsRows || decide (descriptor.group = "Queries") then .ask
    else .automatic)

namespace Settings

variable (settings : Settings)

/-- `modes`. -/
def modes (given : Dictionary String Mode) : Option (Dictionary String Mode) :=
  if given.keys.all settings.actions.contains then
    some (settings.actions.mapValues fun operation descriptor ↦
      (given.get? operation).getD descriptor.mode)
  else none

/-- Whether an action reads rows. -/
def readsRows (operation : String) : Bool :=
  match settings.actions.get? operation with
  | none => false
  | some descriptor => descriptor.readsRows

/-- The actions of a tool call, when they are valid. -/
def decodeBatch (call : ToolCall) : Option (List Action) :=
  if call.name ≠ settings.toolName then none
  else
    match call.args with
    | .object fields =>
      match (fields.lookup "actions").getD (.array []) with
      | .array raw =>
        if 1 ≤ raw.length ∧ raw.length ≤ min 8 settings.maximumReadQueriesPerBatch then
          raw.mapM settings.validateAction
        else none
      | _ => none
    | _ => none

end Settings

/-! ### The store -/

/-- The last items of a list: `[-limit:]`. -/
def latest {α : Type} (limit : ℕ) (items : List α) : List α :=
  if limit = 0 then items else items.drop (items.length - limit)

/-- The oldest messages are dropped while a chat is too large and has more than one. -/
def dropMessages (size : List Message → ℕ) (limit : ℕ) : List Message → List Message
  | [] => []
  | [message] => [message]
  | message :: next :: rest =>
    if limit < size (message :: next :: rest) then dropMessages size limit (next :: rest)
    else message :: next :: rest

/-- The oldest receipts are dropped while a chat is too large. -/
def dropActivity (size : List Receipt → ℕ) (limit : ℕ) : List Receipt → List Receipt
  | [] => []
  | receipt :: rest =>
    if limit < size (receipt :: rest) then dropActivity size limit rest else receipt :: rest

/-- `_save`: the chat as it is stored, unless it is too large. -/
def Settings.save (settings : Settings) (chat : Chat) : Option Chat :=
  let limit := settings.contextBytes + settings.proposalBytesPerTurn
  let bounded := { chat with
    messages := latest settings.messageHistoryLimit chat.messages
    activity := latest settings.activityHistoryLimit chat.activity }
  let shorter := { bounded with
    messages := dropMessages (fun messages ↦ settings.sizes.chat { bounded with messages := messages })
      limit bounded.messages }
  let smaller := { shorter with
    activity := dropActivity (fun activity ↦ settings.sizes.chat { shorter with activity := activity })
      limit shorter.activity }
  if limit < settings.sizes.chat smaller then none else some smaller

/-! ### The programs -/

/-- What a worker keeps in memory when it waits for a review. -/
structure Continuation where
  messages : List PromptMessage
  index : ℕ
  calls : List (ℕ × ToolCall)

/-- The calls of the service. Those of a worker have its chat and its turn. -/
inductive ConversationCall
  /-- The checks of a request before it takes the lock. -/
  | preflight (key : Key)
  /-- `create`. -/
  | create (owner : String) (modes : Dictionary String Mode)
  /-- `send` under the lock. -/
  | admitSend (key : Key) (text : String) (expectedRevision : ℕ)
  /-- `preferences` under the lock. -/
  | changePreferences (key : Key) (modes : Dictionary String Mode) (expectedRevision : ℕ)
  /-- `cancel` under the lock. -/
  | cancelTurn (key : Key)
  /-- The deletion from the store. -/
  | deleteChat (key : Key)
  /-- The end of `delete`, under the lock. -/
  | forgetTransient (key : Key)
  /-- `approval` under the lock. -/
  | admitApproval (key : Key) (pendingId : ℕ) (approved : Bool) (expectedRevision : ℕ)
  /-- `_authorized`. -/
  | authorized (key : Key) (turn : ℕ)
  /-- `_run` up to the messages: the chat. -/
  | openChat (key : Key) (turn : ℕ)
  /-- The checks of `_run` before it resumes. -/
  | requireAvailable (key : Key) (turn : ℕ)
  /-- What is cached of the review. -/
  | takeContinuation (key : Key) (turn : ℕ)
  /-- The check of an action, under the lock: whether it may be dispatched. -/
  | checkAction (key : Key) (turn : ℕ) (operation : String) (approved : Bool)
  /-- The beginning of `execute_action`, with the position of the action in its batch: its number, if
  it got so far. -/
  | dispatch (key : Key) (turn : ℕ) (action : Action) (approved : Bool) (position : ℕ)
  /-- The end of `execute_action`. -/
  | awaitAction (key : Key) (turn : ℕ) (number : ℕ)
  /-- The receipt, under the lock. -/
  | record (key : Key) (turn : ℕ) (operation : String) (status : ActionStatus)
  /-- The time limit of the workflow. -/
  | watch (key : Key) (turn : ℕ)
  /-- The request to the provider. -/
  | provider (key : Key) (turn : ℕ) (messages : List PromptMessage)
  /-- The modes of the chat, and the actions that are not available now. -/
  | readModes (key : Key) (turn : ℕ)
  /-- The pause for a review, under the lock. -/
  | pause (key : Key) (turn : ℕ) (actions : List Action) (sensitive : Bool)
      (continuation : Continuation)
  /-- The answer, under the lock. -/
  | finish (key : Key) (turn : ℕ) (reply : ℕ) (sensitive : Bool)
  /-- The handler of exceptions, under the lock. -/
  | fail (key : Key) (turn : ℕ)
  /-- `_close_turn`. -/
  | close (key : Key) (turn : ℕ)

/-- What the calls answer. -/
def ConversationCall.Reply : ConversationCall → Type
  | .create _ _ => Except Raised ℕ
  | .admitSend _ _ _ => Except Raised ℕ
  | .admitApproval _ _ _ _ => Except Raised (ℕ × List Action)
  | .authorized _ _ => Bool
  | .openChat _ _ => Except Raised Chat
  | .takeContinuation _ _ => Option Continuation
  | .checkAction _ _ _ _ => Except Raised Bool
  | .dispatch _ _ _ _ _ => Option ℕ
  | .awaitAction _ _ _ => ActionStatus
  | .provider _ _ _ => Except Raised Conversations.Reply
  | .readModes _ _ => Except Raised (Dictionary String Mode × List String)
  | .forgetTransient _ => Unit
  | .preflight _ | .changePreferences _ _ _ | .cancelTurn _ | .deleteChat _ | .requireAvailable _ _
  | .record _ _ _ _ | .watch _ _ | .pause _ _ _ _ _ | .finish _ _ _ _ | .fail _ _
  | .close _ _ => Except Raised Unit

/-- The interface of the service. -/
def conversationInterface : Interface := ⟨ConversationCall, ConversationCall.Reply⟩

/-- A program of the service. -/
abbrev ConversationProgram (α : Type) := Program conversationInterface Raised α

/-- A call. -/
def ask (request : ConversationCall) : ConversationProgram request.Reply :=
  Program.ask (I := conversationInterface) request

/-- A call whose exception is raised. -/
def raising {α : Type} (program : ConversationProgram (Except Raised α)) : ConversationProgram α :=
  Program.bind program Program.ofExcept

section Worker

variable (settings : Settings) (key : Key) (turn : ℕ)

/-- What a batch has given so far: the texts of the results, and whether rows were read. -/
structure Executed where
  results : List Origin
  sensitive : Bool
  deriving DecidableEq, Repr

/-- `_execute`, from a position of the batch on. -/
def executeFrom (approved : Bool) : List Action → ℕ → Executed → ConversationProgram Executed
  | [], _, executed => .done executed
  | action :: rest, position, executed =>
    Program.bind (raising (ask (.checkAction key turn action.operation approved)))
      fun (allowed : Bool) ↦
        if !allowed then
          if settings.actions.contains action.operation then
            executeFrom approved rest (position + 1)
              ⟨executed.results ++ [.notice], executed.sensitive⟩
          else .raise .other
        else
          let sensitive := executed.sensitive || settings.readsRows action.operation
          Program.bind (ask (.dispatch key turn action approved position))
            fun (number : Option ℕ) ↦
              match number with
              | none =>
                Program.bind (raising (ask (.record key turn action.operation .failed))) fun _ ↦
                  .done ⟨executed.results ++ [.notice], sensitive⟩
              | some number =>
                Program.bind (ask (.awaitAction key turn number)) fun (status : ActionStatus) ↦
                  Program.bind (raising (ask (.record key turn action.operation status))) fun _ ↦
                    match status with
                    | .failed => .done ⟨executed.results ++ [.result number], sensitive⟩
                    | .succeeded => executeFrom approved rest (position + 1)
                        ⟨executed.results ++ [.result number], sensitive⟩

/-- `_execute`. -/
def execute (actions : List Action) (approved : Bool) : ConversationProgram Executed :=
  executeFrom settings key turn approved actions 0 ⟨[], false⟩

/-- What the loops of `_run` go on with: the messages, and whether rows were read. -/
structure Gathered where
  messages : List PromptMessage
  sensitive : Bool

/-- The operations of a batch that are disabled or not available. -/
def deniedOperations (modes : Dictionary String Mode) (unavailable : List String)
    (actions : List Action) : List String :=
  (actions.filter fun action ↦
    decide ((modes.get? action.operation).getD .disabled = .disabled)).map Action.operation ++
  (actions.filter fun action ↦ unavailable.contains action.operation).map Action.operation

/-- What `_run` does with a tool call inside its `try`: the result and whether rows were read, or none
when it waits for a review or may not go on. -/
def answerCall (reply : Reply) (messages : List PromptMessage) (sensitive : Bool) (index : ℕ)
    (call : ToolCall) : ConversationProgram (Option Executed) :=
  match settings.decodeBatch call with
  | none => .raise .value
  | some actions =>
    Program.bind (raising (ask (.readModes key turn)))
      fun (current : Dictionary String Mode × List String) ↦
        if deniedOperations current.1 current.2 actions ≠ [] then
          .done (some ⟨[.notice], sensitive⟩)
        else if actions.any fun action ↦ decide (current.1.get? action.operation = some .ask) then
          Program.bind (raising (ask (.pause key turn actions sensitive
            ⟨messages, index, ((List.range reply.calls.length).zip reply.calls).drop index⟩)))
            fun _ ↦ .done none
        else
          Program.bind (execute settings key turn actions false) fun executed ↦
            .done (some ⟨executed.results, sensitive || executed.sensitive⟩)

/-- The loop of `_run` over the tool calls of a reply, from an index on. -/
def answerCalls (reply : Reply) : List ToolCall → ℕ → Gathered →
    ConversationProgram (Option Gathered)
  | [], _, gathered => .done (some gathered)
  | call :: rest, index, gathered =>
    Program.bind (Program.attempt
      (answerCall settings key turn reply gathered.messages gathered.sensitive index call)) fun
      | .error .value => answerCalls reply rest (index + 1)
          ⟨gathered.messages ++ [.toolResult call.id [.notice]], gathered.sensitive⟩
      | .error .other => .raise .other
      | .ok none => .done none
      | .ok (some executed) => answerCalls reply rest (index + 1)
          ⟨gathered.messages ++ [.toolResult call.id executed.results], executed.sensitive⟩

/-- The messages of a request. -/
def requestMessages (finalizing : Bool) (messages : List PromptMessage) : List PromptMessage :=
  if finalizing then
    finalResponseMessages (settings.sizes.request true) settings.contextBytes messages
  else compactToolContext (settings.sizes.request false) settings.contextBytes messages

/-- The rounds of `_run`, with the number of those that are left. The last one has no tools. -/
def rounds : ℕ → Gathered → ConversationProgram Unit
  | 0, _ => .raise .other
  | remaining + 1, gathered =>
    Program.bind (ask (.authorized key turn)) fun (allowed : Bool) ↦
      if !allowed then .done ()
      else
        Program.bind (raising (ask (.watch key turn))) fun _ ↦
          let finalizing := decide (remaining = 0)
          let messages := requestMessages settings finalizing gathered.messages
          Program.bind (ask (.authorized key turn)) fun (allowed : Bool) ↦
            if !allowed then .done ()
            else
              Program.bind (raising (ask (.provider key turn messages))) fun (reply : Reply) ↦
                Program.bind (ask (.authorized key turn)) fun (allowed : Bool) ↦
                  if !allowed then .done ()
                  else if finalizing && !reply.calls.isEmpty then .raise .other
                  else if reply.calls.isEmpty then
                    if !reply.answers then .raise .other
                    else raising (ask (.finish key turn reply.number gathered.sensitive))
                  else if !reply.native then .raise .other
                  else
                    Program.bind (answerCalls settings key turn reply reply.calls 0
                      ⟨messages ++ [.native reply.number reply.calls], gathered.sensitive⟩)
                      fun (next : Option Gathered) ↦
                        match next with
                        | none => .done ()
                        | some gathered => rounds remaining gathered

/-- The messages that a chat begins with. -/
def chatMessages (chat : Chat) : List PromptMessage :=
  chat.messages.map (fun message ↦
    match message.role with
    | .assistant => .assistant [.stored message]
    | .user | .system => .user .plain [.stored message]) ++
  [.user .plain [.saved (latest 20 chat.activity)]]

/-- The messages of a resumed turn. -/
def resumedMessages (messages : List PromptMessage) (cached : Option Continuation)
    (results : List Origin) : List PromptMessage :=
  match cached with
  | none => messages ++ [.user .receipt results]
  | some continuation =>
    continuation.messages ++ continuation.calls.map fun call ↦
      .toolResult call.2.id (if call.1 = continuation.index then results else [.notice])

/-- The body of `_run`. -/
def runBody (approvedActions : Option (List Action)) : ConversationProgram Unit :=
  Program.bind (raising (ask (.openChat key turn))) fun (chat : Chat) ↦
    match approvedActions with
    | none => rounds settings key turn (settings.maximumToolRounds + 1) ⟨chatMessages chat, false⟩
    | some actions =>
      Program.bind (raising (ask (.requireAvailable key turn))) fun _ ↦
        Program.bind (ask (.takeContinuation key turn)) fun (cached : Option Continuation) ↦
          Program.bind (execute settings key turn actions true) fun executed ↦
            rounds settings key turn (settings.maximumToolRounds + 1)
              ⟨resumedMessages (chatMessages chat) cached executed.results,
                chat.turnUsedRows || executed.sensitive⟩

/-- `_run`. -/
def runTurn (approvedActions : Option (List Action)) : ConversationProgram Unit :=
  Program.bind (runBody settings key turn approvedActions).attempt fun outcome ↦
    Program.bind
      (match outcome with
      | .ok () => .done (.ok ())
      | .error _ => (raising (ask (.fail key turn))).attempt) fun handled ↦
      Program.bind (raising (ask (.close key turn))) fun _ ↦ Program.ofExcept handled

/-- `run`. -/
def run (approvedActions : Option (List Action)) : ConversationProgram Unit :=
  Program.bind (ask (.authorized key turn)) fun (allowed : Bool) ↦
    if allowed then runTurn settings key turn approvedActions
    else raising (ask (.close key turn))

end Worker

/-- `send`, and the worker that it starts. -/
def send (settings : Settings) (key : Key) (text : String) (expectedRevision : ℕ) :
    ConversationProgram Unit :=
  Program.bind (raising (ask (.preflight key))) fun _ ↦
    Program.bind (raising (ask (.admitSend key text expectedRevision))) fun (turn : ℕ) ↦
      run settings key turn none

/-- `approval`, and the worker that it starts. -/
def approval (settings : Settings) (key : Key) (pendingId : ℕ) (approved : Bool)
    (expectedRevision : ℕ) : ConversationProgram Unit :=
  Program.bind (raising (ask (.preflight key))) fun _ ↦
    Program.bind (raising (ask (.admitApproval key pendingId approved expectedRevision)))
      fun (admitted : ℕ × List Action) ↦ run settings key admitted.1 (some admitted.2)

/-- `cancel`. -/
def cancel (key : Key) : ConversationProgram Unit :=
  Program.bind (raising (ask (.preflight key))) fun _ ↦ raising (ask (.cancelTurn key))

/-- `delete`. -/
def delete (key : Key) : ConversationProgram Unit :=
  Program.bind (cancel key) fun _ ↦
    Program.bind (raising (ask (.deleteChat key))) fun _ ↦ ask (.forgetTransient key)

/-- The programs of the service. -/
inductive Starts (settings : Settings) : ConversationProgram Unit → Prop
  | create (owner : String) (modes : Dictionary String Mode) :
      Starts settings (Program.bind (raising (ask (.create owner modes))) fun _ ↦ .done ())
  | send (key : Key) (text : String) (expectedRevision : ℕ) :
      Starts settings (send settings key text expectedRevision)
  | approval (key : Key) (pendingId : ℕ) (approved : Bool) (expectedRevision : ℕ) :
      Starts settings (approval settings key pendingId approved expectedRevision)
  | preferences (key : Key) (modes : Dictionary String Mode) (expectedRevision : ℕ) :
      Starts settings (raising (ask (.changePreferences key modes expectedRevision)))
  | cancel (key : Key) : Starts settings (cancel key)
  | delete (key : Key) : Starts settings (delete key)

end Schemii.Conversations
