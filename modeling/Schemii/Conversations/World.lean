import Schemii.Conversations.Service

/-!
# What the calls of the conversation service do

The store and the memory of the service, and what each call may answer and do to them. A part of a call
that is a function of the state is written as one (`admitSend`, `admitApproval`, `closeTurn` and so on);
`Performs` adds the failures.

A restart ends all programs that have begun, forgets the memory and recovers the stored chats
(`recover`). Chats may disappear from the store when they expire, and what is cached when the caches are
pruned.
-/

set_option autoImplicit false

namespace Schemii.Conversations

open Schemii.Foundations

/-! ### The state -/

/-- What happened, in the order in which it happened. -/
inductive Event
  | decided (key : Key) (turn : ℕ) (pendingId : ℕ) (review : Pending) (approved : Bool)
      (revision expectedRevision age : ℕ)
  | checked (key : Key) (turn : ℕ) (operation : String) (active : Option ℕ) (mode : Mode)
      (approved : Bool)
  | dispatched (key : Key) (turn : ℕ) (number : ℕ) (action : Action) (approved : Bool) (position : ℕ)
  | finished (key : Key) (turn : ℕ) (number : ℕ) (status : ActionStatus)
  | requested (key : Key) (turn : ℕ) (messages : List PromptMessage)
  | replied (key : Key) (turn : ℕ) (number : ℕ)

/-- The turn that an event belongs to. -/
def Event.turn : Event → ℕ
  | .decided _ turn _ _ _ _ _ _ => turn
  | .checked _ turn _ _ _ _ => turn
  | .dispatched _ turn _ _ _ _ => turn
  | .finished _ turn _ _ => turn
  | .requested _ turn _ => turn
  | .replied _ turn _ => turn

/-- The store and the memory of the service. -/
structure World where
  chats : Dictionary Key Chat
  active : Dictionary Key ℕ
  transient : Dictionary (Key × ℕ) ℕ
  continuations : Dictionary Key Continuation
  authority : Key → Bool
  clock : ℕ
  next : ℕ
  begun : ℕ → Bool
  stopped : ℕ → Bool
  turnOf : ℕ → Option ℕ
  roots : ℕ → ℕ
  lost : ℕ → Bool
  events : List Event

/-- A service that has just been set up. -/
def World.initial : World where
  chats := Dictionary.empty
  active := Dictionary.empty
  transient := Dictionary.empty
  continuations := Dictionary.empty
  authority := fun _ ↦ true
  clock := 0
  next := 0
  begun := fun _ ↦ false
  stopped := fun _ ↦ false
  turnOf := fun _ ↦ none
  roots := id
  lost := fun _ ↦ false
  events := []

/-- The change of `preferences`, with the identifier of its message. -/
def Chat.withPreferences (chat : Chat) (modes : Dictionary String Mode) (id : ℕ) : Chat :=
  let changed := { chat with
    modes := modes
    messages := chat.messages ++ [⟨id, .system, .preferencesChanged⟩] }
  if chat.status = .working ∨ chat.status = .waitingApproval then
    { changed with status := .idle, pending := none, error := some .preferencesChanged }
  else changed

namespace World

/-- An event happens. -/
def log (world : World) (event : Event) : World := { world with events := event :: world.events }

/-- `_authorized`: the turn is the active one, and the authority is there. -/
def authorized (world : World) (key : Key) (turn : ℕ) : Bool :=
  decide (world.active.get? key = some turn) && world.authority key

/-- A worker that is not authorized knows that its turn ended or that the authority is lost. -/
def noteAuthority (world : World) (key : Key) (turn : ℕ) : World :=
  if world.active.get? key = some turn ∧ world.authority key = false then
    { world with lost := Function.update world.lost turn true }
  else world

/-- `store.update`, without a check of the revision. -/
def update (settings : Settings) (world : World) (key : Key) (change : Chat → Chat) : Option World :=
  match world.chats.get? key with
  | none => none
  | some chat =>
    match settings.save { change chat with revision := chat.revision + 1 } with
    | none => none
    | some saved => some { world with chats := world.chats.insert key saved }

/-- The number of active turns of an owner. -/
def ownTurns (world : World) (owner : String) : ℕ :=
  (world.active.entries.filter fun entry ↦ decide (entry.1.1 = owner)).length

/-- `_require_capacity`. -/
def hasCapacity (settings : Settings) (world : World) (owner : String) : Bool :=
  decide (world.active.size < settings.maximumConcurrentTurns) &&
    decide (world.ownTurns owner < settings.maximumConcurrentTurnsPerUser)

/-- `_start_progress`: a program starts a turn, which is a part of another one or its own root. -/
def startTurn (world : World) (thread : ℕ) (key : Key) (turn root : ℕ) : World :=
  { world with
    active := world.active.insert key turn
    turnOf := Function.update world.turnOf thread (some turn)
    roots := Function.update world.roots turn root }

/-- The next identifiers were used. -/
def useIds (world : World) (count : ℕ) : World := { world with next := world.next + count }

/-- `create`. -/
def create (settings : Settings) (world : World) (owner : String) (given : Dictionary String Mode) :
    Option World :=
  match settings.modes given with
  | none => none
  | some modes =>
    match settings.save ⟨1, .idle, modes, [], [], none, none, false, none⟩ with
    | none => none
    | some saved => some { (world.useIds 1) with
        chats := world.chats.insert (owner, world.next) saved }

/-- `send` under the lock. The new turn has the next identifier, and the message the one after. -/
def admitSend (settings : Settings) (world : World) (thread : ℕ) (key : Key) (text : String)
    (expectedRevision : ℕ) : Option World :=
  if !world.hasCapacity settings key.1 then none
  else
    match world.chats.get? key with
    | none => none
    | some chat =>
      if chat.revision ≠ expectedRevision then none
      else if chat.status = .working ∨ chat.status = .waitingApproval then none
      else
        match world.update settings key fun chat ↦
          { chat with
            messages := chat.messages ++ [⟨world.next + 1, .user, .user text⟩]
            status := .working
            error := none
            pending := none
            turnUsedRows := false
            turnId := some world.next } with
        | none => none
        | some updated => some ((updated.startTurn thread key world.next world.next).useIds 2)

/-- The active turn of a chat and what is cached of its review are forgotten. -/
def endTurn (world : World) (key : Key) : World :=
  { world with active := world.active.erase key, continuations := world.continuations.erase key }

/-- `preferences` under the lock. -/
def changePreferences (settings : Settings) (world : World) (key : Key)
    (given : Dictionary String Mode) (expectedRevision : ℕ) : Option World :=
  match world.chats.get? key, settings.modes given with
  | some chat, some modes =>
    if chat.revision ≠ expectedRevision then none
    else
      match world.update settings key (·.withPreferences modes world.next) with
      | none => none
      | some updated => some ((updated.endTurn key).useIds 1)
  | _, _ => none

/-- `cancel` under the lock. -/
def cancelTurn (settings : Settings) (world : World) (key : Key) : Option World :=
  match world.update settings key fun chat ↦
    { chat with status := .idle, pending := none, error := none } with
  | none => none
  | some updated => some (updated.endTurn key)

/-- `approval` under the lock: the review. The new turn has the next identifier. -/
def admitApproval (settings : Settings) (world : World) (thread : ℕ) (key : Key) (pendingId : ℕ)
    (approved : Bool) (expectedRevision : ℕ) : Option (Pending × World) :=
  if !world.hasCapacity settings key.1 then none
  else
    match world.chats.get? key with
    | none => none
    | some chat =>
      if chat.revision ≠ expectedRevision then none
      else
        match chat.pending with
        | none => none
        | some review =>
          if chat.status ≠ .waitingApproval ∨ review.id ≠ pendingId ∨
              settings.proposalTtlSeconds < world.clock - review.createdAt then none
          else
            match world.update settings key fun chat ↦
              { chat with
                status := .working
                pending := none
                turnId := some world.next
                error := none } with
            | none => none
            | some updated =>
              some (review, ((updated.startTurn thread key world.next
                (world.roots (chat.turnId.getD 0))).useIds 1).log
                (.decided key world.next pendingId review approved chat.revision expectedRevision
                  (world.clock - review.createdAt)))

/-- The receipt of an action. -/
def recordAction (settings : Settings) (world : World) (key : Key) (operation : String)
    (status : ActionStatus) : Option World :=
  (world.update settings key fun chat ↦
    { chat with activity := chat.activity ++ [⟨world.next, operation, status⟩] }).map (·.useIds 1)

/-- The pause for a review: the stored part. -/
def pauseChat (settings : Settings) (world : World) (key : Key) (actions : List Action)
    (sensitive : Bool) : Option World :=
  (world.update settings key fun chat ↦
    { chat with
      status := .waitingApproval
      turnUsedRows := sensitive
      pending := some ⟨world.next, actions, world.clock⟩ }).map (·.useIds 1)

/-- `_message` for an answer that read rows: the text is cached. -/
def cacheAnswer (world : World) (key : Key) (reply : ℕ) (sensitive : Bool) : World :=
  if sensitive then { world with transient := world.transient.insert (key, world.next) reply }
  else world

/-- The answer: the stored part. -/
def storeAnswer (settings : Settings) (world : World) (key : Key) (reply : ℕ) (sensitive : Bool) :
    Option World :=
  (world.update settings key fun chat ↦
    { chat with
      messages := chat.messages ++
        [⟨world.next, .assistant, if sensitive then .notStored else .reply reply⟩]
      status := .idle
      pending := none
      error := none }).map (·.useIds 1)

/-- The stored part of the handler of exceptions. -/
def failChat (settings : Settings) (world : World) (key : Key) : Option World :=
  world.update settings key fun chat ↦
    { chat with status := .failed, pending := none, error := some .raised }

/-- The stored part of `_close_turn` when the authority is lost. -/
def revokeChat (settings : Settings) (world : World) (key : Key) : Option World :=
  world.update settings key fun chat ↦
    { chat with status := .failed, pending := none, error := some .accessChanged }

/-- Whether `_close_turn` has to end a chat. -/
def mustRevoke (world : World) (key : Key) (turn : ℕ) (chat : Chat) : Bool :=
  !world.authorized key turn &&
    (decide (chat.status = .working) || decide (chat.status = .waitingApproval))

end World

/-- `_recover`. -/
def recover (chat : Chat) : Chat :=
  if chat.status = .working then
    { chat with
      status := .failed
      pending := none
      error := some .restarted
      revision := chat.revision + 1 }
  else chat

/-! ### The calls -/

/-- What a call answers and does. -/
inductive Performs (settings : Settings) (thread : ℕ) (before : World) :
    (request : ConversationCall) → request.Reply → World → Prop
  | preflight (key : Key) (outcome : Except Raised Unit) :
      Performs settings thread before (.preflight key) outcome before
  | created (owner : String) (modes : Dictionary String Mode) (after : World)
      (hafter : before.create settings owner modes = some after) :
      Performs settings thread before (.create owner modes) (Except.ok before.next) after
  | notCreated (owner : String) (modes : Dictionary String Mode) (raised : Raised) :
      Performs settings thread before (.create owner modes) (Except.error raised) before
  | sent (key : Key) (text : String) (expectedRevision : ℕ) (after : World)
      (hafter : before.admitSend settings thread key text expectedRevision = some after) :
      Performs settings thread before (.admitSend key text expectedRevision)
        (Except.ok before.next) after
  | notSent (key : Key) (text : String) (expectedRevision : ℕ) (raised : Raised) :
      Performs settings thread before (.admitSend key text expectedRevision)
        (Except.error raised) before
  | changed (key : Key) (modes : Dictionary String Mode) (expectedRevision : ℕ) (after : World)
      (hafter : before.changePreferences settings key modes expectedRevision = some after)
      (outcome : Except Raised Unit) :
      Performs settings thread before (.changePreferences key modes expectedRevision) outcome after
  | notChanged (key : Key) (modes : Dictionary String Mode) (expectedRevision : ℕ) (raised : Raised) :
      Performs settings thread before (.changePreferences key modes expectedRevision)
        (Except.error raised) before
  | cancelled (key : Key) (after : World) (hafter : before.cancelTurn settings key = some after)
      (outcome : Except Raised Unit) :
      Performs settings thread before (.cancelTurn key) outcome after
  | notCancelled (key : Key) (raised : Raised) :
      Performs settings thread before (.cancelTurn key) (Except.error raised) before
  | deleted (key : Key) (hchat : before.chats.contains key = true) (outcome : Except Raised Unit) :
      Performs settings thread before (.deleteChat key) outcome
        { before with chats := before.chats.erase key }
  | notDeleted (key : Key) (raised : Raised) :
      Performs settings thread before (.deleteChat key) (Except.error raised) before
  | forgotten (key : Key) :
      Performs settings thread before (.forgetTransient key) ()
        { before with transient := before.transient.filter fun cached _ ↦ decide (cached.1 ≠ key) }
  | approved (key : Key) (pendingId : ℕ) (approved : Bool) (expectedRevision : ℕ) (review : Pending)
      (after : World)
      (hafter : before.admitApproval settings thread key pendingId approved expectedRevision =
        some (review, after)) :
      Performs settings thread before (.admitApproval key pendingId approved expectedRevision)
        (Except.ok (before.next, if approved then review.actions else [])) after
  | notApproved (key : Key) (pendingId : ℕ) (approved : Bool) (expectedRevision : ℕ)
      (raised : Raised) :
      Performs settings thread before (.admitApproval key pendingId approved expectedRevision)
        (Except.error raised) before
  | authorized (key : Key) (turn : ℕ) :
      Performs settings thread before (.authorized key turn) (before.authorized key turn)
        (before.noteAuthority key turn)
  | opened (key : Key) (turn : ℕ) (chat : Chat) (hchat : before.chats.get? key = some chat) :
      Performs settings thread before (.openChat key turn) (Except.ok chat) before
  | notOpened (key : Key) (turn : ℕ) :
      Performs settings thread before (.openChat key turn) (Except.error .other) before
  | available (key : Key) (turn : ℕ) :
      Performs settings thread before (.requireAvailable key turn) (Except.ok ()) before
  | notAvailable (key : Key) (turn : ℕ) :
      Performs settings thread before (.requireAvailable key turn) (Except.error .other) before
  | taken (key : Key) (turn : ℕ) :
      Performs settings thread before (.takeContinuation key turn) (before.continuations.get? key)
        { before with continuations := before.continuations.erase key }
  | checked (key : Key) (turn : ℕ) (operation : String) (approved : Bool) (chat : Chat)
      (modes : Dictionary String Mode) (mode : Mode) (hauthorized : before.authorized key turn = true)
      (hchat : before.chats.get? key = some chat) (hmodes : settings.modes chat.modes = some modes)
      (hmode : modes.get? operation = some mode)
      (hallowed : mode = .automatic ∨ mode = .ask ∧ approved = true) :
      Performs settings thread before (.checkAction key turn operation approved) (Except.ok true)
        (before.log (.checked key turn operation (before.active.get? key) mode approved))
  | denied (key : Key) (turn : ℕ) (operation : String) (approved : Bool) (chat : Chat)
      (modes : Dictionary String Mode) (hauthorized : before.authorized key turn = true)
      (hchat : before.chats.get? key = some chat) (hmodes : settings.modes chat.modes = some modes)
      (hdenied : (modes.get? operation).getD .disabled = .disabled ∨
        (modes.get? operation).getD .disabled = .ask ∧ approved = false) :
      Performs settings thread before (.checkAction key turn operation approved) (Except.ok false)
        before
  | notChecked (key : Key) (turn : ℕ) (operation : String) (approved : Bool) :
      Performs settings thread before (.checkAction key turn operation approved)
        (Except.error .other) (before.noteAuthority key turn)
  | dispatched (key : Key) (turn : ℕ) (action : Action) (approved : Bool) (position : ℕ) :
      Performs settings thread before (.dispatch key turn action approved position)
        (some before.next) ((before.useIds 1).log
          (.dispatched key turn before.next action approved position))
  | notDispatched (key : Key) (turn : ℕ) (action : Action) (approved : Bool) (position : ℕ) :
      Performs settings thread before (.dispatch key turn action approved position) none before
  | ended (key : Key) (turn : ℕ) (number : ℕ) (status : ActionStatus) :
      Performs settings thread before (.awaitAction key turn number) status
        (before.log (.finished key turn number status))
  | recorded (key : Key) (turn : ℕ) (operation : String) (status : ActionStatus) (after : World)
      (hafter : before.recordAction settings key operation status = some after) :
      Performs settings thread before (.record key turn operation status) (Except.ok ()) after
  | recordedRaising (key : Key) (turn : ℕ) (operation : String) (status : ActionStatus)
      (after : World) (hafter : before.recordAction settings key operation status = some after) :
      Performs settings thread before (.record key turn operation status) (Except.error .other) after
  | chatGone (key : Key) (turn : ℕ) (operation : String) (status : ActionStatus)
      (hchat : before.chats.get? key = none) :
      Performs settings thread before (.record key turn operation status) (Except.ok ()) before
  | notRecorded (key : Key) (turn : ℕ) (operation : String) (status : ActionStatus) :
      Performs settings thread before (.record key turn operation status) (Except.error .other) before
  | inTime (key : Key) (turn : ℕ) :
      Performs settings thread before (.watch key turn) (Except.ok ()) before
  | tooLate (key : Key) (turn : ℕ) :
      Performs settings thread before (.watch key turn) (Except.error .other) before
  | replied (key : Key) (turn : ℕ) (messages : List PromptMessage) (reply : Reply)
      (hnumber : reply.number = before.next)
      (hnative : reply.native = true → (reply.calls.map ToolCall.id).Nodup) :
      Performs settings thread before (.provider key turn messages) (Except.ok reply)
        (((before.useIds 1).log (.requested key turn messages)).log
          (.replied key turn reply.number))
  | notReplied (key : Key) (turn : ℕ) (messages : List PromptMessage) :
      Performs settings thread before (.provider key turn messages) (Except.error .other)
        (before.log (.requested key turn messages))
  | notRequested (key : Key) (turn : ℕ) (messages : List PromptMessage) :
      Performs settings thread before (.provider key turn messages) (Except.error .other) before
  | modes (key : Key) (turn : ℕ) (chat : Chat) (modes : Dictionary String Mode)
      (hchat : before.chats.get? key = some chat) (hmodes : settings.modes chat.modes = some modes)
      (unavailable : List String) :
      Performs settings thread before (.readModes key turn) (Except.ok (modes, unavailable)) before
  | notRead (key : Key) (turn : ℕ) :
      Performs settings thread before (.readModes key turn) (Except.error .other) before
  | paused (key : Key) (turn : ℕ) (actions : List Action) (sensitive : Bool)
      (continuation : Continuation) (after : World)
      (hauthorized : before.authorized key turn = true)
      (hafter : before.pauseChat settings key actions sensitive = some after) :
      Performs settings thread before (.pause key turn actions sensitive continuation) (Except.ok ())
        { after with continuations := after.continuations.insert key continuation }
  | pausedRaising (key : Key) (turn : ℕ) (actions : List Action) (sensitive : Bool)
      (continuation : Continuation) (after : World)
      (hauthorized : before.authorized key turn = true)
      (hafter : before.pauseChat settings key actions sensitive = some after) :
      Performs settings thread before (.pause key turn actions sensitive continuation)
        (Except.error .other) after
  | mayNotPause (key : Key) (turn : ℕ) (actions : List Action) (sensitive : Bool)
      (continuation : Continuation) (hauthorized : before.authorized key turn = false) :
      Performs settings thread before (.pause key turn actions sensitive continuation) (Except.ok ())
        (before.noteAuthority key turn)
  | notPaused (key : Key) (turn : ℕ) (actions : List Action) (sensitive : Bool)
      (continuation : Continuation) :
      Performs settings thread before (.pause key turn actions sensitive continuation)
        (Except.error .other) before
  | answered (key : Key) (turn reply : ℕ) (sensitive : Bool) (after : World)
      (hauthorized : before.authorized key turn = true)
      (hafter : (before.cacheAnswer key reply sensitive).storeAnswer settings key reply sensitive =
        some after) :
      Performs settings thread before (.finish key turn reply sensitive) (Except.ok ()) after
  | answeredRaising (key : Key) (turn reply : ℕ) (sensitive : Bool) (after : World)
      (hauthorized : before.authorized key turn = true)
      (hafter : (before.cacheAnswer key reply sensitive).storeAnswer settings key reply sensitive =
        some after) :
      Performs settings thread before (.finish key turn reply sensitive) (Except.error .other) after
  | mayNotAnswer (key : Key) (turn reply : ℕ) (sensitive : Bool)
      (hauthorized : before.authorized key turn = false) :
      Performs settings thread before (.finish key turn reply sensitive) (Except.ok ())
        (before.noteAuthority key turn)
  | notAnswered (key : Key) (turn reply : ℕ) (sensitive : Bool) :
      Performs settings thread before (.finish key turn reply sensitive) (Except.error .other) before
  | notStored (key : Key) (turn reply : ℕ) (sensitive : Bool)
      (hauthorized : before.authorized key turn = true) :
      Performs settings thread before (.finish key turn reply sensitive) (Except.error .other)
        ((before.cacheAnswer key reply sensitive).useIds 1)
  | failed (key : Key) (turn : ℕ) (after : World) (hauthorized : before.authorized key turn = true)
      (hafter : before.failChat settings key = some after) :
      Performs settings thread before (.fail key turn) (Except.ok ()) after
  | failedRaising (key : Key) (turn : ℕ) (after : World)
      (hauthorized : before.authorized key turn = true)
      (hafter : before.failChat settings key = some after) :
      Performs settings thread before (.fail key turn) (Except.error .other) after
  | mayNotFail (key : Key) (turn : ℕ) (hauthorized : before.authorized key turn = false) :
      Performs settings thread before (.fail key turn) (Except.ok ()) (before.noteAuthority key turn)
  | notFailed (key : Key) (turn : ℕ) (hauthorized : before.authorized key turn = true) :
      Performs settings thread before (.fail key turn) (Except.error .other) before
  | superseded (key : Key) (turn : ℕ) (hactive : before.active.get? key ≠ some turn) :
      Performs settings thread before (.close key turn) (Except.ok ()) before
  | closed (key : Key) (turn : ℕ) (chat : Chat) (hactive : before.active.get? key = some turn)
      (hchat : before.chats.get? key = some chat) (hrevoke : before.mustRevoke key turn chat = false) :
      Performs settings thread before (.close key turn) (Except.ok ())
        { before with active := before.active.erase key }
  | revoked (key : Key) (turn : ℕ) (chat : Chat) (after : World)
      (hactive : before.active.get? key = some turn) (hchat : before.chats.get? key = some chat)
      (hrevoke : before.mustRevoke key turn chat = true)
      (hafter : before.revokeChat settings key = some after) :
      Performs settings thread before (.close key turn) (Except.ok ()) (after.endTurn key)
  | revokedRaising (key : Key) (turn : ℕ) (chat : Chat) (after : World)
      (hactive : before.active.get? key = some turn) (hchat : before.chats.get? key = some chat)
      (hrevoke : before.mustRevoke key turn chat = true)
      (hafter : before.revokeChat settings key = some after) :
      Performs settings thread before (.close key turn) (Except.error .other) after
  | notClosed (key : Key) (turn : ℕ) (hactive : before.active.get? key = some turn) :
      Performs settings thread before (.close key turn) (Except.error .other) before

/-- What happens without a call. -/
inductive Happens (before : World) : World → Prop
  | authority (authority : Key → Bool) : Happens before { before with authority := authority }
  | time (clock : ℕ) : Happens before { before with clock := clock }
  | expired (keep : Key → Chat → Bool) :
      Happens before { before with chats := before.chats.filter keep }
  | evicted (keepText : Key × ℕ → ℕ → Bool) (keepContinuation : Key → Continuation → Bool) :
      Happens before { before with
        transient := before.transient.filter keepText
        continuations := before.continuations.filter keepContinuation }
  | restarted (keep : Key → Chat → Bool) :
      Happens before { before with
        chats := (before.chats.filter keep).mapValues fun _ ↦ recover
        active := Dictionary.empty
        transient := Dictionary.empty
        continuations := Dictionary.empty
        stopped := before.begun }

/-- A program has begun. -/
def World.begin (world : World) (thread : ℕ) : World :=
  { world with begun := Function.update world.begun thread true }

/-- A call of a program that runs in the present process. -/
def Acts (settings : Settings) (thread : ℕ) (request : ConversationCall) (before : World)
    (reply : request.Reply) (after : World) : Prop :=
  before.stopped thread = false ∧ Performs settings thread (before.begin thread) request reply after

/-- The service. -/
def conversationSemantics (settings : Settings) : Semantics conversationInterface World where
  perform := fun thread request before reply after ↦ Acts settings thread request before reply after
  environment := Happens

end Schemii.Conversations
