import Schemii.Foundations.Dictionary
import Schemii.Foundations.Interaction

/-!
# The turns of the AI sidecar

`TurnService` with its `CredentialVault` and its `TurnRunner`. The sidecar has one thread, so what runs
between two awaits is one call; the programs are the asynchronous functions, and the calls of others
come at their awaits. What the third-party credential store, the provider and `emit` answer is up to
them, a promise that never settles is a program that does not go on, and the provider may rewrite a
store it was given at any moment.

Some fields record what happened and are read by nothing: `flights`, the runs and refreshes that
registered and did not forget their credential yet; `requests`, the identity and the generation that a
call of the service asked for; `runs`, the runs in the runner; `admissions`, the counts and limits of
each admission to the runner; `scopes` and `written`, the identity that a store was made for and what
was written to such stores; and `terminals`, the terminal events.
-/

set_option autoImplicit false

namespace Schemii.Sidecar

open Schemii.Foundations

/-! ### Requests -/

/-- The key of a map: `identity`. -/
abbrev Key := String × String

/-- The codes of `TurnError`. -/
inductive TurnCode
  | providerFailed
  | providerRequestRejected
  | credentialsRequired
  | reasoningUnsupported
  | modelUnavailable
  | cancelled
  | timeout
  | busy
  | contextTooLarge
  | responseTooLarge
  | permissionChanged
  | toolDenied
  | invalidRequest
  | notFound
  | rateLimited
  | billingRequired
  | providerAccessDenied
  deriving DecidableEq, Repr

/-- The limit that a `TurnError` tells of. -/
structure LimitNotice where
  name : String
  configured : ℕ
  observed : ℕ
  deriving DecidableEq, Repr

/-- `TurnError`. -/
structure TurnError where
  code : TurnCode
  limit : Option LimitNotice
  deriving DecidableEq, Repr

/-- What the asynchronous functions throw. -/
inductive Thrown
  | turn (error : TurnError)
  | other
  deriving DecidableEq, Repr

/-- The limits of a request. -/
structure Limits where
  maxConcurrent : Option ℕ
  maxPerOwner : Option ℕ
  timeoutMs : Option ℕ
  contextBytes : Option ℕ
  responseBytes : Option ℕ
  deriving DecidableEq, Repr

/-- A limit is absent, or between one and its maximum. -/
def within (value : Option ℕ) (maximum : ℕ) : Bool :=
  match value with
  | none => true
  | some value => decide (1 ≤ value) && decide (value ≤ maximum)

/-- The check of limits against `maxima`. -/
def Limits.valid (limits : Limits) : Bool :=
  within limits.maxConcurrent 1000 && within limits.maxPerOwner 1000 &&
    within limits.timeoutMs 3600000 && within limits.contextBytes (8 * 1024 * 1024) &&
    within limits.responseBytes (8 * 1024 * 1024)

/-- A request to run a turn. The size is that of the credential as JSON. -/
structure RunRequest (C : Type) where
  owner : String
  turnId : String
  credentialId : String
  providerId : String
  modelId : String
  credential : C
  credentialBytes : ℕ
  generation : ℕ
  limits : Limits

/-- A request to refresh the models of a credential. -/
structure RefreshRequest (C : Type) where
  owner : String
  credentialId : String
  providerId : String
  credential : C
  credentialBytes : ℕ
  generation : ℕ

/-- `validId`. -/
def validId (value : String) : Bool := decide (0 < value.length) && decide (value.length ≤ 128)

variable {C : Type}

/-- The checks of `run`. -/
def RunRequest.valid (request : RunRequest C) (providerIds : List String) : Bool :=
  validId request.owner && validId request.turnId && validId request.credentialId &&
    validId request.modelId && providerIds.contains request.providerId &&
    decide (1 ≤ request.generation) && request.limits.valid &&
    decide (request.credentialBytes ≤ 64 * 1024)

/-- The checks of `refreshModels`. -/
def RefreshRequest.valid (request : RefreshRequest C) : Bool :=
  validId request.owner && validId request.credentialId &&
    ["openai-codex", "openai"].contains request.providerId && decide (1 ≤ request.generation) &&
    decide (request.credentialBytes ≤ 64 * 1024)

/-- The identity of a request. -/
def RunRequest.key (request : RunRequest C) : Key := (request.owner, request.credentialId)

/-- The key of the turn of a request. -/
def RunRequest.turnKey (request : RunRequest C) : Key := (request.owner, request.turnId)

/-- The identity of a request. -/
def RefreshRequest.key (request : RefreshRequest C) : Key := (request.owner, request.credentialId)

/-- The settings of the sidecar: the providers of the service and the default limits of the runner. -/
structure Settings where
  providerIds : List String
  maxConcurrent : ℕ
  maxPerOwner : ℕ

/-! ### Events -/

/-- How a run or a refresh ended. -/
inductive Ending
  | result
  | error (error : TurnError)
  deriving DecidableEq, Repr

/-- A terminal event. -/
structure Terminal (C : Type) where
  ending : Ending
  generation : ℕ
  credential : Option C

/-- Where a credential is read from its store. -/
inductive ReadPlace
  | inference
  | runCleanUp
  | refreshCleanUp
  deriving DecidableEq, Repr

/-! ### The programs -/

/-- The calls of the service. -/
inductive SidecarCall (C : Type)
  /-- `run` up to its first await. It makes a store for the identity. -/
  | admitRun (request : RunRequest C)
  /-- `refreshModels` up to its first await. It makes a store for the identity. -/
  | admitRefresh (request : RefreshRequest C)
  /-- The rest of `put`. -/
  | put (store : ℕ) (providerId : String) (credential : C)
  /-- `TurnRunner.run` up to the count. -/
  | enter (owner : String) (limits : Limits)
  /-- What comes before the credential is looked at. -/
  | prepare
  /-- `scope`. -/
  | scope (key : Key)
  /-- Read from a store. -/
  | read (place : ReadPlace) (store : ℕ) (providerId : String)
  /-- The next event of the provider, with the checks on it; whether it is text. -/
  | nextEvent
  /-- `emit` of a text. -/
  | emitText
  /-- The end of the answer of the provider, with the checks on it. -/
  | finish
  /-- Whether the time was up, and whether the signal was aborted. -/
  | status
  /-- The clean-up of `TurnRunner.run`. -/
  | leave (owner : String)
  /-- What `run` and `refreshModels` do to the maps in their clean-up. -/
  | forget (turn : Option Key) (key : Key)
  /-- `emit` of a terminal event, or the answer to a refresh. -/
  | emitTerminal (terminal : Terminal C)
  /-- `emit` of an error that has no generation and no credential. -/
  | emitError (error : TurnError)
  /-- `cancel`. -/
  | cancel (owner turnId : String)
  /-- `remove`. -/
  | remove (owner credentialId : String)

/-- What the calls answer. -/
def SidecarCall.Reply : SidecarCall C → Type
  | .admitRun _ | .admitRefresh _ => Except Thrown ℕ
  | .read _ _ _ => Except Thrown (Option C)
  | .nextEvent => Except Thrown Bool
  | .scope _ => ℕ
  | .status => Bool × Bool
  | .leave _ | .forget _ _ => Unit
  | .put _ _ _ | .enter _ _ | .prepare | .emitText | .finish | .emitTerminal _ | .emitError _
  | .cancel _ _ | .remove _ _ => Except Thrown Unit

/-- The interface of the sidecar. -/
def sidecarInterface (C : Type) : Interface := ⟨SidecarCall C, SidecarCall.Reply⟩

/-- A program of the sidecar. -/
abbrev SidecarProgram (C : Type) (α : Type) := Program (sidecarInterface C) Thrown α

/-- A call. -/
def ask (request : SidecarCall C) : SidecarProgram C request.Reply :=
  Program.ask (I := sidecarInterface C) request

/-- A promise: what it rejects with is thrown. -/
def await {α : Type} (program : SidecarProgram C (Except Thrown α)) : SidecarProgram C α :=
  Program.bind program Program.ofExcept

/-- The loop over the events of the provider. -/
def streamEvents : ℕ → SidecarProgram C Unit
  | 0 => .done ()
  | events + 1 =>
    Program.bind (await (ask .nextEvent)) fun (text : Bool) ↦
      Program.bind (if text then await (ask .emitText) else .done ()) fun _ ↦ streamEvents events

/-- The body of `TurnRunner.run`, with the number of events that the provider sends. -/
def infer (request : RunRequest C) (events : ℕ) : SidecarProgram C Unit :=
  Program.bind (await (ask .prepare)) fun _ ↦
    Program.bind (ask (.scope request.key)) fun (store : ℕ) ↦
      Program.bind (await (ask (.read .inference store request.providerId)))
        fun (credential : Option C) ↦
          match credential with
          | none => .raise (.turn ⟨.credentialsRequired, none⟩)
          | some _ => Program.bind (streamEvents events) fun _ ↦ await (ask .finish)

/-- What `TurnRunner.run` makes of an exception. -/
def runnerError (status : Bool × Bool) : Thrown → Thrown
  | .turn error =>
    if status.1 then .turn ⟨.timeout, none⟩
    else if status.2 then .turn ⟨.cancelled, none⟩
    else .turn error
  | .other =>
    if status.1 then .turn ⟨.timeout, none⟩
    else if status.2 then .turn ⟨.cancelled, none⟩
    else .turn ⟨.providerFailed, none⟩

/-- `TurnRunner.run`. -/
def runTurn (request : RunRequest C) (events : ℕ) : SidecarProgram C Unit :=
  Program.bind (await (ask (.enter request.owner request.limits))) fun _ ↦
    Program.bind (infer request events).attempt fun outcome ↦
      Program.bind
        (match outcome with
        | .ok () => .done (.ok ())
        | .error thrown => Program.bind (ask .status) fun (status : Bool × Bool) ↦
            .done (.error (runnerError status thrown))) fun outcome ↦
        Program.bind (ask (.leave request.owner)) fun _ ↦ Program.ofExcept outcome

/-- The terminal event of an outcome of a run. -/
def endingOf : Except Thrown Unit → Ending
  | .ok () => .result
  | .error (.turn error) => .error error
  | .error .other => .error ⟨.providerFailed, none⟩

/-- `run`. -/
def run (request : RunRequest C) (events : ℕ) : SidecarProgram C Unit :=
  Program.bind (await (ask (.admitRun request))) fun (store : ℕ) ↦
    Program.bind
      (Program.attempt
        (Program.bind (await (ask (.put store request.providerId request.credential))) fun _ ↦
          runTurn request events)) fun outcome ↦
      Program.bind (ask (.scope request.key)) fun (store : ℕ) ↦
        Program.bind (await (ask (.read .runCleanUp store request.providerId)))
          fun (updated : Option C) ↦
            Program.bind (ask (.forget (some request.turnKey) request.key)) fun _ ↦
              await (ask (.emitTerminal ⟨endingOf outcome, request.generation, updated⟩))

/-- `discoverModels`. -/
def discoverModels (request : RefreshRequest C) : SidecarProgram C Unit :=
  Program.bind (await (ask .prepare)) fun _ ↦
    Program.bind (ask (.scope request.key)) fun (store : ℕ) ↦
      Program.bind (await (ask (.read .inference store request.providerId)))
        fun (credential : Option C) ↦
          match credential with
          | none => .raise (.turn ⟨.credentialsRequired, none⟩)
          | some _ => await (ask .finish)

/-- The terminal event of an outcome of a refresh. -/
def refreshEnding (aborted : Bool) (outcome : Except Thrown Unit) : Ending :=
  match outcome with
  | .ok () => .result
  | .error thrown =>
    if aborted then .error ⟨.cancelled, none⟩
    else
      match thrown with
      | .turn error => .error ⟨error.code, none⟩
      | .other => .error ⟨.providerFailed, none⟩

/-- `refreshModels`, with its answer. -/
def refreshModels (request : RefreshRequest C) : SidecarProgram C Unit :=
  Program.bind (await (ask (.admitRefresh request))) fun (store : ℕ) ↦
    Program.bind
      (Program.attempt
        (Program.bind (await (ask (.put store request.providerId request.credential))) fun _ ↦
          discoverModels request)) fun outcome ↦
      Program.bind (ask .status) fun (status : Bool × Bool) ↦
        Program.bind (ask (.scope request.key)) fun (store : ℕ) ↦
          Program.bind (ask (.read .refreshCleanUp store request.providerId))
            fun (updated : Except Thrown (Option C)) ↦
              Program.bind (ask (.forget none request.key)) fun _ ↦
                Program.bind (Program.ofExcept updated) fun credential ↦
                  await (ask (.emitTerminal
                    ⟨refreshEnding status.2 outcome, request.generation, credential⟩))

/-- The handler of `/turns`. -/
def handleTurn (request : RunRequest C) (events : ℕ) : SidecarProgram C Unit :=
  Program.bind (run request events).attempt fun
    | .ok () => .done ()
    | .error (.turn error) => await (ask (.emitError error))
    | .error .other => await (ask (.emitError ⟨.providerFailed, none⟩))

/-- The programs that the sidecar runs. -/
inductive Starts : SidecarProgram C Unit → Prop
  | run (request : RunRequest C) (events : ℕ) : Starts (handleTurn request events)
  | refresh (request : RefreshRequest C) : Starts (refreshModels request)
  | cancel (owner turnId : String) : Starts (await (ask (.cancel owner turnId)))
  | remove (owner credentialId : String) : Starts (await (ask (.remove owner credentialId)))

/-! ### The state -/

/-- A run or a refresh that registered: the key of its turn, if it is a run, and its identity. -/
structure Flight where
  turn : Option Key
  key : Key
  deriving DecidableEq, Repr

/-- An admission to the runner: the counts with the new run, and its limits. -/
structure Admission where
  total : ℕ
  own : ℕ
  maxConcurrent : ℕ
  maxPerOwner : ℕ
  deriving DecidableEq, Repr

/-- The state of the sidecar. A controller is named by the program it belongs to. -/
structure SidecarState (C : Type) where
  turns : Dictionary Key ℕ
  identities : Dictionary Key ℕ
  stores : Dictionary Key ℕ
  contents : ℕ → String → Option C
  nextStore : ℕ
  active : ℕ
  owners : Dictionary String ℕ
  aborted : ℕ → Bool
  flights : ℕ → Option Flight
  requests : ℕ → Option (Key × ℕ)
  runs : List (ℕ × String)
  admissions : List Admission
  scopes : ℕ → Key
  written : List (Key × C)
  terminals : List (ℕ × Terminal C)

/-- A sidecar that has just started. -/
def SidecarState.initial : SidecarState C where
  turns := Dictionary.empty
  identities := Dictionary.empty
  stores := Dictionary.empty
  contents := fun _ _ ↦ none
  nextStore := 0
  active := 0
  owners := Dictionary.empty
  aborted := fun _ ↦ false
  flights := fun _ ↦ none
  requests := fun _ ↦ none
  runs := []
  admissions := []
  scopes := fun _ ↦ ("", "")
  written := []
  terminals := []

namespace SidecarState

/-- `scope`: the store of an identity, which is made when there is none. -/
def scope (state : SidecarState C) (key : Key) : ℕ × SidecarState C :=
  match state.stores.get? key with
  | some store => (store, state)
  | none =>
    (state.nextStore,
      { state with
        stores := state.stores.insert key state.nextStore
        nextStore := state.nextStore + 1
        scopes := Function.update state.scopes state.nextStore key })

/-- A write to a store. -/
def write (state : SidecarState C) (store : ℕ) (providerId : String) (credential : C) : SidecarState C :=
  { state with
    contents := Function.update state.contents store
      (Function.update (state.contents store) providerId (some credential))
    written := (state.scopes store, credential) :: state.written }

/-- The registration of a run or a refresh. -/
def register (state : SidecarState C) (thread : ℕ) (turn : Option Key) (key : Key) (generation : ℕ) :
    SidecarState C :=
  { state with
    turns := match turn with
      | none => state.turns
      | some turn => state.turns.insert turn thread
    identities := state.identities.insert key thread
    flights := Function.update state.flights thread (some ⟨turn, key⟩)
    requests := Function.update state.requests thread (some (key, generation)) }

/-- `run` up to its first await. -/
def admitRun (settings : Settings) (thread : ℕ) (state : SidecarState C) (request : RunRequest C) :
    Except Thrown ℕ × SidecarState C :=
  if !request.valid settings.providerIds then (.error (.turn ⟨.invalidRequest, none⟩), state)
  else if state.turns.contains request.turnKey || state.identities.contains request.key then
    (.error (.turn ⟨.busy, some ⟨"credential_overlap_guard", 1, 1⟩⟩), state)
  else
    let opened := (state.register thread (some request.turnKey) request.key request.generation).scope
      request.key
    (.ok opened.1, opened.2)

/-- `refreshModels` up to its first await. -/
def admitRefresh (thread : ℕ) (state : SidecarState C) (request : RefreshRequest C) :
    Except Thrown ℕ × SidecarState C :=
  if !request.valid then (.error (.turn ⟨.invalidRequest, none⟩), state)
  else if state.identities.contains request.key then (.error (.turn ⟨.busy, none⟩), state)
  else
    let opened := (state.register thread none request.key request.generation).scope request.key
    (.ok opened.1, opened.2)

/-- `TurnRunner.run` up to the count. -/
def enter (settings : Settings) (thread : ℕ) (state : SidecarState C) (owner : String)
    (limits : Limits) : Except Thrown Unit × SidecarState C :=
  let maxConcurrent := limits.maxConcurrent.getD settings.maxConcurrent
  let maxPerOwner := limits.maxPerOwner.getD settings.maxPerOwner
  let ownerActive := (state.owners.get? owner).getD 0
  if maxConcurrent ≤ state.active then
    (.error (.turn ⟨.busy, some ⟨"maximum_concurrent_turns", maxConcurrent, state.active⟩⟩), state)
  else if maxPerOwner ≤ ownerActive then
    (.error (.turn ⟨.busy, some ⟨"maximum_concurrent_turns_per_user", maxPerOwner, ownerActive⟩⟩),
      state)
  else
    (.ok (),
      { state with
        active := state.active + 1
        owners := state.owners.insert owner (ownerActive + 1)
        runs := (thread, owner) :: state.runs
        admissions :=
          ⟨state.active + 1, ownerActive + 1, maxConcurrent, maxPerOwner⟩ :: state.admissions })

/-- The clean-up of `TurnRunner.run`. -/
def leave (thread : ℕ) (state : SidecarState C) (owner : String) : SidecarState C :=
  let remaining := (state.owners.get? owner).getD 0 - 1
  { state with
    active := state.active - 1
    owners := if remaining = 0 then state.owners.erase owner
      else state.owners.insert owner remaining
    runs := state.runs.erase (thread, owner) }

/-- What `run` and `refreshModels` do to the maps in their clean-up. -/
def forget (thread : ℕ) (state : SidecarState C) (turn : Option Key) (key : Key) : SidecarState C :=
  { state with
    stores := state.stores.erase key
    turns := match turn with
      | none => state.turns
      | some turn => state.turns.erase turn
    identities := state.identities.erase key
    flights := Function.update state.flights thread none
    aborted := Function.update state.aborted thread true }

/-- The abortion of a controller. -/
def abort (state : SidecarState C) (controller : ℕ) : SidecarState C :=
  { state with aborted := Function.update state.aborted controller true }

/-- `cancel`. -/
def cancel (state : SidecarState C) (owner turnId : String) : Except Thrown Unit × SidecarState C :=
  if !(validId owner && validId turnId) then (.error (.turn ⟨.invalidRequest, none⟩), state)
  else
    match state.turns.get? (owner, turnId) with
    | none => (.error (.turn ⟨.notFound, none⟩), state)
    | some controller => (.ok (), state.abort controller)

/-- `remove`. -/
def remove (state : SidecarState C) (owner credentialId : String) : Except Thrown Unit × SidecarState C :=
  if !(validId owner && validId credentialId) then (.error (.turn ⟨.invalidRequest, none⟩), state)
  else
    match state.identities.get? (owner, credentialId) with
    | none => (.ok (), state)
    | some controller => (.ok (), state.abort controller)

end SidecarState

/-- What a call answers and does. A write whose promise is rejected may have been made or not. -/
inductive Performs (settings : Settings) (thread : ℕ) (before : SidecarState C) :
    (request : SidecarCall C) → request.Reply → SidecarState C → Prop
  | admitRun (request : RunRequest C) :
      Performs settings thread before (.admitRun request)
        (before.admitRun settings thread request).1 (before.admitRun settings thread request).2
  | admitRefresh (request : RefreshRequest C) :
      Performs settings thread before (.admitRefresh request)
        (before.admitRefresh thread request).1 (before.admitRefresh thread request).2
  | put (store : ℕ) (providerId : String) (credential : C) (outcome : Except Thrown Unit) :
      Performs settings thread before (.put store providerId credential) outcome
        (before.write store providerId credential)
  | putRejected (store : ℕ) (providerId : String) (credential : C) (thrown : Thrown) :
      Performs settings thread before (.put store providerId credential) (Except.error thrown) before
  | enter (owner : String) (limits : Limits) :
      Performs settings thread before (.enter owner limits)
        (before.enter settings thread owner limits).1 (before.enter settings thread owner limits).2
  | prepare (outcome : Except Thrown Unit) : Performs settings thread before .prepare outcome before
  | scope (key : Key) :
      Performs settings thread before (.scope key) (before.scope key).1 (before.scope key).2
  | read (place : ReadPlace) (store : ℕ) (providerId : String) :
      Performs settings thread before (.read place store providerId)
        (Except.ok (before.contents store providerId)) before
  | readRejected (place : ReadPlace) (store : ℕ) (providerId : String) (thrown : Thrown) :
      Performs settings thread before (.read place store providerId) (Except.error thrown) before
  | nextEvent (outcome : Except Thrown Bool) :
      Performs settings thread before .nextEvent outcome before
  | emitText (outcome : Except Thrown Unit) : Performs settings thread before .emitText outcome before
  | finish (outcome : Except Thrown Unit) : Performs settings thread before .finish outcome before
  | status (timedOut : Bool) :
      Performs settings thread before .status (timedOut, before.aborted thread) before
  | leave (owner : String) :
      Performs settings thread before (.leave owner) () (before.leave thread owner)
  | forget (turn : Option Key) (key : Key) :
      Performs settings thread before (.forget turn key) () (before.forget thread turn key)
  | emitTerminal (terminal : Terminal C) (outcome : Except Thrown Unit) :
      Performs settings thread before (.emitTerminal terminal) outcome
        { before with terminals := (thread, terminal) :: before.terminals }
  | emitError (error : TurnError) (outcome : Except Thrown Unit) :
      Performs settings thread before (.emitError error) outcome before
  | cancel (owner turnId : String) :
      Performs settings thread before (.cancel owner turnId) (before.cancel owner turnId).1
        (before.cancel owner turnId).2
  | remove (owner credentialId : String) :
      Performs settings thread before (.remove owner credentialId) (before.remove owner credentialId).1
        (before.remove owner credentialId).2

/-- What happens without a call of the service: a client disconnects, or a provider writes to a store or
takes a credential out of it. -/
inductive Happens (before : SidecarState C) : SidecarState C → Prop
  | disconnected (thread : ℕ) : Happens before (before.abort thread)
  | rotated (store : ℕ) (hstore : store < before.nextStore) (providerId : String) (credential : C) :
      Happens before (before.write store providerId credential)
  | dropped (store : ℕ) (providerId : String) :
      Happens before { before with
        contents := Function.update before.contents store
          (Function.update (before.contents store) providerId none) }

/-- The sidecar. -/
def sidecarSemantics (settings : Settings) : Semantics (sidecarInterface C) (SidecarState C) where
  perform := fun thread request before reply after ↦
    Performs settings thread before request reply after
  environment := Happens

end Schemii.Sidecar
