import Mathlib.Logic.Function.Basic
import Mathlib.Logic.Relation
import Mathlib.Tactic

/-!
# Cancellation of the queries of a turn

`common/query_executions/cancellation.py`: scopes of turns, the blocks in which a turn uses a
connection, and calls that cancel a turn, as steps of workers and cancellers in any order. A step ends
at the acquisition of a lock or at a check; what is done under a lock that is held for no longer than
that is one step, and the signal to a connection, which is sent under the lock of its registration, is
two.

The names of scopes, blocks and calls are numbers, and there are as many as one likes.
-/

set_option autoImplicit false

namespace Schemii.QueryExecutions

/-- Owner, chat and turn. -/
structure TurnKey where
  owner : String
  chatId : String
  turnId : String
  deriving DecidableEq, Repr

/-- How a block ends. -/
inductive Ending
  | returned
  | raised
  | interrupted
  | cancelled
  deriving DecidableEq, Repr

/-- Where a block stands: after its first check, registered, in its body, after its last check, with
its registration detached, and left. -/
inductive BlockPhase
  | checked
  | registered
  | inside
  | leaving (ending : Ending)
  | detached (ending : Ending)
  | left (ending : Ending)
  deriving DecidableEq, Repr

/-- `_Scope`. It is active once its own check has passed. -/
structure Scope where
  key : TurnKey
  stopped : Bool
  active : Bool
  registrations : List ℕ
  deriving Repr

/-- A block of `cancellable_connection` and its `_Registration`, with the connection that the
registration holds and the call that holds its lock. -/
structure Block (Connection : Type) where
  scope : ℕ
  connection : Connection
  held : Option Connection
  lockedBy : Option ℕ
  phase : BlockPhase

/-- Where a call stands: before the next scope, after stopping a scope, before the next registration,
and sending a signal. -/
inductive CallPhase
  | stopping
  | reading (scope : ℕ)
  | signalling
  | sending (block : ℕ)
  deriving DecidableEq, Repr

/-- A call of `cancel`, with the scopes that it found, those it has still to stop, the registrations of
the current scope that are left, and the blocks that it signalled. -/
structure CancelCall where
  owner : String
  chatId : String
  turnId : Option String
  matched : List ℕ
  pending : List ℕ
  remaining : List ℕ
  signalled : List ℕ
  phase : CallPhase
  deriving Repr

/-- A call has returned. -/
def CancelCall.Returned (call : CancelCall) : Prop :=
  call.phase = .stopping ∧ call.pending = []

/-- The turns that a call cancels. -/
def CancelCall.Matches (call : CancelCall) (key : TurnKey) : Prop :=
  key.owner = call.owner ∧ key.chatId = call.chatId ∧
    (call.turnId = none ∨ call.turnId = some key.turnId)

instance (call : CancelCall) (key : TurnKey) : Decidable (call.Matches key) :=
  inferInstanceAs (Decidable (_ ∧ _ ∧ (_ ∨ _)))

/-- Everything that the workers and the cancellers share. -/
structure CancellationState (Connection : Type) where
  scopes : ℕ → Option Scope
  registry : List ℕ
  blocks : ℕ → Option (Block Connection)
  calls : ℕ → Option CancelCall

/-- Nothing has happened. -/
def initialState (Connection : Type) : CancellationState Connection :=
  ⟨fun _ ↦ none, [], fun _ ↦ none, fun _ ↦ none⟩

/-- `_Scope.check` passes. -/
def Scope.check (scope : Scope) (authorized : Bool) : Bool :=
  !scope.stopped && authorized

/-- How a block ends after its last check. -/
def Scope.ending (scope : Scope) (authorized : Bool) (ending : Ending) : Ending :=
  if ending = .interrupted ∨ scope.check authorized then ending else .cancelled

section Updates

variable {Connection : Type} (state : CancellationState Connection)

/-- A scope changes. -/
def CancellationState.setScope (name : ℕ) (scope : Scope) : CancellationState Connection :=
  { state with scopes := Function.update state.scopes name (some scope) }

/-- A block changes. -/
def CancellationState.setBlock (name : ℕ) (block : Block Connection) :
    CancellationState Connection :=
  { state with blocks := Function.update state.blocks name (some block) }

/-- A call changes. -/
def CancellationState.setCall (name : ℕ) (call : CancelCall) : CancellationState Connection :=
  { state with calls := Function.update state.calls name (some call) }

@[simp]
theorem CancellationState.setScope_scopes (name other : ℕ) (scope : Scope) :
    (state.setScope name scope).scopes other =
      if other = name then some scope else state.scopes other :=
  Function.update_apply _ _ _ _

@[simp]
theorem CancellationState.setScope_blocks (name : ℕ) (scope : Scope) :
    (state.setScope name scope).blocks = state.blocks :=
  rfl

@[simp]
theorem CancellationState.setScope_calls (name : ℕ) (scope : Scope) :
    (state.setScope name scope).calls = state.calls :=
  rfl

@[simp]
theorem CancellationState.setScope_registry (name : ℕ) (scope : Scope) :
    (state.setScope name scope).registry = state.registry :=
  rfl

@[simp]
theorem CancellationState.setBlock_blocks (name other : ℕ) (block : Block Connection) :
    (state.setBlock name block).blocks other =
      if other = name then some block else state.blocks other :=
  Function.update_apply _ _ _ _

@[simp]
theorem CancellationState.setBlock_scopes (name : ℕ) (block : Block Connection) :
    (state.setBlock name block).scopes = state.scopes :=
  rfl

@[simp]
theorem CancellationState.setBlock_calls (name : ℕ) (block : Block Connection) :
    (state.setBlock name block).calls = state.calls :=
  rfl

@[simp]
theorem CancellationState.setBlock_registry (name : ℕ) (block : Block Connection) :
    (state.setBlock name block).registry = state.registry :=
  rfl

@[simp]
theorem CancellationState.setCall_calls (name other : ℕ) (call : CancelCall) :
    (state.setCall name call).calls other =
      if other = name then some call else state.calls other :=
  Function.update_apply _ _ _ _

@[simp]
theorem CancellationState.setCall_scopes (name : ℕ) (call : CancelCall) :
    (state.setCall name call).scopes = state.scopes :=
  rfl

@[simp]
theorem CancellationState.setCall_blocks (name : ℕ) (call : CancelCall) :
    (state.setCall name call).blocks = state.blocks :=
  rfl

@[simp]
theorem CancellationState.setCall_registry (name : ℕ) (call : CancelCall) :
    (state.setCall name call).registry = state.registry :=
  rfl

end Updates

/-- The steps of workers and cancellers. Whether a turn is authorized is decided at each check. The
order in which a call goes through scopes and registrations, which are sets, is any. -/
inductive Step {Connection : Type} : CancellationState Connection → CancellationState Connection → Prop
  | openScope {state} (name : ℕ) (key : TurnKey) (hnew : state.scopes name = none) :
      Step state { state.setScope name ⟨key, false, false, []⟩ with
        registry := state.registry ++ [name] }
  | enterScope {state} (name : ℕ) (scope : Scope) (authorized : Bool)
      (hscope : state.scopes name = some scope) (hcheck : scope.check authorized) :
      Step state (state.setScope name { scope with active := true })
  | closeScope {state} (name : ℕ) :
      Step state { state with registry := state.registry.filter fun other ↦ other ≠ name }
  | beginBlock {state} (name scopeName : ℕ) (scope : Scope) (connection : Connection)
      (authorized : Bool) (hnew : state.blocks name = none)
      (hscope : state.scopes scopeName = some scope) (hactive : scope.active)
      (hcheck : scope.check authorized) :
      Step state (state.setBlock name ⟨scopeName, connection, some connection, none, .checked⟩)
  | register {state} (name : ℕ) (block : Block Connection) (scope : Scope)
      (hblock : state.blocks name = some block) (hphase : block.phase = .checked)
      (hscope : state.scopes block.scope = some scope) :
      Step state ((state.setBlock name { block with phase := .registered }).setScope block.scope
        { scope with registrations := scope.registrations ++ [name] })
  | enterBlock {state} (name : ℕ) (block : Block Connection) (scope : Scope) (authorized : Bool)
      (hblock : state.blocks name = some block) (hphase : block.phase = .registered)
      (hscope : state.scopes block.scope = some scope) :
      Step state (state.setBlock name { block with
        phase := if scope.check authorized then .inside else .leaving .cancelled })
  | endBody {state} (name : ℕ) (block : Block Connection) (scope : Scope) (authorized : Bool)
      (ending : Ending) (hblock : state.blocks name = some block) (hphase : block.phase = .inside)
      (hscope : state.scopes block.scope = some scope) :
      Step state (state.setBlock name { block with
        phase := .leaving (scope.ending authorized ending) })
  | detach {state} (name : ℕ) (block : Block Connection) (ending : Ending)
      (hblock : state.blocks name = some block) (hphase : block.phase = .leaving ending)
      (hfree : block.lockedBy = none) :
      Step state (state.setBlock name { block with held := none, phase := .detached ending })
  | discard {state} (name : ℕ) (block : Block Connection) (scope : Scope) (ending : Ending)
      (hblock : state.blocks name = some block) (hphase : block.phase = .detached ending)
      (hscope : state.scopes block.scope = some scope) :
      Step state ((state.setBlock name { block with phase := .left ending }).setScope block.scope
        { scope with registrations := scope.registrations.filter fun other ↦ other ≠ name })
  | callCancel {state} (name : ℕ) (call : CancelCall) (hnew : state.calls name = none)
      (hmatched : call.matched = state.registry.filter fun scopeName ↦
        (state.scopes scopeName).any fun scope ↦ call.Matches scope.key)
      (hpending : call.pending = call.matched) (hremaining : call.remaining = [])
      (hsignalled : call.signalled = []) (hphase : call.phase = .stopping) :
      Step state (state.setCall name call)
  | stop {state} (name scopeName : ℕ) (call : CancelCall) (scope : Scope)
      (hcall : state.calls name = some call) (hphase : call.phase = .stopping)
      (hpending : scopeName ∈ call.pending) (hscope : state.scopes scopeName = some scope) :
      Step state ((state.setScope scopeName { scope with stopped := true }).setCall name
        { call with
          pending := call.pending.filter fun other ↦ other ≠ scopeName
          phase := .reading scopeName })
  | readRegistrations {state} (name scopeName : ℕ) (call : CancelCall) (scope : Scope)
      (hcall : state.calls name = some call) (hphase : call.phase = .reading scopeName)
      (hscope : state.scopes scopeName = some scope) :
      Step state (state.setCall name
        { call with remaining := scope.registrations, phase := .signalling })
  | skip {state} (name blockName : ℕ) (call : CancelCall) (block : Block Connection)
      (hcall : state.calls name = some call) (hphase : call.phase = .signalling)
      (hremaining : blockName ∈ call.remaining) (hblock : state.blocks blockName = some block)
      (hfree : block.lockedBy = none) (hheld : block.held = none) :
      Step state (state.setCall name
        { call with remaining := call.remaining.filter fun other ↦ other ≠ blockName })
  | startSignal {state} (name blockName : ℕ) (call : CancelCall) (block : Block Connection)
      (connection : Connection)
      (hcall : state.calls name = some call) (hphase : call.phase = .signalling)
      (hremaining : blockName ∈ call.remaining) (hblock : state.blocks blockName = some block)
      (hfree : block.lockedBy = none) (hheld : block.held = some connection) :
      Step state ((state.setBlock blockName { block with lockedBy := some name }).setCall name
        { call with
          remaining := call.remaining.filter fun other ↦ other ≠ blockName
          phase := .sending blockName })
  | endSignal {state} (name blockName : ℕ) (call : CancelCall) (block : Block Connection)
      (hcall : state.calls name = some call) (hphase : call.phase = .sending blockName)
      (hblock : state.blocks blockName = some block) :
      Step state ((state.setBlock blockName { block with lockedBy := none }).setCall name
        { call with signalled := call.signalled ++ [blockName], phase := .signalling })
  | nextScope {state} (name : ℕ) (call : CancelCall) (hcall : state.calls name = some call)
      (hphase : call.phase = .signalling) (hremaining : call.remaining = []) :
      Step state (state.setCall name { call with phase := .stopping })

/-- A run. -/
abbrev Steps {Connection : Type} : CancellationState Connection →
    CancellationState Connection → Prop :=
  Relation.ReflTransGen Step

end Schemii.QueryExecutions
