import Schemii.QueryExecutions.Cancellation

/-!
# What holds in every interleaving of a cancellation

`Inv` says how the registration of a block, the registrations of its scope and the progress of a call
belong together, and `inv_of_steps` that it holds in every state that is reached. Three things follow
from it: a signal goes to a block of a scope of the call (`Inv.signal`), a scope that is stopped
lets no block through its checks (`Steps.stopped`), and a call that has returned has signalled what it
read or found it gone (`Inv.accounted_returned`).
-/

set_option autoImplicit false

namespace Schemii.QueryExecutions

variable {Connection : Type} {state next : CancellationState Connection}

/-! ### What a step changes -/

variable {name : ℕ}

theorem Step.scope (h : Step state next) {scope : Scope} (hscope : state.scopes name = some scope) :
    ∃ later, next.scopes name = some later ∧ later.key = scope.key ∧
      (scope.stopped → later.stopped) := by
  cases h <;> simp only [CancellationState.setScope_scopes, CancellationState.setBlock_scopes,
    CancellationState.setCall_scopes] <;> grind

/-- A block keeps its scope and its connection, and holds nothing once it has let go. -/
theorem Step.block (h : Step state next) {block : Block Connection}
    (hblock : state.blocks name = some block) :
    ∃ later, next.blocks name = some later ∧ later.scope = block.scope ∧
      later.connection = block.connection ∧ (block.held = none → later.held = none) := by
  cases h <;> simp only [CancellationState.setScope_blocks, CancellationState.setBlock_blocks,
    CancellationState.setCall_blocks] <;> grind

theorem Step.phase_ne_checked (h : Step state next) {block later : Block Connection}
    (hblock : state.blocks name = some block) (hphase : block.phase ≠ .checked)
    (hlater : next.blocks name = some later) : later.phase ≠ .checked := by
  cases h <;> simp only [CancellationState.setScope_blocks, CancellationState.setBlock_blocks,
    CancellationState.setCall_blocks] at hlater <;> grind

theorem Step.call (h : Step state next) {call : CancelCall} (hcall : state.calls name = some call) :
    ∃ later, next.calls name = some later ∧ later.matched = call.matched ∧
      (∀ key, later.Matches key ↔ call.Matches key) ∧
      (∀ block ∈ call.signalled, block ∈ later.signalled) := by
  cases h <;> simp only [CancellationState.setScope_calls, CancellationState.setBlock_calls,
    CancellationState.setCall_calls] <;> grind [CancelCall.Matches]

/-! ### Blocks -/

/-- The registration of a block holds its connection. -/
def BlockPhase.Holds : BlockPhase → Bool
  | .checked => true
  | .registered => true
  | .inside => true
  | .leaving _ => true
  | _ => false

/-- A block has been entered and has not been left. -/
def BlockPhase.InBlock : BlockPhase → Bool
  | .registered => true
  | .inside => true
  | .leaving _ => true
  | _ => false

/-- The registration of a block is one of its scope. -/
def BlockPhase.Listed : BlockPhase → Bool
  | .detached _ => true
  | phase => phase.InBlock

variable {phase : BlockPhase}

theorem BlockPhase.inBlock_of_holds (hholds : phase.Holds)
    (hphase : phase ≠ .checked) : phase.InBlock := by
  cases phase with
  | checked => exact absurd rfl hphase
  | registered => rfl
  | inside => rfl
  | leaving ending => rfl
  | detached ending => simp [BlockPhase.Holds] at hholds
  | left ending => simp [BlockPhase.Holds] at hholds

theorem BlockPhase.holds_of_inBlock (hin : phase.InBlock) : phase.Holds := by
  cases phase <;> first | rfl | exact absurd hin (by simp [BlockPhase.InBlock])

theorem BlockPhase.listed_of_inBlock (hin : phase.InBlock) :
    phase.Listed := by
  cases phase <;> first | rfl | exact absurd hin (by simp [BlockPhase.InBlock])

/-- What holds of a block. -/
structure BlockInv (state : CancellationState Connection) (name : ℕ) (block : Block Connection) :
    Prop where
  held : block.held = if block.phase.Holds then some block.connection else none
  listed : ∃ scope, state.scopes block.scope = some scope ∧
    (name ∈ scope.registrations ↔ block.phase.Listed)
  locked : ∀ call, block.lockedBy = some call → block.phase.InBlock

/-- What holds of a scope: its registrations are blocks of it. -/
def ScopeInv (state : CancellationState Connection) (name : ℕ) (scope : Scope) : Prop :=
  ∀ blockName ∈ scope.registrations, ∃ block, state.blocks blockName = some block ∧
    block.scope = name

/-- What holds of a call. -/
structure CallInv (state : CancellationState Connection) (name : ℕ) (call : CancelCall) : Prop where
  matched : ∀ scopeName ∈ call.matched, ∃ scope, state.scopes scopeName = some scope ∧
    call.Matches scope.key
  stopped : ∀ scopeName ∈ call.matched, scopeName ∉ call.pending →
    ∃ scope, state.scopes scopeName = some scope ∧ scope.stopped
  pending : ∀ scopeName ∈ call.pending, scopeName ∈ call.matched
  reading : ∀ scopeName, call.phase = .reading scopeName → scopeName ∈ call.matched
  remaining : ∀ blockName ∈ call.remaining, ∃ block, state.blocks blockName = some block ∧
    block.scope ∈ call.matched ∧ block.phase ≠ .checked
  idle : call.phase = .stopping ∨ (∃ scopeName, call.phase = .reading scopeName) →
    call.remaining = []
  sending : ∀ blockName, call.phase = .sending blockName → ∃ block,
    state.blocks blockName = some block ∧ block.lockedBy = some name ∧
      block.scope ∈ call.matched

/-- What holds of every state that is reached. -/
structure Inv (state : CancellationState Connection) : Prop where
  blocks : ∀ name block, state.blocks name = some block → BlockInv state name block
  scopes : ∀ name scope, state.scopes name = some scope → ScopeInv state name scope
  calls : ∀ name call, state.calls name = some call → CallInv state name call
  registry : ∀ name ∈ state.registry, ∃ scope, state.scopes name = some scope

theorem inv_initial : Inv (initialState Connection) :=
  ⟨fun _ _ ↦ nofun, fun _ _ ↦ nofun, fun _ _ ↦ nofun, fun _ ↦ nofun⟩

theorem Inv.step_registry (hinv : Inv state) (h : Step state next) :
    ∀ name ∈ next.registry, ∃ scope, next.scopes name = some scope := by
  have hregistry := hinv.registry
  simp only [← Option.isSome_iff_exists] at hregistry ⊢
  cases h <;> simp only [CancellationState.setScope_scopes, CancellationState.setBlock_scopes,
    CancellationState.setCall_scopes, CancellationState.setScope_registry,
    CancellationState.setBlock_registry, CancellationState.setCall_registry] <;> grind

theorem Inv.step_scopes (hinv : Inv state) (h : Step state next) :
    ∀ name scope, next.scopes name = some scope → ScopeInv next name scope := by
  have hscopes := hinv.scopes
  unfold ScopeInv at hscopes ⊢
  cases h <;> simp only [CancellationState.setScope_scopes, CancellationState.setBlock_scopes,
    CancellationState.setCall_scopes, CancellationState.setScope_blocks,
    CancellationState.setBlock_blocks, CancellationState.setCall_blocks] <;> grind

theorem Inv.step_held (hinv : Inv state) (h : Step state next) :
    ∀ name block, next.blocks name = some block →
      block.held = if block.phase.Holds then some block.connection else none := by
  have hheld := fun name block hblock ↦ (hinv.blocks name block hblock).held
  cases h <;> simp only [CancellationState.setScope_blocks, CancellationState.setBlock_blocks,
    CancellationState.setCall_blocks] <;> grind [BlockPhase.Holds]

theorem Inv.step_listed (hinv : Inv state) (h : Step state next) :
    ∀ name block, next.blocks name = some block → ∃ scope,
      next.scopes block.scope = some scope ∧ (name ∈ scope.registrations ↔ block.phase.Listed) := by
  have hlisted := fun name block hblock ↦ (hinv.blocks name block hblock).listed
  have hscopes := hinv.scopes
  unfold ScopeInv at hscopes
  cases h <;> simp only [CancellationState.setScope_scopes, CancellationState.setBlock_scopes,
    CancellationState.setCall_scopes, CancellationState.setScope_blocks,
    CancellationState.setBlock_blocks, CancellationState.setCall_blocks] <;>
    grind [BlockPhase.Listed, BlockPhase.InBlock]

theorem Inv.step_locked (hinv : Inv state) (h : Step state next) :
    ∀ name block, next.blocks name = some block → ∀ call, block.lockedBy = some call →
      block.phase.InBlock := by
  have hlocked := fun name block hblock ↦ (hinv.blocks name block hblock).locked
  have hheld := fun name block hblock ↦ (hinv.blocks name block hblock).held
  have hremaining := fun name call hcall ↦ (hinv.calls name call hcall).remaining
  cases h <;> simp only [CancellationState.setScope_blocks, CancellationState.setBlock_blocks,
    CancellationState.setCall_blocks] <;> 
    grind [BlockPhase.InBlock, BlockPhase.inBlock_of_holds]

theorem Inv.step_blocks (hinv : Inv state) (h : Step state next) :
    ∀ name block, next.blocks name = some block → BlockInv next name block :=
  fun name block hblock ↦ ⟨hinv.step_held h name block hblock, hinv.step_listed h name block hblock,
    hinv.step_locked h name block hblock⟩

/-- A call is new, with the scopes that it finds, or it is one that was there, further on. -/
theorem Step.call_before (h : Step state next) {call : CancelCall}
    (hcall : next.calls name = some call) :
    (next.scopes = state.scopes ∧ call.pending = call.matched ∧ ∀ scopeName ∈ call.matched,
      scopeName ∈ state.registry ∧
        (state.scopes scopeName).any fun scope ↦ call.Matches scope.key) ∨
    ∃ earlier, state.calls name = some earlier ∧ call.matched = earlier.matched ∧
      (∀ key, call.Matches key ↔ earlier.Matches key) ∧
      ∀ scopeName ∈ earlier.pending, scopeName ∈ call.pending ∨
        (next.scopes scopeName).any fun scope ↦ scope.stopped := by
  cases h <;> simp only [CancellationState.setScope_calls, CancellationState.setBlock_calls,
    CancellationState.setCall_calls, CancellationState.setScope_scopes,
    CancellationState.setBlock_scopes, CancellationState.setCall_scopes] at hcall ⊢ <;>
    grind [CancelCall.Matches]

theorem Inv.step_matched (hinv : Inv state) (h : Step state next) :
    ∀ name call, next.calls name = some call → ∀ scopeName ∈ call.matched,
      ∃ scope, next.scopes scopeName = some scope ∧ call.Matches scope.key := by
  intro name call hcall scopeName hmatched
  obtain ⟨hscopes, hpending, hfound⟩ | ⟨earlier, hearlier, hsame, hmatches, -⟩ := h.call_before hcall
  · obtain ⟨scope, hscope, hmatches⟩ := (Option.any_eq_true _ _).mp
      (hfound scopeName hmatched).2
    exact ⟨scope, hscopes ▸ hscope, by simpa using hmatches⟩
  · obtain ⟨scope, hscope, hkey⟩ := (hinv.calls name earlier hearlier).matched scopeName
      (hsame ▸ hmatched)
    obtain ⟨later, hlater, hsameKey, -⟩ := h.scope hscope
    exact ⟨later, hlater, (hmatches _).mpr (hsameKey ▸ hkey)⟩

theorem Inv.step_stopped (hinv : Inv state) (h : Step state next) :
    ∀ name call, next.calls name = some call → ∀ scopeName ∈ call.matched,
      scopeName ∉ call.pending → ∃ scope, next.scopes scopeName = some scope ∧ scope.stopped := by
  intro name call hcall scopeName hmatched hpending
  obtain ⟨-, hall, -⟩ | ⟨earlier, hearlier, hsame, -, hstopped⟩ := h.call_before hcall
  · exact absurd (hall ▸ hmatched) hpending
  · by_cases hearlierPending : scopeName ∈ earlier.pending
    · exact (Option.any_eq_true _ _).mp
        ((hstopped scopeName hearlierPending).resolve_left hpending)
    · obtain ⟨scope, hscope, hstop⟩ := (hinv.calls name earlier hearlier).stopped scopeName
        (hsame ▸ hmatched) hearlierPending
      obtain ⟨later, hlater, -, hstays⟩ := h.scope hscope
      exact ⟨later, hlater, hstays hstop⟩

theorem Inv.step_pending (hinv : Inv state) (h : Step state next) :
    ∀ name call, next.calls name = some call →
      (∀ scopeName ∈ call.pending, scopeName ∈ call.matched) ∧
      (∀ scopeName, call.phase = .reading scopeName → scopeName ∈ call.matched) ∧
      (call.phase = .stopping ∨ (∃ scopeName, call.phase = .reading scopeName) →
        call.remaining = []) := by
  have hpending := fun name call hcall ↦ (hinv.calls name call hcall).pending
  have hreading := fun name call hcall ↦ (hinv.calls name call hcall).reading
  have hidle := fun name call hcall ↦ (hinv.calls name call hcall).idle
  cases h <;> simp only [CancellationState.setScope_calls, CancellationState.setBlock_calls,
    CancellationState.setCall_calls] <;> grind

variable {blockName : ℕ}

theorem Step.remaining_before (h : Step state next) {call : CancelCall}
    (hcall : next.calls name = some call) (hblock : blockName ∈ call.remaining) :
    ∃ earlier, state.calls name = some earlier ∧ call.matched = earlier.matched ∧
      (blockName ∈ earlier.remaining ∨ ∃ scopeName scope, earlier.phase = .reading scopeName ∧
        state.scopes scopeName = some scope ∧ blockName ∈ scope.registrations) := by
  cases h <;> simp only [CancellationState.setScope_calls, CancellationState.setBlock_calls,
    CancellationState.setCall_calls] at hcall ⊢ <;> grind

theorem Inv.step_remaining (hinv : Inv state) (h : Step state next) :
    ∀ name call, next.calls name = some call → ∀ blockName ∈ call.remaining,
      ∃ block, next.blocks blockName = some block ∧ block.scope ∈ call.matched ∧
        block.phase ≠ .checked := by
  intro name call hcall blockName hremaining
  obtain ⟨earlier, hearlier, hsame, hbefore⟩ := h.remaining_before hcall hremaining
  have hfound : ∃ block, state.blocks blockName = some block ∧ block.scope ∈ earlier.matched ∧
      block.phase ≠ .checked := by
    obtain hold | ⟨scopeName, scope, hphase, hscope, hlisted⟩ := hbefore
    · exact (hinv.calls name earlier hearlier).remaining blockName hold
    · obtain ⟨block, hblock, rfl⟩ := hinv.scopes scopeName scope hscope blockName hlisted
      obtain ⟨same, hsameScope, hiff⟩ := (hinv.blocks blockName block hblock).listed
      obtain rfl : scope = same := Option.some_injective _ (hscope.symm.trans hsameScope)
      refine ⟨block, hblock, (hinv.calls name earlier hearlier).reading _ hphase, fun hchecked ↦ ?_⟩
      have hphaseListed := hiff.mp hlisted
      rw [hchecked] at hphaseListed
      exact absurd hphaseListed (by decide)
  obtain ⟨block, hblock, hscope, hphase⟩ := hfound
  obtain ⟨later, hlater, hsameScope, -⟩ := h.block hblock
  exact ⟨later, hlater, by rwa [hsameScope, hsame], h.phase_ne_checked hblock hphase hlater⟩

theorem Inv.step_sending (hinv : Inv state) (h : Step state next) :
    ∀ name call, next.calls name = some call → ∀ blockName, call.phase = .sending blockName →
      ∃ block, next.blocks blockName = some block ∧ block.lockedBy = some name ∧
        block.scope ∈ call.matched := by
  have hremaining := fun name call hcall ↦ (hinv.calls name call hcall).remaining
  have hsending := fun name call hcall ↦ (hinv.calls name call hcall).sending
  cases h <;> simp only [CancellationState.setScope_calls, CancellationState.setBlock_calls,
    CancellationState.setCall_calls, CancellationState.setScope_blocks,
    CancellationState.setBlock_blocks, CancellationState.setCall_blocks] <;> grind

theorem Inv.step (hinv : Inv state) (h : Step state next) : Inv next where
  blocks := hinv.step_blocks h
  scopes := hinv.step_scopes h
  calls := fun name call hcall ↦
    { matched := hinv.step_matched h name call hcall
      stopped := hinv.step_stopped h name call hcall
      pending := (hinv.step_pending h name call hcall).1
      reading := (hinv.step_pending h name call hcall).2.1
      remaining := hinv.step_remaining h name call hcall
      idle := (hinv.step_pending h name call hcall).2.2
      sending := hinv.step_sending h name call hcall }
  registry := hinv.step_registry h

theorem inv_of_steps (h : Steps (initialState Connection) state) : Inv state := by
  induction h with
  | refl => exact inv_initial
  | tail _ hstep ih => exact ih.step hstep

theorem Inv.steps (hinv : Inv state) (h : Steps state next) : Inv next := by
  induction h with
  | refl => exact hinv
  | tail _ hstep ih => exact ih.step hstep

/-! ### Signals -/

theorem Inv.signal (hinv : Inv state) {call : CancelCall} (hcall : state.calls name = some call)
    (hphase : call.phase = .sending blockName) :
    ∃ block scope, state.blocks blockName = some block ∧ block.phase.InBlock ∧
      block.held = some block.connection ∧ state.scopes block.scope = some scope ∧
      call.Matches scope.key := by
  obtain ⟨block, hblock, hlocked, hmatched⟩ := (hinv.calls name call hcall).sending _ hphase
  obtain ⟨scope, hscope, hmatches⟩ := (hinv.calls name call hcall).matched _ hmatched
  have hin := (hinv.blocks blockName block hblock).locked name hlocked
  have hheld := (hinv.blocks blockName block hblock).held
  rw [if_pos (BlockPhase.holds_of_inBlock hin)] at hheld
  exact ⟨block, scope, hblock, hin, hheld, hscope, hmatches⟩

/-! ### After a call -/

theorem Step.returned (h : Step state next) {call : CancelCall}
    (hcall : state.calls name = some call) (hreturned : call.Returned) :
    next.calls name = some call := by
  obtain ⟨hphase, hpending⟩ := hreturned
  cases h <;> simp only [CancellationState.setScope_calls, CancellationState.setBlock_calls,
    CancellationState.setCall_calls] <;> grind

/-- How a block has ended, once it has passed its last check. -/
def BlockPhase.ending : BlockPhase → Option Ending
  | .leaving ending => some ending
  | .detached ending => some ending
  | .left ending => some ending
  | _ => none

variable {scopeName : ℕ} {later : Block Connection}

theorem Step.begun (h : Step state next) {scope : Scope}
    (hscope : state.scopes scopeName = some scope) (hstopped : scope.stopped)
    (hlater : next.blocks blockName = some later)
    (hof : later.scope = scopeName) : ∃ block, state.blocks blockName = some block := by
  rw [← Option.ne_none_iff_exists']
  cases h <;> simp only [CancellationState.setScope_blocks, CancellationState.setBlock_blocks,
    CancellationState.setCall_blocks] at hlater <;> grind [Scope.check]

theorem Step.stopped (h : Step state next) {scope : Scope}
    (hscope : state.scopes scopeName = some scope) (hstopped : scope.stopped)
    (hlater : next.blocks blockName = some later) (hof : later.scope = scopeName) :
    ∃ block, state.blocks blockName = some block ∧ block.scope = scopeName ∧
      (later.phase = .inside → block.phase = .inside) ∧
      ∀ ending, later.phase.ending = some ending →
        ending = .cancelled ∨ ending = .interrupted ∨ block.phase.ending = some ending := by
  obtain ⟨block, hblock⟩ := h.begun hscope hstopped hlater hof
  refine ⟨block, hblock, ?_⟩
  cases h <;> simp only [CancellationState.setScope_blocks, CancellationState.setBlock_blocks,
    CancellationState.setCall_blocks] at hlater <;>
    grind [Scope.check, Scope.ending, BlockPhase.ending]

theorem Steps.scope (h : Steps state next) {scope : Scope}
    (hscope : state.scopes name = some scope) :
    ∃ later, next.scopes name = some later ∧ later.key = scope.key ∧
      (scope.stopped → later.stopped) := by
  induction h with
  | refl => exact ⟨scope, hscope, rfl, id⟩
  | tail _ hstep ih =>
    obtain ⟨middle, hmiddle, hkey, hstays⟩ := ih
    obtain ⟨later, hlater, hlaterKey, hlaterStays⟩ := hstep.scope hmiddle
    exact ⟨later, hlater, hlaterKey.trans hkey, hlaterStays ∘ hstays⟩

theorem Steps.call (h : Steps state next) {call : CancelCall}
    (hcall : state.calls name = some call) :
    ∃ later, next.calls name = some later ∧ later.matched = call.matched := by
  induction h with
  | refl => exact ⟨call, hcall, rfl⟩
  | tail _ hstep ih =>
    obtain ⟨middle, hmiddle, hsame⟩ := ih
    obtain ⟨later, hlater, hlaterSame, -⟩ := hstep.call hmiddle
    exact ⟨later, hlater, hlaterSame.trans hsame⟩

/-- In a run from a state in which a scope is stopped, a block of it is in its body, or has passed
its last check, only if that was so before. -/
theorem Steps.stopped (h : Steps state next) {scope : Scope}
    (hscope : state.scopes scopeName = some scope) (hstopped : scope.stopped)
    (hlater : next.blocks blockName = some later) (hof : later.scope = scopeName) :
    ∃ block, state.blocks blockName = some block ∧ block.scope = scopeName ∧
      (later.phase = .inside → block.phase = .inside) ∧
      ∀ ending, later.phase.ending = some ending →
        ending = .cancelled ∨ ending = .interrupted ∨ block.phase.ending = some ending := by
  induction h generalizing later with
  | refl => exact ⟨later, hlater, hof, id, fun _ hending ↦ .inr (.inr hending)⟩
  | tail hrun hstep ih =>
    obtain ⟨middleScope, hmiddleScope, -, hstays⟩ := Steps.scope hrun hscope
    obtain ⟨middle, hmiddle, hmiddleOf, hinside, hendings⟩ :=
      hstep.stopped hmiddleScope (hstays hstopped) hlater hof
    obtain ⟨block, hblock, hblockOf, hinsideBefore, hendingsBefore⟩ := ih hmiddle hmiddleOf
    refine ⟨block, hblock, hblockOf, hinsideBefore ∘ hinside, fun ending hending ↦ ?_⟩
    obtain hcancelled | hinterrupted | hbefore := hendings ending hending
    · exact .inl hcancelled
    · exact .inr (.inl hinterrupted)
    · exact hendingsBefore ending hbefore

/-- A block that a call has read is one that it has still to signal, or is signalling, or has
signalled, or one that holds nothing. -/
def Accounted (state : CancellationState Connection) (name blockName : ℕ) : Prop :=
  ∃ call block, state.calls name = some call ∧ state.blocks blockName = some block ∧
    (blockName ∈ call.remaining ∨ call.phase = .sending blockName ∨ blockName ∈ call.signalled ∨
      block.held = none)

variable {name blockName : ℕ}

theorem Inv.accounted (hinv : Inv state) (h : Step state next)
    (haccounted : Accounted state name blockName) : Accounted next name blockName := by
  obtain ⟨call, block, hcall, hblock, hcases⟩ := haccounted
  obtain ⟨later, hlater, -, -, hsignalled⟩ := h.call hcall
  obtain ⟨laterBlock, hlaterBlock, -, -, hheld⟩ := h.block hblock
  refine ⟨later, laterBlock, hlater, hlaterBlock, ?_⟩
  obtain hremaining | hsending | hdone | hnothing := hcases
  · have hreading : ∀ scopeName, call.phase ≠ .reading scopeName := fun scopeName hphase ↦ by
      simp [(hinv.calls name call hcall).idle (.inr ⟨scopeName, hphase⟩)] at hremaining
    cases h <;> simp only [CancellationState.setScope_calls, CancellationState.setBlock_calls,
      CancellationState.setCall_calls, CancellationState.setScope_blocks,
      CancellationState.setBlock_blocks, CancellationState.setCall_blocks] at hlater hlaterBlock <;>
      grind
  · cases h <;> simp only [CancellationState.setScope_calls, CancellationState.setBlock_calls,
      CancellationState.setCall_calls] at hlater <;> grind
  · exact .inr (.inr (.inl (hsignalled blockName hdone)))
  · exact .inr (.inr (.inr (hheld hnothing)))

theorem Inv.accounted_steps (hinv : Inv state) (h : Steps state next)
    (haccounted : Accounted state name blockName) : Accounted next name blockName := by
  induction h with
  | refl => exact haccounted
  | tail hrun hstep ih => exact (hinv.steps hrun).accounted hstep ih

theorem Inv.accounted_read (hinv : Inv state) (h : Step state next) {name scopeName : ℕ}
    {call later : CancelCall} (hcall : state.calls name = some call)
    (hphase : call.phase = .reading scopeName) (hlater : next.calls name = some later)
    (hread : later.phase = .signalling) {block : Block Connection}
    (hblock : state.blocks blockName = some block) (hof : block.scope = scopeName)
    (hin : block.phase.InBlock) : Accounted next name blockName := by
  obtain ⟨scope, hscope, hlisted⟩ := (hinv.blocks blockName block hblock).listed
  have hmem : blockName ∈ scope.registrations :=
    hlisted.mpr (BlockPhase.listed_of_inBlock hin)
  obtain ⟨laterBlock, hlaterBlock, -⟩ := h.block hblock
  refine ⟨later, laterBlock, hlater, hlaterBlock, .inl ?_⟩
  cases h <;> simp only [CancellationState.setScope_calls, CancellationState.setBlock_calls,
    CancellationState.setCall_calls] at hlater <;> grind

/-- A call that has returned has signalled what it accounts for, or it holds nothing. -/
theorem Inv.accounted_returned (hinv : Inv state) {call : CancelCall}
    (hcall : state.calls name = some call) (hreturned : call.Returned)
    (haccounted : Accounted state name blockName) :
    blockName ∈ call.signalled ∨
      ∃ block, state.blocks blockName = some block ∧ block.phase.InBlock = false := by
  obtain ⟨same, block, hsame, hblock, hcases⟩ := haccounted
  obtain rfl : call = same := Option.some_injective _ (hcall.symm.trans hsame)
  obtain hremaining | hsending | hdone | hnothing := hcases
  · rw [(hinv.calls name call hcall).idle (.inl hreturned.1)] at hremaining
    exact absurd hremaining List.not_mem_nil
  · exact absurd (hreturned.1.symm.trans hsending) CallPhase.noConfusion
  · exact .inl hdone
  · refine .inr ⟨block, hblock, Bool.eq_false_iff.mpr fun hin ↦ ?_⟩
    have hheld := (hinv.blocks blockName block hblock).held
    rw [if_pos (BlockPhase.holds_of_inBlock hin), hnothing] at hheld
    exact absurd hheld (Option.some_ne_none _).symm

theorem Step.found (h : Step state next) {call : CancelCall}
    (hnew : state.calls name = none) (hcall : next.calls name = some call)
    (hregistered : scopeName ∈ state.registry) {scope : Scope}
    (hscope : state.scopes scopeName = some scope) (hmatches : call.Matches scope.key) :
    scopeName ∈ call.matched := by
  cases h <;> simp only [CancellationState.setScope_calls, CancellationState.setBlock_calls,
    CancellationState.setCall_calls] at hcall <;> grind

end Schemii.QueryExecutions
