import Schemii.QueryExecutions.CancellationSafety

/-!
# A call of cancel reaches its turns and no others

`cancellation_exact` is about every run of workers and cancellers: whom a signal reaches, what a scope
still lets through once a call has returned, and what has become of the blocks that were in progress.
It says nothing of a block that had passed its last check when its scope was stopped, which is left as
if nothing had happened (`block_left_after_cancel`).
-/

set_option autoImplicit false

namespace Schemii.QueryExecutions

variable {Connection : Type}

/-- A connection is in one block at a time. -/
def Exclusive (state : CancellationState Connection) : Prop :=
  ∀ first second firstBlock secondBlock, state.blocks first = some firstBlock →
    state.blocks second = some secondBlock → firstBlock.connection = secondBlock.connection →
    firstBlock.phase.InBlock → secondBlock.phase.InBlock → first = second

/-- A call of `cancel` reaches exactly the turns that it cancels. A signal that is being sent goes to
a connection that is inside a block of one of them, so that where connections are in one block at a
time no other turn that uses it is reached. Once a call has returned, no block of a scope that it
found when it began enters its body or passes its last check: the checks raise, and only an
interruption, which is not checked, ends it otherwise. And a block that was in progress when the
registrations of its scope were read has been signalled then, or has been left. -/
theorem cancellation_exact :
    (∀ (state : CancellationState Connection), Steps (initialState Connection) state →
      ∀ name call blockName, state.calls name = some call → call.phase = .sending blockName →
        ∃ block scope, state.blocks blockName = some block ∧ block.phase.InBlock ∧
          block.held = some block.connection ∧ state.scopes block.scope = some scope ∧
          call.Matches scope.key ∧
          (Exclusive state → ∀ other otherBlock otherScope, state.blocks other = some otherBlock →
            otherBlock.connection = block.connection → otherBlock.phase.InBlock →
            state.scopes otherBlock.scope = some otherScope → call.Matches otherScope.key)) ∧
    (∀ (before started returned final : CancellationState Connection),
      Steps (initialState Connection) before → Step before started → Steps started returned →
      Steps returned final →
      ∀ name call last, before.calls name = none → started.calls name = some call →
        returned.calls name = some last → last.Returned →
        ∀ scopeName ∈ before.registry, ∀ scope, before.scopes scopeName = some scope →
          call.Matches scope.key → ∀ blockName later, final.blocks blockName = some later →
            later.scope = scopeName → ∃ block, returned.blocks blockName = some block ∧
              (later.phase = .inside → block.phase = .inside) ∧
              ∀ ending, later.phase.ending = some ending → ending = .cancelled ∨
                ending = .interrupted ∨ block.phase.ending = some ending) ∧
    (∀ (before read returned : CancellationState Connection),
      Steps (initialState Connection) before → Step before read → Steps read returned →
      ∀ name call reading last scopeName, before.calls name = some call →
        call.phase = .reading scopeName → read.calls name = some reading →
        reading.phase = .signalling → returned.calls name = some last → last.Returned →
        ∀ blockName block, before.blocks blockName = some block → block.scope = scopeName →
          block.phase.InBlock → blockName ∈ last.signalled ∨
            ∃ later, returned.blocks blockName = some later ∧ later.phase.InBlock = false) := by
  refine ⟨?_, ?_, ?_⟩
  · intro state hrun name call blockName hcall hphase
    obtain ⟨block, scope, hblock, hin, hheld, hscope, hmatches⟩ :=
      (inv_of_steps hrun).signal hcall hphase
    refine ⟨block, scope, hblock, hin, hheld, hscope, hmatches, ?_⟩
    intro hexclusive other otherBlock otherScope hother hconnection hotherIn hotherScope
    obtain rfl := hexclusive other blockName otherBlock block hother hblock hconnection hotherIn hin
    obtain rfl : otherBlock = block := Option.some_injective _ (hother.symm.trans hblock)
    obtain rfl : otherScope = scope := Option.some_injective _ (hotherScope.symm.trans hscope)
    exact hmatches
  · intro before started returned final hrun hbegin hreturn hafter name call last hnew hcall hlast
      hreturned scopeName hregistered scope hscope hmatches blockName later hlater hof
    have hinv : Inv returned := ((inv_of_steps hrun).step hbegin).steps hreturn
    have hfound : scopeName ∈ call.matched :=
      hbegin.found hnew hcall hregistered hscope hmatches
    obtain ⟨same, hsame, hmatched⟩ := Steps.call hreturn hcall
    obtain rfl : last = same := Option.some_injective _ (hlast.symm.trans hsame)
    obtain ⟨stoppedScope, hstoppedScope, hstopped⟩ := (hinv.calls name last hlast).stopped scopeName
      (hmatched ▸ hfound) (by simp [hreturned.2])
    obtain ⟨block, hblock, -, hinside, hendings⟩ :=
      Steps.stopped hafter hstoppedScope hstopped hlater hof
    exact ⟨block, hblock, hinside, hendings⟩
  · intro before read returned hrun hread hreturn name call reading last scopeName hcall hphase
      hreading hsignalling hlast hreturned blockName block hblock hof hin
    have hinv : Inv before := inv_of_steps hrun
    have haccounted : Accounted read name blockName :=
      hinv.accounted_read hread hcall hphase hreading hsignalling hblock hof hin
    exact ((hinv.step hread).steps hreturn).accounted_returned hlast hreturned
      ((hinv.step hread).accounted_steps hreturn haccounted)

/-! ### A block and a call -/

/-- A turn. -/
def someTurn : TurnKey :=
  ⟨"alice", "chat", "turn"⟩

/-- A call that cancels it, when it has found a scope. -/
def someCall : CancelCall :=
  ⟨"alice", "chat", some "turn", [0], [0], [], [], .stopping⟩

/-- What has been shared when a block of a turn, with connection 7, stands at a phase. -/
def blockAt (stopped : Bool) (phase : BlockPhase) (call : Option CancelCall)
    (lockedBy : Option ℕ) : CancellationState ℕ where
  scopes := Function.update (fun _ ↦ none) 0 (some ⟨someTurn, stopped, true, [0]⟩)
  registry := [0]
  blocks := Function.update (fun _ ↦ none) 0 (some ⟨0, 7, some 7, lockedBy, phase⟩)
  calls := Function.update (fun _ ↦ none) 0 call

theorem steps_inside : Steps (initialState ℕ) (blockAt false .inside none none) := by
  have hopen : Steps (initialState ℕ) _ := .single (.openScope 0 someTurn rfl)
  have henter := hopen.tail (.enterScope 0 ⟨someTurn, false, false, []⟩ true rfl rfl)
  have hbegin := henter.tail (.beginBlock 0 0 ⟨someTurn, false, true, []⟩ 7 true rfl rfl rfl rfl)
  have hregister := hbegin.tail
    (.register 0 ⟨0, 7, some 7, none, .checked⟩ ⟨someTurn, false, true, []⟩ rfl rfl rfl)
  have hinside := hregister.tail (.enterBlock 0 ⟨0, 7, some 7, none, .registered⟩
    ⟨someTurn, false, true, [0]⟩ true rfl rfl rfl)
  convert hinside using 1
  simp [blockAt, initialState, CancellationState.setScope, CancellationState.setBlock, Scope.check]

/-- The call when it has stopped the scope. -/
def readingCall : CancelCall :=
  { someCall with pending := [], phase := .reading 0 }

/-- The call when it has read the registrations. -/
def signallingCall : CancelCall :=
  { readingCall with remaining := [0], phase := .signalling }

/-- The call while it sends its signal. -/
def sendingCall : CancelCall :=
  { readingCall with phase := .sending 0 }

/-- The call when it has returned. -/
def returnedCall : CancelCall :=
  { readingCall with signalled := [0], phase := .stopping }

theorem step_call (phase : BlockPhase) :
    Step (blockAt false phase none none) (blockAt false phase (some someCall) none) := by
  have hstep : Step (blockAt false phase none none) _ :=
    .callCancel 0 someCall rfl rfl rfl rfl rfl rfl
  convert hstep using 1
  simp [blockAt, CancellationState.setCall]

theorem step_stop (phase : BlockPhase) :
    Step (blockAt false phase (some someCall) none)
      (blockAt true phase (some readingCall) none) := by
  have hstep : Step (blockAt false phase (some someCall) none) _ :=
    .stop 0 0 someCall ⟨someTurn, false, true, [0]⟩ rfl rfl (List.mem_singleton.mpr rfl) rfl
  convert hstep using 1
  simp [blockAt, CancellationState.setScope, CancellationState.setCall, someCall, readingCall]

theorem step_read (phase : BlockPhase) :
    Step (blockAt true phase (some readingCall) none)
      (blockAt true phase (some signallingCall) none) := by
  have hstep : Step (blockAt true phase (some readingCall) none) _ :=
    .readRegistrations 0 0 readingCall ⟨someTurn, true, true, [0]⟩ rfl rfl rfl
  convert hstep using 1
  simp [blockAt, CancellationState.setCall, signallingCall]

theorem step_send (phase : BlockPhase) :
    Step (blockAt true phase (some signallingCall) none)
      (blockAt true phase (some sendingCall) (some 0)) := by
  have hstep : Step (blockAt true phase (some signallingCall) none) _ :=
    .startSignal 0 0 signallingCall ⟨0, 7, some 7, none, phase⟩ 7 rfl rfl
      (List.mem_singleton.mpr rfl) rfl rfl rfl
  convert hstep using 1
  simp [blockAt, CancellationState.setCall, CancellationState.setBlock, signallingCall, sendingCall,
    readingCall, someCall]

theorem steps_return (phase : BlockPhase) :
    Steps (blockAt true phase (some sendingCall) (some 0))
      (blockAt true phase (some returnedCall) none) := by
  have hsent : Steps (blockAt true phase (some sendingCall) (some 0)) _ :=
    .single (.endSignal 0 0 sendingCall ⟨0, 7, some 7, some 0, phase⟩ rfl rfl rfl)
  have hreturned := hsent.tail (.nextScope 0
    { sendingCall with signalled := [0], phase := .signalling } rfl rfl rfl)
  convert hreturned using 1
  simp [blockAt, CancellationState.setCall, CancellationState.setBlock, sendingCall, returnedCall,
    readingCall, someCall]

theorem steps_cancel (phase : BlockPhase) :
    Steps (blockAt false phase none none) (blockAt true phase (some returnedCall) none) :=
  ((((Relation.ReflTransGen.single (step_call phase)).tail (step_stop phase)).tail
    (step_read phase)).tail (step_send phase)).trans (steps_return phase)

theorem step_endBody (stopped : Bool) (call : Option CancelCall) :
    Step (blockAt stopped .inside call none)
      (blockAt stopped (.leaving (if stopped then .cancelled else .returned)) call none) := by
  have hstep : Step (blockAt stopped .inside call none) _ :=
    .endBody 0 ⟨0, 7, some 7, none, .inside⟩ ⟨someTurn, stopped, true, [0]⟩ true .returned rfl rfl rfl
  convert hstep using 1
  cases stopped <;> simp [blockAt, CancellationState.setBlock, Scope.ending, Scope.check]

theorem steps_leave (stopped : Bool) (ending : Ending) (call : Option CancelCall) :
    ∃ final : CancellationState ℕ, Steps (blockAt stopped (.leaving ending) call none) final ∧
      final.blocks 0 = some ⟨0, 7, none, none, .left ending⟩ :=
  ⟨_, (Relation.ReflTransGen.single (.detach 0 ⟨0, 7, some 7, none, .leaving ending⟩ ending rfl rfl
    rfl)).tail (.discard 0 ⟨0, 7, none, none, .detached ending⟩ ⟨someTurn, stopped, true, [0]⟩ ending
    rfl rfl rfl), rfl⟩

/-- A block that passed its last check before it was cancelled is left as if it had not been, and an
interruption leaves one that did not. -/
theorem block_left_after_cancel :
    (¬ ∀ returned final : CancellationState ℕ, Steps (initialState ℕ) returned →
      Steps returned final → ∀ name call blockName block later ending,
        returned.calls name = some call → call.Returned → returned.blocks blockName = some block →
          block.scope ∈ call.matched → block.phase.InBlock → final.blocks blockName = some later →
            later.phase = .left ending → ending = .cancelled) ∧
    ¬ ∀ returned final : CancellationState ℕ, Steps (initialState ℕ) returned →
      Steps returned final → ∀ name call blockName block later ending,
        returned.calls name = some call → call.Returned → returned.blocks blockName = some block →
          block.scope ∈ call.matched → block.phase = .inside → final.blocks blockName = some later →
            later.phase = .left ending → ending = .cancelled := by
  constructor
  · intro hall
    have hrun := (steps_inside.tail (step_endBody false none)).trans (steps_cancel _)
    obtain ⟨final, hfinal, hleft⟩ := steps_leave true .returned (some returnedCall)
    have hcancelled := hall _ final hrun hfinal 0 returnedCall 0 _ _ .returned rfl ⟨rfl, rfl⟩ rfl
      (by decide) rfl hleft rfl
    exact absurd hcancelled (by decide)
  · intro hall
    have hrun := steps_inside.trans (steps_cancel _)
    have hinterrupt : Step (blockAt true .inside (some returnedCall) none)
        (blockAt true (.leaving .interrupted) (some returnedCall) none) := by
      have hstep : Step (blockAt true .inside (some returnedCall) none) _ :=
        .endBody 0 ⟨0, 7, some 7, none, .inside⟩ ⟨someTurn, true, true, [0]⟩ true .interrupted
          rfl rfl rfl
      convert hstep using 1
      simp [blockAt, CancellationState.setBlock, Scope.ending]
    obtain ⟨final, hfinal, hleft⟩ := steps_leave true .interrupted (some returnedCall)
    have hcancelled := hall _ final hrun ((Relation.ReflTransGen.single hinterrupt).trans hfinal) 0
      returnedCall 0 _ _ .interrupted rfl ⟨rfl, rfl⟩ rfl (by decide) rfl hleft rfl
    exact absurd hcancelled (by decide)

/-- A turn that is cancelled while a block of it is in its body. -/
theorem turn_is_cancelled :
    (∃ block scope, (blockAt true .inside (some sendingCall) (some 0)).blocks 0 = some block ∧
      block.phase.InBlock ∧ block.held = some 7 ∧
      (blockAt true .inside (some sendingCall) (some 0)).scopes 0 = some scope ∧
      sendingCall.Matches scope.key) ∧
    (∃ final : CancellationState ℕ, Steps (blockAt true .inside (some returnedCall) none) final ∧
      ∃ later, final.blocks 0 = some later ∧ ∀ ending, later.phase = .left ending →
        ending = .cancelled ∨ ending = .interrupted) ∧
    (0 ∈ returnedCall.signalled ∨ ∃ later,
      (blockAt true .inside (some returnedCall) none).blocks 0 = some later ∧
        later.phase.InBlock = false) := by
  have hbefore := steps_inside
  have hread := (hbefore.tail (step_call .inside)).tail (step_stop .inside)
  have hsend := Relation.ReflTransGen.single (step_send .inside)
  refine ⟨?_, ?_, ?_⟩
  · obtain ⟨block, scope, hblock, hin, hheld, hscope, hmatches, -⟩ :=
      cancellation_exact.1 _ ((hread.tail (step_read .inside)).trans hsend) 0 sendingCall 0 rfl rfl
    obtain rfl := Option.some_injective _ hblock
    exact ⟨_, scope, rfl, hin, hheld, hscope, hmatches⟩
  · obtain ⟨final, hfinal, hleft⟩ := steps_leave true .cancelled (some returnedCall)
    have hafter := (Relation.ReflTransGen.single (step_endBody true (some returnedCall))).trans hfinal
    have hreturn := (((Relation.ReflTransGen.single (step_stop .inside)).tail
      (step_read .inside)).tail (step_send .inside)).trans (steps_return .inside)
    refine ⟨final, hafter, _, hleft, fun ending hending ↦ ?_⟩
    obtain ⟨block, hblock, -, hendings⟩ := cancellation_exact.2.1 _ _ _ final hbefore
      (step_call .inside) hreturn hafter 0 someCall returnedCall rfl rfl rfl ⟨rfl, rfl⟩ 0
      (List.mem_singleton.mpr rfl) ⟨someTurn, false, true, [0]⟩ rfl (by decide) 0 _ hleft rfl
    obtain rfl := Option.some_injective _ hblock
    have hcases := hendings ending (by rw [hending]; rfl)
    exact hcases.imp_right fun hlast ↦ hlast.resolve_right (Option.some_ne_none _).symm
  · exact cancellation_exact.2.2 _ _ _ hread (step_read .inside) (hsend.trans (steps_return .inside))
      0 readingCall signallingCall returnedCall 0 rfl rfl rfl rfl rfl ⟨rfl, rfl⟩ 0 _ rfl rfl rfl

end Schemii.QueryExecutions
