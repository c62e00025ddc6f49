import Mathlib.Logic.Relation
import Mathlib.Tactic

/-!
# Programs over shared stores and their interleavings

Programs that make calls to stores they share with other programs. A `Program` returns, raises an
exception, or makes one call and continues with its reply. What a call may answer and do to the
world is a relation (`Semantics.perform`), so a store that fails, an unpredictable identifier and a
slow target are all replies the relation allows. A `Pool` runs any number of programs: in each step
one of them makes its next call, a new program starts, a program crashes, or the environment changes
the world.

`Safe` is the rely-guarantee reading of a program: at every call, whatever the other programs did
since the last one (`rely`), the call keeps the invariant and does nothing the others do not rely
on. It composes over sequencing (`Safe.bind`, `Safe.attempt`). When every program that may start is
safe, the invariant holds in every state of every interleaving, with crashes at every point
(`RelyGuarantee.reachable_inv`), what a program ends with holds when it has ended
(`RelyGuarantee.Guarded.unfinished`), and between two states of a run the world changes as a program
may rely on (`RelyGuarantee.Guarded.run`). An invariant that every single call keeps needs no programs
(`Pool.Reachable.invariant`). A run whose calls all meet a condition is a run of the restricted
semantics (`Semantics.restrict`). A schedule of calls with given answers is a run
(`Pool.Reachable.follow`, `Pool.Reachable.allows`).
-/

set_option autoImplicit false

namespace Schemii.Foundations

/-- The calls of a program and the type of each call's reply. -/
structure Interface where
  Call : Type
  Reply : Call → Type

/-- A program: it returns a value, raises an exception, or makes a call and continues with the
reply. -/
inductive Program (I : Interface) (ε α : Type)
  | done (value : α)
  | raise (exception : ε)
  | call (request : I.Call) (next : I.Reply request → Program I ε α)

namespace Program

variable {I : Interface} {ε α β γ : Type}

/-- Run a program and continue with its value. -/
def bind : Program I ε α → (α → Program I ε β) → Program I ε β
  | done value, f => f value
  | raise exception, _ => raise exception
  | call request next, f => call request fun reply ↦ bind (next reply) f

instance : Monad (Program I ε) where
  pure := done
  bind := bind

/-- Make one call and return its reply. -/
def ask (request : I.Call) : Program I ε (I.Reply request) :=
  call request done

/-- Turn an exception of a program into a value. -/
def attempt : Program I ε α → Program I ε (Except ε α)
  | done value => done (.ok value)
  | raise exception => done (.error exception)
  | call request next => call request fun reply ↦ attempt (next reply)

/-- Raise the exception of an outcome. -/
def ofExcept : Except ε α → Program I ε α
  | .ok value => done value
  | .error exception => raise exception

/-- Run a program alone, with one answer for every call. -/
def run {W : Type} (answer : (request : I.Call) → W → I.Reply request × W) :
    Program I ε α → W → Except ε α × W
  | done value, world => (.ok value, world)
  | raise exception, world => (.error exception, world)
  | call request next, world =>
    run answer (next (answer request world).1) (answer request world).2

/-- Every call of a program that runs alone meets a condition on the call and the world it is made
in. -/
def Meets {W : Type} (answer : (request : I.Call) → W → I.Reply request × W)
    (condition : (request : I.Call) → W → Prop) : Program I ε α → W → Prop
  | done _, _ => True
  | raise _, _ => True
  | call request next, world => condition request world ∧
      Meets answer condition (next (answer request world).1) (answer request world).2

instance decidableMeets {W : Type} (answer : (request : I.Call) → W → I.Reply request × W)
    (condition : (request : I.Call) → W → Prop)
    [∀ request world, Decidable (condition request world)] :
    (program : Program I ε α) → (world : W) → Decidable (program.Meets answer condition world)
  | done _, _ => .isTrue trivial
  | raise _, _ => .isTrue trivial
  | call request next, world =>
    have := decidableMeets answer condition (next (answer request world).1)
      (answer request world).2
    inferInstanceAs (Decidable (condition request world ∧ Meets answer condition
      (next (answer request world).1) (answer request world).2))

/-- Every call of a program is one of some calls. -/
def Asks (allowed : I.Call → Prop) : Program I ε α → Prop
  | done _ => True
  | raise _ => True
  | call request next => allowed request ∧ ∀ reply, Asks allowed (next reply)

variable {allowed : I.Call → Prop} {program : Program I ε α}

theorem Asks.bind {f : α → Program I ε β}
    (h : program.Asks allowed) (hrest : ∀ value, (f value).Asks allowed) :
    (program.bind f).Asks allowed := by
  induction program with
  | done value => exact hrest value
  | raise exception => trivial
  | call request next ih => exact ⟨h.1, fun reply ↦ ih reply (h.2 reply)⟩

theorem Asks.attempt (h : program.Asks allowed) : program.attempt.Asks allowed := by
  induction program with
  | done value => trivial
  | raise exception => trivial
  | call request next ih => exact ⟨h.1, fun reply ↦ ih reply (h.2 reply)⟩

theorem Asks.ofExcept (outcome : Except ε α) :
    (Program.ofExcept outcome : Program I ε α).Asks allowed := by
  cases outcome <;> trivial

/-- Every call of a program is one of some calls, and the program raises no exception. -/
def Returns (allowed : I.Call → Prop) : Program I ε α → Prop
  | done _ => True
  | raise _ => False
  | call request next => allowed request ∧ ∀ reply, Returns allowed (next reply)

theorem Returns.asks (h : program.Returns allowed) : program.Asks allowed := by
  induction program with
  | done value => trivial
  | raise exception => exact h.elim
  | call request next ih => exact ⟨h.1, fun reply ↦ ih reply (h.2 reply)⟩

theorem Returns.bind {f : α → Program I ε β}
    (h : program.Returns allowed) (hrest : ∀ value, (f value).Returns allowed) :
    (program.bind f).Returns allowed := by
  induction program with
  | done value => exact hrest value
  | raise exception => exact h.elim
  | call request next ih => exact ⟨h.1, fun reply ↦ ih reply (h.2 reply)⟩

theorem Asks.attempt_returns (h : program.Asks allowed) : program.attempt.Returns allowed := by
  induction program with
  | done value => trivial
  | raise exception => trivial
  | call request next ih => exact ⟨h.1, fun reply ↦ ih reply (h.2 reply)⟩

theorem meets_true {W : Type} (answer : (request : I.Call) → W → I.Reply request × W)
    (program : Program I ε α) (world : W) : program.Meets answer (fun _ _ ↦ True) world := by
  induction program generalizing world with
  | done value => trivial
  | raise exception => trivial
  | call request next ih => exact ⟨trivial, ih _ _⟩

/-- A computation with variables that keep their values when it raises an exception: the outcome
comes with the variables as they stand then. -/
def Keeping (I : Interface) (ε σ α : Type) : Type := σ → Program I ε (σ × Except ε α)

namespace Keeping

variable {σ : Type}

/-- Run a computation and continue with its value, unless it raised an exception. -/
def bind (computation : Keeping I ε σ α) (f : α → Keeping I ε σ β) : Keeping I ε σ β :=
  fun state ↦ Program.bind (computation state) fun
    | (kept, .ok value) => f value kept
    | (kept, .error exception) => done (kept, .error exception)

instance : Monad (Keeping I ε σ) where
  pure := fun value state ↦ done (state, .ok value)
  bind := bind

/-- Make a call and raise the exception it answers. -/
def attempting (program : Program I ε (Except ε α)) : Keeping I ε σ α :=
  fun state ↦ Program.bind program fun outcome ↦ done (state, outcome)

/-- Raise an exception. -/
def raising (exception : ε) : Keeping I ε σ α :=
  fun state ↦ done (state, .error exception)

/-- Change the variables. -/
def modify (f : σ → σ) : Keeping I ε σ Unit :=
  fun state ↦ done (f state, .ok ())

/-- Read the variables. -/
def read : Keeping I ε σ σ :=
  fun state ↦ done (state, .ok state)

end Keeping

@[simp]
theorem pure_eq (value : α) : (pure value : Program I ε α) = done value := rfl

@[simp]
theorem done_bind (value : α) (f : α → Program I ε β) : (done value >>= f) = f value := rfl

@[simp]
theorem raise_bind (exception : ε) (f : α → Program I ε β) :
    ((raise exception : Program I ε α) >>= f) = raise exception := rfl

@[simp]
theorem call_bind (request : I.Call) (next : I.Reply request → Program I ε α)
    (f : α → Program I ε β) :
    (call request next >>= f) = call request fun reply ↦ next reply >>= f := rfl

@[simp]
theorem ask_bind (request : I.Call) (f : I.Reply request → Program I ε β) :
    (ask request >>= f) = call request f := rfl

theorem run_bind {W : Type} (answer : (request : I.Call) → W → I.Reply request × W)
    (program : Program I ε α) (f : α → Program I ε β) (world : W) :
    run answer (program >>= f) world =
      match run answer program world with
      | (.ok value, after) => run answer (f value) after
      | (.error exception, after) => (.error exception, after) := by
  induction program generalizing world with
  | done value => rfl
  | raise exception => rfl
  | call request next ih => exact ih _ _

end Program

/-! ### Worlds and interleavings -/

/-- Assumes: a run from a state without a property to one with it. Some step of the run brings it
about. -/
theorem exists_step_of_change {α : Type} {r : α → α → Prop} {P : α → Prop} {a b : α}
    (h : Relation.ReflTransGen r a b) (ha : ¬ P a) (hb : P b) :
    ∃ x y, Relation.ReflTransGen r a x ∧ r x y ∧ Relation.ReflTransGen r y b ∧ ¬ P x ∧ P y := by
  induction h with
  | refl => exact absurd hb ha
  | @tail b c hrun hstep ih =>
    by_cases hmiddle : P b
    · obtain ⟨x, y, hbefore, hchange, hafter, hx, hy⟩ := ih hmiddle
      exact ⟨x, y, hbefore, hchange, hafter.tail hstep, hx, hy⟩
    · exact ⟨b, c, hrun, hstep, .refl, hmiddle, hb⟩

/-- What calls answer and do to a world, by the identity of the program that makes them, and what
happens to the world without a call. -/
structure Semantics (I : Interface) (W : Type) where
  perform : ℕ → (request : I.Call) → W → I.Reply request → W → Prop
  environment : W → W → Prop

/-- The semantics in which a call is made only where a condition on it and the world holds. -/
def Semantics.restrict {I : Interface} {W : Type} (S : Semantics I W)
    (condition : (request : I.Call) → W → Prop) : Semantics I W where
  perform := fun thread request world reply after ↦
    condition request world ∧ S.perform thread request world reply after
  environment := S.environment

/-- A world and the programs that run on it. A crashed program is gone; identities are not used
again. -/
structure Pool (I : Interface) (ε W : Type) where
  world : W
  threads : ℕ → Option (Program I ε Unit)
  spawned : ℕ

section Interleaving

variable {I : Interface} {ε W : Type}

/-- One step of a pool: a program makes its next call, a program starts or crashes, or the
environment changes the world. -/
inductive Pool.Step (S : Semantics I W) (starts : Program I ε Unit → Prop) :
    Pool I ε W → Pool I ε W → Prop
  | act {pool : Pool I ε W} (thread : ℕ) (request : I.Call)
      (next : I.Reply request → Program I ε Unit) (reply : I.Reply request) (after : W)
      (hthread : pool.threads thread = some (.call request next))
      (hperform : S.perform thread request pool.world reply after) :
      Step S starts pool
        ⟨after, Function.update pool.threads thread (some (next reply)), pool.spawned⟩
  | spawn {pool : Pool I ε W} (program : Program I ε Unit) (hstarts : starts program) :
      Step S starts pool
        ⟨pool.world, Function.update pool.threads pool.spawned (some program), pool.spawned + 1⟩
  | crash {pool : Pool I ε W} (thread : ℕ) :
      Step S starts pool ⟨pool.world, Function.update pool.threads thread none, pool.spawned⟩
  | environment {pool : Pool I ε W} (after : W) (henvironment : S.environment pool.world after) :
      Step S starts pool ⟨after, pool.threads, pool.spawned⟩

/-- The pool in which nothing has started. -/
def Pool.initial (world : W) : Pool I ε W := ⟨world, fun _ ↦ none, 0⟩

/-- Whether a program has started and not ended. A program that crashed does not end. -/
def Pool.unfinished (pool : Pool I ε W) (thread : ℕ) : Bool :=
  decide (thread < pool.spawned) &&
    match pool.threads thread with
    | some (.done _) | some (.raise _) => false
    | some (.call _ _) | none => true

/-- The pools that the interleavings from a set of worlds reach. -/
def Pool.Reachable (S : Semantics I W) (starts : Program I ε Unit → Prop) (first : W → Prop)
    (pool : Pool I ε W) : Prop :=
  ∃ world, first world ∧ Relation.ReflTransGen (Pool.Step S starts) (Pool.initial world) pool

variable {starts : Program I ε Unit → Prop} {S : Semantics I W} {first : W → Prop}

theorem Pool.Reachable.step {pool after : Pool I ε W} (h : Pool.Reachable S starts first pool)
    (hstep : Pool.Step S starts pool after) : Pool.Reachable S starts first after := by
  obtain ⟨world, hworld, hsteps⟩ := h
  exact ⟨world, hworld, hsteps.tail hstep⟩

variable {condition : (request : I.Call) → W → Prop} {pool : Pool I ε W}

/-- Assumes: a program of a reachable pool whose calls meet a condition when it runs alone, and
answers that the semantics allows in every reachable pool. The pool in which the program ran alone
to its end is reachable under the condition. -/
theorem Pool.Reachable.run {answer : (request : I.Call) → W → I.Reply request × W} {thread : ℕ}
    (hanswer : ∀ pool : Pool I ε W, Pool.Reachable (S.restrict condition) starts first pool →
      ∀ request, S.perform thread request pool.world (answer request pool.world).1
        (answer request pool.world).2) (program : Program I ε Unit)
    (h : Pool.Reachable (S.restrict condition) starts first pool)
    (hmeets : program.Meets answer condition pool.world)
    (hthread : pool.threads thread = some program) :
    ∃ after, Pool.Reachable (S.restrict condition) starts first after ∧
      after.world = (program.run answer pool.world).2 ∧ after.spawned = pool.spawned := by
  induction program generalizing pool with
  | done value => exact ⟨pool, h, rfl, rfl⟩
  | raise exception => exact ⟨pool, h, rfl, rfl⟩
  | call request next ih =>
    have hstep := h.step (.act thread request next _ _ hthread
      ⟨hmeets.1, hanswer pool h request⟩)
    exact ih _ hstep hmeets.2 (Function.update_self _ _ _)

variable {answer : ℕ → (request : I.Call) → W → I.Reply request × W}

/-- Assumes: a reachable pool, a program that may start and whose calls meet a condition, and
answers that the semantics allows in every reachable pool. The world in which the program ran alone
is reached under the condition. -/
theorem Pool.Reachable.start
    (hanswer : ∀ pool : Pool I ε W, Pool.Reachable (S.restrict condition) starts first pool →
      ∀ thread request, S.perform thread request pool.world
        (answer thread request pool.world).1 (answer thread request pool.world).2)
    {program : Program I ε Unit} (hstarts : starts program)
    (h : Pool.Reachable (S.restrict condition) starts first pool)
    (hmeets : program.Meets (answer pool.spawned) condition pool.world) :
    ∃ after, Pool.Reachable (S.restrict condition) starts first after ∧
      after.world = (program.run (answer pool.spawned) pool.world).2 ∧
      after.spawned = pool.spawned + 1 :=
  Pool.Reachable.run (fun pool hpool ↦ hanswer pool hpool _) program
    (h.step (.spawn program hstarts)) hmeets (Function.update_self _ _ _)

/-- The pool after a program made its next call, with one answer for every call. -/
def Pool.advance (answer : ℕ → (request : I.Call) → W → I.Reply request × W) (pool : Pool I ε W)
    (thread : ℕ) : Pool I ε W :=
  match pool.threads thread with
  | some (.call request next) =>
    ⟨(answer thread request pool.world).2, Function.update pool.threads thread
      (some (next (answer thread request pool.world).1)), pool.spawned⟩
  | _ => pool

/-- The pool after a schedule: the programs make their calls in the given order. -/
def Pool.follow (answer : ℕ → (request : I.Call) → W → I.Reply request × W) (pool : Pool I ε W)
    (schedule : List ℕ) : Pool I ε W :=
  schedule.foldl (Pool.advance answer) pool

/-- The next call of a program, if there is one, meets a condition. -/
def Program.NextMeets (condition : (request : I.Call) → W → Prop) (world : W) :
    Option (Program I ε Unit) → Prop
  | some (.call request _) => condition request world
  | some (.done _) | some (.raise _) | none => True

instance Program.decidableNextMeets (condition : (request : I.Call) → W → Prop)
    [∀ request world, Decidable (condition request world)] (world : W) :
    (program : Option (Program I ε Unit)) → Decidable (Program.NextMeets condition world program)
  | some (.call request _) => inferInstanceAs (Decidable (condition request world))
  | some (.done _) | some (.raise _) | none => .isTrue trivial

/-- Every call of a schedule meets a condition. -/
def Pool.Follows (answer : ℕ → (request : I.Call) → W → I.Reply request × W)
    (condition : (request : I.Call) → W → Prop) : Pool I ε W → List ℕ → Prop
  | _, [] => True
  | pool, thread :: rest => Program.NextMeets condition pool.world (pool.threads thread) ∧
      Follows answer condition (pool.advance answer thread) rest

instance Pool.decidableFollows (answer : ℕ → (request : I.Call) → W → I.Reply request × W)
    (condition : (request : I.Call) → W → Prop)
    [∀ request world, Decidable (condition request world)] :
    (pool : Pool I ε W) → (schedule : List ℕ) → Decidable (pool.Follows answer condition schedule)
  | _, [] => .isTrue trivial
  | pool, thread :: rest =>
    have := decidableFollows answer condition (pool.advance answer thread) rest
    inferInstanceAs (Decidable (Program.NextMeets condition pool.world (pool.threads thread) ∧
      Follows answer condition (pool.advance answer thread) rest))

theorem Pool.follows_true (answer : ℕ → (request : I.Call) → W → I.Reply request × W)
    (pool : Pool I ε W) (schedule : List ℕ) : pool.Follows answer (fun _ _ ↦ True) schedule := by
  induction schedule generalizing pool with
  | nil => trivial
  | cons thread rest ih =>
    refine ⟨?_, ih _⟩
    unfold Program.NextMeets
    split <;> trivial

/-- Assumes: a reachable pool, answers that the semantics allows, and a schedule whose calls meet a
condition. The pool after the schedule is reached under the condition. -/
theorem Pool.Reachable.follow (hanswer : ∀ thread request world, S.perform thread request world
      (answer thread request world).1 (answer thread request world).2)
    (h : Pool.Reachable (S.restrict condition) starts first pool)
    (schedule : List ℕ) (hfollows : pool.Follows answer condition schedule) :
    Pool.Reachable (S.restrict condition) starts first (pool.follow answer schedule) := by
  induction schedule generalizing pool with
  | nil => exact h
  | cons thread rest ih =>
    obtain ⟨hcondition, hrest⟩ := hfollows
    refine ih ?_ hrest
    unfold Pool.advance
    split
    · next request next hthread =>
      rw [hthread] at hcondition
      exact h.step (.act thread request next _ _ hthread
        ⟨hcondition, hanswer thread request pool.world⟩)
    · exact h

/-- Every call of a schedule passes a test. -/
def Pool.allows (answer : ℕ → (request : I.Call) → W → I.Reply request × W)
    (test : ℕ → I.Call → W → Bool) : Pool I ε W → List ℕ → Bool
  | _, [] => true
  | pool, thread :: rest =>
    (match pool.threads thread with
    | some (.call request _) => test thread request pool.world
    | some (.done _) | some (.raise _) | none => true) &&
      allows answer test (pool.advance answer thread) rest

/-- Assumes: a reachable pool, and a schedule whose calls pass a test that only answers pass which the
semantics allows. The pool after the schedule is reached. -/
theorem Pool.Reachable.allows (test : ℕ → I.Call → W → Bool)
    (htest : ∀ thread request world, test thread request world = true →
      S.perform thread request world (answer thread request world).1 (answer thread request world).2)
    (h : Pool.Reachable S starts first pool) (schedule : List ℕ)
    (hallows : pool.allows answer test schedule = true) :
    Pool.Reachable S starts first (pool.follow answer schedule) := by
  induction schedule generalizing pool with
  | nil => exact h
  | cons thread rest ih =>
    unfold Pool.allows at hallows
    rw [Bool.and_eq_true] at hallows
    refine ih ?_ hallows.2
    unfold Pool.advance
    split
    · next request next hthread =>
      have hpassed := hallows.1
      rw [hthread] at hpassed
      exact h.step (.act thread request next _ _ hthread (htest thread request _ hpassed))
    · exact h

/-- Assumes: the first worlds have a property that every call and the environment keep, whichever
program makes the call. Every interleaving keeps it. -/
theorem Pool.Reachable.invariant {inv : W → Prop} (hfirst : ∀ world, first world → inv world)
    (hcall : ∀ thread request before reply after, inv before →
      S.perform thread request before reply after → inv after)
    (henvironment : ∀ before after, inv before → S.environment before after → inv after)
    {pool : Pool I ε W} (h : Pool.Reachable S starts first pool) : inv pool.world := by
  obtain ⟨world, hworld, hsteps⟩ := h
  induction hsteps with
  | refl => exact hfirst world hworld
  | tail _ hstep ih =>
    cases hstep with
    | act thread request next reply after hthread hperform => exact hcall _ _ _ _ _ ih hperform
    | spawn program hstarts => exact ih
    | crash thread => exact ih
    | environment after henv => exact henvironment _ _ ih henv

/-- How a program that runs alone ends: its calls in a row, each with an answer that the semantics
allows. -/
inductive Program.Ends {α : Type} (S : Semantics I W) (thread : ℕ) :
    Program I ε α → W → Except ε α → W → Prop
  | done (value : α) (world : W) : Ends S thread (.done value) world (.ok value) world
  | raise (exception : ε) (world : W) : Ends S thread (.raise exception) world (.error exception) world
  | call {request : I.Call} {next : I.Reply request → Program I ε α} {before middle after : W}
      {reply : I.Reply request} {outcome : Except ε α}
      (hperform : S.perform thread request before reply middle)
      (hends : Ends S thread (next reply) middle outcome after) :
      Ends S thread (.call request next) before outcome after

/-- Assumes: answers that the semantics allows in every world. The run of a program with these answers
is an end of the program. -/
theorem Program.ends_run {α : Type} {thread : ℕ}
    {answer : (request : I.Call) → W → I.Reply request × W}
    (hanswer : ∀ request world, S.perform thread request world (answer request world).1
      (answer request world).2) (program : Program I ε α) (world : W) :
    Ends S thread program world (program.run answer world).1 (program.run answer world).2 := by
  induction program generalizing world with
  | done value => exact .done value world
  | raise exception => exact .raise exception world
  | call request next ih => exact .call (hanswer request world) (ih _ _)

/-- Assumes: the end of a sequence. Its first program ends, and the rest ends from there unless the
first one raised an exception. -/
theorem Program.Ends.of_bind {α β : Type} {thread : ℕ} {program : Program I ε α}
    {f : α → Program I ε β} {before after : W} {outcome : Except ε β}
    (h : Ends S thread (program.bind f) before outcome after) :
    (∃ value middle, Ends S thread program before (.ok value) middle ∧
      Ends S thread (f value) middle outcome after) ∨
    (∃ exception, Ends S thread program before (.error exception) after ∧
      outcome = .error exception) := by
  induction program generalizing before with
  | done value => exact .inl ⟨value, before, .done value before, h⟩
  | raise exception =>
    cases h
    exact .inr ⟨exception, .raise exception _, rfl⟩
  | call request next ih =>
    cases h with
    | call hperform hends =>
      rcases ih _ hends with ⟨value, middle, hfirst, hrest⟩ | ⟨exception, hfirst, hsame⟩
      · exact .inl ⟨value, middle, .call hperform hfirst, hrest⟩
      · exact .inr ⟨exception, .call hperform hfirst, hsame⟩

theorem Pool.Step.of_restrict {pool after : Pool I ε W}
    (h : Pool.Step (S.restrict condition) starts pool after) : Pool.Step S starts pool after := by
  cases h with
  | act thread request next reply after hthread hperform =>
    exact .act thread request next reply after hthread hperform.2
  | spawn program hstarts => exact .spawn program hstarts
  | crash thread => exact .crash thread
  | environment after henvironment => exact .environment after henvironment

theorem Pool.Reachable.of_restrict (h : Pool.Reachable (S.restrict condition) starts first pool) :
    Pool.Reachable S starts first pool := by
  obtain ⟨world, hworld, hsteps⟩ := h
  refine ⟨world, hworld, ?_⟩
  induction hsteps with
  | refl => exact .refl
  | tail _ hstep ih => exact ih.tail hstep.of_restrict

end Interleaving

/-! ### Rely and guarantee -/

/-- An invariant of the world, and what each program may rely on while the others run. -/
structure RelyGuarantee {I : Interface} {W : Type} (S : Semantics I W) where
  inv : W → Prop
  rely : ℕ → W → W → Prop
  rely_refl : ∀ thread world, rely thread world world
  rely_trans : ∀ thread first second third,
    rely thread first second → rely thread second third → rely thread first third

/-- What a program may rely on that runs alone: the world is as it left it. -/
def RelyGuarantee.alone {I : Interface} {W : Type} (S : Semantics I W) (thread : ℕ) :
    RelyGuarantee S where
  inv := fun _ ↦ True
  rely := fun other before after ↦ other = thread → after = before
  rely_refl := fun _ _ _ ↦ rfl
  rely_trans := fun _ _ _ _ hfirst hsecond hthread ↦
    (hsecond hthread).trans (hfirst hthread)

section Safety

variable {I : Interface} {ε α β W : Type} {S : Semantics I W} (R : RelyGuarantee S)

/-- A call of a program keeps the invariant and what the other programs rely on. -/
def RelyGuarantee.Guarantees (thread : ℕ) (before after : W) : Prop :=
  R.inv after ∧ ∀ other, other ≠ thread → R.rely other before after

/-- A program is safe from a world on, with a condition on how it ends: whatever the others did
since, each of its calls keeps the invariant and what they rely on. -/
def Safe (thread : ℕ) : Program I ε α → W → (Except ε α → W → Prop) → Prop
  | .done value, world, post => post (.ok value) world
  | .raise exception, world, post => post (.error exception) world
  | .call request next, world, post =>
    ∀ before, R.rely thread world before → R.inv before → ∀ reply after,
      S.perform thread request before reply after →
        R.Guarantees thread before after ∧ Safe thread (next reply) after post

variable {R} {program : Program I ε α} {thread : ℕ} {world : W}

theorem Safe.mono {post weaker : Except ε α → W → Prop} (h : Safe R thread program world post)
    (hpost : ∀ outcome after, post outcome after → weaker outcome after) :
    Safe R thread program world weaker := by
  induction program generalizing world with
  | done value => exact hpost _ _ h
  | raise exception => exact hpost _ _ h
  | call request next ih =>
    intro before hrely hinv reply after hperform
    obtain ⟨hguarantees, hnext⟩ := h before hrely hinv reply after hperform
    exact ⟨hguarantees, ih reply hnext⟩

/-- Sequencing. Assumes: the first program is safe, what follows is safe from each value it may
return, and its exceptions satisfy the end condition. -/
theorem Safe.bind {f : α → Program I ε β} {post : Except ε β → W → Prop}
    (h : Safe R thread program world fun outcome after ↦
      match outcome with
      | .ok value => Safe R thread (f value) after post
      | .error exception => post (.error exception) after) :
    Safe R thread (program >>= f) world post := by
  induction program generalizing world with
  | done value => exact h
  | raise exception => exact h
  | call request next ih =>
    intro before hrely hinv reply after hperform
    obtain ⟨hguarantees, hnext⟩ := h before hrely hinv reply after hperform
    exact ⟨hguarantees, ih reply hnext⟩

/-- Catching. Assumes: the program is safe, and its outcome as a value satisfies the end
condition. -/
theorem Safe.attempt {post : Except ε (Except ε α) → W → Prop}
    (h : Safe R thread program world fun outcome after ↦ post (.ok outcome) after) :
    Safe R thread program.attempt world post := by
  induction program generalizing world with
  | done value => exact h
  | raise exception => exact h
  | call request next ih =>
    intro before hrely hinv reply after hperform
    obtain ⟨hguarantees, hnext⟩ := h before hrely hinv reply after hperform
    exact ⟨hguarantees, ih reply hnext⟩

/-- Assumes: a program that is safe from a world with the invariant, and its end when it runs alone
from there. The end condition and the invariant hold. -/
theorem Safe.ends {world after : W}
    {post : Except ε α → W → Prop} {outcome : Except ε α} (h : Safe R thread program world post)
    (hinv : R.inv world) (hends : Program.Ends S thread program world outcome after) :
    post outcome after ∧ R.inv after := by
  induction hends with
  | done value world => exact ⟨h, hinv⟩
  | raise exception world => exact ⟨h, hinv⟩
  | call hperform _ ih =>
    obtain ⟨hguarantees, hnext⟩ := h _ (R.rely_refl _ _) hinv _ _ hperform
    exact ih hnext hguarantees.1

/-- Sequencing with kept variables. Assumes: the first computation is safe, and what follows is safe
from each value it may return. -/
theorem Safe.keeping_bind {σ : Type} {computation : Program.Keeping I ε σ α}
    {f : α → Program.Keeping I ε σ β} {state : σ} {post : Except ε (σ × Except ε β) → W → Prop}
    (h : Safe R thread (computation state) world fun outcome after ↦
      match outcome with
      | .ok (kept, .ok value) => Safe R thread (f value kept) after post
      | .ok (kept, .error exception) => post (.ok (kept, .error exception)) after
      | .error exception => post (.error exception) after) :
    Safe R thread ((computation >>= f) state) world post := by
  refine Safe.bind (h.mono fun outcome after hpost ↦ ?_)
  rcases outcome with exception | ⟨kept, exception | value⟩
  · exact hpost
  · exact hpost
  · exact hpost

/-- A program that makes only calls of one kind. Assumes: a fact that what the others do keeps and
that these calls keep, with the invariant and what the others rely on. The program keeps it. -/
theorem Safe.of_asks {allowed : I.Call → Prop} {fact : W → Prop}
    (hstable : ∀ before after, R.rely thread before after → fact before → fact after)
    (hcall : ∀ request before reply after, allowed request → R.inv before → fact before →
      S.perform thread request before reply after →
        R.Guarantees thread before after ∧ fact after)
    (hasks : program.Asks allowed) (hfact : fact world) :
    Safe R thread program world fun _ after ↦ fact after := by
  induction program generalizing world with
  | done value => exact hfact
  | raise exception => exact hfact
  | call request next ih =>
    intro before hrely hinv reply after hperform
    obtain ⟨hguarantees, hkept⟩ := hcall request before reply after hasks.1 hinv
      (hstable _ _ hrely hfact) hperform
    exact ⟨hguarantees, ih reply (hasks.2 reply) hkept⟩

/-- A program that returns, and makes only calls of one kind. Assumes: a fact that what the others do
keeps and that these calls keep, with the invariant and what the others rely on. The program keeps it,
and ends with a value. -/
theorem Safe.of_returns {allowed : I.Call → Prop} {fact : W → Prop}
    (hstable : ∀ before after, R.rely thread before after → fact before → fact after)
    (hcall : ∀ request before reply after, allowed request → R.inv before → fact before →
      S.perform thread request before reply after →
        R.Guarantees thread before after ∧ fact after)
    (hreturns : program.Returns allowed) (hfact : fact world) :
    Safe R thread program world fun outcome after ↦ (∃ value, outcome = .ok value) ∧ fact after := by
  induction program generalizing world with
  | done value => exact ⟨⟨value, rfl⟩, hfact⟩
  | raise exception => exact hreturns.elim
  | call request next ih =>
    intro before hrely hinv reply after hperform
    obtain ⟨hguarantees, hkept⟩ := hcall request before reply after hreturns.1 hinv
      (hstable _ _ hrely hfact) hperform
    exact ⟨hguarantees, ih reply (hreturns.2 reply) hkept⟩

/-- A call of a program that runs alone. Assumes: what follows is safe from every world the call may
leave. -/
theorem Safe.alone_call {request : I.Call} {next : I.Reply request → Program I ε α}
    {post : Except ε α → W → Prop} (h : ∀ reply after, S.perform thread request world reply after →
      Safe (RelyGuarantee.alone S thread) thread (next reply) after post) :
    Safe (RelyGuarantee.alone S thread) thread (.call request next) world post := by
  intro before hrely _ reply after hperform
  obtain rfl := hrely rfl
  exact ⟨⟨trivial, fun other hother hsame ↦ absurd hsame hother⟩, h reply after hperform⟩

/-- Every program of a pool is safe from the world it last acted in, and the identities that were not
used yet are fresh. -/
def RelyGuarantee.Guarded (R : RelyGuarantee S) (fresh : ℕ → W → Prop)
    (post : ℕ → Except ε Unit → W → Prop) (pool : Pool I ε W) : Prop :=
  R.inv pool.world ∧ (∀ thread, pool.spawned ≤ thread → fresh thread pool.world) ∧
    ∀ thread program, pool.threads thread = some program → thread < pool.spawned ∧
      ∃ seen, R.rely thread seen pool.world ∧ Safe R thread program seen (post thread)

section Guarded

variable {R : RelyGuarantee S} {starts : Program I ε Unit → Prop} {fresh : ℕ → W → Prop}
  {post : ℕ → Except ε Unit → W → Prop}

/-- Assumes: every program that may start is safe wherever the invariant holds and its identity is
fresh, what the others do keeps an identity fresh, and the environment keeps the invariant and what
every program relies on. A step of the pool keeps it guarded. -/
theorem RelyGuarantee.Guarded.step
    (hfresh : ∀ thread before after, R.rely thread before after → fresh thread before →
      fresh thread after)
    (hstarts : ∀ program, starts program → ∀ thread world, R.inv world → fresh thread world →
      Safe R thread program world (post thread))
    (henvironment : ∀ before after, R.inv before → S.environment before after →
      R.inv after ∧ ∀ thread, R.rely thread before after)
    {pool after : Pool I ε W} (h : R.Guarded fresh post pool)
    (hstep : Pool.Step S starts pool after) : R.Guarded fresh post after := by
  obtain ⟨hinv, hunused, hthreads⟩ := h
  cases hstep with
  | act thread request next reply world hthread hperform =>
    obtain ⟨hused, seen, hrely, hsafe⟩ := hthreads thread _ hthread
    obtain ⟨⟨hkept, hothers⟩, hnext⟩ := hsafe _ hrely hinv reply world hperform
    refine ⟨hkept, fun other hother ↦ ?_, fun other program hother ↦ ?_⟩
    · have hne : other ≠ thread := by
        rintro rfl
        exact absurd hused (not_lt.2 hother)
      exact hfresh other _ _ (hothers other hne) (hunused other hother)
    by_cases hsame : other = thread
    · subst hsame
      obtain rfl : next reply = program := by simpa using hother
      exact ⟨hused, world, R.rely_refl _ _, hnext⟩
    · simp only [Function.update_of_ne hsame] at hother
      obtain ⟨husedOther, seenOther, hrelyOther, hsafeOther⟩ := hthreads other program hother
      exact ⟨husedOther, seenOther, R.rely_trans _ _ _ _ hrelyOther (hothers other hsame),
        hsafeOther⟩
  | spawn program hstart =>
    refine ⟨hinv, fun other hother ↦ hunused other (by simp only at hother; omega),
      fun other running hother ↦ ?_⟩
    by_cases hsame : other = pool.spawned
    · subst hsame
      obtain rfl : program = running := by simpa using hother
      exact ⟨by simp, pool.world, R.rely_refl _ _,
        hstarts program hstart _ _ hinv (hunused _ le_rfl)⟩
    · simp only [Function.update_of_ne hsame] at hother
      obtain ⟨hused, hseen⟩ := hthreads other running hother
      exact ⟨Nat.lt_succ_of_lt hused, hseen⟩
  | crash thread =>
    refine ⟨hinv, hunused, fun other program hother ↦ ?_⟩
    by_cases hsame : other = thread
    · subst hsame
      simp at hother
    · simp only [Function.update_of_ne hsame] at hother
      exact hthreads other program hother
  | environment world hchange =>
    obtain ⟨hkept, hrelies⟩ := henvironment _ _ hinv hchange
    refine ⟨hkept, fun other hother ↦ hfresh other _ _ (hrelies other) (hunused other hother),
      fun other program hother ↦ ?_⟩
    obtain ⟨hused, seen, hrely, hsafe⟩ := hthreads other program hother
    exact ⟨hused, seen, R.rely_trans _ _ _ _ hrely (hrelies other), hsafe⟩

/-- Assumes: the programs that may start are safe, and the environment keeps what they rely on. In a
run between two guarded pools the world changes as a program may rely on that has not started. -/
theorem RelyGuarantee.Guarded.run
    (hfresh : ∀ thread before after, R.rely thread before after → fresh thread before →
      fresh thread after)
    (hstarts : ∀ program, starts program → ∀ thread world, R.inv world → fresh thread world →
      Safe R thread program world (post thread))
    (henvironment : ∀ before after, R.inv before → S.environment before after →
      R.inv after ∧ ∀ thread, R.rely thread before after)
    {pool after : Pool I ε W} (h : R.Guarded fresh post pool)
    (hrun : Relation.ReflTransGen (Pool.Step S starts) pool after) :
    R.Guarded fresh post after ∧
      ∀ thread, after.spawned ≤ thread → R.rely thread pool.world after.world := by
  induction hrun with
  | refl => exact ⟨h, fun thread _ ↦ R.rely_refl thread _⟩
  | tail _ hstep ih =>
    obtain ⟨hguarded, hrelies⟩ := ih
    refine ⟨hguarded.step hfresh hstarts henvironment hstep, fun other hother ↦ ?_⟩
    obtain ⟨hinv, -, hthreads⟩ := hguarded
    cases hstep with
    | act thread request next reply world hthread hperform =>
      obtain ⟨hused, seen, hrely, hsafe⟩ := hthreads thread _ hthread
      have hothers := (hsafe _ hrely hinv reply world hperform).1.2
      exact R.rely_trans _ _ _ _ (hrelies other hother)
        (hothers other (hused.trans_le hother).ne')
    | spawn program hstart => exact hrelies other (Nat.le_of_succ_le hother)
    | crash thread => exact hrelies other hother
    | environment world hchange =>
      exact R.rely_trans _ _ _ _ (hrelies other hother) ((henvironment _ _ hinv hchange).2 other)

/-- Assumes: a guarded pool, and a fact about a world and an identity that what the others do keeps,
that holds of fresh identities, and that every program ends with. Where the fact does not hold, the
program has not ended. -/
theorem RelyGuarantee.Guarded.unfinished {fact : ℕ → W → Prop} {pool : Pool I ε W}
    (h : R.Guarded fresh post pool) (hfresh : ∀ thread world, fresh thread world → fact thread world)
    (hpost : ∀ thread outcome world, post thread outcome world → fact thread world)
    (hstable : ∀ thread before after, R.rely thread before after → fact thread before →
      fact thread after)
    {thread : ℕ} (hnot : ¬ fact thread pool.world) : pool.unfinished thread = true := by
  obtain ⟨-, hunused, hthreads⟩ := h
  have hspawned : thread < pool.spawned := by
    by_contra hlate
    exact hnot (hfresh _ _ (hunused thread (not_lt.1 hlate)))
  have hended : ∀ outcome seen, R.rely thread seen pool.world → ¬ post thread outcome seen :=
    fun outcome seen hrely hpost' ↦ hnot (hstable _ _ _ hrely (hpost _ _ _ hpost'))
  unfold Pool.unfinished
  rw [decide_eq_true hspawned, Bool.true_and]
  split
  · next value hthread =>
    obtain ⟨-, seen, hrely, hsafe⟩ := hthreads thread _ hthread
    exact absurd hsafe (hended _ seen hrely)
  · next exception hthread =>
    obtain ⟨-, seen, hrely, hsafe⟩ := hthreads thread _ hthread
    exact absurd hsafe (hended _ seen hrely)
  · rfl
  · rfl

/-- Assumes: the invariant holds in the first worlds, where every identity is fresh, every program
that may start is safe wherever the invariant holds and its identity is fresh, what the others do
keeps an identity fresh, and the environment keeps the invariant and what every program relies on.
Every interleaving, with crashes anywhere, keeps the pool guarded. -/
theorem RelyGuarantee.reachable_guarded {first : W → Prop}
    (hfirst : ∀ world, first world → R.inv world)
    (hfirstFresh : ∀ world, first world → ∀ thread, fresh thread world)
    (hfresh : ∀ thread before after, R.rely thread before after → fresh thread before →
      fresh thread after)
    (hstarts : ∀ program, starts program → ∀ thread world, R.inv world → fresh thread world →
      Safe R thread program world (post thread))
    (henvironment : ∀ before after, R.inv before → S.environment before after →
      R.inv after ∧ ∀ thread, R.rely thread before after)
    {pool : Pool I ε W} (hreach : Pool.Reachable S starts first pool) :
    R.Guarded fresh post pool := by
  obtain ⟨world, hworld, hsteps⟩ := hreach
  have hinitial : R.Guarded fresh post (Pool.initial world) :=
    ⟨hfirst world hworld, fun thread _ ↦ hfirstFresh world hworld thread,
      fun thread program hnone ↦ by simp [Pool.initial] at hnone⟩
  exact (hinitial.run hfresh hstarts henvironment hsteps).1

end Guarded

/-- Assumes: the invariant holds in the first worlds, every program that may start is safe wherever
it holds, and the environment keeps it and what every program relies on. Every interleaving, with
crashes anywhere, keeps the invariant. -/
theorem RelyGuarantee.reachable_inv {R : RelyGuarantee S} {starts : Program I ε Unit → Prop}
    {first : W → Prop} (hfirst : ∀ world, first world → R.inv world)
    (hstarts : ∀ program, starts program → ∀ thread world, R.inv world →
      Safe R thread program world fun _ _ ↦ True)
    (henvironment : ∀ before after, R.inv before → S.environment before after →
      R.inv after ∧ ∀ thread, R.rely thread before after)
    {pool : Pool I ε W} (hreach : Pool.Reachable S starts first pool) : R.inv pool.world := by
  have hguarded : R.Guarded (fun _ _ ↦ True) (fun _ _ _ ↦ True) pool :=
    RelyGuarantee.reachable_guarded hfirst (fun _ _ _ ↦ trivial) (fun _ _ _ _ _ ↦ trivial)
      (fun program hstart thread world hinv _ ↦ hstarts program hstart thread world hinv)
      henvironment hreach
  exact hguarded.1

end Safety

end Schemii.Foundations
