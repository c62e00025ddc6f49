import Schemii.Sidecar.Accounting

/-!
# The sidecar accounts in every run

The programs of the sidecar keep `AccountingInv` whatever comes at their awaits, and end without a
flight and without a run.

* `safe_run`, `safe_refreshModels`: a run and a refresh, from their registration to their answer.
* `sidecar_accounts`: what holds in every state, when the read in the clean-up of `run` is never
  rejected.
* `rejected_read_leaks`: a rejected read leaves the credential in the vault and the identity busy.
-/

set_option autoImplicit false

namespace Schemii.Sidecar

open Schemii.Foundations

variable {C : Type} {settings : Settings} {before after world : SidecarState C} {thread : ℕ}

/-! ### What a program knows -/

/-- Nothing is known of a program that did not start. -/
structure Unused (thread : ℕ) (world : SidecarState C) : Prop where
  flight : world.flights thread = none
  request : world.requests thread = none
  run : thread ∉ world.runs.map Prod.fst

/-- A program that registered and is not in the runner. -/
structure Registered (thread : ℕ) (turn : Option Key) (key : Key) (generation : ℕ)
    (world : SidecarState C) : Prop where
  flight : world.flights thread = some ⟨turn, key⟩
  request : world.requests thread = some (key, generation)
  run : thread ∉ world.runs.map Prod.fst

/-- A program that registered and is in the runner. -/
structure Running (thread : ℕ) (owner : String) (turn : Option Key) (key : Key) (generation : ℕ)
    (world : SidecarState C) : Prop where
  flight : world.flights thread = some ⟨turn, key⟩
  request : world.requests thread = some (key, generation)
  run : (thread, owner) ∈ world.runs

/-- A program that has no flight and no run. -/
structure Away (thread : ℕ) (world : SidecarState C) : Prop where
  flight : world.flights thread = none
  run : thread ∉ world.runs.map Prod.fst

/-- A store that was made for an identity. -/
def MadeFor (store : ℕ) (key : Key) (world : SidecarState C) : Prop :=
  store < world.nextStore ∧ world.scopes store = key

section Knowledge

variable {turn : Option Key} {key : Key} {generation : ℕ} {owner : String} {store : ℕ}

theorem Unused.stable (h : Unused thread before) (hrely : AccountingRely thread before after) :
    Unused thread after :=
  ⟨hrely.flight.trans h.flight, hrely.request.trans h.request, mt hrely.run.1 h.run⟩

theorem Registered.stable (h : Registered thread turn key generation before)
    (hrely : AccountingRely thread before after) : Registered thread turn key generation after :=
  ⟨hrely.flight.trans h.flight, hrely.request.trans h.request, mt hrely.run.1 h.run⟩

theorem Running.stable (h : Running thread owner turn key generation before)
    (hrely : AccountingRely thread before after) :
    Running thread owner turn key generation after :=
  ⟨hrely.flight.trans h.flight, hrely.request.trans h.request, hrely.runs owner h.run⟩

theorem Away.stable (h : Away thread before) (hrely : AccountingRely thread before after) :
    Away thread after :=
  ⟨hrely.flight.trans h.flight, mt hrely.run.1 h.run⟩

theorem MadeFor.stable (h : MadeFor store key before)
    (hrely : AccountingRely thread before after) : MadeFor store key after :=
  ⟨h.1.trans_le hrely.nextStore, (hrely.scopes store h.1).trans h.2⟩

end Knowledge

/-! ### Calls -/

/-- A promise. Assumes: what it fulfils and what it rejects with satisfy the end condition. -/
theorem safe_await {α : Type} {program : SidecarProgram C (Except Thrown α)}
    {post : Except Thrown α → SidecarState C → Prop}
    (h : Safe (accounting settings) thread program world fun outcome after ↦
      match outcome with
      | .ok reply => post reply after
      | .error thrown => post (.error thrown) after) :
    Safe (accounting settings) thread (await program) world post := by
  refine Safe.bind (h.mono fun outcome after hpost ↦ ?_)
  rcases outcome with thrown | thrown | value
  · exact hpost
  · exact hpost
  · exact hpost

/-- The calls that `TurnRunner.run` and `discoverModels` make on behalf of an identity. -/
def Inferring (key : Key) : SidecarCall C → Prop
  | .prepare | .nextEvent | .emitText | .finish | .status | .read .inference _ _ => True
  | .scope other => other = key
  | _ => False

theorem performs_inferring {key : Key} {turn : Option Key} {request : SidecarCall C}
    {reply : request.Reply} (hrequest : Inferring key request) (hinv : AccountingInv before)
    (hflight : before.flights thread = some ⟨turn, key⟩)
    (hperform : Performs settings thread before request reply after) :
    (accounting settings).Guarantees thread before after ∧ AccountingRely thread before after := by
  have hsame : (accounting settings).Guarantees thread before before ∧
      AccountingRely thread before before := ⟨guarantees_same hinv, .refl thread before⟩
  cases hperform with
  | scope other =>
    obtain rfl : other = key := hrequest
    obtain ⟨hkept, hrely, -, -⟩ := accounting_scope hinv ⟨thread, _, hflight, rfl⟩
    exact ⟨⟨hkept, fun other _ ↦ hrely other⟩, hrely thread⟩
  | prepare outcome => exact hsame
  | read place store providerId => exact hsame
  | readRejected place store providerId thrown => exact hsame
  | nextEvent outcome => exact hsame
  | emitText outcome => exact hsame
  | finish outcome => exact hsame
  | status timedOut => exact hsame
  | admitRun => exact hrequest.elim
  | admitRefresh => exact hrequest.elim
  | put => exact hrequest.elim
  | putRejected => exact hrequest.elim
  | enter => exact hrequest.elim
  | leave => exact hrequest.elim
  | forget => exact hrequest.elim
  | emitTerminal => exact hrequest.elim
  | emitError => exact hrequest.elim
  | cancel => exact hrequest.elim
  | remove => exact hrequest.elim

theorem safe_inferring {α : Type} {key : Key} {turn : Option Key} {fact : SidecarState C → Prop}
    {program : SidecarProgram C α} (hasks : program.Asks (Inferring key))
    (hstable : ∀ before after, AccountingRely thread before after → fact before → fact after)
    (hflight : ∀ world, fact world → world.flights thread = some ⟨turn, key⟩) (hfact : fact world) :
    Safe (accounting settings) thread program world fun _ after ↦ fact after := by
  refine Safe.of_asks hstable (fun request before reply after hrequest hinv hknown hperform ↦ ?_)
    hasks hfact
  obtain ⟨hguarantees, hrely⟩ := performs_inferring hrequest hinv (hflight before hknown) hperform.1
  exact ⟨hguarantees, hstable before after hrely hknown⟩

theorem asks_await {α : Type} {key : Key} {program : SidecarProgram C (Except Thrown α)}
    (h : program.Asks (Inferring key)) : (await program).Asks (Inferring key) :=
  h.bind fun reply ↦ .ofExcept reply

theorem asks_streamEvents (key : Key) (events : ℕ) :
    (streamEvents events : SidecarProgram C Unit).Asks (Inferring key) := by
  induction events with
  | zero => trivial
  | succ events ih =>
    have hevent : (await (ask .nextEvent) : SidecarProgram C Bool).Asks (Inferring key) :=
      asks_await ⟨trivial, fun _ ↦ trivial⟩
    refine hevent.bind fun text ↦ .bind ?_ fun _ ↦ ih
    cases text with
    | false => trivial
    | true => exact asks_await ⟨trivial, fun _ ↦ trivial⟩

/-- What `TurnRunner.run` and `discoverModels` do between them and the end of the answer. -/
theorem asks_credentialed {key : Key} (providerId : String) {rest : SidecarProgram C Unit}
    (hrest : rest.Asks (Inferring key)) :
    (Program.bind (await (ask .prepare)) fun _ ↦
      Program.bind (ask (.scope key)) fun (store : ℕ) ↦
        Program.bind (await (ask (.read .inference store providerId)))
          fun (credential : Option C) ↦
            match credential with
            | none => .raise (.turn ⟨.credentialsRequired, none⟩)
            | some _ => rest : SidecarProgram C Unit).Asks (Inferring key) := by
  have hprepare : (await (ask .prepare) : SidecarProgram C Unit).Asks (Inferring key) :=
    asks_await ⟨trivial, fun _ ↦ trivial⟩
  have hscope : (ask (.scope key) : SidecarProgram C ℕ).Asks (Inferring key) :=
    ⟨rfl, fun _ ↦ trivial⟩
  have hread : ∀ store, (await (ask (.read .inference store providerId)) :
      SidecarProgram C (Option C)).Asks (Inferring key) :=
    fun store ↦ asks_await ⟨trivial, fun _ ↦ trivial⟩
  refine hprepare.bind fun _ ↦ hscope.bind fun store ↦ (hread store).bind fun credential ↦ ?_
  cases credential with
  | none => trivial
  | some credential => exact hrest

/-- The body of `TurnRunner.run`. -/
theorem asks_infer (request : RunRequest C) (events : ℕ) :
    (infer request events).Asks (Inferring request.key) :=
  asks_credentialed request.providerId
    ((asks_streamEvents request.key events).bind fun _ ↦ asks_await ⟨trivial, fun _ ↦ trivial⟩)

/-- `discoverModels`. -/
theorem asks_discoverModels (request : RefreshRequest C) :
    (discoverModels request).Asks (Inferring request.key) :=
  asks_credentialed request.providerId (asks_await ⟨trivial, fun _ ↦ trivial⟩)

/-! ### Registration -/

/-- What a registration leaves behind. Assumes: nothing is registered for the turn and the identity. -/
theorem registers (settings : Settings) (hinv : AccountingInv before)
    (hunused : Unused thread before) (turn : Option Key) {key : Key}
    (hturn : ∀ found, turn = some found → before.turns.get? found = none)
    (hkey : before.identities.get? key = none) (generation : ℕ) :
    (accounting settings).Guarantees thread before
        ((before.register thread turn key generation).scope key).2 ∧
      Registered thread turn key generation
        ((before.register thread turn key generation).scope key).2 ∧
      MadeFor ((before.register thread turn key generation).scope key).1 key
        ((before.register thread turn key generation).scope key).2 := by
  have hregistered : Registered thread turn key generation
      (before.register thread turn key generation) :=
    ⟨Function.update_self _ _ _, Function.update_self _ _ _, hunused.run⟩
  have hkept := accounting_register hinv hunused.flight hunused.request hturn hkey generation
  obtain ⟨hscoped, hrely, hmade⟩ := accounting_scope hkept ⟨thread, _, hregistered.flight, rfl⟩
  exact ⟨⟨hscoped, fun other hother ↦ (accounting settings).rely_trans _ _ _ _
    (rely_register before turn key generation hother) (hrely other)⟩,
    hregistered.stable (hrely thread), hmade⟩

theorem safe_admitRun (request : RunRequest C) (hunused : Unused thread world) :
    Safe (accounting settings) thread (await (ask (.admitRun request))) world
      fun outcome after ↦
        match outcome with
        | .ok store => Registered thread (some request.turnKey) request.key request.generation after ∧
            MadeFor store request.key after
        | .error _ => Away thread after := by
  refine safe_await fun before hrely hinv reply after hperform ↦ ?_
  have hfresh := hunused.stable hrely
  cases hperform.1 with
  | admitRun =>
    unfold SidecarState.admitRun
    split
    · exact ⟨guarantees_same hinv, hfresh.flight, hfresh.run⟩
    split
    · exact ⟨guarantees_same hinv, hfresh.flight, hfresh.run⟩
    next hbusy =>
    simp only [Bool.or_eq_true, not_or, Dictionary.contains, Bool.not_eq_true,
      Option.isSome_eq_false_iff, Option.isNone_iff_eq_none] at hbusy
    obtain ⟨hguarantees, hregistered, hmade⟩ := registers settings hinv hfresh
      (some request.turnKey) (fun found hfound ↦ Option.some.inj hfound ▸ hbusy.1) hbusy.2
      request.generation
    exact ⟨hguarantees, hregistered, hmade⟩

theorem safe_admitRefresh (request : RefreshRequest C) (hunused : Unused thread world) :
    Safe (accounting settings) thread (await (ask (.admitRefresh request))) world
      fun outcome after ↦
        match outcome with
        | .ok store => Registered thread none request.key request.generation after ∧
            MadeFor store request.key after
        | .error _ => Away thread after := by
  refine safe_await fun before hrely hinv reply after hperform ↦ ?_
  have hfresh := hunused.stable hrely
  cases hperform.1 with
  | admitRefresh =>
    unfold SidecarState.admitRefresh
    split
    · exact ⟨guarantees_same hinv, hfresh.flight, hfresh.run⟩
    split
    · exact ⟨guarantees_same hinv, hfresh.flight, hfresh.run⟩
    next hbusy =>
    simp only [Dictionary.contains, Bool.not_eq_true, Option.isSome_eq_false_iff,
      Option.isNone_iff_eq_none] at hbusy
    obtain ⟨hguarantees, hregistered, hmade⟩ := registers settings hinv hfresh
      none (fun found hfound ↦ by cases hfound) hbusy request.generation
    exact ⟨hguarantees, hregistered, hmade⟩

/-! ### From the registration to the clean-up -/

section Registered

variable {turn : Option Key} {key : Key} {generation : ℕ}

/-- The rest of `put`. -/
theorem safe_put {store : ℕ} (providerId : String) (credential : C)
    (hknown : Registered thread turn key generation world) (hmade : MadeFor store key world) :
    Safe (accounting settings) thread (await (ask (.put store providerId credential))) world
      fun _ after ↦ Registered thread turn key generation after := by
  refine safe_await fun before hrely hinv reply after hperform ↦ ?_
  have hstill := hknown.stable hrely
  cases hperform.1 with
  | put =>
    exact ⟨⟨inv_write hinv (hmade.stable hrely).1 providerId credential, fun other _ ↦
      rely_write before store providerId credential other⟩,
      hstill.stable (rely_write before store providerId credential thread)⟩
  | putRejected => exact ⟨guarantees_same hinv, hstill⟩

theorem safe_enter {taken : Key} {owner : String} (howner : key.1 = owner) (limits : Limits)
    (hknown : Registered thread (some taken) key generation world) :
    Safe (accounting settings) thread (await (ask (.enter owner limits))) world
      fun outcome after ↦
        match outcome with
        | .ok _ => Running thread owner (some taken) key generation after
        | .error _ => Registered thread (some taken) key generation after := by
  refine safe_await fun before hrely hinv reply after hperform ↦ ?_
  have hstill := hknown.stable hrely
  cases hperform.1 with
  | enter =>
    obtain ⟨hkept, hothers, ⟨hsame, thrown, hthrown⟩ | ⟨hdone, hrun, hflights, hrequests⟩⟩ :=
      accounting_enter settings hinv hstill.run hstill.flight howner limits
    · refine ⟨⟨hkept, hothers⟩, ?_⟩
      simp only [hthrown, hsame]
      exact hstill
    · refine ⟨⟨hkept, hothers⟩, ?_⟩
      simp only [hdone]
      exact ⟨(congrFun hflights thread).trans hstill.flight,
        (congrFun hrequests thread).trans hstill.request, hrun⟩

theorem safe_leave {owner : String} (hknown : Running thread owner turn key generation world) :
    Safe (accounting settings) thread (ask (.leave owner)) world
      fun _ after ↦ Registered thread turn key generation after := by
  intro before hrely hinv reply after hperform
  have hstill := hknown.stable hrely
  cases hperform.1 with
  | leave =>
    obtain ⟨hkept, hothers, hrun⟩ := accounting_leave hinv hstill.run
    exact ⟨⟨hkept, hothers⟩, hstill.flight, hstill.request, hrun⟩

/-- `scope`. -/
theorem safe_scope (hknown : Registered thread turn key generation world) :
    Safe (accounting settings) thread (ask (.scope key)) world fun outcome after ↦
      ∃ store, outcome = .ok store ∧ Registered thread turn key generation after ∧
        MadeFor store key after := by
  intro before hrely hinv reply after hperform
  have hstill := hknown.stable hrely
  cases hperform.1 with
  | scope =>
    obtain ⟨hkept, hothers, hmade⟩ := accounting_scope hinv ⟨thread, _, hstill.flight, rfl⟩
    exact ⟨⟨hkept, fun other _ ↦ hothers other⟩, _, rfl, hstill.stable (hothers thread), hmade⟩

theorem safe_readBack {store : ℕ} (place : ReadPlace) (providerId : String)
    (hknown : Registered thread turn key generation world) (hmade : MadeFor store key world) :
    Safe (accounting settings) thread (ask (.read place store providerId)) world fun outcome after ↦
      ∃ reply, outcome = .ok reply ∧ Tidy (.read place store providerId) reply ∧
        Registered thread turn key generation after ∧
        ∀ credential, reply = Except.ok (some credential) → (key, credential) ∈ after.written := by
  intro before hrely hinv reply after hperform
  have hstill := hknown.stable hrely
  have hscope := (hmade.stable hrely).2
  refine ⟨?_, reply, rfl, hperform.2, ?_, ?_⟩
  · cases hperform.1 <;> exact guarantees_same hinv
  · cases hperform.1 <;> exact hstill
  · intro credential hreply
    cases hperform.1 with
    | read =>
      have hfound := hinv.contents store providerId credential (Except.ok.inj hreply)
      rwa [hscope] at hfound
    | readRejected place store providerId thrown => cases hreply

/-- What `run` and `refreshModels` do to the maps in their clean-up. -/
theorem safe_forget (hknown : Registered thread turn key generation world) :
    Safe (accounting settings) thread (ask (.forget turn key)) world fun outcome after ↦
      (∃ value, outcome = .ok value) ∧ Away thread after ∧
        after.requests thread = some (key, generation) ∧ world.written ⊆ after.written := by
  intro before hrely hinv reply after hperform
  have hstill := hknown.stable hrely
  cases hperform.1 with
  | forget =>
    exact ⟨⟨accounting_forget hinv hstill.flight hstill.run, fun other hother ↦
      rely_forget before turn key hother⟩, ⟨_, rfl⟩, ⟨Function.update_self _ _ _, hstill.run⟩,
      hstill.request, hrely.written⟩

/-- A terminal event. Assumes: it has the generation of the request, and a credential of the
identity. -/
theorem safe_emitTerminal {terminal : Terminal C} (haway : Away thread world)
    (hrequest : world.requests thread = some (key, terminal.generation))
    (hcredential : ∀ credential, terminal.credential = some credential →
      (key, credential) ∈ world.written) :
    Safe (accounting settings) thread (await (ask (.emitTerminal terminal))) world
      fun _ after ↦ Away thread after := by
  refine safe_await fun before hrely hinv reply after hperform ↦ ?_
  have hstill := haway.stable hrely
  cases hperform.1 with
  | emitTerminal =>
    refine ⟨⟨{ hinv with terminals := fun entry hentry ↦ ?_ }, fun other _ ↦
      ⟨rfl, rfl, .rfl, fun _ ↦ id, le_rfl, fun _ _ ↦ rfl, fun _ ↦ id⟩⟩, hstill.flight, hstill.run⟩
    rcases List.mem_cons.1 hentry with rfl | hold
    · exact ⟨key, hrely.request.trans hrequest, fun credential hfound ↦
        hrely.written (hcredential credential hfound)⟩
    · exact hinv.terminals entry hold

end Registered

/-- `TurnRunner.run`. -/
theorem safe_runTurn (request : RunRequest C) (events : ℕ) {turn : Key} {generation : ℕ}
    (hknown : Registered thread (some turn) request.key generation world) :
    Safe (accounting settings) thread (runTurn request events) world
      fun _ after ↦ Registered thread (some turn) request.key generation after := by
  refine Safe.bind ((safe_enter rfl request.limits hknown).mono fun outcome after hpost ↦ ?_)
  cases outcome with
  | error thrown => exact hpost
  | ok entered =>
    have hstable : ∀ before after : SidecarState C, AccountingRely thread before after →
        Running thread request.owner (some turn) request.key generation before →
        Running thread request.owner (some turn) request.key generation after :=
      fun _ _ hrely hrunning ↦ hrunning.stable hrely
    have hflight : ∀ world : SidecarState C,
        Running thread request.owner (some turn) request.key generation world →
        world.flights thread = some ⟨some turn, request.key⟩ := fun _ hrunning ↦ hrunning.flight
    have hleaves : ∀ (result : Except Thrown Unit) {world : SidecarState C},
        Running thread request.owner (some turn) request.key generation world →
        Safe (accounting settings) thread
          (Program.bind (ask (.leave request.owner)) fun _ ↦ Program.ofExcept result) world
          fun _ after ↦ Registered thread (some turn) request.key generation after := by
      intro result world hrunning
      refine Safe.bind ((safe_leave hrunning).mono fun outcome after hregistered ↦ ?_)
      cases outcome with
      | error thrown => exact hregistered
      | ok left => cases result <;> exact hregistered
    refine Safe.bind (Safe.attempt ((safe_inferring (asks_infer request events) hstable hflight
      hpost).mono fun outcome after hrunning ↦ ?_))
    cases outcome with
    | ok value => exact hleaves (.ok value) hrunning
    | error thrown =>
      refine Safe.bind (Safe.bind fun before hrely hinv reply after hperform ↦ ?_)
      have hstill := hrunning.stable hrely
      obtain ⟨hguarantees, hown⟩ := performs_inferring
        (show Inferring request.key (.status : SidecarCall C) from trivial) hinv hstill.flight hperform.1
      exact ⟨hguarantees, hleaves _ (hstill.stable hown)⟩

/-- What `run` and `refreshModels` do with the credential before their clean-up. -/
theorem safe_credentialed {store : ℕ} (providerId : String) (credential : C) {turn : Option Key}
    {key : Key} {generation : ℕ} {rest : SidecarProgram C Unit}
    (hrest : ∀ world, Registered thread turn key generation world →
      Safe (accounting settings) thread rest world
        fun _ after ↦ Registered thread turn key generation after)
    (hknown : Registered thread turn key generation world) (hmade : MadeFor store key world) :
    Safe (accounting settings) thread
      (Program.attempt
        (Program.bind (await (ask (.put store providerId credential))) fun _ ↦ rest)) world
      fun outcome after ↦ (∃ value, outcome = .ok value) ∧
        Registered thread turn key generation after := by
  refine Safe.attempt (Safe.bind ((safe_put providerId credential hknown hmade).mono
    fun outcome after hput ↦ ?_))
  cases outcome with
  | error thrown => exact ⟨⟨_, rfl⟩, hput⟩
  | ok value => exact (hrest after hput).mono fun outcome final hpost ↦ ⟨⟨_, rfl⟩, hpost⟩

/-- `run`. -/
theorem safe_run (request : RunRequest C) (events : ℕ) (hunused : Unused thread world) :
    Safe (accounting settings) thread (run request events) world fun _ after ↦ Away thread after := by
  refine Safe.bind ((safe_admitRun request hunused).mono fun outcome after hadmitted ↦ ?_)
  cases outcome with
  | error thrown => exact hadmitted
  | ok store =>
    refine Safe.bind ((safe_credentialed request.providerId request.credential
      (fun world hknown ↦ safe_runTurn request events hknown) hadmitted.1 hadmitted.2).mono
      fun outcome after hpost ↦ ?_)
    obtain ⟨⟨outcome, rfl⟩, hknown⟩ := hpost
    refine Safe.bind ((safe_scope hknown).mono fun found after hpost ↦ ?_)
    obtain ⟨store, rfl, hknown, hmade⟩ := hpost
    refine Safe.bind (safe_await ((safe_readBack .runCleanUp request.providerId hknown hmade).mono
      fun found after hpost ↦ ?_))
    -- Here the runs are those in which the read is not rejected.
    obtain ⟨_, rfl, ⟨updated, rfl⟩, hknown, hwritten⟩ := hpost
    refine Safe.bind ((safe_forget hknown).mono fun found final hpost ↦ ?_)
    obtain ⟨⟨_, rfl⟩, haway, hrequest, hkept⟩ := hpost
    exact safe_emitTerminal haway hrequest fun credential hfound ↦
      hkept (hwritten credential (congrArg Except.ok hfound))

/-- `refreshModels`. -/
theorem safe_refreshModels (request : RefreshRequest C) (hunused : Unused thread world) :
    Safe (accounting settings) thread (refreshModels request) world
      fun _ after ↦ Away thread after := by
  refine Safe.bind ((safe_admitRefresh request hunused).mono fun outcome after hadmitted ↦ ?_)
  cases outcome with
  | error thrown => exact hadmitted
  | ok store =>
    have hdiscovers : ∀ world, Registered thread none request.key request.generation world →
        Safe (accounting settings) thread (discoverModels request) world
          fun _ after ↦ Registered thread none request.key request.generation after :=
      fun world hknown ↦ safe_inferring (asks_discoverModels request)
        (fun _ _ hrely hknown ↦ hknown.stable hrely) (fun _ hknown ↦ hknown.flight) hknown
    refine Safe.bind ((safe_credentialed request.providerId request.credential hdiscovers
      hadmitted.1 hadmitted.2).mono fun outcome after hpost ↦ ?_)
    obtain ⟨⟨outcome, rfl⟩, hknown⟩ := hpost
    refine Safe.bind fun before hrely hinv status after hperform ↦ ?_
    have hstill := hknown.stable hrely
    obtain ⟨hguarantees, hown⟩ := performs_inferring
      (show Inferring request.key (.status : SidecarCall C) from trivial) hinv hstill.flight hperform.1
    refine ⟨hguarantees, ?_⟩
    refine Safe.bind ((safe_scope (hstill.stable hown)).mono fun found after hpost ↦ ?_)
    obtain ⟨store, rfl, hknown, hmade⟩ := hpost
    refine Safe.bind ((safe_readBack .refreshCleanUp request.providerId hknown hmade).mono
      fun found after hpost ↦ ?_)
    obtain ⟨updated, rfl, -, hknown, hwritten⟩ := hpost
    refine Safe.bind ((safe_forget hknown).mono fun found final hpost ↦ ?_)
    obtain ⟨⟨_, rfl⟩, haway, hrequest, hkept⟩ := hpost
    cases updated with
    | error thrown => exact haway
    | ok credential =>
      exact safe_emitTerminal haway hrequest fun credential hfound ↦
        hkept (hwritten credential (congrArg Except.ok hfound))

theorem safe_abortion {request : SidecarCall C} (hrequest : ∀ (before : SidecarState C)
    (reply : request.Reply) (after : SidecarState C), Performs settings thread before request reply after →
      after = before ∨ ∃ controller, after = before.abort controller)
    {post : Except Thrown (request.Reply) → SidecarState C → Prop}
    (haway : Away thread world) (hpost : ∀ outcome after, Away thread after → post outcome after) :
    Safe (accounting settings) thread (ask request) world post := by
  intro before hrely hinv reply after hperform
  have hstill := haway.stable hrely
  rcases hrequest before reply after hperform.1 with rfl | ⟨controller, rfl⟩
  · exact ⟨guarantees_same hinv, hpost _ _ hstill⟩
  · obtain ⟨hkept, hothers⟩ := accounting_happens hinv (.disconnected controller)
    exact ⟨⟨hkept, fun other _ ↦ hothers other⟩, hpost _ _ (hstill.stable (hothers thread))⟩

theorem safe_starts {program : SidecarProgram C Unit} (h : Starts program)
    (hunused : Unused thread world) :
    Safe (accounting settings) thread program world fun _ after ↦ Away thread after := by
  have haway : Away thread world := ⟨hunused.flight, hunused.run⟩
  cases h with
  | run request events =>
    refine Safe.bind (Safe.attempt ((safe_run request events hunused).mono
      fun outcome after haway ↦ ?_))
    have hreports : ∀ error, Safe (accounting settings) thread
        (await (ask (.emitError error))) after fun _ after ↦ Away thread after := by
      intro error
      refine safe_await (safe_abortion (fun before reply after hperform ↦ ?_) haway
        fun outcome after haway ↦ ?_)
      · cases hperform
        exact .inl rfl
      · cases outcome <;> exact haway
    cases outcome with
    | ok value => exact haway
    | error thrown =>
      cases thrown with
      | turn error => exact hreports error
      | other => exact hreports _
  | refresh request => exact safe_refreshModels request hunused
  | cancel owner turnId =>
    refine safe_await (safe_abortion (fun before reply after hperform ↦ ?_) haway
      fun outcome after haway ↦ ?_)
    · cases hperform
      unfold SidecarState.cancel
      split
      · exact .inl rfl
      split
      · exact .inl rfl
      · exact .inr ⟨_, rfl⟩
    · cases outcome <;> exact haway
  | remove owner credentialId =>
    refine safe_await (safe_abortion (fun before reply after hperform ↦ ?_) haway
      fun outcome after haway ↦ ?_)
    · cases hperform
      unfold SidecarState.remove
      split
      · exact .inl rfl
      split
      · exact .inl rfl
      · exact .inr ⟨_, rfl⟩
    · cases outcome <;> exact haway

/-! ### Every run -/

/-- The pools of the sidecar. -/
abbrev SidecarPool (C : Type) := Pool (sidecarInterface C) Thrown (SidecarState C)

/-- A run or a refresh in flight: it registered, did not forget its credential yet, and has not
ended. -/
def InFlight (pool : SidecarPool C) (thread : ℕ) (flight : Flight) : Prop :=
  pool.world.flights thread = some flight ∧ pool.unfinished thread = true

/-- The sidecar forgets every credential and counts every turn. -/
structure Accounts (settings : Settings) (pool : SidecarPool C) : Prop where
  identity : ∀ first second flight other, InFlight pool first flight → InFlight pool second other →
    flight.key = other.key → first = second
  turn : ∀ first second flight other turn, InFlight pool first flight → InFlight pool second other →
    flight.turn = some turn → other.turn = some turn → first = second
  forgotten : ∀ key, (∀ thread flight, InFlight pool thread flight → flight.key ≠ key) →
    pool.world.stores.get? key = none ∧ pool.world.identities.get? key = none
  turnForgotten : ∀ turn, (∀ thread flight, InFlight pool thread flight → flight.turn ≠ some turn) →
    pool.world.turns.get? turn = none
  admitsRun : ∀ thread (request : RunRequest C), request.valid settings.providerIds = true →
    (∀ other flight, InFlight pool other flight →
      flight.key ≠ request.key ∧ flight.turn ≠ some request.turnKey) →
    ∃ store, (pool.world.admitRun settings thread request).1 = .ok store
  admitsRefresh : ∀ thread (request : RefreshRequest C), request.valid = true →
    (∀ other flight, InFlight pool other flight → flight.key ≠ request.key) →
    ∃ store, (pool.world.admitRefresh thread request).1 = .ok store
  running : ∀ thread owner, (thread, owner) ∈ pool.world.runs →
    ∃ flight, InFlight pool thread flight ∧ flight.turn.isSome ∧ flight.key.1 = owner
  single : (pool.world.runs.map Prod.fst).Nodup
  total : pool.world.active = pool.world.runs.length
  own : ∀ owner, (pool.world.owners.get? owner).getD 0 = ownRuns pool.world.runs owner
  limits : ∀ admission ∈ pool.world.admissions,
    admission.total ≤ admission.maxConcurrent ∧ admission.own ≤ admission.maxPerOwner
  terminals : ∀ entry ∈ pool.world.terminals, ∃ key,
    pool.world.requests entry.1 = some (key, entry.2.generation) ∧
      ∀ credential, entry.2.credential = some credential → (key, credential) ∈ pool.world.written

/-- Assumes: the invariant, and that what registered and did not forget its credential has not
ended. -/
theorem accounts_of_inv {pool : SidecarPool C} (hinv : AccountingInv pool.world)
    (hunfinished : ∀ thread flight, pool.world.flights thread = some flight →
      pool.unfinished thread = true) : Accounts settings pool := by
  have hflies : ∀ thread flight, pool.world.flights thread = some flight →
      InFlight pool thread flight :=
    fun thread flight hflight ↦ ⟨hflight, hunfinished thread flight hflight⟩
  have hidentity : ∀ key, (∀ thread flight, InFlight pool thread flight → flight.key ≠ key) →
      pool.world.identities.get? key = none := by
    intro key hnone
    cases hfound : pool.world.identities.get? key with
    | none => rfl
    | some thread =>
      obtain ⟨flight, hflight, hkey⟩ := (hinv.identities key thread).1 hfound
      exact absurd hkey (hnone thread flight (hflies thread flight hflight))
  have hturn : ∀ turn, (∀ thread flight, InFlight pool thread flight → flight.turn ≠ some turn) →
      pool.world.turns.get? turn = none := by
    intro turn hnone
    cases hfound : pool.world.turns.get? turn with
    | none => rfl
    | some thread =>
      obtain ⟨flight, hflight, hsame⟩ := (hinv.turns turn thread).1 hfound
      exact absurd hsame (hnone thread flight (hflies thread flight hflight))
  refine ⟨?_, ?_, fun key hnone ↦ ⟨?_, hidentity key hnone⟩, hturn, ?_, ?_, ?_, hinv.single,
    hinv.active, owners_getD hinv, hinv.admissions, hinv.terminals⟩
  · intro first second flight other hfirst hsecond hkey
    have hleft := (hinv.identities other.key first).2 ⟨flight, hfirst.1, hkey⟩
    have hright := (hinv.identities other.key second).2 ⟨other, hsecond.1, rfl⟩
    exact Option.some.inj (hleft.symm.trans hright)
  · intro first second flight other turn hfirst hsecond hflight hother
    have hleft := (hinv.turns turn first).2 ⟨flight, hfirst.1, hflight⟩
    have hright := (hinv.turns turn second).2 ⟨other, hsecond.1, hother⟩
    exact Option.some.inj (hleft.symm.trans hright)
  · cases hfound : pool.world.stores.get? key with
    | none => rfl
    | some store =>
      obtain ⟨-, -, thread, flight, hflight, hkey⟩ := hinv.stores key store hfound
      exact absurd hkey (hnone thread flight (hflies thread flight hflight))
  · intro thread request hvalid hnone
    have hfree : pool.world.identities.get? request.key = none :=
      hidentity request.key fun other flight hflight ↦ (hnone other flight hflight).1
    have hopen : pool.world.turns.get? request.turnKey = none :=
      hturn request.turnKey fun other flight hflight ↦ (hnone other flight hflight).2
    simp [SidecarState.admitRun, hvalid, Dictionary.contains, hfree, hopen]
  · intro thread request hvalid hnone
    have hfree := hidentity request.key hnone
    simp [SidecarState.admitRefresh, hvalid, Dictionary.contains, hfree]
  · intro thread owner hmem
    obtain ⟨flight, hflight, hrun, howner⟩ := hinv.runs thread owner hmem
    exact ⟨flight, hflies thread flight hflight, hrun, howner⟩

theorem accounting_initial : AccountingInv (SidecarState.initial : SidecarState C) where
  identities key thread := by simp [SidecarState.initial, Dictionary.get?_empty]
  turns key thread := by simp [SidecarState.initial, Dictionary.get?_empty]
  stores key store hfound := by cases hfound
  contents store providerId credential hfound := by cases hfound
  fresh store providerId _ := rfl
  active := rfl
  owners owner := rfl
  single := List.nodup_nil
  runs thread owner hmem := by cases hmem
  admissions admission hmem := by cases hmem
  terminals entry hmem := by cases hmem

/-- The sidecar forgets every credential and counts every turn. Assumes: a state that some interleaving
of the programs reaches in which the read in the clean-up of `run` is never rejected. -/
theorem sidecar_accounts (settings : Settings) (pool : SidecarPool C)
    (hreach : Pool.Reachable (tidySemantics settings) Starts (· = SidecarState.initial) pool) :
    Accounts settings pool := by
  have hguarded : (accounting settings).Guarded Unused (fun thread _ after ↦ Away thread after)
      pool := by
    refine RelyGuarantee.reachable_guarded ?_ ?_ (fun thread _ _ hrely hunused ↦
      hunused.stable hrely) (fun program hstarts thread world _ hunused ↦
      safe_starts hstarts hunused) (fun before after hinv hhappens ↦
      accounting_happens hinv hhappens) hreach
    · rintro world rfl
      exact accounting_initial
    · rintro world rfl thread
      exact ⟨rfl, rfl, List.not_mem_nil⟩
  refine accounts_of_inv hguarded.1 fun thread flight hflight ↦ ?_
  have hbusy : ¬ Away thread pool.world := by
    intro haway
    rw [haway.flight] at hflight
    cases hflight
  exact hguarded.unfinished (fun _ _ hunused ↦ ⟨hunused.flight, hunused.run⟩)
    (fun _ _ _ haway ↦ haway) (fun _ _ _ hrely haway ↦ haway.stable hrely) hbusy

/-! ### A run, and a run whose last read is rejected -/

/-- The settings of a sidecar. -/
def sampleSettings : Settings := ⟨["openai"], 4, 2⟩

/-- A request to run a turn. -/
def sampleRequest : RunRequest String where
  owner := "ada"
  turnId := "turn"
  credentialId := "key"
  providerId := "openai"
  modelId := "model"
  credential := "secret"
  credentialBytes := 8
  generation := 3
  limits := ⟨none, none, none, none, none⟩

/-- Answers of a provider that sends one text, and of a store that may reject the read in the clean-up
of `run`. -/
def sampleAnswer (rejects : Bool) (thread : ℕ) : (request : SidecarCall String) →
    SidecarState String → request.Reply × SidecarState String
  | .admitRun request, world => world.admitRun sampleSettings thread request
  | .admitRefresh request, world => world.admitRefresh thread request
  | .put store providerId credential, world => (.ok (), world.write store providerId credential)
  | .enter owner limits, world => world.enter sampleSettings thread owner limits
  | .scope key, world => world.scope key
  | .read .runCleanUp store providerId, world =>
    (if rejects then .error .other else .ok (world.contents store providerId), world)
  | .read .inference store providerId, world => (.ok (world.contents store providerId), world)
  | .read .refreshCleanUp store providerId, world => (.ok (world.contents store providerId), world)
  | .nextEvent, world => (.ok true, world)
  | .status, world => ((false, world.aborted thread), world)
  | .leave owner, world => ((), world.leave thread owner)
  | .forget turn key, world => ((), world.forget thread turn key)
  | .emitTerminal terminal, world =>
    (.ok (), { world with terminals := (thread, terminal) :: world.terminals })
  | .prepare, world => (.ok (), world)
  | .emitText, world => (.ok (), world)
  | .finish, world => (.ok (), world)
  | .emitError _, world => (.ok (), world)
  | .cancel owner turnId, world => world.cancel owner turnId
  | .remove owner credentialId, world => world.remove owner credentialId

theorem sampleAnswer_performs (rejects : Bool) (thread : ℕ) (request : SidecarCall String)
    (world : SidecarState String) :
    Performs sampleSettings thread world request (sampleAnswer rejects thread request world).1
      (sampleAnswer rejects thread request world).2 := by
  cases request with
  | read place store providerId =>
    cases place with
    | runCleanUp =>
      cases rejects with
      | true => exact .readRejected _ _ _ _
      | false => exact .read _ _ _
    | inference => exact .read _ _ _
    | refreshCleanUp => exact .read _ _ _
  | _ => constructor

theorem sampleAnswer_tidy (thread : ℕ) (request : SidecarCall String) (world : SidecarState String) :
    Tidy request (sampleAnswer false thread request world).1 := by
  cases request with
  | read place store providerId =>
    cases place with
    | runCleanUp => exact ⟨_, rfl⟩
    | inference => trivial
    | refreshCleanUp => trivial
  | _ => trivial

/-- A run, after a number of its calls. -/
def samplePool (rejects : Bool) : ℕ → SidecarPool String
  | 0 => ⟨SidecarState.initial, Function.update (fun _ ↦ none) 0 (some (handleTurn sampleRequest 1)), 1⟩
  | steps + 1 => (samplePool rejects steps).advance (sampleAnswer rejects) 0

/-- Assumes: a semantics with the answers of the sample. The sample is one of its runs. -/
theorem samplePool_reachable {S : Semantics (sidecarInterface String) (SidecarState String)}
    {rejects : Bool} (hanswer : ∀ request world, S.perform 0 request world
      (sampleAnswer rejects 0 request world).1 (sampleAnswer rejects 0 request world).2)
    (steps : ℕ) :
    Pool.Reachable S Starts (· = SidecarState.initial) (samplePool rejects steps) := by
  induction steps with
  | zero => exact ⟨_, rfl, .single (.spawn _ (.run sampleRequest 1))⟩
  | succ steps ih =>
    unfold samplePool Pool.advance
    split
    · next request next hthread => exact ih.step (.act 0 request next _ _ hthread (hanswer request _))
    · exact ih

/-- A run that ends well leaves nothing behind, and its terminal event has its generation and its
credential. -/
theorem finished_run_forgotten : Accounts sampleSettings (samplePool false 14) ∧
    (samplePool false 14).unfinished 0 = false ∧
    (samplePool false 14).world.stores.get? ("ada", "key") = none ∧
    (samplePool false 14).world.terminals.map (fun entry ↦ (entry.2.generation, entry.2.credential)) =
      [(3, some "secret")] := by
  have hreach : Pool.Reachable (tidySemantics sampleSettings) Starts (· = SidecarState.initial)
      (samplePool false 14) :=
    samplePool_reachable (fun request world ↦
      And.intro (sampleAnswer_performs false 0 request world) (sampleAnswer_tidy 0 request world)) 14
  exact ⟨sidecar_accounts _ _ hreach, by decide, by decide, by decide⟩

/-- A run whose last read is rejected ends with its credential in the vault and its identity busy: the
next run for it is refused. -/
theorem rejected_read_leaks : ∃ pool : SidecarPool String,
    Pool.Reachable (sidecarSemantics sampleSettings) Starts (· = SidecarState.initial) pool ∧
      pool.spawned = 1 ∧ pool.unfinished 0 = false ∧
      pool.world.stores.get? ("ada", "key") = some 0 ∧
      pool.world.contents 0 "openai" = some "secret" ∧
      (pool.world.admitRun sampleSettings 1 sampleRequest).1 =
        .error (.turn ⟨.busy, some ⟨"credential_overlap_guard", 1, 1⟩⟩) ∧
      ¬ Accounts sampleSettings pool := by
  refine ⟨samplePool true 13, samplePool_reachable (fun request world ↦
    sampleAnswer_performs true 0 request world) 13, by decide, by decide,
    by decide, by decide, by decide, fun haccounts ↦ ?_⟩
  have hended : (samplePool true 13).unfinished 0 = false := by decide
  have hspawned : (samplePool true 13).spawned = 1 := by decide
  have hstore : (samplePool true 13).world.stores.get? ("ada", "key") = some 0 := by decide
  have hforgotten := haccounts.forgotten ("ada", "key") fun thread flight hflight ↦ by
    have hzero : thread = 0 := by
      have hunfinished := hflight.2
      simp only [Pool.unfinished, Bool.and_eq_true, decide_eq_true_eq, hspawned] at hunfinished
      omega
    have hunfinished := hflight.2
    rw [hzero, hended] at hunfinished
    cases hunfinished
  rw [hstore] at hforgotten
  cases hforgotten.1

end Schemii.Sidecar
