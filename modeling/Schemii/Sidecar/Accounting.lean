import Schemii.Sidecar.Service

/-!
# The sidecar forgets credentials and counts turns

What is registered in the maps of `TurnService` and in the vault is what is in flight, and the counts of
`TurnRunner` are those of the runs in it. The clean-up of `run` reads the credential back before it
forgets it, and is left there when the read is rejected; `refreshModels` forgets it even then. So the
runs are those in which the read in the clean-up of `run` is not rejected (`tidySemantics`).

* `AccountingInv`: the maps are those of the flights, and the counts those of the runs.
* `accounting_register`, `accounting_forget`: a registration and a clean-up keep it.
* `accounting_enter`, `accounting_leave`: so do the admission to the runner and the end of a run.
-/

set_option autoImplicit false

namespace Schemii.Sidecar

open Schemii.Foundations

variable {C : Type}

/-! ### What holds, and what programs rely on -/

/-- The number of runs of an owner. -/
def ownRuns (runs : List (ℕ × String)) (owner : String) : ℕ :=
  (runs.filter fun run ↦ decide (run.2 = owner)).length

/-- The maps are those of the flights, the counts are those of the runs, and every credential in a store
and in a terminal event was written for its identity. -/
structure AccountingInv (state : SidecarState C) : Prop where
  identities : ∀ key thread, state.identities.get? key = some thread ↔
    ∃ flight, state.flights thread = some flight ∧ flight.key = key
  turns : ∀ key thread, state.turns.get? key = some thread ↔
    ∃ flight, state.flights thread = some flight ∧ flight.turn = some key
  stores : ∀ key store, state.stores.get? key = some store →
    store < state.nextStore ∧ state.scopes store = key ∧
      ∃ thread flight, state.flights thread = some flight ∧ flight.key = key
  contents : ∀ store providerId credential, state.contents store providerId = some credential →
    (state.scopes store, credential) ∈ state.written
  fresh : ∀ store providerId, state.nextStore ≤ store → state.contents store providerId = none
  active : state.active = state.runs.length
  owners : ∀ owner, state.owners.get? owner =
    if ownRuns state.runs owner = 0 then none else some (ownRuns state.runs owner)
  single : (state.runs.map Prod.fst).Nodup
  runs : ∀ thread owner, (thread, owner) ∈ state.runs →
    ∃ flight, state.flights thread = some flight ∧ flight.turn.isSome ∧ flight.key.1 = owner
  admissions : ∀ admission ∈ state.admissions,
    admission.total ≤ admission.maxConcurrent ∧ admission.own ≤ admission.maxPerOwner
  terminals : ∀ entry ∈ state.terminals, ∃ key, state.requests entry.1 = some (key, entry.2.generation) ∧
    ∀ credential, entry.2.credential = some credential → (key, credential) ∈ state.written

/-- What the others do: they leave the flight, the request and the run of a program alone, and stores
and what was written to them stay. -/
structure AccountingRely (thread : ℕ) (before after : SidecarState C) : Prop where
  flight : after.flights thread = before.flights thread
  request : after.requests thread = before.requests thread
  run : thread ∈ after.runs.map Prod.fst ↔ thread ∈ before.runs.map Prod.fst
  runs : ∀ owner, (thread, owner) ∈ before.runs → (thread, owner) ∈ after.runs
  nextStore : before.nextStore ≤ after.nextStore
  scopes : ∀ store, store < before.nextStore → after.scopes store = before.scopes store
  written : before.written ⊆ after.written

theorem AccountingRely.refl (thread : ℕ) (state : SidecarState C) : AccountingRely thread state state :=
  ⟨rfl, rfl, .rfl, fun _ ↦ id, le_rfl, fun _ _ ↦ rfl, fun _ ↦ id⟩

/-- The read in the clean-up of `run` is not rejected. -/
def Tidy : (request : SidecarCall C) → request.Reply → Prop
  | .read .runCleanUp _ _, reply => ∃ credential, reply = Except.ok credential
  | _, _ => True

/-- The sidecar, in runs in which the read in the clean-up of `run` is never rejected. -/
def tidySemantics (settings : Settings) : Semantics (sidecarInterface C) (SidecarState C) where
  perform := fun thread request before reply after ↦
    Performs settings thread before request reply after ∧ Tidy request reply
  environment := Happens

/-- The invariant of the sidecar, and what its programs rely on. -/
def accounting (settings : Settings) :
    RelyGuarantee (tidySemantics settings : Semantics (sidecarInterface C) (SidecarState C)) where
  inv := AccountingInv
  rely := AccountingRely
  rely_refl := AccountingRely.refl
  rely_trans := fun _ _ _ _ hfirst hsecond ↦ by
    refine ⟨hsecond.flight.trans hfirst.flight, hsecond.request.trans hfirst.request,
      hsecond.run.trans hfirst.run, fun owner ↦ hsecond.runs owner ∘ hfirst.runs owner,
      hfirst.nextStore.trans hsecond.nextStore, fun store hstore ↦ ?_,
      fun _ ↦ @hsecond.written _ ∘ @hfirst.written _⟩
    rw [hsecond.scopes store (hstore.trans_le hfirst.nextStore), hfirst.scopes store hstore]

variable {settings : Settings} {before after world : SidecarState C} {thread : ℕ}

/-! ### Changes that the accounts do not see -/

theorem guarantees_same (hinv : AccountingInv before) :
    (accounting settings).Guarantees thread before before :=
  ⟨hinv, fun other _ ↦ .refl other before⟩

theorem inv_write (hinv : AccountingInv before) {store : ℕ} (hstore : store < before.nextStore)
    (providerId : String) (credential : C) :
    AccountingInv (before.write store providerId credential) := by
  refine { hinv with
    contents := fun other provider found hfound ↦ ?_
    fresh := fun other provider hother ↦ ?_
    terminals := fun entry hentry ↦ ?_ }
  · by_cases hsame : other = store
    · subst hsame
      by_cases hprovider : provider = providerId
      · subst hprovider
        obtain rfl : credential = found := by simpa [SidecarState.write] using hfound
        exact List.mem_cons_self
      · have hold : before.contents other provider = some found := by
          simpa [SidecarState.write, Function.update_of_ne hprovider] using hfound
        exact List.mem_cons_of_mem _ (hinv.contents other provider found hold)
    · have hold : before.contents other provider = some found := by
        simpa [SidecarState.write, Function.update_of_ne hsame] using hfound
      exact List.mem_cons_of_mem _ (hinv.contents other provider found hold)
  · have hne : other ≠ store := by
      rintro rfl
      exact absurd hstore (not_lt.2 hother)
    simpa [SidecarState.write, Function.update_of_ne hne] using hinv.fresh other provider hother
  · obtain ⟨key, hrequest, hcredential⟩ := hinv.terminals entry hentry
    exact ⟨key, hrequest, fun found hfound ↦ List.mem_cons_of_mem _ (hcredential found hfound)⟩

theorem rely_write (before : SidecarState C) (store : ℕ) (providerId : String) (credential : C)
    (other : ℕ) : AccountingRely other before (before.write store providerId credential) :=
  ⟨rfl, rfl, .rfl, fun _ ↦ id, le_rfl, fun _ _ ↦ rfl, fun _ ↦ List.mem_cons_of_mem _⟩

/-- What happens without a call keeps the invariant and what every program relies on. -/
theorem accounting_happens (hinv : AccountingInv before) (h : Happens before after) :
    AccountingInv after ∧ ∀ thread, AccountingRely thread before after := by
  cases h with
  | disconnected thread =>
    exact ⟨{ hinv with }, fun _ ↦ ⟨rfl, rfl, .rfl, fun _ ↦ id, le_rfl, fun _ _ ↦ rfl, fun _ ↦ id⟩⟩
  | rotated store hstore providerId credential =>
    exact ⟨inv_write hinv hstore providerId credential, rely_write before store providerId credential⟩
  | dropped store providerId =>
    refine ⟨{ hinv with contents := fun other provider found hfound ↦ ?_
                        fresh := fun other provider hother ↦ ?_ },
      fun _ ↦ ⟨rfl, rfl, .rfl, fun _ ↦ id, le_rfl, fun _ _ ↦ rfl, fun _ ↦ id⟩⟩
    · refine hinv.contents other provider found ?_
      by_cases hsame : other = store
      · subst hsame
        by_cases hprovider : provider = providerId
        · subst hprovider
          simp at hfound
        · simpa [Function.update_of_ne hprovider] using hfound
      · simpa [Function.update_of_ne hsame] using hfound
    · by_cases hsame : other = store
      · subst hsame
        by_cases hprovider : provider = providerId
        · subst hprovider
          simp
        · simpa [Function.update_of_ne hprovider] using hinv.fresh other provider hother
      · simpa [Function.update_of_ne hsame] using hinv.fresh other provider hother

/-! ### Registration and clean-up -/

/-- `scope`. Assumes: the identity has a flight. The store that it returns was made for it. -/
theorem accounting_scope (hinv : AccountingInv before) {key : Key}
    (hflight : ∃ thread flight, before.flights thread = some flight ∧ flight.key = key) :
    AccountingInv (before.scope key).2 ∧ (∀ thread, AccountingRely thread before (before.scope key).2) ∧
      (before.scope key).1 < (before.scope key).2.nextStore ∧
      (before.scope key).2.scopes (before.scope key).1 = key := by
  unfold SidecarState.scope
  cases hstore : before.stores.get? key with
  | some store =>
    obtain ⟨hmade, hscope, -⟩ := hinv.stores key store hstore
    exact ⟨hinv, fun thread ↦ .refl thread before, hmade, hscope⟩
  | none =>
    have hold : ∀ store, store < before.nextStore →
        Function.update before.scopes before.nextStore key store = before.scopes store :=
      fun store hlt ↦ Function.update_of_ne hlt.ne _ _
    refine ⟨{ hinv with
      stores := fun other store hfound ↦ ?_
      contents := fun store providerId credential hfound ↦ ?_
      fresh := fun store providerId hlt ↦ hinv.fresh store providerId (Nat.le_of_succ_le hlt) },
      fun thread ↦ ⟨rfl, rfl, .rfl, fun _ ↦ id, Nat.le_succ _, hold, fun _ ↦ id⟩,
      Nat.lt_succ_self _, Function.update_self _ _ _⟩
    · simp only [Dictionary.get?_insert] at hfound
      split at hfound
      · next hsame =>
        cases hfound
        exact ⟨Nat.lt_succ_self _, (Function.update_self _ _ _).trans hsame.symm, hsame ▸ hflight⟩
      · obtain ⟨hmade, hscope, hflown⟩ := hinv.stores other store hfound
        exact ⟨Nat.lt_succ_of_lt hmade, (hold store hmade).trans hscope, hflown⟩
    · have hmade : store < before.nextStore := by
        by_contra hlate
        rw [hinv.fresh store providerId (not_lt.1 hlate)] at hfound
        cases hfound
      have hwritten := hinv.contents store providerId credential hfound
      rw [← hold store hmade] at hwritten
      exact hwritten

/-- The registration of a run or a refresh. Assumes: the program has no flight and no request, and
nothing is registered for its turn and its identity. -/
theorem accounting_register (hinv : AccountingInv before) (hflight : before.flights thread = none)
    (hrequest : before.requests thread = none) {turn : Option Key} {key : Key}
    (hturn : ∀ found, turn = some found → before.turns.get? found = none)
    (hkey : before.identities.get? key = none) (generation : ℕ) :
    AccountingInv (before.register thread turn key generation) := by
  have hother : ∀ other flight, before.flights other = some flight → other ≠ thread := by
    rintro other flight hfound rfl
    rw [hflight] at hfound
    cases hfound
  refine { hinv with
    identities := fun name other ↦ ?_
    turns := fun name other ↦ ?_
    stores := fun name store hfound ↦ ?_
    runs := fun other owner hrun ↦ ?_
    terminals := fun entry hentry ↦ ?_ }
  · simp only [SidecarState.register, Dictionary.get?_insert]
    by_cases hthread : other = thread
    · subst hthread
      rw [Function.update_self]
      constructor
      · intro hfound
        split at hfound
        · next hsame => exact ⟨_, rfl, hsame.symm⟩
        · obtain ⟨flight, hflown, -⟩ := (hinv.identities name other).1 hfound
          exact absurd rfl (hother other flight hflown)
      · rintro ⟨flight, hflown, rfl⟩
        cases hflown
        rw [if_pos rfl]
    · rw [Function.update_of_ne hthread, ← hinv.identities name other]
      split
      · next hsame =>
        subst hsame
        rw [hkey]
        exact ⟨fun hsome ↦ absurd (Option.some.inj hsome).symm hthread, fun hnone ↦ by cases hnone⟩
      · exact Iff.rfl
  · simp only [SidecarState.register]
    by_cases hthread : other = thread
    · subst hthread
      rw [Function.update_self]
      constructor
      · intro hfound
        cases turn with
        | none =>
          obtain ⟨flight, hflown, -⟩ := (hinv.turns name other).1 hfound
          exact absurd rfl (hother other flight hflown)
        | some taken =>
          simp only [Dictionary.get?_insert] at hfound
          split at hfound
          · next hsame => exact ⟨_, rfl, by rw [hsame]⟩
          · obtain ⟨flight, hflown, -⟩ := (hinv.turns name other).1 hfound
            exact absurd rfl (hother other flight hflown)
      · rintro ⟨flight, hflown, hname⟩
        cases hflown
        obtain rfl : turn = some name := hname
        simp
    · rw [Function.update_of_ne hthread, ← hinv.turns name other]
      cases turn with
      | none => exact Iff.rfl
      | some taken =>
        simp only [Dictionary.get?_insert]
        split
        · next hsame =>
          subst hsame
          rw [hturn name rfl]
          exact ⟨fun hsome ↦ absurd (Option.some.inj hsome).symm hthread, fun hnone ↦ by cases hnone⟩
        · exact Iff.rfl
  · obtain ⟨hmade, hscope, other, flight, hflown, hname⟩ := hinv.stores name store hfound
    exact ⟨hmade, hscope, other, flight,
      (Function.update_of_ne (hother other flight hflown) _ _).trans hflown, hname⟩
  · obtain ⟨flight, hflown, hturn, howner⟩ := hinv.runs other owner hrun
    exact ⟨flight, (Function.update_of_ne (hother other flight hflown) _ _).trans hflown, hturn,
      howner⟩
  · obtain ⟨name, hasked, hcredential⟩ := hinv.terminals entry hentry
    have hne : entry.1 ≠ thread := by
      intro hsame
      rw [hsame, hrequest] at hasked
      cases hasked
    exact ⟨name, (Function.update_of_ne hne _ _).trans hasked, hcredential⟩

theorem rely_register (before : SidecarState C) (turn : Option Key) (key : Key) (generation : ℕ)
    {other : ℕ} (hother : other ≠ thread) :
    AccountingRely other before (before.register thread turn key generation) :=
  ⟨Function.update_of_ne hother _ _, Function.update_of_ne hother _ _, .rfl, fun _ ↦ id, le_rfl,
    fun _ _ ↦ rfl, fun _ ↦ id⟩

/-- What `run` and `refreshModels` do to the maps in their clean-up. Assumes: the flight of the
program, which has no run. -/
theorem accounting_forget (hinv : AccountingInv before) {turn : Option Key} {key : Key}
    (hflight : before.flights thread = some ⟨turn, key⟩)
    (hrun : thread ∉ before.runs.map Prod.fst) :
    AccountingInv (before.forget thread turn key) := by
  have hkey : ∀ other flight, before.flights other = some flight → flight.key = key →
      other = thread := by
    intro other flight hflown hname
    have hother := (hinv.identities key other).2 ⟨flight, hflown, hname⟩
    have hthread := (hinv.identities key thread).2 ⟨_, hflight, rfl⟩
    exact Option.some.inj (hother.symm.trans hthread)
  refine { hinv with
    identities := fun name other ↦ ?_
    turns := fun name other ↦ ?_
    stores := fun name store hfound ↦ ?_
    runs := fun other owner hmem ↦ ?_ }
  · simp only [SidecarState.forget, Dictionary.get?_erase]
    by_cases hthread : other = thread
    · subst hthread
      rw [Function.update_self]
      constructor
      · intro hfound
        split at hfound
        · cases hfound
        · next hne =>
          obtain ⟨flight, hflown, hname⟩ := (hinv.identities name other).1 hfound
          rw [hflight] at hflown
          cases hflown
          exact absurd hname.symm hne
      · rintro ⟨flight, hflown, -⟩
        cases hflown
    · rw [Function.update_of_ne hthread, ← hinv.identities name other]
      split
      · next hsame =>
        subst hsame
        refine ⟨fun hnone ↦ (by cases hnone), fun hfound ↦ ?_⟩
        obtain ⟨flight, hflown, hname⟩ := (hinv.identities name other).1 hfound
        exact absurd (hkey other flight hflown hname) hthread
      · exact Iff.rfl
  · simp only [SidecarState.forget]
    by_cases hthread : other = thread
    · subst hthread
      rw [Function.update_self]
      constructor
      · intro hfound
        cases turn with
        | none =>
          obtain ⟨flight, hflown, hname⟩ := (hinv.turns name other).1 hfound
          rw [hflight] at hflown
          cases hflown
          cases hname
        | some taken =>
          simp only [Dictionary.get?_erase] at hfound
          split at hfound
          · cases hfound
          · next hne =>
            obtain ⟨flight, hflown, hname⟩ := (hinv.turns name other).1 hfound
            rw [hflight] at hflown
            cases hflown
            exact absurd (Option.some.inj hname).symm hne
      · rintro ⟨flight, hflown, -⟩
        cases hflown
    · rw [Function.update_of_ne hthread, ← hinv.turns name other]
      cases turn with
      | none => exact Iff.rfl
      | some taken =>
        simp only [Dictionary.get?_erase]
        split
        · next hsame =>
          subst hsame
          refine ⟨fun hnone ↦ (by cases hnone), fun hfound ↦ ?_⟩
          have hown := (hinv.turns name thread).2 ⟨_, hflight, rfl⟩
          rw [hown] at hfound
          exact absurd (Option.some.inj hfound).symm hthread
        · exact Iff.rfl
  · simp only [SidecarState.forget, Dictionary.get?_erase] at hfound
    split at hfound
    · cases hfound
    · next hne =>
      obtain ⟨hmade, hscope, other, flight, hflown, hname⟩ := hinv.stores name store hfound
      have hthread : other ≠ thread := by
        rintro rfl
        rw [hflight] at hflown
        cases hflown
        exact hne hname.symm
      exact ⟨hmade, hscope, other, flight, (Function.update_of_ne hthread _ _).trans hflown, hname⟩
  · have hthread : other ≠ thread := by
      rintro rfl
      exact hrun (List.mem_map_of_mem hmem)
    obtain ⟨flight, hflown, hturn, howner⟩ := hinv.runs other owner hmem
    exact ⟨flight, (Function.update_of_ne hthread _ _).trans hflown, hturn, howner⟩

theorem rely_forget (before : SidecarState C) (turn : Option Key) (key : Key) {other : ℕ}
    (hother : other ≠ thread) : AccountingRely other before (before.forget thread turn key) :=
  ⟨Function.update_of_ne hother _ _, rfl, .rfl, fun _ ↦ id, le_rfl, fun _ _ ↦ rfl, fun _ ↦ id⟩

/-! ### The counts -/

theorem ownRuns_cons (thread : ℕ) (owner : String) (runs : List (ℕ × String)) (other : String) :
    ownRuns ((thread, owner) :: runs) other =
      if owner = other then ownRuns runs other + 1 else ownRuns runs other := by
  unfold ownRuns
  rw [List.filter_cons]
  split
  · next hsame =>
    rw [if_pos (by simpa using hsame), List.length_cons]
  · next hne =>
    rw [if_neg (by simpa using hne)]

theorem ownRuns_erase {thread : ℕ} {owner : String} {runs : List (ℕ × String)}
    (hmem : (thread, owner) ∈ runs) (other : String) :
    ownRuns runs other = if owner = other then ownRuns (runs.erase (thread, owner)) other + 1
      else ownRuns (runs.erase (thread, owner)) other := by
  have hperm := List.perm_cons_erase hmem
  have hlength : ownRuns runs other = ownRuns ((thread, owner) :: runs.erase (thread, owner)) other :=
    (hperm.filter _).length_eq
  rw [hlength, ownRuns_cons]

theorem owners_getD (hinv : AccountingInv before) (owner : String) :
    (before.owners.get? owner).getD 0 = ownRuns before.runs owner := by
  rw [hinv.owners owner]
  split
  · next hnone => exact hnone.symm
  · rfl

/-- The admission to the runner. Assumes: the program has a flight of a run, and no run. -/
theorem accounting_enter (settings : Settings) (hinv : AccountingInv before)
    (hrun : thread ∉ before.runs.map Prod.fst) {turn key : Key}
    (hflight : before.flights thread = some ⟨some turn, key⟩) {owner : String}
    (howner : key.1 = owner) (limits : Limits) :
    AccountingInv (before.enter settings thread owner limits).2 ∧
      (∀ other, other ≠ thread →
        AccountingRely other before (before.enter settings thread owner limits).2) ∧
      ((before.enter settings thread owner limits).2 = before ∧
          (∃ thrown, (before.enter settings thread owner limits).1 = .error thrown) ∨
        (before.enter settings thread owner limits).1 = .ok () ∧ (thread, owner) ∈ (before.enter settings thread owner limits).2.runs ∧
          (before.enter settings thread owner limits).2.flights = before.flights ∧
          (before.enter settings thread owner limits).2.requests = before.requests) := by
  unfold SidecarState.enter
  simp only
  split
  · exact ⟨hinv, fun other _ ↦ .refl other before, .inl ⟨rfl, _, rfl⟩⟩
  split
  · exact ⟨hinv, fun other _ ↦ .refl other before, .inl ⟨rfl, _, rfl⟩⟩
  next htotal hown =>
  have hcount := owners_getD hinv owner
  refine ⟨{ hinv with
    active := by simp [hinv.active]
    owners := fun other ↦ ?_
    single := by simpa using ⟨by simpa using hrun, hinv.single⟩
    runs := fun other name hmem ↦ ?_
    admissions := fun admission hmem ↦ ?_ },
    fun other hother ↦ ⟨rfl, rfl, ?_, fun name hmem ↦ List.mem_cons_of_mem _ hmem, le_rfl,
      fun _ _ ↦ rfl, fun _ ↦ id⟩, .inr ⟨rfl, List.mem_cons_self, rfl, rfl⟩⟩
  · rw [Dictionary.get?_insert, ownRuns_cons, hcount]
    by_cases hsame : other = owner
    · subst hsame
      simp
    · rw [if_neg hsame, if_neg (Ne.symm hsame)]
      exact hinv.owners other
  · rcases List.mem_cons.1 hmem with hnew | hold
    · cases hnew
      exact ⟨_, hflight, rfl, howner⟩
    · exact hinv.runs other name hold
  · rcases List.mem_cons.1 hmem with rfl | hold
    · exact ⟨Nat.lt_of_not_le htotal, Nat.lt_of_not_le hown⟩
    · exact hinv.admissions admission hold
  · simp [hother]

theorem accounting_leave (hinv : AccountingInv before) {owner : String}
    (hrun : (thread, owner) ∈ before.runs) :
    AccountingInv (before.leave thread owner) ∧
      (∀ other, other ≠ thread → AccountingRely other before (before.leave thread owner)) ∧
      thread ∉ (before.leave thread owner).runs.map Prod.fst := by
  have hperm := List.perm_cons_erase hrun
  have hnodup : (((thread, owner) :: before.runs.erase (thread, owner)).map Prod.fst).Nodup :=
    (hperm.map Prod.fst).nodup_iff.1 hinv.single
  rw [List.map_cons, List.nodup_cons] at hnodup
  have hcount := owners_getD hinv owner
  have herase := ownRuns_erase hrun
  refine ⟨{ hinv with
    active := ?_
    owners := fun other ↦ ?_
    single := hnodup.2
    runs := fun other name hmem ↦ hinv.runs other name (List.mem_of_mem_erase hmem) }, fun other hother ↦ ⟨rfl, rfl, ?_, fun name hmem ↦ ?_, le_rfl,
      fun _ _ ↦ rfl, fun _ ↦ id⟩, hnodup.1⟩
  · simp only [SidecarState.leave]
    rw [List.length_erase_of_mem hrun, hinv.active]
  · simp only [SidecarState.leave]
    rw [hcount]
    have hown := herase owner
    rw [if_pos rfl] at hown
    rw [hown, Nat.add_sub_cancel]
    by_cases hsame : other = owner
    · subst hsame
      split
      · next hzero =>
        rw [Dictionary.get?_erase, if_pos rfl]
        exact (if_pos hzero).symm
      · next hsome =>
        rw [Dictionary.get?_insert, if_pos rfl]
        exact (if_neg hsome).symm
    · have hrest := herase other
      rw [if_neg (Ne.symm hsame)] at hrest
      have hold := hinv.owners other
      rw [hrest] at hold
      split
      · rw [Dictionary.get?_erase, if_neg hsame]
        exact hold
      · rw [Dictionary.get?_insert, if_neg hsame]
        exact hold
  · simp only [SidecarState.leave]
    have hmem := (hperm.map Prod.fst).mem_iff (a := other)
    rw [hmem, List.map_cons, List.mem_cons]
    exact ⟨.inr, fun hor ↦ hor.resolve_left hother⟩
  · simp only [SidecarState.leave]
    refine (List.mem_erase_of_ne ?_).2 hmem
    intro hsame
    exact hother (congrArg Prod.fst hsame)

end Schemii.Sidecar
