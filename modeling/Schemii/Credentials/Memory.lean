import Schemii.Credentials.Fencing
import Schemii.Foundations.Dictionary

/-!
# The credential store in memory

`MemoryAiCredentialStore`. Every operation runs under one lock, so a run is a sequence of operations,
each with the readings of the clock it makes. The field `history` records what happened to the
credentials of each owner and is read by nothing.

* `MemoryStep`: one operation.
* `memory_runs`: the records of an owner are what the noted events make of nothing.
-/

set_option autoImplicit false

namespace Schemii.Credentials

open Schemii.Foundations

variable {E : Encryption}

/-- What the operations of a store raise: a `ValueError`, an exception of the cipher,
`MetadataStorageUnavailableError`, another exception of the class `Exception`, or one that is not. -/
inductive StoreError
  | value (message : String)
  | cipher
  | unavailable (message : String)
  | failure
  | interruption
  deriving DecidableEq, Repr

/-- The settings of a store. -/
structure StoreSettings where
  maximumRecords : ℕ
  expiration : Expiration

/-- What a store tells of a record. -/
structure Metadata where
  credentialId : String
  providerId : Provider
  generation : ℕ
  connected : Bool
  deriving DecidableEq, Repr

/-- `_metadata`. -/
def Row.metadata (row : Row E) (id : String) : Metadata :=
  ⟨id, row.provider, row.generation, row.ciphertext.isSome⟩

/-- The provider of a name. -/
def Provider.ofName : String → Option Provider
  | "openai" => some .openai
  | "openai-codex" => some .openaiCodex
  | _ => none

/-- `_validate` without a provider. -/
def validate (owner id : String) : Except StoreError Unit :=
  if owner = "" ∨ owner.toList.contains '\x00' then
    .error (.value "A valid credential owner is required")
  else if id = "" ∨ 128 < id.length ∨ id.toList.contains '\x00' then
    .error (.value "Credential ID must contain 1 to 128 characters")
  else .ok ()

/-- `_validate` with a provider. -/
def validateProvider (owner id providerId : String) : Except StoreError Provider :=
  match validate owner id, Provider.ofName providerId with
  | .error error, _ => .error error
  | .ok (), none => .error (.value "Unsupported AI credential provider")
  | .ok (), some provider => .ok provider

/-- `_encrypt`. -/
def sealCredential (nonce : ℕ) (owner id : String) (provider : Provider) (credential : E.Credential) :
    Except StoreError E.Encrypted :=
  match E.encrypt nonce owner id provider credential with
  | .error message => .error (.value message)
  | .ok sealed => .ok sealed

/-- `_decrypt`. -/
def openCredential (owner id : String) (row : Row E) (sealed : E.Encrypted) :
    Except StoreError (Metadata × E.Credential) :=
  match E.decrypt owner id row.provider sealed with
  | none => .error .cipher
  | some credential => .ok (row.metadata id, credential)

/-! ### The operations -/

/-- The state of the store. -/
structure MemoryStore (E : Encryption) where
  rows : Dictionary (String × String) (Row E)
  activity : Dictionary String ℕ
  expired : List String
  history : String → List (Event E)

/-- A new store. -/
def MemoryStore.new : MemoryStore E := ⟨Dictionary.empty, Dictionary.empty, [], fun _ ↦ []⟩

namespace MemoryStore

/-- The store after an event of an owner was noted. -/
def note (store : MemoryStore E) (owner : String) (event : Event E) : MemoryStore E :=
  { store with history := Function.update store.history owner (store.history owner ++ [event]) }

/-- The store after a record was written. -/
def write (store : MemoryStore E) (owner id : String) (row : Row E) : MemoryStore E :=
  { store with rows := store.rows.insert (owner, id) row }

/-- The activity of an owner that `_expire_owner` finds. -/
def inactive (settings : StoreSettings) (store : MemoryStore E) (owner : String) (now : ℕ) : Bool :=
  settings.expiration.enabled &&
    match store.activity.get? owner with
    | none => true
    | some last => decide (last + settings.expiration.inactivity ≤ now)

/-- `_expire_owner`. -/
def expireOwner (settings : StoreSettings) (store : MemoryStore E) (owner : String) (now : ℕ) :
    Bool × MemoryStore E :=
  if store.inactive settings owner now && !store.expired.contains owner then
    (true, note
      { store with
        rows := store.rows.mapValues fun key row ↦ if key.1 = owner then row.cleared else row
        expired := owner :: store.expired } owner (.expired now))
  else (store.inactive settings owner now, store)

/-- `touch_activity`, with the two readings of the clock. -/
def touchActivity (settings : StoreSettings) (store : MemoryStore E) (owner : String)
    (now later : ℕ) : MemoryStore E :=
  let checked := (store.expireOwner settings owner now).2
  note
    { checked with
      activity := checked.activity.insert owner later
      expired := checked.expired.filter fun other ↦ decide (other ≠ owner) } owner (.touched later)

/-- The owners that `expire_inactive` looks at. -/
def owners (store : MemoryStore E) : List String :=
  (store.activity.keys ++ store.rows.keys.map Prod.fst).dedup

/-- The number of records with a credential. -/
def connected (store : MemoryStore E) : ℕ :=
  (store.rows.values.filter fun row ↦ row.ciphertext.isSome).length

/-- `expire_inactive`, with the readings of the clock for each owner. -/
def expireInactive (settings : StoreSettings) (store : MemoryStore E) (now : String → ℕ) :
    ℤ × MemoryStore E :=
  let after := store.owners.foldl
    (fun current owner ↦ (current.expireOwner settings owner (now owner)).2) store
  ((store.connected : ℤ) - after.connected, after)

/-- `begin_login`, with the two readings of the clock. -/
def beginLogin (settings : StoreSettings) (store : MemoryStore E) (owner id providerId : String)
    (now later : ℕ) : Except StoreError Metadata × MemoryStore E :=
  match validateProvider owner id providerId with
  | .error error => (.error error, store)
  | .ok provider =>
    let touched := store.touchActivity settings owner now later
    match touched.rows.get? (owner, id) with
    | none =>
      if settings.maximumRecords ≤ (touched.rows.keys.filter fun key ↦ decide (key.1 = owner)).length
      then (.error (.value "Maximum AI credential records reached"), touched)
      else
        let row : Row E := Row.first provider
        (.ok (row.metadata id), (touched.write owner id row).note owner (.begun id provider false))
    | some previous =>
      let row := previous.relogin provider
      (.ok (row.metadata id), (touched.write owner id row).note owner
        (.begun id provider (decide (previous.provider ≠ provider))))

/-- `save`. -/
def save (settings : StoreSettings) (store : MemoryStore E) (owner id providerId : String)
    (credential : E.Credential) (nonce expectedGeneration : ℕ) (advanceGeneration : Bool) (now : ℕ) :
    Except StoreError Bool × MemoryStore E :=
  match validateProvider owner id providerId with
  | .error error => (.error error, store)
  | .ok provider =>
    match sealCredential nonce owner id provider credential with
    | .error error => (.error error, store)
    | .ok sealed =>
      let checked := store.expireOwner settings owner now
      if checked.1 then (.ok false, checked.2)
      else
        match checked.2.rows.get? (owner, id) with
        | none => (.ok false, checked.2)
        | some row =>
          if row.generation ≠ expectedGeneration ∨ row.provider ≠ provider then
            (.ok false, checked.2)
          else
            (.ok true, (checked.2.write owner id (row.saved sealed advanceGeneration)).note owner
              (.saved id provider credential expectedGeneration advanceGeneration now))

/-- `get`. -/
def get (settings : StoreSettings) (store : MemoryStore E) (owner id : String) (now : ℕ) :
    Except StoreError (Option (Metadata × E.Credential)) × MemoryStore E :=
  match validate owner id with
  | .error error => (.error error, store)
  | .ok () =>
    let checked := (store.expireOwner settings owner now).2
    match checked.rows.get? (owner, id) with
    | none => (.ok none, checked)
    | some row =>
      match row.ciphertext with
      | none => (.ok none, checked)
      | some sealed =>
        match openCredential owner id row sealed with
        | .error error => (.error error, checked)
        | .ok answer => (.ok (some answer), checked.note owner (.got id answer.2))

/-- `list`. -/
def list (settings : StoreSettings) (store : MemoryStore E) (owner : String) (now : ℕ) :
    List Metadata × MemoryStore E :=
  let checked := (store.expireOwner settings owner now).2
  let found := checked.rows.entries.filter fun entry ↦
    decide (entry.1.1 = owner) && entry.2.ciphertext.isSome
  ((found.mergeSort fun first second ↦ decide (first.1.2 ≤ second.1.2)).map
    fun entry ↦ entry.2.metadata entry.1.2, checked)

/-- `delete`. -/
def delete (store : MemoryStore E) (owner id : String) : Except StoreError Unit × MemoryStore E :=
  match validate owner id with
  | .error error => (.error error, store)
  | .ok () =>
    match store.rows.get? (owner, id) with
    | none => (.ok (), store)
    | some row => (.ok (), (store.write owner id row.cleared).note owner (.deleted id))

/-- `fence_login`. -/
def fenceLogin (store : MemoryStore E) (owner id : String) (expectedGeneration : ℕ) :
    Except StoreError Bool × MemoryStore E :=
  match validate owner id with
  | .error error => (.error error, store)
  | .ok () =>
    match store.rows.get? (owner, id) with
    | none => (.ok false, store)
    | some row =>
      if row.generation ≠ expectedGeneration then (.ok false, store)
      else (.ok true, (store.write owner id { row with generation := row.generation + 1 }).note owner
        (.fenced id expectedGeneration))

end MemoryStore

/-- One operation of the store, between two readings of the clock. -/
inductive MemoryStep (settings : StoreSettings) : MemoryStore E × ℕ → MemoryStore E × ℕ → Prop
  | touchActivity {store : MemoryStore E} {clock now later : ℕ} (owner : String)
      (hnow : clock ≤ now) (hlater : now ≤ later) :
      MemoryStep settings (store, clock) (store.touchActivity settings owner now later, later)
  | expireInactive {store : MemoryStore E} {clock final : ℕ} (now : String → ℕ)
      (hnow : ∀ owner, clock ≤ now owner ∧ now owner ≤ final) :
      MemoryStep settings (store, clock) ((store.expireInactive settings now).2, final)
  | beginLogin {store : MemoryStore E} {clock now later : ℕ} (owner id providerId : String)
      (hnow : clock ≤ now) (hlater : now ≤ later) :
      MemoryStep settings (store, clock)
        ((store.beginLogin settings owner id providerId now later).2, later)
  | save {store : MemoryStore E} {clock now : ℕ} (owner id providerId : String)
      (credential : E.Credential) (nonce expectedGeneration : ℕ) (advanceGeneration : Bool)
      (hnow : clock ≤ now) :
      MemoryStep settings (store, clock) ((store.save settings owner id providerId credential nonce
        expectedGeneration advanceGeneration now).2, now)
  | get {store : MemoryStore E} {clock now : ℕ} (owner id : String) (hnow : clock ≤ now) :
      MemoryStep settings (store, clock) ((store.get settings owner id now).2, now)
  | list {store : MemoryStore E} {clock now : ℕ} (owner : String) (hnow : clock ≤ now) :
      MemoryStep settings (store, clock) ((store.list settings owner now).2, now)
  | delete {store : MemoryStore E} {clock : ℕ} (owner id : String) :
      MemoryStep settings (store, clock) ((store.delete owner id).2, clock)
  | fenceLogin {store : MemoryStore E} {clock : ℕ} (owner id : String) (expectedGeneration : ℕ) :
      MemoryStep settings (store, clock) ((store.fenceLogin owner id expectedGeneration).2, clock)

/-! ### The credentials of one owner -/

/-- The credentials of an owner in the store. -/
def MemoryStore.ownerState (store : MemoryStore E) (owner : String) : OwnerState E :=
  ⟨fun id ↦ store.rows.get? (owner, id), store.activity.get? owner, store.expired.contains owner⟩

section Owners

variable {settings : StoreSettings} {store : MemoryStore E}

/-- The store after an operation, as the events of each owner tell it. -/
def Extends (settings : StoreSettings) (clock final : ℕ) (before after : MemoryStore E) : Prop :=
  ∀ owner, ∃ events, after.history owner = before.history owner ++ events ∧
    ∀ latest, latest ≤ clock → ∃ last, last ≤ final ∧
      Runs settings.expiration owner (before.ownerState owner) latest events
        (after.ownerState owner) last

variable {clock final : ℕ}

theorem Extends.refl (settings : StoreSettings) (store : MemoryStore E)
    (hle : clock ≤ final) : Extends settings clock final store store :=
  fun _ ↦ ⟨[], (List.append_nil _).symm, fun latest hlatest ↦ ⟨latest, hlatest.trans hle, .nil⟩⟩

theorem Extends.trans {clock middle final : ℕ} {first second third : MemoryStore E}
    (h : Extends settings clock middle first second)
    (hnext : Extends settings middle final second third) :
    Extends settings clock final first third := by
  intro owner
  obtain ⟨events, hevents, hruns⟩ := h owner
  obtain ⟨more, hmore, hrunsMore⟩ := hnext owner
  refine ⟨events ++ more, by rw [hmore, hevents, List.append_assoc], fun latest hlatest ↦ ?_⟩
  obtain ⟨last, hlast, hfirst⟩ := hruns latest hlatest
  obtain ⟨final, hfinal, hsecond⟩ := hrunsMore last hlast
  exact ⟨final, hfinal, hfirst.append hsecond⟩

/-- One event of one owner. Assumes: the others are as they were, the event was noted, and it is what
happened. -/
theorem Extends.event {before after : MemoryStore E} {owner : String}
    {event : Event E} (hhistory : after.history =
      Function.update before.history owner (before.history owner ++ [event]))
    (hothers : ∀ other, other ≠ owner → after.ownerState other = before.ownerState other)
    (hle : clock ≤ final)
    (hstep : ∀ latest, latest ≤ clock → ∃ last, last ≤ final ∧
      Step settings.expiration owner (before.ownerState owner) latest event
        (after.ownerState owner) last) :
    Extends settings clock final before after := by
  intro other
  by_cases hsame : other = owner
  · subst hsame
    refine ⟨[event], by rw [hhistory, Function.update_self], fun latest hlatest ↦ ?_⟩
    obtain ⟨last, hlast, hstepped⟩ := hstep latest hlatest
    exact ⟨last, hlast, .snoc .nil hstepped⟩
  · refine ⟨[], ?_, fun latest hlatest ↦ ⟨latest, hlatest.trans hle, ?_⟩⟩
    · rw [hhistory, Function.update_of_ne hsame, List.append_nil]
    · rw [hothers other hsame]
      exact .nil

@[simp]
theorem ownerState_note (store : MemoryStore E) (owner : String) (event : Event E) (other : String) :
    (store.note owner event).ownerState other = store.ownerState other := rfl

theorem ownerState_write (store : MemoryStore E) (owner id : String) (row : Row E) :
    (store.write owner id row).ownerState owner = (store.ownerState owner).put id row := by
  have hrows : (fun other ↦ (store.rows.insert (owner, id) row).get? (owner, other)) =
      Function.update (fun other ↦ store.rows.get? (owner, other)) id (some row) := by
    funext other
    rw [Dictionary.get?_insert]
    by_cases hsame : other = id
    · subst hsame
      simp
    · simp [hsame]
  rw [MemoryStore.ownerState, MemoryStore.write]
  simp only
  rw [hrows]
  rfl

theorem ownerState_write_of_ne (store : MemoryStore E) {owner other : String} (hne : other ≠ owner)
    (id : String) (row : Row E) :
    (store.write owner id row).ownerState other = store.ownerState other := by
  have hrows : ∀ name, (store.rows.insert (owner, id) row).get? (other, name) =
      store.rows.get? (other, name) := by
    intro name
    rw [Dictionary.get?_insert, if_neg (fun heq ↦ hne (congrArg Prod.fst heq))]
  simp [MemoryStore.ownerState, MemoryStore.write, hrows]

/-- Writing a record and noting the event. Assumes: the event is what happened to the record. -/
theorem extends_write {owner id : String} {row : Row E} {event : Event E} (hle : clock ≤ final)
    (hstep : ∀ latest, latest ≤ clock → ∃ last, last ≤ final ∧
      Step settings.expiration owner (store.ownerState owner) latest event
        ((store.ownerState owner).put id row) last) :
    Extends settings clock final store ((store.write owner id row).note owner event) := by
  refine Extends.event rfl (fun other hother ↦ ?_) hle (fun latest hlatest ↦ ?_)
  · rw [ownerState_note, ownerState_write_of_ne store hother]
  · rw [ownerState_note, ownerState_write]
    exact hstep latest hlatest

/-- The activity that `_expire_owner` finds is that of the owner. -/
theorem inactive_eq (settings : StoreSettings) (store : MemoryStore E) (owner : String) (now : ℕ) :
    store.inactive settings owner now = (store.ownerState owner).inactive settings.expiration now :=
  rfl

/-- `_expire_owner` tells whether the owner is inactive. -/
theorem expireOwner_fst (settings : StoreSettings) (store : MemoryStore E) (owner : String)
    (now : ℕ) :
    (store.expireOwner settings owner now).1 = store.inactive settings owner now := by
  unfold MemoryStore.expireOwner
  split
  · next hexpires =>
    simp only [Bool.and_eq_true] at hexpires
    exact hexpires.1.symm
  · rfl

/-- `_expire_owner` changes nothing of another owner. -/
theorem expireOwner_of_ne (settings : StoreSettings) (store : MemoryStore E) {owner other : String}
    (hother : other ≠ owner) (now : ℕ) :
    (store.expireOwner settings owner now).2.ownerState other = store.ownerState other ∧
      (store.expireOwner settings owner now).2.history other = store.history other := by
  unfold MemoryStore.expireOwner
  split
  swap
  · exact ⟨rfl, rfl⟩
  have hrows : ∀ name, ((store.rows.mapValues fun key row ↦ if key.1 = owner then row.cleared
      else row).get? (other, name)) = store.rows.get? (other, name) := by
    intro name
    rw [Dictionary.get?_mapValues]
    simp [hother]
  have hflag : (owner :: store.expired).contains other = store.expired.contains other := by
    simp [hother]
  refine ⟨?_, Function.update_of_ne hother _ _⟩
  rw [ownerState_note]
  simp only [MemoryStore.ownerState, hrows, hflag]

/-- `_expire_owner` for its owner. -/
theorem expireOwner_runs (settings : StoreSettings) (store : MemoryStore E) (owner : String)
    (now : ℕ) :
    ∃ events, (store.expireOwner settings owner now).2.history owner =
        store.history owner ++ events ∧
      ∀ latest, latest ≤ now → ∃ last, last ≤ now ∧
        Runs settings.expiration owner (store.ownerState owner) latest events
          ((store.expireOwner settings owner now).2.ownerState owner) last := by
  unfold MemoryStore.expireOwner
  split
  swap
  · exact ⟨[], (List.append_nil _).symm, fun latest hlatest ↦ ⟨latest, hlatest, .nil⟩⟩
  next hexpires =>
  simp only [Bool.and_eq_true, Bool.not_eq_true'] at hexpires
  refine ⟨[.expired now], Function.update_self _ _ _, fun latest hlatest ↦ ⟨now, le_rfl, ?_⟩⟩
  have hafter : MemoryStore.ownerState (MemoryStore.note
      { store with
        rows := store.rows.mapValues fun key row ↦ if key.1 = owner then row.cleared else row
        expired := owner :: store.expired } owner (.expired now)) owner =
      (store.ownerState owner).expire := by
    have hrows : ∀ name, ((store.rows.mapValues fun key row ↦ if key.1 = owner then row.cleared
        else row).get? (owner, name)) = (store.rows.get? (owner, name)).map Row.cleared := by
      intro name
      rw [Dictionary.get?_mapValues]
      simp
    have hflag : (owner :: store.expired).contains owner = true := by simp
    rw [ownerState_note]
    simp only [MemoryStore.ownerState, OwnerState.expire, hrows, hflag]
  rw [hafter]
  exact .snoc .nil (.expired hlatest (inactive_eq settings store owner now ▸ hexpires.1) hexpires.2)

/-- `_expire_owner`. -/
theorem extends_expireOwner (settings : StoreSettings) (store : MemoryStore E) (owner : String)
    {clock now : ℕ} (hnow : clock ≤ now) :
    Extends settings clock now store (store.expireOwner settings owner now).2 := by
  intro other
  by_cases hsame : other = owner
  · subst hsame
    obtain ⟨events, hevents, hruns⟩ := expireOwner_runs settings store other now
    exact ⟨events, hevents, fun latest hlatest ↦ hruns latest (hlatest.trans hnow)⟩
  · obtain ⟨hstate, hhistory⟩ := expireOwner_of_ne settings store hsame now
    refine ⟨[], by rw [hhistory, List.append_nil], fun latest hlatest ↦
      ⟨latest, hlatest.trans hnow, ?_⟩⟩
    rw [hstate]
    exact .nil

/-- `touch_activity`. -/
theorem extends_touchActivity (settings : StoreSettings) (store : MemoryStore E) (owner : String)
    {clock now later : ℕ} (hnow : clock ≤ now) (hlater : now ≤ later) :
    Extends settings clock later store (store.touchActivity settings owner now later) := by
  refine (extends_expireOwner settings store owner hnow).trans ?_
  generalize hchecked : (store.expireOwner settings owner now).2 = checked
  unfold MemoryStore.touchActivity
  simp only [hchecked]
  refine Extends.event rfl (fun other hother ↦ ?_) hlater (fun latest hlatest ↦ ⟨later, le_rfl, ?_⟩)
  · rw [ownerState_note]
    simp only [MemoryStore.ownerState, Dictionary.get?_insert, if_neg hother]
    congr 1
    rw [Bool.eq_iff_iff, List.contains_iff_mem, List.contains_iff_mem, List.mem_filter]
    simp [hother]
  · have hafter : MemoryStore.ownerState (MemoryStore.note
        { checked with
          activity := checked.activity.insert owner later
          expired := checked.expired.filter fun other ↦ decide (other ≠ owner) } owner
          (.touched later)) owner = (checked.ownerState owner).touch later := by
      have hflag : (checked.expired.filter fun other ↦ decide (other ≠ owner)).contains owner =
          false := by
        rw [Bool.eq_false_iff, ne_eq, List.contains_iff_mem, List.mem_filter]
        simp
      rw [ownerState_note]
      simp only [MemoryStore.ownerState, OwnerState.touch, Dictionary.get?_insert, if_true, hflag]
    rw [hafter]
    exact .touched (hlatest.trans hlater)

/-- The loop of `expire_inactive`, for one owner. -/
theorem expireOwners_runs (settings : StoreSettings) (owners : List String) (store : MemoryStore E)
    (now : String → ℕ) (owner : String) :
    ∃ events, (owners.foldl (fun current other ↦ (current.expireOwner settings other (now other)).2)
        store).history owner = store.history owner ++ events ∧
      ∀ latest, latest ≤ now owner → ∃ last, last ≤ now owner ∧
        Runs settings.expiration owner (store.ownerState owner) latest events
          ((owners.foldl (fun current other ↦ (current.expireOwner settings other (now other)).2)
            store).ownerState owner) last := by
  induction owners generalizing store with
  | nil => exact ⟨[], (List.append_nil _).symm, fun latest hlatest ↦ ⟨latest, hlatest, .nil⟩⟩
  | cons other rest ih =>
    rw [List.foldl_cons]
    obtain ⟨events, hevents, hruns⟩ := ih (store.expireOwner settings other (now other)).2
    by_cases hsame : owner = other
    · subst hsame
      obtain ⟨more, hmore, hfirst⟩ := expireOwner_runs settings store owner (now owner)
      refine ⟨more ++ events, by rw [hevents, hmore, List.append_assoc], fun latest hlatest ↦ ?_⟩
      obtain ⟨middle, hmiddle, hexpires⟩ := hfirst latest hlatest
      obtain ⟨last, hlast, hrest⟩ := hruns middle hmiddle
      exact ⟨last, hlast, hexpires.append hrest⟩
    · obtain ⟨hstate, hhistory⟩ := expireOwner_of_ne settings store hsame (now other)
      rw [hhistory] at hevents
      rw [hstate] at hruns
      exact ⟨events, hevents, hruns⟩

/-- `expire_inactive`. -/
theorem extends_expireInactive (settings : StoreSettings) (store : MemoryStore E)
    (now : String → ℕ) (hnow : ∀ owner, clock ≤ now owner ∧ now owner ≤ final) :
    Extends settings clock final store (store.expireInactive settings now).2 := by
  intro owner
  obtain ⟨events, hevents, hruns⟩ := expireOwners_runs settings store.owners store now owner
  refine ⟨events, hevents, fun latest hlatest ↦ ?_⟩
  obtain ⟨last, hlast, hexpires⟩ := hruns latest (hlatest.trans (hnow owner).1)
  exact ⟨last, hlast.trans (hnow owner).2, hexpires⟩

/-- `begin_login`. -/
theorem extends_beginLogin (settings : StoreSettings) (store : MemoryStore E)
    (owner id providerId : String) {clock now later : ℕ} (hnow : clock ≤ now) (hlater : now ≤ later) :
    Extends settings clock later store
      (store.beginLogin settings owner id providerId now later).2 := by
  unfold MemoryStore.beginLogin
  cases validateProvider owner id providerId with
  | error error => exact Extends.refl settings store (hnow.trans hlater)
  | ok provider =>
    simp only
    have htouched := extends_touchActivity settings store owner hnow hlater
    generalize store.touchActivity settings owner now later = touched at htouched ⊢
    cases hrow : touched.rows.get? (owner, id) with
    | none =>
      simp only
      split
      · exact htouched
      · exact htouched.trans (extends_write le_rfl fun latest hlatest ↦
          ⟨latest, hlatest, .begunFirst id provider hrow⟩)
    | some previous =>
      exact htouched.trans (extends_write le_rfl fun latest hlatest ↦
        ⟨latest, hlatest, .begun id provider hrow⟩)

/-- An owner that `_expire_owner` finds active is as it was. -/
theorem expireOwner_active {owner : String} {now : ℕ}
    (h : (store.expireOwner settings owner now).1 = false) :
    (store.expireOwner settings owner now).2 = store := by
  rw [expireOwner_fst] at h
  unfold MemoryStore.expireOwner
  simp [h]

/-- `save`. -/
theorem extends_save (settings : StoreSettings) (store : MemoryStore E)
    (owner id providerId : String) (credential : E.Credential) (nonce expectedGeneration : ℕ)
    (advanceGeneration : Bool) {clock now : ℕ} (hnow : clock ≤ now) :
    Extends settings clock now store (store.save settings owner id providerId credential nonce
      expectedGeneration advanceGeneration now).2 := by
  have hexpired := extends_expireOwner settings store owner hnow
  unfold MemoryStore.save
  cases validateProvider owner id providerId with
  | error error => exact Extends.refl settings store hnow
  | ok provider =>
    simp only
    cases hseal : sealCredential nonce owner id provider credential with
    | error error => exact Extends.refl settings store hnow
    | ok sealed =>
      simp only
      cases hinactive : (store.expireOwner settings owner now).1 with
      | true => simpa using hexpired
      | false =>
        have hsame := expireOwner_active hinactive
        rw [expireOwner_fst, inactive_eq] at hinactive
        rw [hsame] at hexpired ⊢
        simp only [Bool.false_eq_true, if_false]
        cases hrow : store.rows.get? (owner, id) with
        | none => exact hexpired
        | some row =>
          simp only
          split
          · exact hexpired
          · next hmatches =>
            obtain ⟨hgeneration, hprovider⟩ : row.generation = expectedGeneration ∧
                row.provider = provider := by simpa [not_or] using hmatches
            subst hgeneration
            have hencrypted : E.encrypt nonce owner id provider credential = .ok sealed := by
              unfold sealCredential at hseal
              split at hseal
              · cases hseal
              · next found hfound => rwa [Except.ok.inj hseal] at hfound
            exact extends_write hnow fun latest hlatest ↦ ⟨now, le_rfl,
              .saved advanceGeneration (hlatest.trans hnow) hinactive hrow hprovider hencrypted⟩

/-- `get`. -/
theorem extends_get (settings : StoreSettings) (store : MemoryStore E) (owner id : String)
    {clock now : ℕ} (hnow : clock ≤ now) :
    Extends settings clock now store (store.get settings owner id now).2 := by
  have hexpired := extends_expireOwner settings store owner hnow
  unfold MemoryStore.get
  cases validate owner id with
  | error error => exact Extends.refl settings store hnow
  | ok value =>
    simp only
    generalize (store.expireOwner settings owner now).2 = checked at hexpired ⊢
    cases hrow : checked.rows.get? (owner, id) with
    | none => exact hexpired
    | some row =>
      simp only
      cases hciphertext : row.ciphertext with
      | none => exact hexpired
      | some sealed =>
        simp only
        cases hanswer : openCredential owner id row sealed with
        | error error => exact hexpired
        | ok answer =>
          have hopened : E.decrypt owner id row.provider sealed = some answer.2 := by
            unfold openCredential at hanswer
            split at hanswer
            · cases hanswer
            · next credential hcredential =>
              rw [hcredential, ← Except.ok.inj hanswer]
          exact hexpired.trans (Extends.event rfl (fun other _ ↦ rfl) le_rfl fun latest hlatest ↦
            ⟨latest, hlatest, .got hrow hciphertext hopened⟩)

/-- `delete`. -/
theorem extends_delete (settings : StoreSettings) (store : MemoryStore E) (owner id : String)
    (clock : ℕ) : Extends settings clock clock store (store.delete owner id).2 := by
  unfold MemoryStore.delete
  cases validate owner id with
  | error error => exact Extends.refl settings store le_rfl
  | ok value =>
    simp only
    cases hrow : store.rows.get? (owner, id) with
    | none => exact Extends.refl settings store le_rfl
    | some row => exact extends_write le_rfl fun latest hlatest ↦ ⟨latest, hlatest, .deleted hrow⟩

/-- `fence_login`. -/
theorem extends_fenceLogin (settings : StoreSettings) (store : MemoryStore E) (owner id : String)
    (expectedGeneration clock : ℕ) :
    Extends settings clock clock store (store.fenceLogin owner id expectedGeneration).2 := by
  unfold MemoryStore.fenceLogin
  cases validate owner id with
  | error error => exact Extends.refl settings store le_rfl
  | ok value =>
    simp only
    cases hrow : store.rows.get? (owner, id) with
    | none => exact Extends.refl settings store le_rfl
    | some row =>
      simp only
      split
      · exact Extends.refl settings store le_rfl
      · next hgeneration =>
        obtain rfl := not_not.1 hgeneration
        exact extends_write le_rfl fun latest hlatest ↦ ⟨latest, hlatest, .fenced hrow⟩

theorem MemoryStep.extends {before after : MemoryStore E × ℕ}
    (h : MemoryStep settings before after) :
    Extends settings before.2 after.2 before.1 after.1 := by
  cases h with
  | touchActivity owner hnow hlater => exact extends_touchActivity settings _ owner hnow hlater
  | expireInactive now hnow =>
    exact extends_expireInactive settings _ now hnow
  | beginLogin owner id providerId hnow hlater =>
    exact extends_beginLogin settings _ owner id providerId hnow hlater
  | save owner id providerId credential nonce expectedGeneration advanceGeneration hnow =>
    exact extends_save settings _ owner id providerId credential nonce expectedGeneration
      advanceGeneration hnow
  | get owner id hnow => exact extends_get settings _ owner id hnow
  | list owner hnow => exact extends_expireOwner settings _ owner hnow
  | delete owner id => exact extends_delete settings _ owner id _
  | fenceLogin owner id expectedGeneration =>
    exact extends_fenceLogin settings _ owner id expectedGeneration _

/-- The records of an owner are what the noted events make of nothing. Assumes: a sequence of
operations on a new store. -/
theorem memory_runs {clock : ℕ}
    (h : Relation.ReflTransGen (MemoryStep settings) (MemoryStore.new, 0) (store, clock))
    (owner : String) :
    ∃ latest, latest ≤ clock ∧ Runs settings.expiration owner OwnerState.unknown 0
      (store.history owner) (store.ownerState owner) latest := by
  generalize hstate : (store, clock) = state at h
  induction h generalizing store clock with
  | refl =>
    cases hstate
    exact ⟨0, le_rfl, .nil⟩
  | @tail middle after _ hstep ih =>
    subst hstate
    obtain ⟨latest, hlatest, hruns⟩ := ih rfl
    obtain ⟨events, hevents, hextends⟩ := hstep.extends owner
    obtain ⟨last, hlast, hmore⟩ := hextends latest hlatest
    exact ⟨last, hlast, hevents ▸ hruns.append hmore⟩

end Owners

/-- Numbers that are kept as they are. -/
def plainEncryption : Encryption where
  Credential := ℕ
  Encrypted := ℕ
  encrypt := fun _ _ _ _ credential ↦ .ok credential
  decrypt := fun _ _ _ sealed ↦ some sealed
  decrypt_encrypt := fun _ _ _ _ _ _ hsealed ↦ congrArg some (Except.ok.inj hsealed).symm

/-- Thirty units of inactivity, and one record for each owner. -/
def sampleSettings : StoreSettings := ⟨1, ⟨true, 30⟩⟩

/-- A login, and a logout while it is under way. -/
def loggedOut : MemoryStore plainEncryption :=
  ((MemoryStore.new.beginLogin sampleSettings "owner" "codex" "openai-codex" 1 1).2.delete "owner"
    "codex").2

-- The login that was under way comes too late; one that begins later does not.
example : (loggedOut.save sampleSettings "owner" "codex" "openai-codex" (7 : ℕ) 0 1 false 2).1 =
    .ok false := rfl

example : ((loggedOut.beginLogin sampleSettings "owner" "codex" "openai-codex" 3 3).2.save
    sampleSettings "owner" "codex" "openai-codex" (7 : ℕ) 0 3 false 4).1 = .ok true := rfl

end Schemii.Credentials
