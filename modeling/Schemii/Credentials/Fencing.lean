import Mathlib.Logic.Relation
import Mathlib.Tactic

/-!
# Generations of credentials

What both credential stores are for. The credentials of one owner are records with a generation, and
what happens to them is a sequence of events. A login, a logout, a cancelled login, an expiry and a
saving that advances move the generation of a record on, so a saving that names an older generation
comes too late.

* `Step`, `Runs`: what the events do, and sequences of them. Time does not go back.
* `Fenced`: the law of such a sequence.
* `Runs.fenced`: it holds of every one.

The stores note the events they bring about; that their records are what the events make of nothing is
the business of the modules about them.
-/

set_option autoImplicit false

namespace Schemii.Credentials

/-- The providers whose credentials are kept. -/
inductive Provider
  | openai
  | openaiCodex
  deriving DecidableEq, Repr

/-- `_Encryption` with its cipher: how the credentials of a record are sealed and opened. Sealing is
randomised and refuses some credentials; opening checks the provider. -/
structure Encryption where
  Credential : Type
  Encrypted : Type
  encrypt : ℕ → String → String → Provider → Credential → Except String Encrypted
  decrypt : String → String → Provider → Encrypted → Option Credential
  decrypt_encrypt : ∀ nonce owner id provider credential sealed,
    encrypt nonce owner id provider credential = .ok sealed →
      decrypt owner id provider sealed = some credential

/-- A record of an owner. -/
structure Row (E : Encryption) where
  provider : Provider
  generation : ℕ
  ciphertext : Option E.Encrypted

/-- The expiration settings of a store. Time is counted in units of which a day has a fixed number. -/
structure Expiration where
  enabled : Bool
  inactivity : ℕ

/-- The records of an owner, the last activity, and whether the credentials are marked expired. -/
structure OwnerState (E : Encryption) where
  rows : String → Option (Row E)
  activity : Option ℕ
  expired : Bool

variable {E : Encryption}

/-- An owner that a store does not know. -/
def OwnerState.unknown : OwnerState E := ⟨fun _ ↦ none, none, false⟩

/-- Whether an owner is inactive at a moment. -/
def OwnerState.inactive (settings : Expiration) (state : OwnerState E) (now : ℕ) : Bool :=
  settings.enabled &&
    match state.activity with
    | none => true
    | some last => decide (last + settings.inactivity ≤ now)

/-- The generation of a record; a record that does not exist has none. -/
def OwnerState.generation (state : OwnerState E) (id : String) : ℕ :=
  match state.rows id with
  | none => 0
  | some row => row.generation

/-- A record without its credential, one generation on. -/
def Row.cleared (row : Row E) : Row E := { row with generation := row.generation + 1, ciphertext := none }

/-- A record after a login began. -/
def Row.relogin (row : Row E) (provider : Provider) : Row E :=
  ⟨provider, row.generation + 1, if row.provider = provider then row.ciphertext else none⟩

/-- The record of a login that is the first one. -/
def Row.first (provider : Provider) : Row E := ⟨provider, 1, none⟩

/-- A record after a credential was saved. -/
def Row.saved (row : Row E) (sealed : E.Encrypted) (advance : Bool) : Row E :=
  { row with
    generation := if advance then row.generation + 1 else row.generation
    ciphertext := some sealed }

/-- The records with one of them replaced. -/
def OwnerState.put (state : OwnerState E) (id : String) (row : Row E) : OwnerState E :=
  { state with rows := Function.update state.rows id (some row) }

/-- The owner after an expiry. -/
def OwnerState.expire (state : OwnerState E) : OwnerState E :=
  { state with rows := fun id ↦ (state.rows id).map Row.cleared, expired := true }

/-- The owner after an activity. -/
def OwnerState.touch (state : OwnerState E) (now : ℕ) : OwnerState E :=
  { state with activity := some now, expired := false }

/-- What happens to the credentials of an owner. -/
inductive Event (E : Encryption)
  | expired (now : ℕ)
  | touched (now : ℕ)
  | begun (id : String) (provider : Provider) (changed : Bool)
  | saved (id : String) (provider : Provider) (credential : E.Credential) (generation : ℕ)
      (advance : Bool) (now : ℕ)
  | fenced (id : String) (generation : ℕ)
  | deleted (id : String)
  | got (id : String) (credential : E.Credential)

/-- What an event does to the credentials of an owner, whose last event with a time was before. -/
inductive Step (settings : Expiration) (owner : String) (state : OwnerState E) (latest : ℕ) :
    Event E → OwnerState E → ℕ → Prop
  | expired {now : ℕ} (htime : latest ≤ now) (hinactive : state.inactive settings now = true)
      (hflag : state.expired = false) :
      Step settings owner state latest (.expired now) state.expire now
  | touched {now : ℕ} (htime : latest ≤ now) :
      Step settings owner state latest (.touched now) (state.touch now) now
  | begun (id : String) (provider : Provider) {row : Row E} (hrow : state.rows id = some row) :
      Step settings owner state latest (.begun id provider (decide (row.provider ≠ provider)))
        (state.put id (row.relogin provider)) latest
  | begunFirst (id : String) (provider : Provider) (hrow : state.rows id = none) :
      Step settings owner state latest (.begun id provider false)
        (state.put id (Row.first provider)) latest
  | saved {now : ℕ} {id : String} {provider : Provider} {credential : E.Credential} (advance : Bool)
      {row : Row E} {nonce : ℕ} {sealed : E.Encrypted} (htime : latest ≤ now)
      (hactive : state.inactive settings now = false) (hrow : state.rows id = some row)
      (hprovider : row.provider = provider)
      (hsealed : E.encrypt nonce owner id provider credential = .ok sealed) :
      Step settings owner state latest (.saved id provider credential row.generation advance now)
        (state.put id (row.saved sealed advance)) now
  | fenced {id : String} {row : Row E} (hrow : state.rows id = some row) :
      Step settings owner state latest (.fenced id row.generation)
        (state.put id { row with generation := row.generation + 1 }) latest
  | deleted {id : String} {row : Row E} (hrow : state.rows id = some row) :
      Step settings owner state latest (.deleted id) (state.put id row.cleared) latest
  | got {id : String} {row : Row E} {sealed : E.Encrypted} {credential : E.Credential}
      (hrow : state.rows id = some row) (hsealed : row.ciphertext = some sealed)
      (hopened : E.decrypt owner id row.provider sealed = some credential) :
      Step settings owner state latest (.got id credential) state latest

/-- What a sequence of events does. -/
inductive Runs (settings : Expiration) (owner : String) (first : OwnerState E) (start : ℕ) :
    List (Event E) → OwnerState E → ℕ → Prop
  | nil : Runs settings owner first start [] first start
  | snoc {middle last : OwnerState E} {later final : ℕ} {events : List (Event E)} {event : Event E}
      (hruns : Runs settings owner first start events middle later)
      (hstep : Step settings owner middle later event last final) :
      Runs settings owner first start (events ++ [event]) last final

/-- The events that fence a record: they move its generation on. -/
def Event.Fences (id : String) : Event E → Prop
  | .expired _ => True
  | .begun other _ _ | .fenced other _ | .deleted other => other = id
  | .saved other _ _ _ advance _ => other = id ∧ advance = true
  | .touched _ | .got _ _ => False

/-- The events that take a credential away: a logout, an expiry, and a login with another provider. -/
def Event.Clears (id : String) : Event E → Prop
  | .expired _ => True
  | .deleted other => other = id
  | .begun other _ changed => other = id ∧ changed = true
  | .touched _ | .saved _ _ _ _ _ _ | .fenced _ _ | .got _ _ => False

/-! ### Generations only grow -/

section Generations

variable {settings : Expiration} {owner : String}

theorem generation_put (state : OwnerState E) (id : String) (row : Row E) (other : String) :
    (state.put id row).generation other =
      if other = id then row.generation else state.generation other := by
  unfold OwnerState.generation OwnerState.put
  by_cases hsame : other = id
  · subst hsame
    simp
  · simp [hsame]

variable {id : String}

theorem generation_of_row {state : OwnerState E} {row : Row E}
    (h : state.rows id = some row) : state.generation id = row.generation := by
  rw [OwnerState.generation, h]

theorem generation_expire (state : OwnerState E) (id : String) :
    state.expire.generation id = if (state.rows id).isSome then state.generation id + 1 else 0 := by
  unfold OwnerState.generation OwnerState.expire
  cases hrow : state.rows id with
  | none => simp [hrow]
  | some row => simp [hrow, Row.cleared]

variable {state after : OwnerState E} {latest later : ℕ} {event : Event E}

theorem Step.keeps (h : Step settings owner state latest event after later)
    (hsome : (state.rows id).isSome) : (after.rows id).isSome := by
  have hput : ∀ other row, ((state.put other row).rows id).isSome := by
    intro other row
    by_cases hsame : id = other
    · subst hsame
      simp [OwnerState.put]
    · simpa [OwnerState.put, Function.update_of_ne hsame] using hsome
  cases h with
  | expired htime hinactive hflag => simpa [OwnerState.expire] using hsome
  | touched htime => exact hsome
  | begun other provider hrow => exact hput _ _
  | begunFirst other provider hrow => exact hput _ _
  | saved advance htime hactive hrow hprovider hsealed => exact hput _ _
  | fenced hrow => exact hput _ _
  | deleted hrow => exact hput _ _
  | got hrow hsealed hopened => exact hsome

theorem Step.generation_le (h : Step settings owner state latest event after later) (id : String) :
    state.generation id ≤ after.generation id := by
  have hput : ∀ other row new, state.rows other = some row → row.generation ≤ new.generation →
      state.generation id ≤ (state.put other new).generation id := by
    intro other row new hrow hle
    rw [generation_put]
    split
    · next hsame =>
      subst hsame
      rw [generation_of_row hrow]
      exact hle
    · exact le_rfl
  cases h with
  | expired htime hinactive hflag =>
    rw [generation_expire]
    split
    · exact Nat.le_succ _
    · next hnone =>
      simp only [Option.not_isSome_iff_eq_none] at hnone
      simp [OwnerState.generation, hnone]
  | touched htime => exact le_rfl
  | begun other provider hrow => exact hput _ _ _ hrow (Nat.le_succ _)
  | begunFirst other provider hrow =>
    rw [generation_put]
    split
    · next hsame =>
      subst hsame
      simp [OwnerState.generation, hrow]
    · exact le_rfl
  | saved advance htime hactive hrow hprovider hsealed =>
    refine hput _ _ _ hrow ?_
    cases advance with
    | false => exact le_rfl
    | true => exact Nat.le_succ _
  | fenced hrow => exact hput _ _ _ hrow (Nat.le_succ _)
  | deleted hrow => exact hput _ _ _ hrow (Nat.le_succ _)
  | got hrow hsealed hopened => exact le_rfl

/-- An event that fences a record moves its generation on. Assumes: the record exists, unless the event
is its first login. -/
theorem Step.generation_lt
    (h : Step settings owner state latest event after later) (hfences : event.Fences id)
    (hsome : (state.rows id).isSome ∨ ∃ provider changed, event = .begun id provider changed) :
    state.generation id < after.generation id := by
  have hput : ∀ row new, state.rows id = some row → row.generation < new.generation →
      state.generation id < (state.put id new).generation id := by
    intro row new hrow hlt
    rw [generation_put, if_pos rfl, generation_of_row hrow]
    exact hlt
  cases h with
  | expired htime hinactive hflag =>
    rcases hsome with hsome | ⟨provider, changed, hbegun⟩
    · rw [generation_expire, if_pos hsome]
      exact Nat.lt_succ_self _
    · cases hbegun
  | touched htime => exact hfences.elim
  | begun other provider hrow =>
    obtain rfl : other = id := hfences
    exact hput _ _ hrow (Nat.lt_succ_self _)
  | begunFirst other provider hrow =>
    obtain rfl : other = id := hfences
    rw [generation_put, if_pos rfl]
    simp [OwnerState.generation, hrow, Row.first]
  | saved advance htime hactive hrow hprovider hsealed =>
    obtain ⟨rfl, rfl⟩ := hfences
    exact hput _ _ hrow (Nat.lt_succ_self _)
  | fenced hrow =>
    obtain rfl : _ = id := hfences
    exact hput _ _ hrow (Nat.lt_succ_self _)
  | deleted hrow =>
    obtain rfl : _ = id := hfences
    exact hput _ _ hrow (Nat.lt_succ_self _)
  | got hrow hsealed hopened => exact hfences.elim

/-- A record that exists does so after a sequence of events, and its generation did not go back. -/
theorem Runs.generation_le {events : List (Event E)}
    (h : Runs settings owner state latest events after later) (id : String) :
    state.generation id ≤ after.generation id ∧
      ((state.rows id).isSome → (after.rows id).isSome) := by
  induction h with
  | nil => exact ⟨le_rfl, fun hsome ↦ hsome⟩
  | snoc hruns hstep ih => exact ⟨ih.1.trans (hstep.generation_le id), fun hsome ↦
      hstep.keeps (ih.2 hsome)⟩

/-- Assumes: a sequence of events with one that fences a record, from where the record exists or with
a login of it. The generation of the record is greater after the sequence. -/
theorem Runs.generation_lt {events : List (Event E)}
    (h : Runs settings owner state latest events after later)
    (hmem : event ∈ events) (hfences : event.Fences id)
    (hsome : (state.rows id).isSome ∨ ∃ provider changed, event = .begun id provider changed) :
    state.generation id < after.generation id := by
  induction h with
  | nil => cases hmem
  | snoc hruns hstep ih =>
    rcases List.mem_append.1 hmem with hearlier | hlast
    · exact (ih hearlier).trans_le (hstep.generation_le id)
    · rw [List.mem_singleton] at hlast
      subst hlast
      exact (hruns.generation_le id).1.trans_lt
        (hstep.generation_lt hfences (hsome.imp_left (hruns.generation_le id).2))

theorem Runs.append {first middle last : OwnerState E} {start later final : ℕ}
    {events more : List (Event E)} (h : Runs settings owner first start events middle later)
    (hmore : Runs settings owner middle later more last final) :
    Runs settings owner first start (events ++ more) last final := by
  induction hmore with
  | nil => simpa using h
  | snoc hruns hstep ih =>
    rw [← List.append_assoc]
    exact .snoc ih hstep

variable {first last : OwnerState E}

theorem Runs.cut {start final : ℕ} {past later : List (Event E)}
    (h : Runs settings owner first start (past ++ later) last final) :
    ∃ middle time, Runs settings owner first start past middle time ∧
      Runs settings owner middle time later last final := by
  induction later using List.reverseRecOn generalizing last final with
  | nil =>
    rw [List.append_nil] at h
    exact ⟨last, final, h, .nil⟩
  | append_singleton later event ih =>
    rw [← List.append_assoc] at h
    generalize hevents : past ++ later ++ [event] = events at h
    cases h with
    | nil => simp at hevents
    | snoc hruns hstep =>
      obtain ⟨rfl, hsame⟩ := List.append_inj' hevents rfl
      obtain rfl := List.singleton_injective hsame
      obtain ⟨middle, time, hpast, hlater⟩ := ih hruns
      exact ⟨middle, time, hpast, .snoc hlater hstep⟩

theorem Runs.of_nil {start final : ℕ}
    (h : Runs settings owner first start [] last final) : last = first ∧ final = start := by
  generalize hnone : ([] : List (Event E)) = events at h
  cases h with
  | nil => exact ⟨rfl, rfl⟩
  | snoc hruns hstep => simp at hnone

theorem Runs.next {start final : ℕ}
    {later : List (Event E)} (h : Runs settings owner first start (event :: later) last final) :
    ∃ middle time, Step settings owner first start event middle time ∧
      Runs settings owner middle time later last final := by
  rw [← List.singleton_append] at h
  obtain ⟨middle, time, hone, hlater⟩ := h.cut
  generalize hevents : [event] = one at hone
  cases hone with
  | nil => cases hevents
  | @snoc _ _ _ _ earlier _ hruns hstep =>
    cases earlier with
    | nil =>
      obtain rfl : event = _ := by simpa using hevents
      obtain ⟨rfl, rfl⟩ := hruns.of_nil
      exact ⟨middle, time, hstep, hlater⟩
    | cons other rest => simp at hevents

end Generations

/-! ### Where credentials come from -/

section Provenance

variable {settings : Expiration} {owner : String}

/-- A credential was stored by a saving in the past, and nothing took it away since. -/
def StoredBy (owner : String) (past : List (Event E)) (id : String) (provider : Provider)
    (sealed : E.Encrypted) : Prop :=
  ∃ before after credential generation advance now nonce,
    past = before ++ .saved id provider credential generation advance now :: after ∧
      E.encrypt nonce owner id provider credential = .ok sealed ∧
      ∀ event ∈ after, ¬ event.Clears id

/-- What holds of the credentials of an owner after the past: every credential was stored and not taken
away since, and an owner that is marked expired has none and is inactive. -/
structure Provenance (settings : Expiration) (owner : String) (past : List (Event E))
    (state : OwnerState E) (latest : ℕ) : Prop where
  stored : ∀ id row sealed, state.rows id = some row → row.ciphertext = some sealed →
    StoredBy owner past id row.provider sealed
  empty : state.expired = true → ∀ id row, state.rows id = some row → row.ciphertext = none
  inactive : state.expired = true → state.inactive settings latest = true

variable {past : List (Event E)}

theorem StoredBy.later {id : String} {provider : Provider}
    {sealed : E.Encrypted} (h : StoredBy owner past id provider sealed) {event : Event E}
    (hevent : ¬ event.Clears id) : StoredBy owner (past ++ [event]) id provider sealed := by
  obtain ⟨before, after, credential, generation, advance, now, nonce, rfl, hsealed, hafter⟩ := h
  refine ⟨before, after ++ [event], credential, generation, advance, now, nonce, by simp, hsealed,
    fun other hmem ↦ ?_⟩
  rcases List.mem_append.1 hmem with hearlier | hlast
  · exact hafter other hearlier
  · rw [List.mem_singleton] at hlast
    subst hlast
    exact hevent

variable {state : OwnerState E}

/-- Assumes: an event that leaves the activity and the flag, writes one record, and does not take the
credentials of the others away. What holds of the owner is kept when the new record is accounted for. -/
theorem Provenance.put {latest later : ℕ}
    (h : Provenance settings owner past state latest) {id : String} {row : Row E} {event : Event E}
    (hlater : state.expired = true → state.inactive settings later = true)
    (hothers : ∀ other, other ≠ id → ¬ event.Clears other)
    (hstored : ∀ sealed, row.ciphertext = some sealed →
      StoredBy owner (past ++ [event]) id row.provider sealed)
    (hempty : state.expired = true → row.ciphertext = none) :
    Provenance settings owner (past ++ [event]) (state.put id row) later := by
  have hrows : ∀ other found, (state.put id row).rows other = some found →
      (other = id ∧ found = row) ∨ (other ≠ id ∧ state.rows other = some found) := by
    intro other found hfound
    by_cases hsame : other = id
    · subst hsame
      exact .inl ⟨rfl, by simpa [OwnerState.put] using hfound.symm⟩
    · exact .inr ⟨hsame, by simpa [OwnerState.put, Function.update_of_ne hsame] using hfound⟩
  refine ⟨fun other found sealed hfound hsealed ↦ ?_, fun hflag other found hfound ↦ ?_, hlater⟩
  · rcases hrows other found hfound with ⟨rfl, rfl⟩ | ⟨hne, hold⟩
    · exact hstored sealed hsealed
    · exact (h.stored other found sealed hold hsealed).later (hothers other hne)
  · rcases hrows other found hfound with ⟨rfl, rfl⟩ | ⟨-, hold⟩
    · exact hempty hflag
    · exact h.empty hflag other found hold

theorem inactive_mono {now later : ℕ} (hle : now ≤ later)
    (h : state.inactive settings now = true) : state.inactive settings later = true := by
  unfold OwnerState.inactive at h ⊢
  cases hactivity : state.activity with
  | none => simpa [hactivity] using h
  | some last =>
    simp only [hactivity, Bool.and_eq_true, decide_eq_true_eq] at h ⊢
    exact ⟨h.1, h.2.trans hle⟩

theorem Provenance.step {state after : OwnerState E} {latest later : ℕ}
    {event : Event E} (h : Provenance settings owner past state latest)
    (hstep : Step settings owner state latest event after later) :
    Provenance settings owner (past ++ [event]) after later := by
  cases hstep with
  | expired htime hinactive hflag =>
    have hnone : ∀ id row, state.expire.rows id = some row → row.ciphertext = none := by
      intro id row hrow
      obtain ⟨old, -, rfl⟩ := Option.map_eq_some_iff.1 hrow
      rfl
    refine ⟨fun id row sealed hrow hsealed ↦ ?_, fun _ ↦ hnone, fun _ ↦ hinactive⟩
    rw [hnone id row hrow] at hsealed
    cases hsealed
  | touched htime =>
    exact ⟨fun id row sealed hrow hsealed ↦ (h.stored id row sealed hrow hsealed).later
      (fun hclears ↦ hclears), (fun hflag ↦ by cases hflag), (fun hflag ↦ by cases hflag)⟩
  | @begun id provider row hrow =>
    refine h.put h.inactive (fun other hne hclears ↦ hne hclears.1.symm)
      (fun sealed hsealed ↦ ?_) (fun hflag ↦ ?_)
    · simp only [Row.relogin] at hsealed ⊢
      split at hsealed
      · next hsame =>
        rw [← hsame]
        exact (h.stored id row sealed hrow hsealed).later fun hclears ↦ by simpa using hclears.2
      · cases hsealed
    · simp only [Row.relogin]
      split
      · exact h.empty hflag id row hrow
      · rfl
  | begunFirst id provider hrow =>
    exact h.put h.inactive (fun other hne hclears ↦ hne hclears.1.symm)
      (fun sealed hsealed ↦ by cases hsealed) (fun _ ↦ rfl)
  | @saved now id provider credential advance row nonce sealed htime hactive hrow hprovider hsealed =>
    -- An owner that is marked expired is inactive, and time does not go back.
    have hnot : state.expired = true → False := by
      intro hflag
      rw [inactive_mono htime (h.inactive hflag)] at hactive
      cases hactive
    refine h.put (fun hflag ↦ (hnot hflag).elim) (fun _ _ hclears ↦ hclears)
      (fun found hfound ↦ ?_) (fun hflag ↦ (hnot hflag).elim)
    obtain rfl : sealed = found := by simpa [Row.saved] using hfound
    subst hprovider
    exact ⟨past, [], credential, row.generation, advance, later, nonce, rfl, hsealed,
      fun event hmem ↦ by cases hmem⟩
  | @fenced id row hrow =>
    exact h.put h.inactive (fun _ _ hclears ↦ hclears)
      (fun sealed hsealed ↦ (h.stored id row sealed hrow hsealed).later fun hclears ↦ hclears)
      (fun hflag ↦ h.empty hflag id row hrow)
  | deleted hrow =>
    exact h.put h.inactive (fun other hne hclears ↦ hne hclears.symm)
      (fun sealed hsealed ↦ by cases hsealed) (fun _ ↦ rfl)
  | got hrow hsealed hopened =>
    exact ⟨fun id row sealed hrow hsealed ↦ (h.stored id row sealed hrow hsealed).later
      (fun hclears ↦ hclears), h.empty, h.inactive⟩

theorem Runs.provenance {latest : ℕ}
    (h : Runs settings owner OwnerState.unknown 0 past state latest) :
    Provenance settings owner past state latest := by
  induction h with
  | nil => exact ⟨(fun _ _ _ hrow ↦ by cases hrow), (fun hflag ↦ by cases hflag),
      (fun hflag ↦ by cases hflag)⟩
  | snoc hruns hstep ih => exact ih.step hstep

end Provenance

/-! ### The law -/

/-- What both stores guarantee of the credentials of an owner, with what happened to them. -/
structure Fenced (settings : Expiration) (owner : String) (events : List (Event E))
    (state : OwnerState E) : Prop where
  /-- Every moment of the past was a state of the credentials. -/
  moments : ∀ past later, events = past ++ later → ∃ middle time final,
    Runs settings owner OwnerState.unknown 0 past middle time ∧
      Runs settings owner middle time later state final
  /-- Generations do not go back. -/
  monotone : ∀ past later middle time final, events = past ++ later →
    Runs settings owner OwnerState.unknown 0 past middle time →
    Runs settings owner middle time later state final →
      ∀ id, middle.generation id ≤ state.generation id
  /-- Generations grow with every event that fences. -/
  grows : ∀ past later middle time final, events = past ++ later →
    Runs settings owner OwnerState.unknown 0 past middle time →
    Runs settings owner middle time later state final →
      ∀ id, ∀ event ∈ later, event.Fences id →
        ((middle.rows id).isSome ∨ ∃ provider changed, event = .begun id provider changed) →
          middle.generation id < state.generation id
  /-- A saving finds the generation it names and an active owner, and nothing has fenced the record
  since that generation was current. -/
  timely : ∀ past id provider credential generation advance now later,
    events = past ++ .saved id provider credential generation advance now :: later →
      ∃ before time, Runs settings owner OwnerState.unknown 0 past before time ∧
        (before.rows id).isSome ∧ before.generation id = generation ∧
        before.inactive settings now = false ∧
        ∀ earlier since middle start, past = earlier ++ since →
          Runs settings owner OwnerState.unknown 0 earlier middle start →
          Runs settings owner middle start since before time →
          (middle.rows id).isSome → middle.generation id = generation →
            ∀ event ∈ since, ¬ event.Fences id
  /-- A credential that was read was stored after everything that takes credentials away. -/
  provenance : ∀ past id credential later, events = past ++ .got id credential :: later →
    ∃ before after provider generation advance now,
      past = before ++ .saved id provider credential generation advance now :: after ∧
        ∀ event ∈ after, ¬ event.Clears id
  /-- An owner that is marked expired has no credential. -/
  empty : state.expired = true → ∀ id row, state.rows id = some row → row.ciphertext = none

theorem Runs.fenced {settings : Expiration} {owner : String} {events : List (Event E)}
    {state : OwnerState E} {latest : ℕ}
    (h : Runs settings owner OwnerState.unknown 0 events state latest) :
    Fenced settings owner events state where
  moments := by
    rintro past later rfl
    obtain ⟨middle, time, hpast, hlater⟩ := h.cut
    exact ⟨middle, time, latest, hpast, hlater⟩
  monotone := fun _ _ _ _ _ _ _ hlater id ↦ (hlater.generation_le id).1
  grows := fun _ _ _ _ _ _ _ hlater id event hmem hfences hsome ↦
    hlater.generation_lt hmem hfences hsome
  timely := by
    rintro past id provider credential generation advance now later rfl
    obtain ⟨before, time, hpast, hlater⟩ := h.cut
    obtain ⟨after, final, hstep, -⟩ := hlater.next
    cases hstep with
    | saved _ htime hactive hrow hprovider hsealed =>
      have hgeneration := generation_of_row hrow
      refine ⟨before, time, hpast, by simp [hrow], hgeneration, hactive, ?_⟩
      intro earlier since middle start hsplit hearlier hsince hsome hcurrent event hmem hfences
      have hlt := hsince.generation_lt hmem hfences (.inl hsome)
      omega
  provenance := by
    rintro past id credential later rfl
    obtain ⟨before, time, hpast, hlater⟩ := h.cut
    obtain ⟨after, final, hstep, -⟩ := hlater.next
    cases hstep with
    | @got _ row sealed _ hrow hsealed hopened =>
      obtain ⟨first, since, stored, generation, advance, now, nonce, hsplit, hstored, hsince⟩ :=
        hpast.provenance.stored id row sealed hrow hsealed
      have hsame : stored = credential := by
        rw [E.decrypt_encrypt _ _ _ _ _ _ hstored] at hopened
        exact Option.some.inj hopened
      subst hsame
      exact ⟨first, since, row.provider, generation, advance, now, hsplit, hsince⟩
  empty := h.provenance.empty

end Schemii.Credentials
