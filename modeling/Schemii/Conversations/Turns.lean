import Schemii.Conversations.World

/-!
# No assistant turn is leaked

The active map holds the turns whose workers have not closed them, and a chat is working only while the
map holds its turn. `_close_turn` reads and may write the chat before it releases the turn, so a store
that fails there, or a chat that a concurrent `delete` removed after a new `send`, keeps the turn in
the map; and a worker whose handler cannot store the failure, or that leaves after it found the
authority lost, leaves the chat working when `_close_turn` finds the authority again. The runs are those
without these (`steadySemantics`).

* `Shrinks`: what every call but an admission does, with `performs_shrinks` for the calls of workers.
* `turnInv_start`: an admission.
* `performs_settles`: the answers after which a worker may leave.
* `performs_close`: `_close_turn` releases the turn of a worker that may leave.
-/

set_option autoImplicit false

namespace Schemii.Conversations

open Schemii.Foundations

/-! ### What is stored -/

/-- A chat as it is stored: its oldest messages and receipts may be dropped. -/
structure SavedAs (chat saved : Chat) : Prop where
  revision : saved.revision = chat.revision
  status : saved.status = chat.status
  modes : saved.modes = chat.modes
  pending : saved.pending = chat.pending
  error : saved.error = chat.error
  turnUsedRows : saved.turnUsedRows = chat.turnUsedRows
  turnId : saved.turnId = chat.turnId
  messages : saved.messages <:+ chat.messages
  activity : saved.activity <:+ chat.activity

theorem latest_suffix {α : Type} (limit : ℕ) (items : List α) : latest limit items <:+ items := by
  unfold latest
  split
  · exact List.suffix_rfl
  · exact List.drop_suffix _ _

theorem dropMessages_suffix (size : List Message → ℕ) (limit : ℕ) (messages : List Message) :
    dropMessages size limit messages <:+ messages := by
  fun_induction dropMessages size limit messages with
  | case1 => exact List.suffix_rfl
  | case2 message => exact List.suffix_rfl
  | case3 message next rest hlarge ih => exact ih.trans (List.suffix_cons _ _)
  | case4 message next rest hfits => exact List.suffix_rfl

theorem dropActivity_suffix (size : List Receipt → ℕ) (limit : ℕ) (activity : List Receipt) :
    dropActivity size limit activity <:+ activity := by
  fun_induction dropActivity size limit activity with
  | case1 => exact List.suffix_rfl
  | case2 receipt rest hlarge ih => exact ih.trans (List.suffix_cons _ _)
  | case3 receipt rest hfits => exact List.suffix_rfl

variable {settings : Settings}

/-- `_save`. -/
theorem save_spec {chat saved : Chat} (h : settings.save chat = some saved) :
    SavedAs chat saved := by
  unfold Settings.save at h
  simp only at h
  split at h
  · cases h
  · cases h
    exact ⟨rfl, rfl, rfl, rfl, rfl, rfl, rfl,
      (dropMessages_suffix _ _ _).trans (latest_suffix _ _),
      (dropActivity_suffix _ _ _).trans (latest_suffix _ _)⟩

variable {key : Key} {world after : World}

/-- `store.update`. -/
theorem update_spec {change : Chat → Chat} (h : world.update settings key change = some after) :
    ∃ chat saved, world.chats.get? key = some chat ∧
      SavedAs { change chat with revision := chat.revision + 1 } saved ∧
      after = { world with chats := world.chats.insert key saved } := by
  unfold World.update at h
  split at h
  · cases h
  · next chat hchat =>
    split at h
    · cases h
    · next saved hsaved =>
      cases h
      exact ⟨chat, saved, hchat, save_spec hsaved, rfl⟩

/-- `send` under the lock. -/
theorem admitSend_spec {thread : ℕ} {text : String} {expectedRevision : ℕ}
    (h : world.admitSend settings thread key text expectedRevision = some after) :
    world.hasCapacity settings key.1 = true ∧ ∃ chat saved, world.chats.get? key = some chat ∧
      chat.status ≠ .working ∧ chat.status ≠ .waitingApproval ∧
      SavedAs { chat with
        revision := chat.revision + 1
        messages := chat.messages ++ [⟨world.next + 1, .user, .user text⟩]
        status := .working
        error := none
        pending := none
        turnUsedRows := false
        turnId := some world.next } saved ∧
      after = (({ world with chats := world.chats.insert key saved }).startTurn thread key world.next
        world.next).useIds 2 := by
  unfold World.admitSend at h
  split at h
  · cases h
  next hcapacity =>
  split at h
  · cases h
  next found hfound =>
  split at h
  · cases h
  split at h
  · cases h
  next hidle =>
  split at h
  · cases h
  next updated hupdated =>
  cases h
  obtain ⟨chat, saved, hchat, hsaved, rfl⟩ := update_spec hupdated
  rw [hfound] at hchat
  cases hchat
  exact ⟨by simpa using hcapacity, found, saved, hfound, fun hworking ↦ hidle (.inl hworking),
    fun hwaiting ↦ hidle (.inr hwaiting), hsaved, rfl⟩

/-- `approval` under the lock. -/
theorem admitApproval_spec {thread : ℕ}
    {pendingId : ℕ} {approved : Bool} {expectedRevision : ℕ} {review : Pending}
    (h : world.admitApproval settings thread key pendingId approved expectedRevision =
      some (review, after)) :
    world.hasCapacity settings key.1 = true ∧ ∃ chat saved, world.chats.get? key = some chat ∧
      chat.revision = expectedRevision ∧ chat.status = .waitingApproval ∧
      chat.pending = some review ∧ review.id = pendingId ∧
      world.clock - review.createdAt ≤ settings.proposalTtlSeconds ∧
      SavedAs { chat with
        revision := chat.revision + 1
        status := .working
        pending := none
        turnId := some world.next
        error := none } saved ∧
      after = ((({ world with chats := world.chats.insert key saved }).startTurn thread key world.next
        (world.roots (chat.turnId.getD 0))).useIds 1).log
        (.decided key world.next pendingId review approved chat.revision expectedRevision
          (world.clock - review.createdAt)) := by
  unfold World.admitApproval at h
  split at h
  · cases h
  next hcapacity =>
  split at h
  · cases h
  next found hfound =>
  split at h
  · cases h
  next hrevision =>
  split at h
  · cases h
  next pending hpending =>
  split at h
  · cases h
  next hvalid =>
  simp only [not_or, ne_eq, not_not, not_lt] at hvalid hrevision
  split at h
  · cases h
  next updated hupdated =>
  cases h
  obtain ⟨chat, saved, hchat, hsaved, rfl⟩ := update_spec hupdated
  rw [hfound] at hchat
  cases hchat
  exact ⟨by simpa using hcapacity, found, saved, hfound, hrevision, hvalid.1, hpending, hvalid.2.1,
    hvalid.2.2, hsaved, rfl⟩

/-! ### What holds, and what programs rely on -/

/-- The turns are bounded, a chat is working only while its turn is active, and the authority over a
chat is not there when the worker of its active turn found it lost. -/
structure TurnInv (settings : Settings) (world : World) : Prop where
  total : world.active.size ≤ settings.maximumConcurrentTurns
  own : ∀ owner, world.ownTurns owner ≤ settings.maximumConcurrentTurnsPerUser
  working : ∀ key chat, world.chats.get? key = some chat → chat.status = .working →
    ∃ turn, chat.turnId = some turn ∧ world.active.get? key = some turn
  active : ∀ key turn, world.active.get? key = some turn → turn < world.next
  single : ∀ key other turn, world.active.get? key = some turn → world.active.get? other = some turn →
    other = key
  turnOf : ∀ thread turn, world.turnOf thread = some turn → turn < world.next
  lost : ∀ key turn, world.active.get? key = some turn → world.lost turn = true →
    world.authority key = false
  unused : ∀ turn, world.next ≤ turn → world.lost turn = false

/-- What the others do: they do not start the turn of a program again, nor make its chat working. -/
structure TurnRely (thread : ℕ) (before after : World) : Prop where
  turnOf : after.turnOf thread = before.turnOf thread
  next : before.next ≤ after.next
  active : ∀ turn, before.turnOf thread = some turn → ∀ key, after.active.get? key = some turn →
    before.active.get? key = some turn ∧
      ∀ chat, after.chats.get? key = some chat → chat.status = .working →
        ∃ old, before.chats.get? key = some old ∧ old.status = .working
  lost : ∀ turn, before.lost turn = true → after.lost turn = true

theorem TurnRely.refl (thread : ℕ) (world : World) : TurnRely thread world world :=
  ⟨rfl, le_rfl, fun _ _ _ hactive ↦ ⟨hactive, fun chat hchat hworking ↦ ⟨chat, hchat, hworking⟩⟩,
    fun _ ↦ id⟩

theorem TurnRely.trans {thread : ℕ} {first second third : World} (h : TurnRely thread first second)
    (hnext : TurnRely thread second third) : TurnRely thread first third := by
  refine ⟨hnext.turnOf.trans h.turnOf, h.next.trans hnext.next, fun turn hturn key hactive ↦ ?_,
    fun turn ↦ hnext.lost turn ∘ h.lost turn⟩
  obtain ⟨hsecond, hback⟩ := hnext.active turn (h.turnOf.trans hturn) key hactive
  obtain ⟨hfirst, hearlier⟩ := h.active turn hturn key hsecond
  refine ⟨hfirst, fun chat hchat hworking ↦ ?_⟩
  obtain ⟨old, hold, holdWorking⟩ := hback chat hchat hworking
  exact hearlier old hold holdWorking

/-- The calls of `_close_turn` and of the handler do not fail. -/
def Steady : (request : ConversationCall) → request.Reply → Prop
  | .fail _ _, reply => reply = Except.ok ()
  | .close _ _, reply => reply = Except.ok ()
  | _, _ => True

/-- The authority over a chat does not come back after the worker of its active turn found it lost. -/
def SteadyAuthority (before after : World) : Prop :=
  ∀ key turn, before.active.get? key = some turn → before.lost turn = true →
    after.authority key = true → before.authority key = true

/-- The service, in runs in which these hold in every step. -/
def steadySemantics (settings : Settings) : Semantics conversationInterface World where
  perform := fun thread request before reply after ↦
    Acts settings thread request before reply after ∧ Steady request reply
  environment := fun before after ↦ Happens before after ∧ SteadyAuthority before after

/-- The invariant of the service, and what its programs rely on. -/
def turns (settings : Settings) : RelyGuarantee (steadySemantics settings) where
  inv := TurnInv settings
  rely := TurnRely
  rely_refl := TurnRely.refl
  rely_trans := fun _ _ _ _ hfirst hsecond ↦ hfirst.trans hsecond

variable {settings : Settings} {before after world : World} {thread : ℕ}

/-! ### What every call but an admission does -/

/-- No turn starts, and a chat that is working was working. -/
structure Shrinks (before after : World) : Prop where
  turnOf : after.turnOf = before.turnOf
  next : before.next ≤ after.next
  active : ∀ key turn, after.active.get? key = some turn → before.active.get? key = some turn
  working : ∀ key chat, after.chats.get? key = some chat → chat.status = .working →
    ∃ old, before.chats.get? key = some old ∧ old.status = .working ∧ chat.turnId = old.turnId ∧
      after.active.get? key = before.active.get? key
  lost : ∀ turn, before.lost turn = true → after.lost turn = true
  found : ∀ key turn, after.active.get? key = some turn → after.lost turn = true →
    (before.lost turn = true → before.authority key = false) → after.authority key = false
  unused : ∀ turn, after.lost turn = true → before.lost turn = true ∨
    ∃ key, before.active.get? key = some turn

theorem ownTurns_le (h : ∀ key turn, after.active.get? key = some turn →
    before.active.get? key = some turn) (owner : String) : after.ownTurns owner ≤ before.ownTurns owner :=
  ((Dictionary.subperm_of_get? h).filter _).length_le

theorem Shrinks.inv (h : Shrinks before after) (hinv : TurnInv settings before) :
    TurnInv settings after where
  total := (Dictionary.subperm_of_get? h.active).length_le.trans hinv.total
  own owner := (ownTurns_le h.active owner).trans (hinv.own owner)
  working key chat hchat hworking := by
    obtain ⟨old, hold, holdWorking, hturn, hactive⟩ := h.working key chat hchat hworking
    rw [hturn, hactive]
    exact hinv.working key old hold holdWorking
  active key turn hactive := (hinv.active key turn (h.active key turn hactive)).trans_le h.next
  single key other turn hkey hother :=
    hinv.single key other turn (h.active key turn hkey) (h.active other turn hother)
  turnOf thread turn hturn := by
    rw [h.turnOf] at hturn
    exact (hinv.turnOf thread turn hturn).trans_le h.next
  lost key turn hactive hlost :=
    h.found key turn hactive hlost (hinv.lost key turn (h.active key turn hactive))
  unused turn hturn := by
    by_contra hlost
    rcases h.unused turn (Bool.not_eq_false _ ▸ hlost) with hbefore | ⟨key, hactive⟩
    · rw [hinv.unused turn (h.next.trans hturn)] at hbefore
      cases hbefore
    · exact absurd (hinv.active key turn hactive) (not_lt.2 (h.next.trans hturn))

theorem Shrinks.rely (h : Shrinks before after) (thread : ℕ) : TurnRely thread before after := by
  refine ⟨congrFun h.turnOf thread, h.next, fun turn _ key hactive ↦ ⟨h.active key turn hactive,
    fun chat hchat hworking ↦ ?_⟩, h.lost⟩
  obtain ⟨old, hold, holdWorking, -, -⟩ := h.working key chat hchat hworking
  exact ⟨old, hold, holdWorking⟩

theorem Shrinks.guarantees (h : Shrinks before after) (hinv : TurnInv settings before) :
    (turns settings).Guarantees thread before after :=
  ⟨h.inv hinv, fun other _ ↦ h.rely other⟩

/-- Only chats change that matter, and one that is working was working with the same turn. -/
theorem Shrinks.of_chats (hturnOf : after.turnOf = before.turnOf) (hnext : before.next ≤ after.next)
    (hactive : after.active = before.active) (hlost : after.lost = before.lost)
    (hauthority : after.authority = before.authority)
    (hworking : ∀ key chat, after.chats.get? key = some chat → chat.status = .working →
      ∃ old, before.chats.get? key = some old ∧ old.status = .working ∧ chat.turnId = old.turnId) :
    Shrinks before after where
  turnOf := hturnOf
  next := hnext
  active key turn h := by rwa [hactive] at h
  working key chat hchat hstatus := by
    obtain ⟨old, hold, holdStatus, hturn⟩ := hworking key chat hchat hstatus
    exact ⟨old, hold, holdStatus, hturn, by rw [hactive]⟩
  lost turn h := by rwa [hlost]
  found key turn _ h hold := by
    rw [hlost] at h
    rw [hauthority]
    exact hold h
  unused turn h := .inl (by rwa [hlost] at h)

theorem Shrinks.same (hturnOf : after.turnOf = before.turnOf) (hnext : before.next ≤ after.next)
    (hactive : after.active = before.active) (hchats : after.chats = before.chats)
    (hlost : after.lost = before.lost) (hauthority : after.authority = before.authority) :
    Shrinks before after :=
  .of_chats hturnOf hnext hactive hlost hauthority fun _ chat hchat hworking ↦
    ⟨chat, hchats ▸ hchat, hworking, rfl⟩

theorem shrinks_begin (world : World) (thread : ℕ) : Shrinks world (world.begin thread) :=
  .same rfl le_rfl rfl rfl rfl rfl

theorem Shrinks.trans {middle : World} (h : Shrinks before middle) (hnext : Shrinks middle after) :
    Shrinks before after where
  turnOf := hnext.turnOf.trans h.turnOf
  next := h.next.trans hnext.next
  active key turn hactive := h.active key turn (hnext.active key turn hactive)
  working key chat hchat hworking := by
    obtain ⟨second, hsecond, hsecondWorking, hturn, hactive⟩ := hnext.working key chat hchat hworking
    obtain ⟨first, hfirst, hfirstWorking, hold, hbefore⟩ :=
      h.working key second hsecond hsecondWorking
    exact ⟨first, hfirst, hfirstWorking, hturn.trans hold, hactive.trans hbefore⟩
  lost turn := hnext.lost turn ∘ h.lost turn
  found key turn hactive hlost hold :=
    hnext.found key turn hactive hlost fun hmiddle ↦
      h.found key turn (hnext.active key turn hactive) hmiddle hold
  unused turn hlost := by
    rcases hnext.unused turn hlost with hmiddle | ⟨key, hactive⟩
    · exact h.unused turn hmiddle
    · exact .inr ⟨key, h.active key turn hactive⟩

theorem shrinks_noteAuthority (world : World) (key : Key) (turn : ℕ) (hinv : TurnInv settings world) :
    Shrinks world (world.noteAuthority key turn) := by
  unfold World.noteAuthority
  split
  · next hlost =>
    refine { Shrinks.same rfl le_rfl rfl rfl rfl rfl with
      lost := fun other hother ↦ ?_, found := fun name other hactive hother hold ↦ ?_
      unused := fun other hother ↦ ?_ }
    · by_cases hsame : other = turn
      · subst hsame
        exact Function.update_self _ _ _
      · exact (Function.update_of_ne hsame _ _).trans hother
    · by_cases hsame : other = turn
      · subst hsame
        rw [hinv.single key name other hlost.1 hactive]
        exact hlost.2
      · exact hold ((Function.update_of_ne hsame _ _).symm.trans hother)
    · by_cases hsame : other = turn
      · subst hsame
        exact .inr ⟨key, hlost.1⟩
      · exact .inl ((Function.update_of_ne hsame _ _).symm.trans hother)
  · exact .same rfl le_rfl rfl rfl rfl rfl

/-- A stored change after which a chat is working only if it was, with the same turn. -/
theorem shrinks_update {change : Chat → Chat} (h : world.update settings key change = some after)
    (hchange : ∀ chat, (change chat).status = .working →
      chat.status = .working ∧ (change chat).turnId = chat.turnId) : Shrinks world after := by
  obtain ⟨chat, saved, hchat, hsaved, rfl⟩ := update_spec h
  refine .of_chats rfl le_rfl rfl rfl rfl fun name found hfound hworking ↦ ?_
  simp only [Dictionary.get?_insert] at hfound
  split at hfound
  · next hsame =>
    cases hfound
    subst hsame
    obtain ⟨hwas, hturn⟩ := hchange chat (hsaved.status.symm.trans hworking)
    exact ⟨chat, hchat, hwas, hsaved.turnId.trans hturn⟩
  · exact ⟨found, hfound, hworking, rfl⟩

theorem shrinks_erase (hsettled : ∀ chat, world.chats.get? key = some chat →
      chat.status ≠ .working) (hactive : after.active = world.active.erase key)
    (hturnOf : after.turnOf = world.turnOf) (hnext : world.next ≤ after.next)
    (hchats : after.chats = world.chats) (hlost : after.lost = world.lost)
    (hauthority : after.authority = world.authority) : Shrinks world after where
  turnOf := hturnOf
  next := hnext
  active name turn h := by
    rw [hactive, Dictionary.get?_erase] at h
    split at h
    · cases h
    · exact h
  working name chat hchat hworking := by
    rw [hchats] at hchat
    have hne : name ≠ key := by
      rintro rfl
      exact hsettled chat hchat hworking
    exact ⟨chat, hchat, hworking, rfl, by rw [hactive, Dictionary.get?_erase, if_neg hne]⟩
  lost turn h := by rwa [hlost]
  found name turn _ h hold := by
    rw [hlost] at h
    rw [hauthority]
    exact hold h
  unused turn h := .inl (by rwa [hlost] at h)

/-! ### Admissions -/

theorem ownTurns_eq (world : World) (owner : String) :
    world.ownTurns owner = (world.active.keys.filter fun key ↦ decide (key.1 = owner)).length := by
  rw [World.ownTurns, Dictionary.keys, List.filter_map, List.length_map]
  rfl

/-- A turn starts. Assumes: there is capacity, and its chat is working with the new turn. -/
theorem turnInv_start (hinv : TurnInv settings before) {saved : Chat}
    (hcapacity : before.hasCapacity settings key.1 = true)
    (hchats : after.chats = before.chats.insert key saved) (hturn : saved.turnId = some before.next)
    (hactive : after.active = before.active.insert key before.next)
    (hturnOf : after.turnOf = Function.update before.turnOf thread (some before.next))
    (hnext : before.next < after.next) (hlost : after.lost = before.lost)
    (hauthority : after.authority = before.authority) : TurnInv settings after where
  total := by
    have hkeys := congrArg List.length (before.active.keys_insert key before.next)
    simp only [World.hasCapacity, Bool.and_eq_true, decide_eq_true_eq] at hcapacity
    have hsize : before.active.keys.length = before.active.size := List.length_map _
    have hafter : (before.active.insert key before.next).keys.length = after.active.size := by
      rw [hactive, Dictionary.keys, List.length_map, Dictionary.size]
    rw [hafter] at hkeys
    split at hkeys
    · omega
    · rw [List.length_append, List.length_singleton] at hkeys
      omega
  own owner := by
    simp only [World.hasCapacity, Bool.and_eq_true, decide_eq_true_eq] at hcapacity
    have hold := hinv.own owner
    rw [ownTurns_eq] at hold ⊢
    rw [hactive, Dictionary.keys_insert]
    split
    · exact hold
    · rw [List.filter_append, List.length_append]
      by_cases howner : key.1 = owner
      · have hroom := hcapacity.2
        rw [howner, ownTurns_eq] at hroom
        simp only [List.filter_singleton, howner, decide_true, cond_true, List.length_singleton]
        omega
      · simpa [List.filter_singleton, howner] using hold
  working name chat hchat hworking := by
    rw [hchats, Dictionary.get?_insert] at hchat
    rw [hactive, Dictionary.get?_insert]
    split at hchat
    · next hsame =>
      cases hchat
      exact ⟨before.next, hturn, if_pos hsame⟩
    · next hne =>
      rw [if_neg hne]
      exact hinv.working name chat hchat hworking
  active name turn h := by
    rw [hactive, Dictionary.get?_insert] at h
    split at h
    · cases h
      exact hnext
    · exact (hinv.active name turn h).trans hnext
  single name other turn hname hother := by
    have hfresh : ∀ name, before.active.get? name ≠ some before.next :=
      fun name h ↦ absurd (hinv.active name _ h) (lt_irrefl _)
    rw [hactive, Dictionary.get?_insert] at hname hother
    split at hname <;> split at hother
    · next hfirst hsecond => rw [hfirst, hsecond]
    · cases hname
      exact absurd hother (hfresh other)
    · cases hother
      exact absurd hname (hfresh name)
    · exact hinv.single name other turn hname hother
  turnOf other turn h := by
    rw [hturnOf] at h
    by_cases hsame : other = thread
    · subst hsame
      rw [Function.update_self] at h
      cases h
      exact hnext
    · rw [Function.update_of_ne hsame] at h
      exact (hinv.turnOf other turn h).trans hnext
  lost name turn h hfound := by
    rw [hlost] at hfound
    rw [hauthority]
    rw [hactive, Dictionary.get?_insert] at h
    split at h
    · cases h
      rw [hinv.unused before.next le_rfl] at hfound
      cases hfound
    · exact hinv.lost name turn h hfound
  unused turn h := by
    rw [hlost]
    exact hinv.unused turn (hnext.le.trans h)

theorem turnRely_start (hinv : TurnInv settings before) {saved : Chat}
    (hchats : after.chats = before.chats.insert key saved)
    (hactive : after.active = before.active.insert key before.next)
    (hturnOf : after.turnOf = Function.update before.turnOf thread (some before.next))
    (hnext : before.next < after.next) (hlost : after.lost = before.lost) {other : ℕ}
    (hother : other ≠ thread) : TurnRely other before after where
  turnOf := by rw [hturnOf, Function.update_of_ne hother]
  next := hnext.le
  active turn hturn name h := by
    have hne : turn ≠ before.next := (hinv.turnOf other turn hturn).ne
    rw [hactive, Dictionary.get?_insert] at h
    split at h
    · exact absurd (Option.some.inj h).symm hne
    · next hname =>
      refine ⟨h, fun chat hchat hworking ↦ ⟨chat, ?_, hworking⟩⟩
      rwa [hchats, Dictionary.get?_insert, if_neg hname] at hchat
  lost turn h := by rwa [hlost]

/-! ### What a worker knows -/

/-- A program that started a turn of a chat. -/
structure OnTurn (thread : ℕ) (key : Key) (turn : ℕ) (world : World) : Prop where
  turnOf : world.turnOf thread = some turn
  only : ∀ name, world.active.get? name = some turn → name = key

/-- Its chat is working only if its worker found the authority lost. -/
structure Settled (thread : ℕ) (key : Key) (turn : ℕ) (world : World) : Prop extends
    OnTurn thread key turn world where
  settled : world.active.get? key = some turn → ∀ chat, world.chats.get? key = some chat →
    chat.status = .working → world.lost turn = true

/-- The turn of a program is released. -/
def Released (thread : ℕ) (world : World) : Prop :=
  ∀ turn, world.turnOf thread = some turn → ∀ key, world.active.get? key ≠ some turn

section Knowledge

variable {key : Key} {turn : ℕ}

theorem OnTurn.stable (h : OnTurn thread key turn before) (hrely : TurnRely thread before after) :
    OnTurn thread key turn after :=
  ⟨hrely.turnOf.trans h.turnOf, fun name hname ↦
    h.only name (hrely.active turn h.turnOf name hname).1⟩

theorem Settled.stable (h : Settled thread key turn before) (hrely : TurnRely thread before after) :
    Settled thread key turn after := by
  refine ⟨h.toOnTurn.stable hrely, fun hactive chat hchat hworking ↦ ?_⟩
  obtain ⟨hbefore, hback⟩ := hrely.active turn h.turnOf key hactive
  obtain ⟨old, hold, holdWorking⟩ := hback chat hchat hworking
  exact hrely.lost turn (h.settled hbefore old hold holdWorking)

theorem Released.stable (h : Released thread before) (hrely : TurnRely thread before after) :
    Released thread after := by
  intro turn hturn key hactive
  rw [hrely.turnOf] at hturn
  exact h turn hturn key (hrely.active turn hturn key hactive).1

end Knowledge

/-! ### The calls of a worker -/

/-- The calls of a worker, but for `_close_turn`. -/
def WorkerCall : ConversationCall → Prop
  | .authorized _ _ | .openChat _ _ | .requireAvailable _ _ | .takeContinuation _ _
  | .checkAction _ _ _ _ | .dispatch _ _ _ _ _ | .awaitAction _ _ _ | .record _ _ _ _ | .watch _ _
  | .provider _ _ _ | .readModes _ _ | .pause _ _ _ _ _ | .finish _ _ _ _ | .fail _ _ => True
  | _ => False

theorem shrinks_map {option : Option World} {change : World → World}
    (h : option.map change = some after) (hoption : ∀ middle, option = some middle →
      Shrinks before middle) (hchange : ∀ middle, Shrinks middle (change middle)) :
    Shrinks before after := by
  obtain ⟨middle, hmiddle, rfl⟩ := Option.map_eq_some_iff.1 h
  exact (hoption middle hmiddle).trans (hchange middle)

theorem shrinks_useIds (world : World) (count : ℕ) : Shrinks world (world.useIds count) :=
  .same rfl (Nat.le_add_right _ _) rfl rfl rfl rfl

theorem shrinks_log (world : World) (event : Event) : Shrinks world (world.log event) :=
  .same rfl le_rfl rfl rfl rfl rfl

theorem shrinks_cacheAnswer (world : World) (key : Key) (reply : ℕ) (sensitive : Bool) :
    Shrinks world (world.cacheAnswer key reply sensitive) := by
  unfold World.cacheAnswer
  split
  · exact .same rfl le_rfl rfl rfl rfl rfl
  · exact .same rfl le_rfl rfl rfl rfl rfl

theorem shrinks_pauseChat {actions : List Action} {sensitive : Bool}
    (h : before.pauseChat settings key actions sensitive = some after) : Shrinks before after :=
  shrinks_map h (fun _ hupdate ↦ shrinks_update hupdate fun _ hworking ↦ by cases hworking)
    fun middle ↦ shrinks_useIds middle 1

theorem shrinks_storeAnswer {reply : ℕ} {sensitive : Bool}
    (h : before.storeAnswer settings key reply sensitive = some after) : Shrinks before after :=
  shrinks_map h (fun _ hupdate ↦ shrinks_update hupdate fun _ hworking ↦ by cases hworking)
    fun middle ↦ shrinks_useIds middle 1

theorem shrinks_recordAction {operation : String} {status : ActionStatus}
    (h : before.recordAction settings key operation status = some after) : Shrinks before after :=
  shrinks_map h (fun _ hupdate ↦ shrinks_update hupdate fun _ hworking ↦ ⟨hworking, rfl⟩)
    fun middle ↦ shrinks_useIds middle 1

theorem shrinks_failChat (h : before.failChat settings key = some after) :
    Shrinks before after :=
  shrinks_update h fun _ hworking ↦ by cases hworking

theorem performs_shrinks {request : ConversationCall} {reply : request.Reply}
    (hrequest : WorkerCall request) (hinv : TurnInv settings before)
    (hperform : Performs settings thread before request reply after) : Shrinks before after := by
  have hsame : Shrinks before before := .same rfl le_rfl rfl rfl rfl rfl
  cases hperform with
  | authorized key turn => exact shrinks_noteAuthority before key turn hinv
  | opened => exact hsame
  | notOpened => exact hsame
  | available => exact hsame
  | notAvailable => exact hsame
  | taken => exact .same rfl le_rfl rfl rfl rfl rfl
  | checked => exact shrinks_log before _
  | denied => exact hsame
  | notChecked key turn => exact shrinks_noteAuthority before key turn hinv
  | dispatched => exact (shrinks_useIds before 1).trans (shrinks_log _ _)
  | notDispatched => exact hsame
  | ended => exact shrinks_log before _
  | recorded key turn operation status after hafter => exact shrinks_recordAction hafter
  | recordedRaising key turn operation status after hafter => exact shrinks_recordAction hafter
  | chatGone => exact hsame
  | notRecorded => exact hsame
  | inTime => exact hsame
  | tooLate => exact hsame
  | replied =>
    exact (shrinks_useIds before 1).trans ((shrinks_log _ _).trans (shrinks_log _ _))
  | notReplied => exact shrinks_log before _
  | notRequested => exact hsame
  | modes => exact hsame
  | notRead => exact hsame
  | paused key turn actions sensitive continuation after hauthorized hafter =>
    exact (shrinks_pauseChat hafter).trans (.same rfl le_rfl rfl rfl rfl rfl)
  | pausedRaising key turn actions sensitive continuation after hauthorized hafter =>
    exact shrinks_pauseChat hafter
  | mayNotPause key turn => exact shrinks_noteAuthority before key turn hinv
  | notPaused => exact hsame
  | answered key turn reply sensitive after hauthorized hafter =>
    exact (shrinks_cacheAnswer before key reply sensitive).trans (shrinks_storeAnswer hafter)
  | answeredRaising key turn reply sensitive after hauthorized hafter =>
    exact (shrinks_cacheAnswer before key reply sensitive).trans (shrinks_storeAnswer hafter)
  | mayNotAnswer key turn => exact shrinks_noteAuthority before key turn hinv
  | notAnswered => exact hsame
  | notStored key turn reply sensitive =>
    exact (shrinks_cacheAnswer before key reply sensitive).trans (shrinks_useIds _ 1)
  | failed key turn after hauthorized hafter => exact shrinks_failChat hafter
  | failedRaising key turn after hauthorized hafter => exact shrinks_failChat hafter
  | mayNotFail key turn => exact shrinks_noteAuthority before key turn hinv
  | notFailed => exact hsame
  | _ => exact hrequest.elim

theorem acts_shrinks {request : ConversationCall} {reply : request.Reply}
    (hrequest : WorkerCall request) (hinv : TurnInv settings before)
    (hacts : Acts settings thread request before reply after) : Shrinks before after :=
  (shrinks_begin before thread).trans
    (performs_shrinks hrequest ((shrinks_begin before thread).inv hinv) hacts.2)

/-- The answers after which a worker may leave. -/
def Settles (key : Key) (turn : ℕ) : (request : ConversationCall) → request.Reply → Prop
  | .authorized name other, reply => name = key ∧ other = turn ∧ reply = false
  | .pause name other _ _ _, reply => name = key ∧ other = turn ∧ reply = Except.ok ()
  | .finish name other _ _, reply => name = key ∧ other = turn ∧ reply = Except.ok ()
  | .fail name other, reply => name = key ∧ other = turn ∧ reply = Except.ok ()
  | _, _ => False

section Settles

variable {key : Key} {turn : ℕ}

theorem settled_noteAuthority (h : OnTurn thread key turn (world.noteAuthority key turn))
    (hauthorized : world.authorized key turn = false) :
    Settled thread key turn (world.noteAuthority key turn) := by
  refine ⟨h, fun hactive _ _ _ ↦ ?_⟩
  have hbefore : world.active.get? key = some turn := by
    unfold World.noteAuthority at hactive
    split at hactive <;> exact hactive
  have hauthority : world.authority key = false := by
    simpa [World.authorized, hbefore] using hauthorized
  unfold World.noteAuthority
  rw [if_pos ⟨hbefore, hauthority⟩]
  exact Function.update_self _ _ _

theorem settled_update {change : Chat → Chat} (h : OnTurn thread key turn after)
    (hupdate : before.update settings key change = some world) (hchats : after.chats = world.chats)
    (hchange : ∀ chat, (change chat).status ≠ .working) : Settled thread key turn after := by
  refine ⟨h, fun _ chat hchat hworking ↦ ?_⟩
  obtain ⟨old, saved, -, hsaved, rfl⟩ := update_spec hupdate
  rw [hchats, Dictionary.get?_insert, if_pos rfl] at hchat
  cases hchat
  exact absurd (hsaved.status.symm.trans hworking) (hchange old)

theorem performs_settles {request : ConversationCall} {reply : request.Reply}
    (hsettles : Settles key turn request reply) (h : OnTurn thread key turn after)
    (hperform : Performs settings thread before request reply after) :
    Settled thread key turn after := by
  have hmapped : ∀ {option : Option World} {middle : World} {count : ℕ},
      option.map (·.useIds count) = some middle →
        ∃ stored, option = some stored ∧ middle.chats = stored.chats := by
    intro option middle count hmap
    obtain ⟨stored, hstored, rfl⟩ := Option.map_eq_some_iff.1 hmap
    exact ⟨stored, hstored, rfl⟩
  cases hperform with
  | authorized name other =>
    obtain ⟨rfl, rfl, hfalse⟩ := hsettles
    exact settled_noteAuthority h hfalse
  | mayNotPause name other actions sensitive continuation hauthorized =>
    obtain ⟨rfl, rfl, -⟩ := hsettles
    exact settled_noteAuthority h hauthorized
  | mayNotAnswer name other reply sensitive hauthorized =>
    obtain ⟨rfl, rfl, -⟩ := hsettles
    exact settled_noteAuthority h hauthorized
  | mayNotFail name other hauthorized =>
    obtain ⟨rfl, rfl, -⟩ := hsettles
    exact settled_noteAuthority h hauthorized
  | paused name other actions sensitive continuation middle hauthorized hafter =>
    obtain ⟨rfl, rfl, -⟩ := hsettles
    obtain ⟨stored, hstored, hchats⟩ := hmapped hafter
    exact settled_update h hstored hchats fun _ hworking ↦ by cases hworking
  | answered name other reply sensitive after hauthorized hafter =>
    obtain ⟨rfl, rfl, -⟩ := hsettles
    obtain ⟨stored, hstored, hchats⟩ := hmapped hafter
    exact settled_update h hstored hchats fun _ hworking ↦ by cases hworking
  | failed name other after hauthorized hafter =>
    obtain ⟨rfl, rfl, -⟩ := hsettles
    exact settled_update h hafter rfl fun _ hworking ↦ by cases hworking
  | pausedRaising => exact absurd hsettles.2.2 (by simp)
  | notPaused => exact absurd hsettles.2.2 (by simp)
  | answeredRaising => exact absurd hsettles.2.2 (by simp)
  | notAnswered => exact absurd hsettles.2.2 (by simp)
  | notStored => exact absurd hsettles.2.2 (by simp)
  | failedRaising => exact absurd hsettles.2.2 (by simp)
  | notFailed => exact absurd hsettles.2.2 (by simp)
  | _ => exact hsettles.elim

/-- `_close_turn` releases the turn. Assumes: the worker may leave, and `_close_turn` does not fail. -/
theorem performs_close (hinv : TurnInv settings before) (h : Settled thread key turn before)
    (hperform : Performs settings thread before (.close key turn) (Except.ok ()) after) :
    Shrinks before after ∧ ∀ name, after.active.get? name ≠ some turn := by
  have hreleased : ∀ world : World, world.active = before.active.erase key →
      ∀ name, world.active.get? name ≠ some turn := by
    intro world hworld name hname
    rw [hworld, Dictionary.get?_erase] at hname
    split at hname
    · cases hname
    · next hne => exact hne (h.only name hname)
  generalize hreply : (Except.ok () : Except Raised Unit) = reply at hperform
  cases hperform with
  | superseded _ _ hactive =>
    refine ⟨.same rfl le_rfl rfl rfl rfl rfl, fun name hname ↦ ?_⟩
    exact hactive (h.only name hname ▸ hname)
  | closed _ _ chat hactive hchat hrevoke =>
    refine ⟨shrinks_erase (fun found hfound hworking ↦ ?_) rfl rfl le_rfl rfl rfl rfl,
      hreleased _ rfl⟩
    rw [hchat] at hfound
    cases hfound
    -- A working chat whose worker leaves is one whose authority was found lost, and still is.
    have hauthority := hinv.lost key turn hactive (h.settled hactive chat hchat hworking)
    simp [World.mustRevoke, World.authorized, hauthority, hworking] at hrevoke
  | revoked _ _ chat stored hactive hchat hrevoke hafter =>
    obtain ⟨old, saved, -, hsaved, rfl⟩ := update_spec hafter
    have hstored := shrinks_update hafter fun _ hworking ↦ by cases hworking
    refine ⟨hstored.trans (shrinks_erase (fun found hfound hworking ↦ ?_) rfl rfl le_rfl rfl rfl rfl),
      hreleased _ rfl⟩
    rw [Dictionary.get?_insert, if_pos rfl] at hfound
    cases hfound
    exact absurd (hsaved.status.symm.trans hworking) (by simp)
  | revokedRaising => cases hreply
  | notClosed => cases hreply

end Settles

end Schemii.Conversations
