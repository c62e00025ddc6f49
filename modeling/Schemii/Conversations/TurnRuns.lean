import Schemii.Conversations.Turns

/-!
# Requests and workers release their turns

The programs of the conversation service keep `TurnInv`, and a worker ends with its turn released.

* `safe_run`: a worker, on every path.
* `safe_starts`: the requests with the workers that they start.
* `no_turn_leaked`: what holds in every state of a run in which the handler and `_close_turn` do not
  fail and the authority does not come back.
* `deleted_chat_keeps_turn`: a `delete` that comes under a new `send` keeps the turn.
-/

set_option autoImplicit false

namespace Schemii.Conversations

open Schemii.Foundations

variable {settings : Settings} {before after world : World} {thread : ℕ}

/-! ### Workers -/

theorem safe_raising {α : Type} {program : ConversationProgram (Except Raised α)}
    {post : Except Raised α → World → Prop}
    (h : Safe (turns settings) thread program world fun outcome after ↦
      match outcome with
      | .ok reply => post reply after
      | .error raised => post (.error raised) after) :
    Safe (turns settings) thread (raising program) world post := by
  refine Safe.bind (h.mono fun outcome after hpost ↦ ?_)
  rcases outcome with raised | raised | value
  · exact hpost
  · exact hpost
  · exact hpost

section Workers

variable {key : Key} {turn : ℕ}

theorem safe_workerCall (request : ConversationCall) (hrequest : WorkerCall request)
    (h : OnTurn thread key turn world) :
    Safe (turns settings) thread (ask request) world fun outcome after ↦
      ∃ reply, outcome = .ok reply ∧ Steady request reply ∧ OnTurn thread key turn after ∧
        (Settles key turn request reply → Settled thread key turn after) := by
  intro before hrely hinv reply after hperform
  have hshrinks := acts_shrinks hrequest hinv hperform.1
  have hafter := (h.stable hrely).stable (hshrinks.rely thread)
  exact ⟨hshrinks.guarantees hinv, reply, rfl, hperform.2, hafter, fun hsettles ↦
    performs_settles hsettles hafter hperform.1.2⟩

theorem safe_workerCalls {α : Type} {program : ConversationProgram α}
    (hasks : program.Asks WorkerCall) (h : OnTurn thread key turn world) :
    Safe (turns settings) thread program world fun _ after ↦ OnTurn thread key turn after := by
  refine Safe.of_asks (fun before after hrely hknown ↦ OnTurn.stable hknown hrely)
    (fun request before reply after hrequest hinv hknown hperform ↦ ?_) hasks h
  have hshrinks := acts_shrinks hrequest hinv hperform.1
  exact ⟨hshrinks.guarantees hinv, hknown.stable (hshrinks.rely thread)⟩

theorem asks_raising {α : Type} {program : ConversationProgram (Except Raised α)}
    (h : program.Asks WorkerCall) : (raising program).Asks WorkerCall :=
  h.bind fun reply ↦ .ofExcept reply

/-- `_execute`. -/
theorem asks_executeFrom (key : Key) (turn : ℕ) (approved : Bool) (actions : List Action)
    (position : ℕ) (executed : Executed) :
    (executeFrom settings key turn approved actions position executed).Asks WorkerCall := by
  induction actions generalizing position executed with
  | nil => trivial
  | cons action rest ih =>
    have hrecord : ∀ status, (raising (ask (.record key turn action.operation status)) :
        ConversationProgram Unit).Asks WorkerCall :=
      fun status ↦ asks_raising ⟨trivial, fun _ ↦ trivial⟩
    have hcheck : (raising (ask (.checkAction key turn action.operation approved)) :
        ConversationProgram Bool).Asks WorkerCall := asks_raising ⟨trivial, fun _ ↦ trivial⟩
    refine hcheck.bind fun allowed ↦ ?_
    cases allowed with
    | false =>
      simp only [Bool.not_false, if_true]
      split
      · exact ih _ _
      · trivial
    | true =>
      refine ⟨trivial, fun number ↦ ?_⟩
      cases number with
      | none => exact (hrecord .failed).bind fun _ ↦ trivial
      | some number =>
        refine ⟨trivial, fun status ↦ (hrecord status).bind fun _ ↦ ?_⟩
        cases status with
        | failed => trivial
        | succeeded => exact ih _ _

theorem safe_answerCall (reply : Reply) (messages : List PromptMessage) (sensitive : Bool)
    (index : ℕ) (call : ToolCall) (h : OnTurn thread key turn world) :
    Safe (turns settings) thread
      (answerCall settings key turn reply messages sensitive index call) world
      fun outcome after ↦ OnTurn thread key turn after ∧
        (outcome = .ok none → Settled thread key turn after) := by
  unfold answerCall
  cases settings.decodeBatch call with
  | none => exact ⟨h, fun hnone ↦ by cases hnone⟩
  | some actions =>
    refine Safe.bind (safe_raising ((safe_workerCall (.readModes key turn) trivial h).mono
      fun outcome after hpost ↦ ?_))
    obtain ⟨current, rfl, -, hknown, -⟩ := hpost
    cases current with
    | error raised => exact ⟨hknown, fun hnone ↦ by cases hnone⟩
    | ok current =>
      simp only
      split
      · exact ⟨hknown, fun hnone ↦ by cases hnone⟩
      split
      · refine Safe.bind (safe_raising ((safe_workerCall _ (by trivial) hknown).mono
          fun outcome after hpost ↦ ?_))
        obtain ⟨paused, rfl, -, hknown, hsettled⟩ := hpost
        cases paused with
        | error raised => exact ⟨hknown, fun hnone ↦ by cases hnone⟩
        | ok value => exact ⟨hknown, fun _ ↦ hsettled ⟨rfl, rfl, rfl⟩⟩
      · refine Safe.bind ((safe_workerCalls (asks_executeFrom key turn false actions 0 _)
          hknown).mono fun outcome after hknown ↦ ?_)
        cases outcome with
        | error raised => exact ⟨hknown, fun hnone ↦ by cases hnone⟩
        | ok executed => exact ⟨hknown, fun hnone ↦ by cases hnone⟩

theorem safe_answerCalls (reply : Reply) (calls : List ToolCall) (index : ℕ) (gathered : Gathered)
    (h : OnTurn thread key turn world) :
    Safe (turns settings) thread (answerCalls settings key turn reply calls index gathered) world
      fun outcome after ↦ OnTurn thread key turn after ∧
        (outcome = .ok none → Settled thread key turn after) := by
  induction calls generalizing index gathered world with
  | nil => exact ⟨h, fun hnone ↦ by cases hnone⟩
  | cons call rest ih =>
    refine Safe.bind (Safe.attempt ((safe_answerCall reply gathered.messages gathered.sensitive index
      call h).mono fun outcome after hpost ↦ ?_))
    rcases outcome with raised | executed
    · cases raised with
      | value => exact ih _ _ hpost.1
      | other => exact ⟨hpost.1, fun hnone ↦ by cases hnone⟩
    · cases executed with
      | none => exact ⟨hpost.1, fun _ ↦ hpost.2 rfl⟩
      | some executed => exact ih _ _ hpost.1

theorem safe_rounds (remaining : ℕ) (gathered : Gathered) (h : OnTurn thread key turn world) :
    Safe (turns settings) thread (rounds settings key turn remaining gathered) world
      fun outcome after ↦ OnTurn thread key turn after ∧
        (outcome = .ok () → Settled thread key turn after) := by
  induction remaining generalizing gathered world with
  | zero => exact ⟨h, fun hok ↦ by cases hok⟩
  | succ remaining ih =>
    have hasks : ∀ {world : World} {rest : ConversationProgram Unit},
        OnTurn thread key turn world → (∀ world, OnTurn thread key turn world →
          Safe (turns settings) thread rest world fun outcome after ↦
            OnTurn thread key turn after ∧ (outcome = .ok () → Settled thread key turn after)) →
        Safe (turns settings) thread (Program.bind (ask (.authorized key turn)) fun (allowed : Bool) ↦
          if !allowed then .done () else rest) world fun outcome after ↦
            OnTurn thread key turn after ∧ (outcome = .ok () → Settled thread key turn after) := by
      intro world rest hknown hrest
      refine Safe.bind ((safe_workerCall (.authorized key turn) trivial hknown).mono
        fun outcome after hpost ↦ ?_)
      obtain ⟨allowed, rfl, -, hknown, hsettled⟩ := hpost
      cases allowed with
      | false => exact ⟨hknown, fun _ ↦ hsettled ⟨rfl, rfl, rfl⟩⟩
      | true => exact hrest after hknown
    refine hasks h fun world h ↦ ?_
    refine Safe.bind (safe_raising ((safe_workerCall (.watch key turn) trivial h).mono
      fun outcome after hpost ↦ ?_))
    obtain ⟨watched, rfl, -, h, -⟩ := hpost
    cases watched with
    | error raised => exact ⟨h, fun hok ↦ by cases hok⟩
    | ok value =>
    refine hasks h fun world h ↦ ?_
    refine Safe.bind (safe_raising ((safe_workerCall (.provider key turn _) trivial h).mono
      fun outcome after hpost ↦ ?_))
    obtain ⟨reply, rfl, -, h, -⟩ := hpost
    cases reply with
    | error raised => exact ⟨h, fun hok ↦ by cases hok⟩
    | ok reply =>
    refine hasks h fun world h ↦ ?_
    split
    · exact ⟨h, fun hok ↦ by cases hok⟩
    split
    · split
      · exact ⟨h, fun hok ↦ by cases hok⟩
      · refine safe_raising ((safe_workerCall (.finish key turn reply.number gathered.sensitive)
          trivial h).mono fun outcome after hpost ↦ ?_)
        obtain ⟨answered, rfl, -, h, hsettled⟩ := hpost
        exact ⟨h, fun hok ↦ hsettled ⟨rfl, rfl, hok⟩⟩
    split
    · exact ⟨h, fun hok ↦ by cases hok⟩
    · refine Safe.bind ((safe_answerCalls reply reply.calls 0 _ h).mono fun outcome after hpost ↦ ?_)
      cases outcome with
      | error raised => exact ⟨hpost.1, fun hok ↦ by cases hok⟩
      | ok next =>
        cases next with
        | none => exact ⟨hpost.1, fun _ ↦ hpost.2 rfl⟩
        | some gathered => exact ih gathered hpost.1

/-- The body of `_run`. -/
theorem safe_runBody (approvedActions : Option (List Action)) (h : OnTurn thread key turn world) :
    Safe (turns settings) thread (runBody settings key turn approvedActions) world
      fun outcome after ↦ OnTurn thread key turn after ∧
        (outcome = .ok () → Settled thread key turn after) := by
  refine Safe.bind (safe_raising ((safe_workerCall (.openChat key turn) trivial h).mono
    fun outcome after hpost ↦ ?_))
  obtain ⟨opened, rfl, -, h, -⟩ := hpost
  cases opened with
  | error raised => exact ⟨h, fun hok ↦ by cases hok⟩
  | ok chat =>
  cases approvedActions with
  | none => exact safe_rounds _ _ h
  | some actions =>
    refine Safe.bind (safe_raising ((safe_workerCall (.requireAvailable key turn) trivial h).mono
      fun outcome after hpost ↦ ?_))
    obtain ⟨available, rfl, -, h, -⟩ := hpost
    cases available with
    | error raised => exact ⟨h, fun hok ↦ by cases hok⟩
    | ok value =>
      refine Safe.bind ((safe_workerCall (.takeContinuation key turn) trivial h).mono
        fun outcome after hpost ↦ ?_)
      obtain ⟨cached, rfl, -, h, -⟩ := hpost
      refine Safe.bind ((safe_workerCalls (asks_executeFrom key turn true actions 0 _) h).mono
        fun outcome after h ↦ ?_)
      cases outcome with
      | error raised => exact ⟨h, fun hok ↦ by cases hok⟩
      | ok executed => exact safe_rounds _ _ h

/-- `_close_turn`. -/
theorem safe_close (h : Settled thread key turn world) :
    Safe (turns settings) thread (raising (ask (.close key turn))) world
      fun _ after ↦ Released thread after := by
  refine safe_raising fun before hrely hinv reply after hperform ↦ ?_
  obtain ⟨hacts, hsteady⟩ := hperform
  obtain rfl : reply = Except.ok () := hsteady
  have hbegun := shrinks_begin before thread
  obtain ⟨hshrinks, hreleased⟩ := performs_close (hbegun.inv hinv)
    ((h.stable hrely).stable (hbegun.rely thread)) hacts.2
  have hwhole := hbegun.trans hshrinks
  refine ⟨hwhole.guarantees hinv, fun other hother name ↦ ?_⟩
  have hturn : after.turnOf thread = some turn :=
    (congrFun hwhole.turnOf thread).trans ((h.stable hrely).turnOf)
  rw [hturn] at hother
  cases hother
  exact hreleased name

/-- `run` releases the turn. -/
theorem safe_run (approvedActions : Option (List Action)) (h : OnTurn thread key turn world) :
    Safe (turns settings) thread (run settings key turn approvedActions) world
      fun _ after ↦ Released thread after := by
  refine Safe.bind ((safe_workerCall (.authorized key turn) trivial h).mono
    fun outcome after hpost ↦ ?_)
  obtain ⟨allowed, rfl, -, h, hsettled⟩ := hpost
  cases allowed with
  | false => exact safe_close (hsettled ⟨rfl, rfl, rfl⟩)
  | true =>
    have hcloses : ∀ (handled : Except Raised Unit) {world : World},
        Settled thread key turn world → Safe (turns settings) thread
          (Program.bind (raising (ask (.close key turn))) fun _ ↦ Program.ofExcept handled) world
          fun _ after ↦ Released thread after := by
      intro handled world hsettled
      refine Safe.bind ((safe_close hsettled).mono fun outcome after hreleased ↦ ?_)
      cases outcome with
      | error raised => exact hreleased
      | ok value => cases handled <;> exact hreleased
    refine Safe.bind (Safe.attempt ((safe_runBody approvedActions h).mono
      fun outcome after hpost ↦ ?_))
    cases outcome with
    | ok value => exact hcloses (.ok value) (hpost.2 rfl)
    | error raised =>
      refine Safe.bind (Safe.attempt (safe_raising ((safe_workerCall (.fail key turn) trivial
        hpost.1).mono fun outcome after hpost ↦ ?_)))
      obtain ⟨failed, rfl, hsteady, -, hsettled⟩ := hpost
      obtain rfl : failed = Except.ok () := hsteady
      exact hcloses _ (hsettled ⟨rfl, rfl, rfl⟩)

end Workers

/-! ### Requests -/

/-- The calls of requests, but for the admissions. -/
def RequestCall : ConversationCall → Prop
  | .preflight _ | .create _ _ | .changePreferences _ _ _ | .cancelTurn _ | .deleteChat _
  | .forgetTransient _ => True
  | _ => False

theorem withPreferences_status (chat : Chat) (modes : Dictionary String Mode) (id : ℕ) :
    (chat.withPreferences modes id).status ≠ .working := by
  unfold Chat.withPreferences
  simp only
  split
  · simp
  · next hother => exact fun hworking ↦ hother (.inl hworking)

theorem request_shrinks {request : ConversationCall} {reply : request.Reply}
    (hrequest : RequestCall request)
    (hperform : Performs settings thread before request reply after) : Shrinks before after := by
  have hsame : Shrinks before before := .same rfl le_rfl rfl rfl rfl rfl
  have hnotWorking : ∀ {key : Key} {change : Chat → Chat} {middle : World},
      before.update settings key change = some middle →
      (∀ chat, (change chat).status ≠ .working) →
        ∀ chat, middle.chats.get? key = some chat → chat.status ≠ .working := by
    intro key change middle hupdate hchange chat hchat
    obtain ⟨old, saved, -, hsaved, rfl⟩ := update_spec hupdate
    rw [Dictionary.get?_insert, if_pos rfl] at hchat
    cases hchat
    rw [hsaved.status]
    exact hchange old
  cases hperform with
  | preflight => exact hsame
  | created owner modes after hafter =>
    unfold World.create at hafter
    split at hafter
    · cases hafter
    split at hafter
    · cases hafter
    next saved hsaved =>
    cases hafter
    refine .of_chats rfl (Nat.le_succ _) rfl rfl rfl fun name chat hchat hworking ↦ ?_
    simp only [Dictionary.get?_insert] at hchat
    split at hchat
    · cases hchat
      exact absurd ((save_spec hsaved).status.symm.trans hworking) (by simp)
    · exact ⟨chat, hchat, hworking, rfl⟩
  | notCreated => exact hsame
  | changed key modes expectedRevision after hafter outcome =>
    unfold World.changePreferences at hafter
    split at hafter
    · split at hafter
      · cases hafter
      split at hafter
      · cases hafter
      next updated hupdated =>
      cases hafter
      exact (shrinks_update hupdated fun chat hworking ↦
          absurd hworking (withPreferences_status chat _ _)).trans
        (shrinks_erase (hnotWorking hupdated fun chat ↦ withPreferences_status chat _ _) rfl rfl
          (Nat.le_succ _) rfl rfl rfl)
    · cases hafter
  | notChanged => exact hsame
  | cancelled key after hafter outcome =>
    unfold World.cancelTurn at hafter
    split at hafter
    · cases hafter
    next updated hupdated =>
    cases hafter
    exact (shrinks_update hupdated fun _ hworking ↦ by cases hworking).trans
      (shrinks_erase (hnotWorking hupdated fun _ hworking ↦ by cases hworking) rfl rfl le_rfl rfl rfl
        rfl)
  | notCancelled => exact hsame
  | deleted key hchat outcome =>
    refine .of_chats rfl le_rfl rfl rfl rfl fun name chat hfound hworking ↦ ?_
    simp only [Dictionary.get?_erase] at hfound
    split at hfound
    · cases hfound
    · exact ⟨chat, hfound, hworking, rfl⟩
  | notDeleted => exact hsame
  | forgotten => exact .same rfl le_rfl rfl rfl rfl rfl
  | _ => exact hrequest.elim

theorem safe_request {α : Type} {program : ConversationProgram α} (hasks : program.Asks RequestCall)
    (h : world.turnOf thread = none) :
    Safe (turns settings) thread program world fun _ after ↦ after.turnOf thread = none := by
  refine Safe.of_asks
    (fun (before after : World) (hrely : TurnRely thread before after)
      (hknown : before.turnOf thread = none) ↦ hrely.turnOf.trans hknown)
    (fun request before reply after hrequest hinv hknown hperform ↦ ?_) hasks h
  have hshrinks := (shrinks_begin before thread).trans (request_shrinks hrequest hperform.1.2)
  exact ⟨hshrinks.guarantees hinv, (congrFun hshrinks.turnOf thread).trans hknown⟩

/-- A program starts a turn. Assumes: there is capacity, and its chat is working with the new turn. -/
theorem starts_turn (hinv : TurnInv settings before) {key : Key} {saved : Chat} (hcapacity : before.hasCapacity settings key.1 = true)
    (hchats : after.chats = before.chats.insert key saved) (hturn : saved.turnId = some before.next)
    (hactive : after.active = before.active.insert key before.next)
    (hturnOf : after.turnOf = Function.update before.turnOf thread (some before.next))
    (hnext : before.next < after.next) (hlost : after.lost = before.lost)
    (hauthority : after.authority = before.authority) :
    (turns settings).Guarantees thread before after ∧ OnTurn thread key before.next after := by
  refine ⟨⟨turnInv_start hinv hcapacity hchats hturn hactive hturnOf hnext hlost hauthority,
    fun other hother ↦ turnRely_start hinv hchats hactive hturnOf hnext hlost hother⟩,
    by rw [hturnOf, Function.update_self], fun name hname ↦ ?_⟩
  rw [hactive, Dictionary.get?_insert] at hname
  split at hname
  · next hsame => exact hsame
  · exact absurd (hinv.active name _ hname) (lt_irrefl _)

theorem safe_admitSend (key : Key) (text : String) (expectedRevision : ℕ)
    (h : world.turnOf thread = none) :
    Safe (turns settings) thread (raising (ask (.admitSend key text expectedRevision))) world
      fun outcome after ↦
        match outcome with
        | .ok turn => OnTurn thread key turn after
        | .error _ => after.turnOf thread = none := by
  refine safe_raising fun before hrely hinv reply after hperform ↦ ?_
  have hbegun := shrinks_begin before thread
  have hknown : before.turnOf thread = none := hrely.turnOf.trans h
  cases hperform.1.2 with
  | notSent => exact ⟨hbegun.guarantees hinv, hknown⟩
  | sent _ _ _ _ hafter =>
    obtain ⟨hcapacity, chat, saved, -, -, -, hsaved, hequal⟩ := admitSend_spec hafter
    have hnext : (before.begin thread).next < after.next := by
      rw [hequal]
      exact Nat.lt_add_of_pos_right two_pos
    obtain ⟨⟨hkept, hothers⟩, hstarted⟩ := starts_turn (hbegun.inv hinv) hcapacity
      (congrArg World.chats hequal) hsaved.turnId (congrArg World.active hequal)
      (congrArg World.turnOf hequal) hnext (by rw [hequal]; rfl) (by rw [hequal]; rfl)
    exact ⟨⟨hkept, fun other hother ↦ (hbegun.rely other).trans (hothers other hother)⟩, hstarted⟩

theorem safe_admitApproval (key : Key) (pendingId : ℕ) (approved : Bool) (expectedRevision : ℕ)
    (h : world.turnOf thread = none) :
    Safe (turns settings) thread
      (raising (ask (.admitApproval key pendingId approved expectedRevision))) world
      fun outcome after ↦
        match outcome with
        | .ok admitted => OnTurn thread key admitted.1 after
        | .error _ => after.turnOf thread = none := by
  refine safe_raising fun before hrely hinv reply after hperform ↦ ?_
  have hbegun := shrinks_begin before thread
  have hknown : before.turnOf thread = none := hrely.turnOf.trans h
  cases hperform.1.2 with
  | notApproved => exact ⟨hbegun.guarantees hinv, hknown⟩
  | approved _ _ _ _ review _ hafter =>
    obtain ⟨hcapacity, chat, saved, -, -, -, -, -, -, hsaved, hequal⟩ := admitApproval_spec hafter
    have hnext : (before.begin thread).next < after.next := by
      rw [hequal]
      exact Nat.lt_add_of_pos_right one_pos
    obtain ⟨⟨hkept, hothers⟩, hstarted⟩ := starts_turn (hbegun.inv hinv) hcapacity
      (congrArg World.chats hequal) hsaved.turnId (congrArg World.active hequal)
      (congrArg World.turnOf hequal) hnext (by rw [hequal]; rfl) (by rw [hequal]; rfl)
    exact ⟨⟨hkept, fun other hother ↦ (hbegun.rely other).trans (hothers other hother)⟩, hstarted⟩

theorem safe_starts {program : ConversationProgram Unit} (h : Starts settings program)
    (hknown : world.turnOf thread = none) :
    Safe (turns settings) thread program world fun _ after ↦ Released thread after := by
  have hrequest : ∀ {program : ConversationProgram Unit}, program.Asks RequestCall →
      Safe (turns settings) thread program world fun _ after ↦ Released thread after := by
    intro program hasks
    refine (safe_request hasks hknown).mono fun outcome after hnone turn hturn ↦ ?_
    rw [hnone] at hturn
    cases hturn
  have hraises : ∀ {α : Type} {program : ConversationProgram (Except Raised α)},
      program.Asks RequestCall → (raising program).Asks RequestCall :=
    fun hasks ↦ hasks.bind fun reply ↦ .ofExcept reply
  have hpreflight : ∀ key, (raising (ask (.preflight key)) : ConversationProgram Unit).Asks
      RequestCall := fun key ↦ hraises ⟨trivial, fun _ ↦ trivial⟩
  have hcancel : ∀ key, (cancel key).Asks RequestCall := fun key ↦
    (hpreflight key).bind fun _ ↦ hraises ⟨trivial, fun _ ↦ trivial⟩
  have hended : ∀ {after : World}, after.turnOf thread = none → Released thread after := by
    intro after hnone turn hturn
    rw [hnone] at hturn
    cases hturn
  cases h with
  | create owner modes =>
    have hcreate : (raising (ask (.create owner modes)) : ConversationProgram ℕ).Asks RequestCall :=
      hraises ⟨trivial, fun _ ↦ trivial⟩
    exact hrequest (hcreate.bind fun _ ↦ trivial)
  | preferences key modes expectedRevision => exact hrequest (hraises ⟨trivial, fun _ ↦ trivial⟩)
  | cancel key => exact hrequest (hcancel key)
  | delete key =>
    have hdelete : (raising (ask (.deleteChat key)) : ConversationProgram Unit).Asks RequestCall :=
      hraises ⟨trivial, fun _ ↦ trivial⟩
    exact hrequest ((hcancel key).bind fun _ ↦ hdelete.bind fun _ ↦ ⟨trivial, fun _ ↦ trivial⟩)
  | send key text expectedRevision =>
    refine Safe.bind ((safe_request (hpreflight key) hknown).mono fun outcome after hnone ↦ ?_)
    cases outcome with
    | error raised => exact hended hnone
    | ok value =>
      refine Safe.bind ((safe_admitSend key text expectedRevision hnone).mono
        fun outcome after hpost ↦ ?_)
      cases outcome with
      | error raised => exact hended hpost
      | ok turn => exact safe_run none hpost
  | approval key pendingId approved expectedRevision =>
    refine Safe.bind ((safe_request (hpreflight key) hknown).mono fun outcome after hnone ↦ ?_)
    cases outcome with
    | error raised => exact hended hnone
    | ok value =>
      refine Safe.bind ((safe_admitApproval key pendingId approved expectedRevision hnone).mono
        fun outcome after hpost ↦ ?_)
      cases outcome with
      | error raised => exact hended hpost
      | ok admitted => exact safe_run (some admitted.2) hpost

/-! ### Every run -/

theorem happens_shrinks (hinv : TurnInv settings before) (h : Happens before after)
    (hsteady : SteadyAuthority before after) : Shrinks before after := by
  cases h with
  | authority authority =>
    refine { Shrinks.same rfl le_rfl rfl rfl rfl rfl with
      found := fun key turn hactive hlost hold ↦ ?_ }
    by_contra hfound
    have hregained := hsteady key turn hactive hlost (Bool.not_eq_false _ ▸ hfound)
    rw [hinv.lost key turn hactive hlost] at hregained
    cases hregained
  | time clock => exact .same rfl le_rfl rfl rfl rfl rfl
  | expired keep =>
    refine .of_chats rfl le_rfl rfl rfl rfl fun key chat hchat hworking ↦ ?_
    simp only [Dictionary.get?_filter] at hchat
    exact ⟨chat, (Option.filter_eq_some_iff.1 hchat).1, hworking, rfl⟩
  | evicted keepText keepContinuation => exact .same rfl le_rfl rfl rfl rfl rfl
  | restarted keep =>
    refine ⟨rfl, le_rfl, fun key turn hactive ↦ (by cases hactive), fun key chat hchat hworking ↦ ?_,
      fun _ ↦ id, fun key turn hactive ↦ (by cases hactive), fun _ ↦ .inl⟩
    simp only [Dictionary.get?_mapValues, Option.map_eq_some_iff] at hchat
    obtain ⟨old, -, rfl⟩ := hchat
    unfold recover at hworking
    split at hworking
    · cases hworking
    · next hnot => exact absurd hworking hnot

/-- The pools of the service. -/
abbrev ConversationPool := Pool conversationInterface Raised World

/-- No assistant turn is leaked: the active turns are within the limits, the turn of a worker that has
ended is not active, and a chat is working only while its turn is active. -/
structure NoLeak (settings : Settings) (pool : ConversationPool) : Prop where
  total : pool.world.active.size ≤ settings.maximumConcurrentTurns
  own : ∀ owner, pool.world.ownTurns owner ≤ settings.maximumConcurrentTurnsPerUser
  released : ∀ thread turn, pool.world.turnOf thread = some turn → pool.unfinished thread = false →
    ∀ key, pool.world.active.get? key ≠ some turn
  working : ∀ key chat, pool.world.chats.get? key = some chat → chat.status = .working →
    ∃ turn, chat.turnId = some turn ∧ pool.world.active.get? key = some turn

theorem turnInv_initial (settings : Settings) : TurnInv settings World.initial where
  total := Nat.zero_le _
  own _ := Nat.zero_le _
  working _ _ hchat := by cases hchat
  active _ _ hactive := by cases hactive
  single _ _ _ hactive := by cases hactive
  turnOf _ _ hturn := by cases hturn
  lost _ _ hactive := by cases hactive
  unused _ _ := rfl

/-- No assistant turn is leaked. Assumes: a state that some interleaving of requests and workers
reaches, in which the handler of a worker and `_close_turn` do not fail, and the authority over a chat
does not come back after the worker of its active turn found it lost. -/
theorem no_turn_leaked (settings : Settings) (pool : ConversationPool)
    (hreach : Pool.Reachable (steadySemantics settings) (Starts settings) (· = World.initial) pool) :
    NoLeak settings pool := by
  have hguarded : (turns settings).Guarded (fun thread world ↦ world.turnOf thread = none)
      (fun thread _ after ↦ Released thread after) pool := by
    refine RelyGuarantee.reachable_guarded ?_ ?_ ?_ ?_ (fun before after hinv hhappens ↦ ?_) hreach
    · rintro world rfl
      exact turnInv_initial settings
    · rintro world rfl thread
      rfl
    · exact fun thread before after hrely hnone ↦ (TurnRely.turnOf hrely).trans hnone
    · exact fun program hstarts thread world _ hnone ↦ safe_starts hstarts hnone
    · have hshrinks := happens_shrinks hinv hhappens.1 hhappens.2
      exact ⟨hshrinks.inv hinv, hshrinks.rely⟩
  have hinv : TurnInv settings pool.world := hguarded.1
  refine ⟨hinv.total, hinv.own, fun thread turn hturn hended ↦ ?_, hinv.working⟩
  by_contra hbusy
  have hnot : ¬ Released thread pool.world := fun hreleased ↦ hbusy (hreleased turn hturn)
  have hunfinished := hguarded.unfinished (fun thread world hnone turn hturn ↦ by
    rw [hnone] at hturn
    cases hturn) (fun _ _ _ hreleased ↦ hreleased)
    (fun _ _ _ hrely hreleased ↦ Released.stable hreleased hrely) hnot
  rw [hended] at hunfinished
  cases hunfinished

/-! ### A turn that fails, and a chat that is deleted under a new turn -/

/-- The settings of a service without actions. -/
def sampleSettings : Settings where
  actions := Dictionary.empty
  toolName := "schemoo_actions"
  validateAction := fun _ ↦ none
  maximumConcurrentTurns := 1
  maximumConcurrentTurnsPerUser := 1
  maximumToolRounds := 1
  maximumReadQueriesPerBatch := 1
  proposalTtlSeconds := 60
  messageHistoryLimit := 10
  activityHistoryLimit := 10
  contextBytes := 1000
  proposalBytesPerTurn := 1000
  sizes := ⟨fun _ ↦ 0, fun _ _ ↦ 0⟩

/-- The world after a call that may fail. -/
def sampleOutcome (before : World) : Option World → Except Raised Unit × World
  | none => (.error .other, before)
  | some after => (.ok (), after)

/-- The answer of the handler. -/
def sampleFail (before : World) (key : Key) (turn : ℕ) : Except Raised Unit × World :=
  if before.authorized key turn then sampleOutcome before (before.failChat sampleSettings key)
  else (.ok (), before.noteAuthority key turn)

/-- The answer of `_close_turn`. -/
def sampleClose (before : World) (key : Key) (turn : ℕ) : Except Raised Unit × World :=
  if before.active.get? key = some turn then
    match before.chats.get? key with
    | none => (.error .other, before)
    | some chat =>
      if before.mustRevoke key turn chat then
        match before.revokeChat sampleSettings key with
        | none => (.error .other, before)
        | some after => (.ok (), after.endTurn key)
      else (.ok (), { before with active := before.active.erase key })
  else (.ok (), before)

/-- Answers of a store that does not fail, and of a provider that does. -/
def sampleReply (thread : ℕ) (before : World) : (request : ConversationCall) →
    request.Reply × World
  | .preflight _ => (.ok (), before)
  | .create owner modes =>
    match before.create sampleSettings owner modes with
    | none => (.error .other, before)
    | some after => (.ok before.next, after)
  | .admitSend key text expectedRevision =>
    match before.admitSend sampleSettings thread key text expectedRevision with
    | none => (.error .other, before)
    | some after => (.ok before.next, after)
  | .changePreferences key modes expectedRevision =>
    sampleOutcome before (before.changePreferences sampleSettings key modes expectedRevision)
  | .cancelTurn key => sampleOutcome before (before.cancelTurn sampleSettings key)
  | .deleteChat key =>
    if before.chats.contains key then (.ok (), { before with chats := before.chats.erase key })
    else (.error .other, before)
  | .forgetTransient key =>
    ((), { before with transient := before.transient.filter fun cached _ ↦ decide (cached.1 ≠ key) })
  | .admitApproval _ _ _ _ => (.error .other, before)
  | .authorized key turn => (before.authorized key turn, before.noteAuthority key turn)
  | .openChat key _ =>
    match before.chats.get? key with
    | none => (.error .other, before)
    | some chat => (.ok chat, before)
  | .requireAvailable _ _ => (.error .other, before)
  | .takeContinuation key _ =>
    (before.continuations.get? key, { before with continuations := before.continuations.erase key })
  | .checkAction key turn _ _ => (.error .other, before.noteAuthority key turn)
  | .dispatch _ _ _ _ _ => (none, before)
  | .awaitAction key turn number => (.failed, before.log (.finished key turn number .failed))
  | .record _ _ _ _ => (.error .other, before)
  | .watch _ _ => (.ok (), before)
  | .provider key turn messages => (.error .other, before.log (.requested key turn messages))
  | .readModes _ _ => (.error .other, before)
  | .pause _ _ _ _ _ => (.error .other, before)
  | .finish _ _ _ _ => (.error .other, before)
  | .fail key turn => sampleFail before key turn
  | .close key turn => sampleClose before key turn

theorem sampleReply_performs (thread : ℕ) (before : World) (request : ConversationCall) :
    Performs sampleSettings thread before request (sampleReply thread before request).1
      (sampleReply thread before request).2 := by
  cases request with
  | create owner modes =>
    simp only [sampleReply]
    split
    · exact .notCreated _ _ _
    · next hafter => exact .created _ _ _ hafter
  | admitSend key text expectedRevision =>
    simp only [sampleReply]
    split
    · exact .notSent _ _ _ _
    · next hafter => exact .sent _ _ _ _ hafter
  | changePreferences key modes expectedRevision =>
    simp only [sampleReply, sampleOutcome]
    split
    · exact .notChanged _ _ _ _
    · next hafter => exact .changed _ _ _ _ hafter _
  | cancelTurn key =>
    simp only [sampleReply, sampleOutcome]
    split
    · exact .notCancelled _ _
    · next hafter => exact .cancelled _ _ hafter _
  | deleteChat key =>
    simp only [sampleReply]
    split
    · next hchat => exact .deleted _ hchat _
    · exact .notDeleted _ _
  | openChat key turn =>
    simp only [sampleReply]
    split
    · exact .notOpened _ _
    · next hchat => exact .opened _ _ _ hchat
  | fail key turn =>
    change Performs sampleSettings thread before (.fail key turn) (sampleFail before key turn).1
      (sampleFail before key turn).2
    unfold sampleFail
    split
    · next hauthorized =>
      unfold sampleOutcome
      split
      · exact .notFailed _ _ hauthorized
      · next hafter => exact .failed _ _ _ hauthorized hafter
    · next hauthorized => exact .mayNotFail _ _ (by simpa using hauthorized)
  | close key turn =>
    change Performs sampleSettings thread before (.close key turn) (sampleClose before key turn).1
      (sampleClose before key turn).2
    unfold sampleClose
    split
    · next hactive =>
      split
      · exact .notClosed _ _ hactive
      next chat hchat =>
      split
      · next hrevoke =>
        split
        · exact .notClosed _ _ hactive
        · next hafter => exact .revoked _ _ _ _ hactive hchat hrevoke hafter
      · next hrevoke => exact .closed _ _ _ hactive hchat (by simpa using hrevoke)
    · next hactive => exact .superseded _ _ hactive
  | preflight key => exact .preflight _ _
  | forgetTransient key => exact .forgotten _
  | admitApproval key pendingId approved expectedRevision => exact .notApproved _ _ _ _ _
  | authorized key turn => exact .authorized _ _
  | requireAvailable key turn => exact .notAvailable _ _
  | takeContinuation key turn => exact .taken _ _
  | checkAction key turn operation approved => exact .notChecked _ _ _ _
  | dispatch key turn action approved position => exact .notDispatched _ _ _ _ _
  | awaitAction key turn number => exact .ended _ _ _ _
  | record key turn operation status => exact .notRecorded _ _ _ _
  | watch key turn => exact .inTime _ _
  | provider key turn messages => exact .notReplied _ _ _
  | readModes key turn => exact .notRead _ _
  | pause key turn actions sensitive continuation => exact .notPaused _ _ _ _ _
  | finish key turn reply sensitive => exact .notAnswered _ _ _ _

/-- The answers, to programs. -/
def sampleAnswer (thread : ℕ) (request : ConversationCall) (world : World) :
    request.Reply × World :=
  sampleReply thread (world.begin thread) request

/-- Whether the service runs. -/
def sampleRuns (thread : ℕ) (_ : ConversationCall) (world : World) : Bool := !world.stopped thread

/-- Whether it runs, and the handler and `_close_turn` do not fail. -/
def sampleSteady (thread : ℕ) (request : ConversationCall) (world : World) : Bool :=
  !world.stopped thread &&
    match request with
    | .fail key turn => (sampleFail (world.begin thread) key turn).1.isOk
    | .close key turn => (sampleClose (world.begin thread) key turn).1.isOk
    | _ => true

theorem sampleAnswer_acts {thread : ℕ} {request : ConversationCall} {world : World}
    (h : sampleRuns thread request world = true) :
    Acts sampleSettings thread request world (sampleAnswer thread request world).1
      (sampleAnswer thread request world).2 :=
  ⟨by simpa [sampleRuns] using h, sampleReply_performs thread (world.begin thread) request⟩

theorem eq_ok_of_isOk {outcome : Except Raised Unit} (h : outcome.isOk = true) :
    outcome = Except.ok () := by
  cases outcome with
  | error raised => cases h
  | ok value => rfl

theorem sampleAnswer_steady {thread : ℕ} {request : ConversationCall} {world : World}
    (h : sampleSteady thread request world = true) :
    Acts sampleSettings thread request world (sampleAnswer thread request world).1
      (sampleAnswer thread request world).2 ∧
      Steady request (sampleAnswer thread request world).1 := by
  unfold sampleSteady at h
  rw [Bool.and_eq_true] at h
  refine ⟨sampleAnswer_acts h.1, ?_⟩
  cases request with
  | fail key turn => exact eq_ok_of_isOk h.2
  | close key turn => exact eq_ok_of_isOk h.2
  | _ => trivial

/-- A service in which a chat is created, deleted and written to. -/
def samplePool (expectedRevision : ℕ) : ConversationPool where
  world := World.initial
  threads := Function.update (Function.update (Function.update (fun _ ↦ none) 0
    (some (Program.bind (raising (ask (.create "ada" Dictionary.empty))) fun _ ↦ .done ()))) 1
    (some (delete ("ada", 0)))) 2
    (some (send sampleSettings ("ada", 0) "hello" expectedRevision))
  spawned := 3

theorem samplePool_reachable (S : Semantics conversationInterface World) (expectedRevision : ℕ) :
    Pool.Reachable S (Starts sampleSettings) (· = World.initial) (samplePool expectedRevision) := by
  have hinitial : Pool.Reachable S (Starts sampleSettings) (· = World.initial)
      (Pool.initial World.initial) := ⟨World.initial, rfl, .refl⟩
  have hcreate := hinitial.step (.spawn _ (.create "ada" Dictionary.empty))
  have hdelete := hcreate.step (.spawn _ (.delete ("ada", 0)))
  exact hdelete.step (.spawn _ (.send ("ada", 0) "hello" expectedRevision))

/-- A turn whose provider fails is released, and its chat has failed. -/
theorem failed_turn_released :
    NoLeak sampleSettings ((samplePool 1).follow sampleAnswer [0, 2, 2, 2, 2, 2, 2, 2, 2, 2, 2]) ∧
    ((samplePool 1).follow sampleAnswer [0, 2, 2]).world.active.get? ("ada", 0) = some 1 ∧
    ((samplePool 1).follow sampleAnswer [0, 2, 2, 2, 2, 2, 2, 2, 2, 2, 2]).world.active.get?
      ("ada", 0) = none ∧
    (((samplePool 1).follow sampleAnswer [0, 2, 2, 2, 2, 2, 2, 2, 2, 2, 2]).world.chats.get?
      ("ada", 0)).map Chat.status = some .failed := by
  have hreach : Pool.Reachable (steadySemantics sampleSettings) (Starts sampleSettings)
      (· = World.initial)
      ((samplePool 1).follow sampleAnswer [0, 2, 2, 2, 2, 2, 2, 2, 2, 2, 2]) :=
    (samplePool_reachable _ 1).allows sampleSteady
      (fun _ _ _ hsteady ↦ sampleAnswer_steady hsteady) _ (by decide)
  exact ⟨no_turn_leaked _ _ hreach, by decide, by decide, by decide⟩

/-- A `delete` cancels a chat, a `send` starts a turn of it, and the `delete` goes on: the worker of the
turn ends, and the turn stays active. -/
theorem deleted_chat_keeps_turn : ∃ pool : ConversationPool,
    Pool.Reachable (conversationSemantics sampleSettings) (Starts sampleSettings)
      (· = World.initial) pool ∧
      pool.world.turnOf 2 = some 1 ∧ pool.unfinished 2 = false ∧
      pool.world.active.get? ("ada", 0) = some 1 ∧
      pool.world.hasCapacity sampleSettings "ada" = false ∧ ¬ NoLeak sampleSettings pool := by
  refine ⟨(samplePool 2).follow sampleAnswer [0, 1, 1, 2, 2, 1, 1, 2, 2, 2, 2],
    (samplePool_reachable _ 2).allows sampleRuns
      (fun _ _ _ hruns ↦ sampleAnswer_acts hruns) _ (by decide), by decide,
    by decide, by decide, by decide, fun hleak ↦ ?_⟩
  exact hleak.released 2 1 (by decide) (by decide) ("ada", 0) (by decide)

end Schemii.Conversations
