import Mathlib.Tactic

/-!
# Undo timelines

What an undo stack is for, over any type of documents and any type of group names. A `Timeline`
records logical actions: each knows the document it started from and the document it produced. The
past is listed from the most recent action, the future from the next action to redo. An edit in the
group of the most recent action extends that action; any other edit starts a new one, and both
discard the future. An undo returns to the document before the most recent action, and a redo to the
document after the next one.

The two link fields say that every action starts from the document its predecessor left, so that a
timeline that does not come from a run of edits cannot be built.
-/

set_option autoImplicit false

namespace Schemii.Foundations

universe u v

/-- A logical action: the group it was made in, the document it started from and the document it
produced. -/
structure Action (G : Type u) (C : Type v) where
  group : G
  before : C
  after : C

/-- The document after a past, listed from its most recent action. -/
def documentAfter {G : Type u} {C : Type v} (start : C) : List (Action G C) → C
  | [] => start
  | action :: _ => action.after

/-- Every action of a past starts from the document the older actions left. -/
def PastLinked {G : Type u} {C : Type v} (start : C) : List (Action G C) → Prop
  | [] => True
  | action :: older => action.before = documentAfter start older ∧ PastLinked start older

/-- Every action of a future starts from the document its predecessor left. -/
def FutureLinked {G : Type u} {C : Type v} : C → List (Action G C) → Prop
  | _, [] => True
  | current, action :: later => action.before = current ∧ FutureLinked action.after later

/-- A document's start, its past and its future. -/
structure Timeline (G : Type u) (C : Type v) where
  start : C
  past : List (Action G C)
  future : List (Action G C)
  past_linked : PastLinked start past
  future_linked : FutureLinked (documentAfter start past) future

namespace Timeline

variable {G : Type u} {C : Type v}

/-- The document at the cursor. -/
def current (timeline : Timeline G C) : C :=
  documentAfter timeline.start timeline.past

/-- A timeline on which nothing has happened. -/
def fresh (start : C) : Timeline G C where
  start := start
  past := []
  future := []
  past_linked := trivial
  future_linked := trivial

/-- Save a document in a group: extend the action the cursor is on when it has the same group,
start a new action otherwise, and discard the future. -/
def edit [DecidableEq G] (timeline : Timeline G C) (group : G) (content : C) : Timeline G C :=
  match timeline with
  | ⟨start, [], _, _, _⟩ => ⟨start, [⟨group, start, content⟩], [], ⟨rfl, trivial⟩, trivial⟩
  | ⟨start, action :: older, _, hlinked, _⟩ =>
    if action.group = group then
      ⟨start, { action with after := content } :: older, [], ⟨hlinked.1, hlinked.2⟩, trivial⟩
    else
      ⟨start, ⟨group, action.after, content⟩ :: action :: older, [], ⟨rfl, hlinked⟩, trivial⟩

/-- Take back the most recent action. -/
def undo : Timeline G C → Timeline G C
  | ⟨start, [], future, hpast, hfuture⟩ => ⟨start, [], future, hpast, hfuture⟩
  | ⟨start, action :: older, future, hpast, hfuture⟩ =>
    ⟨start, older, action :: future, hpast.2, ⟨hpast.1, hfuture⟩⟩

/-- Repeat the next action of the future. -/
def redo : Timeline G C → Timeline G C
  | ⟨start, past, [], hpast, hfuture⟩ => ⟨start, past, [], hpast, hfuture⟩
  | ⟨start, past, action :: later, hpast, hfuture⟩ =>
    ⟨start, action :: past, later, ⟨hfuture.1, hpast⟩, hfuture.2⟩

/-- The document immediately before the logical action the cursor is on. -/
def beforeAction? (timeline : Timeline G C) : Option C :=
  timeline.past.head?.map Action.before

/-- An undo brings back the document immediately before the action the cursor was on. Assumes: the
cursor is on an action. -/
theorem current_undo {timeline : Timeline G C} {content : C}
    (h : timeline.beforeAction? = some content) : timeline.undo.current = content := by
  obtain ⟨start, past, future, hpast, hfuture⟩ := timeline
  cases past with
  | nil => simp [beforeAction?] at h
  | cons action older =>
    have hbefore : action.before = content := by simpa [beforeAction?] using h
    rw [← hbefore]
    exact hpast.1.symm

variable (timeline : Timeline G C)

@[simp]
theorem past_undo : timeline.undo.past = timeline.past.tail := by
  obtain ⟨start, past, future, hpast, hfuture⟩ := timeline
  cases past <;> rfl

@[simp]
theorem start_undo : timeline.undo.start = timeline.start := by
  obtain ⟨start, past, future, hpast, hfuture⟩ := timeline
  cases past <;> rfl

theorem future_undo :
    timeline.undo.future = timeline.past.head?.toList ++ timeline.future := by
  obtain ⟨start, past, future, hpast, hfuture⟩ := timeline
  cases past <;> rfl

@[simp]
theorem start_redo : timeline.redo.start = timeline.start := by
  obtain ⟨start, past, future, hpast, hfuture⟩ := timeline
  cases future <;> rfl

@[simp]
theorem future_redo : timeline.redo.future = timeline.future.tail := by
  obtain ⟨start, past, future, hpast, hfuture⟩ := timeline
  cases future <;> rfl

@[simp]
theorem start_edit [DecidableEq G] (group : G) (content : C) :
    (timeline.edit group content).start = timeline.start := by
  obtain ⟨start, past, future, hpast, hfuture⟩ := timeline
  cases past with
  | nil => rfl
  | cons action older =>
    simp only [edit]
    split_ifs <;> rfl

@[simp]
theorem future_edit [DecidableEq G] (group : G) (content : C) :
    (timeline.edit group content).future = [] := by
  obtain ⟨start, past, future, hpast, hfuture⟩ := timeline
  cases past with
  | nil => rfl
  | cons action older =>
    simp only [edit]
    split_ifs <;> rfl

/-- The past after an edit: the most recent action is extended when it has the group of the edit,
and a new action is put before it otherwise. -/
theorem past_edit [DecidableEq G] (group : G) (content : C) :
    (timeline.edit group content).past =
      match timeline.past with
      | [] => [⟨group, timeline.start, content⟩]
      | action :: older =>
        if action.group = group then { action with after := content } :: older
        else ⟨group, action.after, content⟩ :: action :: older := by
  obtain ⟨start, past, future, hpast, hfuture⟩ := timeline
  cases past with
  | nil => rfl
  | cons action older =>
    simp only [edit]
    split_ifs <;> rfl

end Timeline

end Schemii.Foundations
