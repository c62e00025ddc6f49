import Schemii.Migrations.MergeSafety

/-!
# Merging again with resolutions

A user resolves the conflicts of a review by choosing a side for each, and the merger of
`migrations/planner.py` runs again with the choices. Whatever the resolutions, the merger takes the
same step at each path (`Merger.stepAt`); they are looked up only where it reports a conflict.

* `mergeWithin_eq_of_free`: where a merge reports no conflict, resolutions change nothing.
* `agrees_mergeWithin`: at every path that is not at or below a conflict, the two merges agree. What
  lies above a conflict is the same container with the same parts in the same order, apart from the
  parts in conflict.
* `resolutions_local_and_complete`: when every conflict of a review is given a side, no conflict is
  left, each place in conflict has the value of the chosen side, and nothing else changes.
-/

set_option autoImplicit false

namespace Schemii.Migrations

open Foundations Common

variable {N : Type} [DecidableEq N]
variable {baseline design live : Option Json} {names : List String} {path : List PathStep}

/-! ### Containers -/

/-- The values on which the merger walks. -/
inductive Container
  | dictionary
  | list
  deriving DecidableEq, Repr

/-- The step to a part of a container. -/
def Container.step : Container → String → PathStep
  | .dictionary, key => .field key
  | .list, id => .item id

/-- A container built of the parts that are there. -/
def Container.build : Container → List String → (String → Option Json) → Json
  | .dictionary, keys, part => .object (keys.filterMap fun key ↦ (part key).map fun value ↦
      (key, value))
  | .list, order, part => .array (order.filterMap part)

/-- What kind of container a value is. -/
def containerOf : Option Json → Option Container
  | some (.object _) => some .dictionary
  | some (.array items) => if isIdList (.array items) then some .list else none
  | _ => none

/-- The steps to the parts of a value, in order. -/
def partsOf : Option Json → List PathStep
  | some (.object fields) => fields.map fun field ↦ .field field.1
  | some (.array items) => (itemIds items).map .item
  | _ => []

/-- The parts that an item of a list may be built of: those that have its identifier. -/
def Container.Fits (container : Container) (part : String → Option Json) : Prop :=
  container = .list → ∀ id value, part id = some value → identifier value = some id

variable {container : Container} {part : String → Option Json}

theorem containerOf_build (h : container.Fits part) :
    containerOf (some (container.build names part)) = some container := by
  cases container with
  | dictionary => rfl
  | list =>
    obtain ⟨hlist, -⟩ := itemOf_filterMap names (h rfl)
    exact if_pos hlist

theorem partsOf_build (h : container.Fits part) :
    partsOf (some (container.build names part)) =
      (names.filter fun name ↦ (part name).isSome).map container.step := by
  induction names with
  | nil => cases container <;> rfl
  | cons first names ih =>
    cases container with
    | dictionary =>
      simp only [Container.build, partsOf] at ih ⊢
      cases hpart : part first with
      | none => simpa [hpart] using ih
      | some value => simpa [hpart, Container.step] using ih
    | list =>
      simp only [Container.build, partsOf, itemIds] at ih ⊢
      cases hpart : part first with
      | none => simpa [hpart] using ih
      | some value => simpa [hpart, Container.step, h rfl first value hpart] using ih

/-- Assumes: parts that fit. What is below what was built is the part, if it was named. -/
theorem below_build (h : container.Fits part) (step : PathStep) :
    designDocuments.below (some (container.build names part)) step =
      if step ∈ names.map container.step then
        (match step with | .field name => part name | .item name => part name)
      else none := by
  cases container with
  | dictionary =>
    cases step with
    | item id => simp [Documents.below, designDocuments, Container.build, Container.step, childAt]
    | field key =>
      change List.lookup key _ = _
      rw [lookup_filterMap names part key]
      simp [Container.step]
  | list =>
    obtain ⟨hlist, hitems⟩ := itemOf_filterMap names (h rfl)
    cases step with
    | field key => simp [Documents.below, designDocuments, Container.build, Container.step, childAt]
    | item id =>
      change (if isIdList (.array _) then itemOf _ id else none) = _
      rw [if_pos hlist, hitems id]
      simp [Container.step]

/-! ### One step of the merger -/

/-- What the merger does at a path. -/
inductive MergeStep
  | settled (value : Option Json) (external : List ExternalChange)
  | clash (category : ConflictCategory)
  | walk (container : Container) (names : List String)

/-- What the merger does at a path, before it looks up a resolution. -/
def Merger.stepAt (M : Merger N) (path : List PathStep) (baseline design live : Option Json) :
    MergeStep :=
  if design.isNone ∧ live.isNone then .settled none []
  else if M.same path design live then .settled design []
  else if baseline.isSome ∧ (design.isNone ∨ live.isNone) then .clash .structural
  else if dictionaryOrMissing baseline ∧ dictionaryOrMissing design ∧ dictionaryOrMissing live then
    .walk .dictionary
      (extendNew (extendNew (extendNew [] (keysOf baseline)) (keysOf design)) (keysOf live))
  else if idListOrMissing baseline ∧ idListOrMissing design ∧ idListOrMissing live then
    .walk .list (extendNew (extendNew (extendNew [] (idsOf design)) (idsOf baseline)) (idsOf live))
  else if M.same path design baseline then
    .settled live
      (if M.same path live baseline then [] else [M.externalChange path baseline live])
  else if M.same path live baseline then .settled design []
  else .clash .direct

/-- The merge one step below. -/
def Merger.mergeBelow (M : Merger N) (depth : ℕ) (path : List PathStep)
    (baseline design live : Option Json) (step : PathStep) : Merged :=
  M.mergeWithin depth (path ++ [step]) (designDocuments.below baseline step)
    (designDocuments.below design step) (designDocuments.below live step)

theorem mergeWithin_succ (M : Merger N) (depth : ℕ) (path : List PathStep)
    (baseline design live : Option Json) :
    M.mergeWithin (depth + 1) path baseline design live =
      match M.stepAt path baseline design live with
      | .settled value external => ⟨value, external, []⟩
      | .clash category => M.conflict category path baseline design live
      | .walk container names =>
        ⟨some (container.build names fun name ↦
            (M.mergeBelow depth path baseline design live (container.step name)).value),
          names.flatMap fun name ↦
            (M.mergeBelow depth path baseline design live (container.step name)).external,
          names.flatMap fun name ↦
            (M.mergeBelow depth path baseline design live (container.step name)).conflicts⟩ := by
  unfold Merger.mergeWithin Merger.stepAt
  split_ifs <;> rfl

/-- The merger with other resolutions. -/
def Merger.resolving (M : Merger N) (resolutions : String → Option Side) : Merger N where
  checkColumnTypes := M.checkColumnTypes
  identifier := M.identifier
  resolutions := resolutions

theorem stepAt_resolving (M : Merger N) (resolutions : String → Option Side)
    (path : List PathStep) (baseline design live : Option Json) :
    (M.resolving resolutions).stepAt path baseline design live =
      M.stepAt path baseline design live := rfl

/-- The containers on which the merger walks: where it walks, each document has nothing under a step
that is not named, and the items of lists have the identifiers they are named by. -/
structure WalksOn (container : Container) (names : List String) (value : Option Json) : Prop where
  unnamed : ∀ step ∉ names.map container.step, designDocuments.below value step = none
  named : container = .list → ∀ id item,
    designDocuments.below value (container.step id) = some item → identifier item = some id

variable {value : Option Json}

theorem walksOn_dictionary
    (hvalue : dictionaryOrMissing value = true) (hnames : ∀ key ∈ keysOf value, key ∈ names) :
    WalksOn .dictionary names value where
  unnamed := by
    intro step hstep
    refine below_of_not_mem_keysOf hvalue ?_
    rintro key hkey rfl
    exact hstep (List.mem_map.mpr ⟨key, hnames key hkey, rfl⟩)
  named := nofun

/-- Assumes: lists of identified objects, or nothing, whose identifiers are among the names. -/
theorem walksOn_list
    (hvalue : idListOrMissing value = true) (hnames : ∀ id ∈ idsOf value, id ∈ names) :
    WalksOn .list names value where
  unnamed := by
    intro step hstep
    refine below_of_not_mem_idsOf hvalue ?_
    rintro id hid rfl
    exact hstep (List.mem_map.mpr ⟨id, hnames id hid, rfl⟩)
  named := fun _ _ _ hitem ↦ identifier_below hvalue hitem

theorem walksOn_of_stepAt {M : Merger N}
    (h : M.stepAt path baseline design live = .walk container names) :
    WalksOn container names baseline ∧ WalksOn container names design ∧
      WalksOn container names live := by
  unfold Merger.stepAt at h
  split_ifs at h
  next hdictionaries =>
    obtain ⟨rfl, rfl⟩ := MergeStep.walk.inj h
    obtain ⟨hb, hd, hl⟩ := hdictionaries
    refine ⟨walksOn_dictionary hb fun key hkey ↦ ?_, walksOn_dictionary hd fun key hkey ↦ ?_,
      walksOn_dictionary hl fun key hkey ↦ ?_⟩ <;>
    · simp only [mem_extendNew]
      tauto
  next hlists =>
    obtain ⟨rfl, rfl⟩ := MergeStep.walk.inj h
    obtain ⟨hb, hd, hl⟩ := hlists
    refine ⟨walksOn_list hb fun id hid ↦ ?_, walksOn_list hd fun id hid ↦ ?_,
      walksOn_list hl fun id hid ↦ ?_⟩ <;>
    · simp only [mem_extendNew]
      tauto

section Walking

variable {M : Merger N} {depth : ℕ} {path : List PathStep} {baseline design live : Option Json}
  {container : Container} {names : List String}
  (h : M.stepAt path baseline design live = .walk container names)

include h in
theorem mergeBelow_unnamed {step : PathStep} (hstep : step ∉ names.map container.step) :
    M.mergeBelow depth path baseline design live step = ⟨none, [], []⟩ := by
  obtain ⟨hb, hd, hl⟩ := walksOn_of_stepAt h
  exact mergeWithin_of_missing M (hb.unnamed step hstep) (hd.unnamed step hstep)
    (hl.unnamed step hstep)

include h in
/-- Assumes: the merger walks, and a bound above the depths of both sides. The parts that are merged
fit the container. -/
theorem fits_mergeBelow
    (hdesign : DepthBelow (depth + 1) design) (hlive : DepthBelow (depth + 1) live) :
    container.Fits fun name ↦
      (M.mergeBelow depth path baseline design live (container.step name)).value := by
  intro hlist id value hvalue
  obtain ⟨hb, hd, hl⟩ := walksOn_of_stepAt h
  exact identifier_mergeWithin M (fun item ↦ hb.named hlist id item)
    (fun item ↦ hd.named hlist id item) (fun item ↦ hl.named hlist id item)
    ⟨hdesign.child _, hlive.child _⟩ hvalue

include h in
/-- Assumes: the merger walks, and a bound above the depths of both sides. What is below the merged
value is what was merged below. -/
theorem below_mergeWithin
    (hdesign : DepthBelow (depth + 1) design) (hlive : DepthBelow (depth + 1) live)
    (step : PathStep) :
    designDocuments.below (M.mergeWithin (depth + 1) path baseline design live).value step =
      (M.mergeBelow depth path baseline design live step).value := by
  rw [mergeWithin_succ, h]
  refine (below_build (fits_mergeBelow h hdesign hlive) step).trans ?_
  split
  next hnamed =>
    obtain ⟨name, -, rfl⟩ := List.mem_map.mp hnamed
    cases container <;> rfl
  next hunnamed => rw [mergeBelow_unnamed h hunnamed]

variable {conflict : Conflict}

include h in
theorem mem_conflicts_walk :
    conflict ∈ (M.mergeWithin (depth + 1) path baseline design live).conflicts ↔
      ∃ step, conflict ∈ (M.mergeBelow depth path baseline design live step).conflicts := by
  rw [mergeWithin_succ, h, List.mem_flatMap]
  constructor
  · rintro ⟨name, -, hconflict⟩
    exact ⟨_, hconflict⟩
  · rintro ⟨step, hconflict⟩
    by_cases hnamed : step ∈ names.map container.step
    · obtain ⟨name, hname, rfl⟩ := List.mem_map.mp hnamed
      exact ⟨name, hname, hconflict⟩
    · rw [mergeBelow_unnamed h hnamed] at hconflict
      exact nomatch hconflict

theorem prefix_of_mem_mergeBelow {step : PathStep}
    (h : conflict ∈ (M.mergeBelow depth path baseline design live step).conflicts) :
    path ++ [step] <+: conflict.path := by
  obtain ⟨rest, hpath, -⟩ := names_of_mem_conflicts M h
  exact ⟨rest, hpath.symm⟩

include h in
/-- Assumes: the merger walks. A conflict at, above or below a path under a step is one of the merge
below the step. -/
theorem mem_mergeBelow_of_comparable
    {step : PathStep} {rest : List PathStep}
    (hconflict : conflict ∈ (M.mergeWithin (depth + 1) path baseline design live).conflicts)
    (hcomparable : conflict.path <+: path ++ step :: rest ∨ path ++ step :: rest <+: conflict.path) :
    conflict ∈ (M.mergeBelow depth path baseline design live step).conflicts := by
  obtain ⟨other, hother⟩ := (mem_conflicts_walk h).mp hconflict
  obtain ⟨tail, htail⟩ := prefix_of_mem_mergeBelow hother
  have hsame : other = step := by
    rw [← htail, List.append_assoc, List.singleton_append, List.prefix_append_right_inj,
      List.prefix_append_right_inj] at hcomparable
    rcases hcomparable with hinitial | hinitial
    · exact (List.cons_prefix_cons.mp hinitial).1
    · exact (List.cons_prefix_cons.mp hinitial).1.symm
  exact hsame ▸ hother

end Walking

/-! ### Where two merges agree -/

/-- What two values are at a path, for a list of conflicts: when no conflict is at or above the path
the values are the same, or, when a conflict is below, they are containers of one kind that have the
same parts in the same order, apart from the parts in conflict. -/
structure AgreesAt (conflicts : List Conflict) (path : List PathStep)
    (before after : Option Json) : Prop where
  same : (∀ conflict ∈ conflicts, ¬ conflict.path <+: path) →
    (∀ conflict ∈ conflicts, ¬ path <+: conflict.path) → after = before
  container : (∀ conflict ∈ conflicts, ¬ conflict.path <+: path) →
    (∃ conflict ∈ conflicts, path <+: conflict.path) →
      (containerOf before).isSome ∧ containerOf after = containerOf before ∧
        ((partsOf after).filter fun step ↦ path ++ [step] ∉ conflicts.map Conflict.path) =
          (partsOf before).filter fun step ↦ path ++ [step] ∉ conflicts.map Conflict.path

/-- Assumes: one value is missing exactly when a container is none. A container is there. -/
theorem isSome_of_containerOf (h : (containerOf value).isSome) :
    value.isSome := by
  cases value with
  | none => cases h
  | some present => rfl

/-- Assumes: values that agree at a path without a conflict at or above it. Both are there or both
are missing. -/
theorem AgreesAt.isSome_eq {conflicts : List Conflict}
    {before after : Option Json} (h : AgreesAt conflicts path before after)
    (hfree : ∀ conflict ∈ conflicts, ¬ conflict.path <+: path) : after.isSome = before.isSome := by
  by_cases hbelow : ∃ conflict ∈ conflicts, path <+: conflict.path
  · obtain ⟨hsome, hsame, -⟩ := h.container hfree hbelow
    rw [isSome_of_containerOf hsome, isSome_of_containerOf (hsame ▸ hsome)]
  · rw [h.same hfree fun conflict hconflict hinitial ↦ hbelow ⟨conflict, hconflict, hinitial⟩]

theorem agreesAt_of_free (path : List PathStep) (value : Option Json) :
    AgreesAt [] path value value where
  same := fun _ _ ↦ rfl
  container := by
    rintro - ⟨conflict, hconflict, -⟩
    exact nomatch hconflict

section Again

variable (M : Merger N) (resolutions : String → Option Side) {depth : ℕ}

/-- Assumes: a merge without a conflict, and no resolutions. With resolutions it is the same. -/
theorem mergeWithin_eq_of_free (hopen : ∀ id, M.resolutions id = none)
    (h : (M.mergeWithin depth path baseline design live).conflicts = []) :
    (M.resolving resolutions).mergeWithin depth path baseline design live =
      M.mergeWithin depth path baseline design live := by
  induction depth generalizing path baseline design live with
  | zero => rfl
  | succ depth ih =>
    cases hstep : M.stepAt path baseline design live with
    | settled value external =>
      rw [mergeWithin_succ, mergeWithin_succ, stepAt_resolving, hstep]
    | clash category =>
      rw [mergeWithin_succ, hstep] at h
      simp [Merger.conflict, hopen] at h
    | walk container names =>
      have hbelow : ∀ step, (M.resolving resolutions).mergeBelow depth path baseline design live
          step = M.mergeBelow depth path baseline design live step := by
        intro step
        refine ih (List.eq_nil_iff_forall_not_mem.mpr fun conflict hconflict ↦ ?_)
        have hmem := (mem_conflicts_walk hstep).mpr ⟨step, hconflict⟩
        rw [h] at hmem
        exact nomatch hmem
      rw [mergeWithin_succ, mergeWithin_succ, stepAt_resolving, hstep]
      simp only [hbelow]

/-- Assumes: the merger walks, and the merges below each step agree at the step itself. The
containers that are built have the same parts, apart from the parts in conflict. -/
theorem container_of_walk {container : Container}
    (hstep : M.stepAt path baseline design live = .walk container names)
    (hdesign : DepthBelow (depth + 1) design) (hlive : DepthBelow (depth + 1) live)
    (hagree : ∀ step, AgreesAt (M.mergeBelow depth path baseline design live step).conflicts
      (path ++ [step]) (M.mergeBelow depth path baseline design live step).value
      ((M.resolving resolutions).mergeBelow depth path baseline design live step).value) :
    let before := M.mergeWithin (depth + 1) path baseline design live
    let after := (M.resolving resolutions).mergeWithin (depth + 1) path baseline design live
    (containerOf before.value).isSome ∧ containerOf after.value = containerOf before.value ∧
      ((partsOf after.value).filter fun step ↦
          path ++ [step] ∉ before.conflicts.map Conflict.path) =
        (partsOf before.value).filter fun step ↦
          path ++ [step] ∉ before.conflicts.map Conflict.path := by
  intro before after
  have hagain : (M.resolving resolutions).stepAt path baseline design live =
    .walk container names := hstep
  have hfits := fits_mergeBelow hstep hdesign hlive
  have hfitsAgain := fits_mergeBelow hagain hdesign hlive
  have hbefore : before.value = some (container.build names fun name ↦
      (M.mergeBelow depth path baseline design live (container.step name)).value) := by
    simp only [before, mergeWithin_succ, hstep]
  have hafter : after.value = some (container.build names fun name ↦
      ((M.resolving resolutions).mergeBelow depth path baseline design live
        (container.step name)).value) := by
    simp only [after, mergeWithin_succ, hagain]
  rw [hbefore, hafter, containerOf_build hfits, containerOf_build hfitsAgain,
    partsOf_build hfits, partsOf_build hfitsAgain]
  refine ⟨rfl, rfl, ?_⟩
  rw [List.filter_map, List.filter_map, List.filter_filter, List.filter_filter]
  congr 1
  refine List.filter_congr fun name _ ↦ ?_
  by_cases hconflict : path ++ [container.step name] ∈ before.conflicts.map Conflict.path
  · simp only [hconflict, not_true_eq_false, decide_false, Function.comp_apply, Bool.false_and]
  -- No conflict is at the step, so the part is there in both or missing in both.
  · have hfree : ∀ conflict ∈ (M.mergeBelow depth path baseline design live
        (container.step name)).conflicts, ¬ conflict.path <+: path ++ [container.step name] := by
      intro conflict hmem hinitial
      have hbelow := prefix_of_mem_mergeBelow hmem
      have hplace : conflict.path = path ++ [container.step name] :=
        hinitial.eq_of_length_le hbelow.length_le
      exact hconflict (List.mem_map.mpr ⟨conflict, (mem_conflicts_walk hstep).mpr ⟨_, hmem⟩, hplace⟩)
    rw [(hagree (container.step name)).isSome_eq hfree]

/-- Assumes: no resolutions, and a bound above the depths of both sides. With resolutions, the merge
agrees with the one before at every path. -/
theorem agrees_mergeWithin (hopen : ∀ id, M.resolutions id = none)
    (hdesign : DepthBelow depth design) (hlive : DepthBelow depth live) (rest : List PathStep) :
    AgreesAt (M.mergeWithin depth path baseline design live).conflicts (path ++ rest)
      (designDocuments.get (M.mergeWithin depth path baseline design live).value rest)
      (designDocuments.get
        ((M.resolving resolutions).mergeWithin depth path baseline design live).value rest) := by
  induction depth generalizing path baseline design live rest with
  | zero => exact agreesAt_of_free _ _
  | succ depth ih =>
    cases hstep : M.stepAt path baseline design live with
    | settled value external =>
      rw [mergeWithin_succ, mergeWithin_succ, stepAt_resolving, hstep]
      exact agreesAt_of_free _ _
    | clash category =>
      -- Every path is at or below the conflict.
      have hclash : (M.mergeWithin (depth + 1) path baseline design live).conflicts =
          [⟨M.identifier "mcf" path [valueOf baseline, valueOf design, valueOf live], category,
            path, baseline, design, live⟩] := by
        rw [mergeWithin_succ, hstep]
        simp [Merger.conflict, hopen]
      rw [hclash]
      exact ⟨fun hfree ↦ absurd (List.prefix_append _ _) (hfree _ (List.mem_singleton.mpr rfl)),
        fun hfree ↦ absurd (List.prefix_append _ _) (hfree _ (List.mem_singleton.mpr rfl))⟩
    | walk container names =>
      have hagree : ∀ step (rest : List PathStep), AgreesAt
          (M.mergeBelow depth path baseline design live step).conflicts (path ++ [step] ++ rest)
          (designDocuments.get (M.mergeBelow depth path baseline design live step).value rest)
          (designDocuments.get
            ((M.resolving resolutions).mergeBelow depth path baseline design live step).value
            rest) := fun step rest ↦ ih (hdesign.child step) (hlive.child step) rest
      cases rest with
      | nil =>
        rw [List.append_nil, Documents.get_nil, Documents.get_nil]
        refine ⟨fun _ hnone ↦ ?_, fun _ _ ↦ ?_⟩
        · have hempty : (M.mergeWithin (depth + 1) path baseline design live).conflicts = [] := by
            refine List.eq_nil_iff_forall_not_mem.mpr fun conflict hconflict ↦ ?_
            obtain ⟨below, hpath, -⟩ := names_of_mem_conflicts M hconflict
            exact hnone conflict hconflict ⟨below, hpath.symm⟩
          rw [mergeWithin_eq_of_free M resolutions hopen hempty]
        · refine container_of_walk M resolutions hstep hdesign hlive fun step ↦ ?_
          have hhere := hagree step []
          rwa [List.append_nil] at hhere
      | cons step rest =>
        have hagain : (M.resolving resolutions).stepAt path baseline design live =
          .walk container names := hstep
        have hbelow := hagree step rest
        rw [Documents.get_cons, Documents.get_cons, below_mergeWithin hstep hdesign hlive,
          below_mergeWithin hagain hdesign hlive]
        rw [List.append_assoc, List.singleton_append] at hbelow
        -- The conflicts that matter at the path are those below the step.
        have hsub : ∀ conflict ∈ (M.mergeBelow depth path baseline design live step).conflicts,
            conflict ∈ (M.mergeWithin (depth + 1) path baseline design live).conflicts :=
          fun conflict hconflict ↦ (mem_conflicts_walk hstep).mpr ⟨step, hconflict⟩
        refine ⟨fun hfree hnone ↦ ?_, fun hfree hsome ↦ ?_⟩
        · exact hbelow.same (fun conflict hconflict ↦ hfree conflict (hsub conflict hconflict))
            fun conflict hconflict ↦ hnone conflict (hsub conflict hconflict)
        · obtain ⟨conflict, hconflict, hinitial⟩ := hsome
          have hmem := mem_mergeBelow_of_comparable hstep hconflict (.inr hinitial)
          obtain ⟨hkind, hsame, hparts⟩ := hbelow.container
            (fun conflict hconflict ↦ hfree conflict (hsub conflict hconflict))
            ⟨conflict, hmem, hinitial⟩
          have hplaces : ∀ next, path ++ step :: rest ++ [next] ∈
              (M.mergeWithin (depth + 1) path baseline design live).conflicts.map Conflict.path ↔
              path ++ step :: rest ++ [next] ∈
                (M.mergeBelow depth path baseline design live step).conflicts.map
                  Conflict.path := by
            intro next
            simp only [List.mem_map]
            constructor
            · rintro ⟨other, hother, hplace⟩
              have hinitial : path ++ step :: rest <+: other.path := hplace ▸ List.prefix_append _ _
              exact ⟨other, mem_mergeBelow_of_comparable hstep hother (.inr hinitial), hplace⟩
            · rintro ⟨other, hother, hplace⟩
              exact ⟨other, hsub other hother, hplace⟩
          refine ⟨hkind, hsame, ?_⟩
          simp only [hplaces]
          exact hparts

/-- Assumes: no resolutions, and then one for every conflict that was reported. No conflict is
reported again. -/
theorem conflicts_resolving (hopen : ∀ id, M.resolutions id = none)
    (hall : ∀ conflict ∈ (M.mergeWithin depth path baseline design live).conflicts,
      (resolutions conflict.id).isSome) :
    ((M.resolving resolutions).mergeWithin depth path baseline design live).conflicts = [] := by
  induction depth generalizing path baseline design live with
  | zero => rfl
  | succ depth ih =>
    cases hstep : M.stepAt path baseline design live with
    | settled value external =>
      rw [mergeWithin_succ, stepAt_resolving, hstep]
    | clash category =>
      rw [mergeWithin_succ, hstep] at hall
      have hresolved : (resolutions (M.identifier "mcf" path
          [valueOf baseline, valueOf design, valueOf live])).isSome :=
        hall ⟨_, category, path, baseline, design, live⟩ (by simp [Merger.conflict, hopen])
      obtain ⟨side, hside⟩ := Option.isSome_iff_exists.mp hresolved
      rw [mergeWithin_succ, stepAt_resolving, hstep]
      cases side <;> simp [Merger.conflict, Merger.resolving, hside]
    | walk container names =>
      have hagain : (M.resolving resolutions).stepAt path baseline design live =
        .walk container names := hstep
      refine List.eq_nil_iff_forall_not_mem.mpr fun conflict hconflict ↦ ?_
      obtain ⟨step, hbelow⟩ := (mem_conflicts_walk hagain).mp hconflict
      have hnone : ((M.resolving resolutions).mergeBelow depth path baseline design live
          step).conflicts = [] :=
        ih fun other hother ↦ hall other ((mem_conflicts_walk hstep).mpr ⟨step, hother⟩)
      rw [hnone] at hbelow
      exact nomatch hbelow

end Again

/-! ### Resolving a review -/

section Resolving

variable (T : CheckRules N) (identifier : String → List PathStep → List Json → String)
  (baseline design live : Json) (resolutions : String → Option Side)

/-- The merge of three documents with the choices of a user. -/
def resolvedReview : Merged :=
  ((reviewer T identifier).resolving resolutions).merge [] (some baseline) (some design) (some live)

/-- Assumes: every conflict of a review is given a side. Merging again reports no conflict; at the
place of each conflict is the value of the chosen side, which may be missing; and at every path that
is not at or below a conflict the merge agrees with the review. -/
theorem resolutions_local_and_complete
    (h : ∀ conflict ∈ (review T identifier baseline design live).conflicts,
      (resolutions conflict.id).isSome) :
    (resolvedReview T identifier baseline design live resolutions).conflicts = [] ∧
    (∀ conflict ∈ (review T identifier baseline design live).conflicts, ∃ side,
      resolutions conflict.id = some side ∧
        designDocuments.get (resolvedReview T identifier baseline design live resolutions).value
            conflict.path =
          side.pick (valueAt design conflict.path) (valueAt live conflict.path)) ∧
    ∀ path, AgreesAt (review T identifier baseline design live).conflicts path
      (mergedAt T identifier baseline design live path)
      (designDocuments.get (resolvedReview T identifier baseline design live resolutions).value
        path) := by
  have hnone : (resolvedReview T identifier baseline design live resolutions).conflicts = [] :=
    conflicts_resolving (reviewer T identifier) resolutions (fun _ ↦ rfl) h
  refine ⟨hnone, fun conflict hconflict ↦ ?_, fun path ↦ ?_⟩
  · obtain ⟨rest, hpath, hid, -⟩ := names_of_mem_conflicts _ hconflict
    obtain rfl : conflict.path = rest := hpath
    obtain ⟨harrives, hclash⟩ := ((merges_review T identifier baseline design live).conflict_iff
      conflict.path).mp ⟨conflict, hconflict, rfl⟩
    have hmerges := merges_merge ((reviewer T identifier).resolving resolutions) [] (some baseline)
      (some design) (some live)
    have hempty : (((reviewer T identifier).resolving resolutions).merge [] (some baseline)
        (some design) (some live)).conflictPaths = ∅ := by
      have hconflicts := hnone
      unfold resolvedReview at hconflicts
      simp [Merged.conflictPaths, hconflicts]
    obtain ⟨side, hside, hpick⟩ := hmerges.resolved hempty harrives hclash
    refine ⟨side, ?_, hpick⟩
    rw [hid]
    exact hside
  · have hdepth : ∀ {value : Json} {bound : ℕ}, value.depth < bound →
        DepthBelow bound (some value) := by
      rintro value bound hbound present ⟨⟩
      exact hbound
    refine agrees_mergeWithin (reviewer T identifier) resolutions (fun _ ↦ rfl) (hdepth ?_)
      (hdepth ?_) path
    · simp only [depthOf, Option.map_some, Option.getD_some]
      omega
    · simp only [depthOf, Option.map_some, Option.getD_some]
      omega

end Resolving

/-- Both sides rename a table and PostgreSQL makes its column mandatory. The names are the one
conflict, and none is left once the user pulls the name of PostgreSQL. -/
theorem sample_name_pulled :
    (review noChecks pathIdentifier (contentOf [customers "customers" true] [])
      (contentOf [customers "clients" true] [])
      (contentOf [customers "buyers" false] [])).conflicts.map Conflict.path =
        [[.field "tables", .item "tbl_00000000000000000000000000000001", .field "name"]] ∧
    (resolvedReview noChecks pathIdentifier (contentOf [customers "customers" true] [])
      (contentOf [customers "clients" true] []) (contentOf [customers "buyers" false] [])
      fun _ ↦ some .live).conflicts = [] :=
  ⟨by decide, (resolutions_local_and_complete noChecks pathIdentifier
    (contentOf [customers "customers" true] []) (contentOf [customers "clients" true] [])
    (contentOf [customers "buyers" false] []) (fun _ ↦ some .live) fun _ _ ↦ rfl).1⟩

end Schemii.Migrations
