import Mathlib.Data.Set.Lattice
import Mathlib.Tactic

/-!
# Three-way merges of nested documents

Documents with values below values, compared path by path, and the merge of a baseline with two
documents that were made from it: the design and the live one. A merge takes what both sides agree
on, walks into values that are composite on every side, and elsewhere takes the side that changed.
It reports a conflict when a value of the baseline is missing on one side only, and when both sides
changed a value that is not composite.

`Merges` is the merge as a derivation, over any documents and any comparison. Results, for arbitrary
documents:

* `Merges.kept` and `Merges.present`: without conflicts and resolutions, no change of either side is
  lost at any path where the merge did not walk on, and a composite value is present exactly when
  one of the sides has it.
* `Merges.covered`: what only the live side changed lies at or below a recorded external change.
* `Merges.conflict_iff`: where the reported conflicts are.
* `Merges.resolved`: where a conflict was resolved, the result has the value of the chosen side.
* `Merges.conflict_iff_missing`: when the live side is the baseline, what the design misses is all
  that is reported.
-/

set_option autoImplicit false

namespace Schemii.Foundations

/-- Values with values below them. -/
structure Documents (S V : Type) where
  child : V → S → Option V

namespace Documents

variable {S V : Type} (D : Documents S V)

/-- What is below a value that may be missing. -/
def below (value : Option V) (segment : S) : Option V :=
  value.bind fun present ↦ D.child present segment

/-- What is at a path below a value that may be missing. -/
def get : Option V → List S → Option V
  | value, [] => value
  | value, segment :: rest => get (D.below value segment) rest

@[simp]
theorem get_nil (value : Option V) : D.get value [] = value := rfl

@[simp]
theorem get_cons (value : Option V) (segment : S) (rest : List S) :
    D.get value (segment :: rest) = D.get (D.below value segment) rest := rfl

@[simp]
theorem below_none (segment : S) : D.below none segment = none := rfl

@[simp]
theorem get_none (path : List S) : D.get none path = none := by
  induction path with
  | nil => rfl
  | cons segment rest ih => exact ih

theorem get_append (value : Option V) (path rest : List S) :
    D.get value (path ++ rest) = D.get (D.get value path) rest := by
  induction path generalizing value with
  | nil => rfl
  | cons segment path ih => exact ih _

end Documents

/-- When two values at a path count as the same. -/
structure Comparison {S V : Type} (D : Documents S V) where
  same : List S → Option V → Option V → Prop
  refl : ∀ path value, same path value value
  symm : ∀ path first second, same path first second → same path second first
  trans : ∀ path first second third, same path first second → same path second third →
    same path first third
  /-- A missing value is the same only as a missing value. -/
  missing : ∀ path value, same path none value → value = none
  /-- What is below values that are the same is the same. -/
  child : ∀ path first second segment, same path first second →
    same (path ++ [segment]) (D.below first segment) (D.below second segment)

/-- The two sides of a merge. -/
inductive Side
  | design
  | live
  deriving DecidableEq, Repr

section Merging

variable {S V : Type} {D : Documents S V}

namespace Comparison

variable (C : Comparison D)

theorem get {path : List S} {first second : Option V} (h : C.same path first second)
    (rest : List S) : C.same (path ++ rest) (D.get first rest) (D.get second rest) := by
  induction rest generalizing path first second with
  | nil => simpa using h
  | cons segment rest ih =>
    have hbelow := ih (C.child path first second segment h)
    simpa using hbelow

theorem isSome_eq {path : List S} {first second : Option V} (h : C.same path first second) :
    first.isSome = second.isSome := by
  cases first with
  | none => rw [C.missing path second h]
  | some value =>
    cases second with
    | none => rw [C.missing path _ (C.symm _ _ _ h)]
    | some other => rfl

end Comparison

/-- How a merge is made: when values count as the same, and on which values it walks on. -/
structure MergeRules (D : Documents S V) extends Comparison D where
  composite : Option V → Option V → Option V → Prop

variable (R : MergeRules D)

/-- A value of the baseline is missing on one side only, or both sides changed a value that is not
composite and disagree. -/
def MergeRules.Clashes (path : List S) (baseline design live : Option V) : Prop :=
  ¬ R.same path design live ∧
    (baseline ≠ none ∧ (design = none ∨ live = none) ∨
      ¬ R.composite baseline design live ∧ ¬ R.same path design baseline ∧
        ¬ R.same path live baseline)

/-- The value of a side. -/
def Side.pick (design live : Option V) : Side → Option V
  | .design => design
  | .live => live

/-- A merge of three values at a path, with the paths of the external changes and of the conflicts
it reports. A conflict that a user resolved is not reported, and one that is takes the design. What
was built by walking on is composite again beside the live value. -/
inductive Merges (resolution : List S → Option V → Option V → Option V → Option Side) :
    List S → Option V → Option V → Option V → Option V → Set (List S) → Set (List S) → Prop
  | agree {path : List S} {baseline design live : Option V} (hsame : R.same path design live) :
      Merges resolution path baseline design live design ∅ ∅
  | report {path : List S} {baseline design live : Option V}
      (hclash : R.Clashes path baseline design live)
      (hopen : resolution path baseline design live = none) :
      Merges resolution path baseline design live design ∅ {path}
  | resolve {path : List S} {baseline design live : Option V} (side : Side)
      (hclash : R.Clashes path baseline design live)
      (hside : resolution path baseline design live = some side) :
      Merges resolution path baseline design live (side.pick design live) ∅ ∅
  | walk {path : List S} {baseline design live merged : Option V}
      {external conflicts : S → Set (List S)} (hdiffer : ¬ R.same path design live)
      (hsides : baseline = none ∨ design ≠ none ∧ live ≠ none)
      (hcomposite : R.composite baseline design live) (hmerged : merged ≠ none)
      (hagain : R.composite live merged live)
      (hbelow : ∀ segment, Merges resolution (path ++ [segment]) (D.below baseline segment)
        (D.below design segment) (D.below live segment) (D.below merged segment)
        (external segment) (conflicts segment)) :
      Merges resolution path baseline design live merged (⋃ segment, external segment)
        (⋃ segment, conflicts segment)
  | takeLive {path : List S} {baseline design live : Option V}
      (hdiffer : ¬ R.same path design live)
      (hsides : baseline = none ∨ design ≠ none ∧ live ≠ none)
      (hplain : ¬ R.composite baseline design live) (hdesign : R.same path design baseline)
      (hlive : ¬ R.same path live baseline) :
      Merges resolution path baseline design live live {path} ∅
  | takeDesign {path : List S} {baseline design live : Option V}
      (hdiffer : ¬ R.same path design live)
      (hsides : baseline = none ∨ design ≠ none ∧ live ≠ none)
      (hplain : ¬ R.composite baseline design live) (hdesign : ¬ R.same path design baseline)
      (hlive : R.same path live baseline) :
      Merges resolution path baseline design live design ∅ ∅

variable {R} {resolution : List S → Option V → Option V → Option V → Option Side}

/-- The merge may walk on at every prefix of a path, the path itself included. -/
def MergeRules.Walks (R : MergeRules D) :
    Option V → Option V → Option V → List S → Prop
  | baseline, design, live, [] => R.composite baseline design live
  | baseline, design, live, segment :: rest => R.composite baseline design live ∧
      Walks R (D.below baseline segment) (D.below design segment) (D.below live segment) rest

/-! ### No change is lost -/

/-- What the merge makes of three values: a side that did not change gives way to the other, and
when both changed they agree. -/
structure MergeRules.Kept (R : MergeRules D) (path : List S)
    (baseline design live merged : Option V) : Prop where
  ofDesign : R.same path live baseline → R.same path merged design
  ofLive : R.same path design baseline → R.same path merged live
  ofBoth : ¬ R.same path design baseline → ¬ R.same path live baseline →
    R.same path design live ∧ R.same path merged design

variable {path : List S} {baseline design live : Option V}

theorem MergeRules.kept_of_agree (h : R.same path design live) (rest : List S) :
    R.Kept (path ++ rest) (D.get baseline rest) (D.get design rest) (D.get live rest)
      (D.get design rest) where
  ofDesign := fun _ ↦ R.refl _ _
  ofLive := fun _ ↦ R.get h rest
  ofBoth := fun _ _ ↦ ⟨R.get h rest, R.refl _ _⟩

/-- Assumes: a design that did not change. Taking the live side keeps every change below. -/
theorem MergeRules.kept_of_live (h : R.same path design baseline) (rest : List S) :
    R.Kept (path ++ rest) (D.get baseline rest) (D.get design rest) (D.get live rest)
      (D.get live rest) where
  ofDesign := fun hlive ↦ R.trans _ _ _ _ hlive (R.symm _ _ _ (R.get h rest))
  ofLive := fun _ ↦ R.refl _ _
  ofBoth := fun hdesign _ ↦ absurd (R.get h rest) hdesign

/-- Assumes: a live side that did not change. Taking the design keeps every change below. -/
theorem MergeRules.kept_of_design (h : R.same path live baseline) (rest : List S) :
    R.Kept (path ++ rest) (D.get baseline rest) (D.get design rest) (D.get live rest)
      (D.get design rest) where
  ofDesign := fun _ ↦ R.refl _ _
  ofLive := fun hdesign ↦ R.trans _ _ _ _ hdesign (R.symm _ _ _ (R.get h rest))
  ofBoth := fun _ hlive ↦ absurd (R.get h rest) hlive

variable {external conflicts : Set (List S)} {baseline design live merged : Option V}
  (h : Merges R (fun _ _ _ _ ↦ none) path baseline design live merged external conflicts)

include h in
/-- Assumes: a merge without resolutions. At a path where it did not walk to the end, and at or
above which it reported no conflict, no change is lost. -/
theorem Merges.kept
    (rest : List S) (hfree : ∀ conflict ∈ conflicts, ¬ conflict <+: path ++ rest)
    (hstops : ¬ R.Walks baseline design live rest) :
    R.Kept (path ++ rest) (D.get baseline rest) (D.get design rest) (D.get live rest)
      (D.get merged rest) := by
  induction h generalizing rest with
  | agree hsame => exact R.kept_of_agree hsame rest
  | report hclash hopen => exact absurd (List.prefix_append _ _) (hfree _ rfl)
  | resolve side hclash hside => exact nomatch hside
  | walk hdiffer hsides hcomposite hmerged hagain hbelow ih =>
    cases rest with
    | nil => exact absurd hcomposite hstops
    | cons segment rest =>
      have hkept := ih segment rest
        (fun conflict hconflict hinitial ↦ hfree conflict (Set.mem_iUnion.mpr ⟨segment, hconflict⟩)
          (by simpa using hinitial))
        (fun hwalks ↦ hstops ⟨hcomposite, hwalks⟩)
      simpa using hkept
  | takeLive hdiffer hsides hplain hdesign hlive => exact R.kept_of_live hdesign rest
  | takeDesign hdiffer hsides hplain hdesign hlive => exact R.kept_of_design hlive rest

include h in
/-- Assumes: a merge without resolutions. A value on which it may walk is in the result when one of
the sides has it, unless a conflict was reported at or above it. -/
theorem Merges.present
    (rest : List S) (hfree : ∀ conflict ∈ conflicts, ¬ conflict <+: path ++ rest)
    (hwalks : R.Walks baseline design live rest) :
    D.get merged rest ≠ none ↔ D.get design rest ≠ none ∨ D.get live rest ≠ none := by
  induction h generalizing rest with
  | agree hsame =>
    have hsome := R.isSome_eq (R.get hsame rest)
    simp only [← Option.isSome_iff_ne_none, hsome, or_self]
  | report hclash hopen => exact absurd (List.prefix_append _ _) (hfree _ rfl)
  | resolve side hclash hside => exact nomatch hside
  | walk hdiffer hsides hcomposite hmerged hagain hbelow ih =>
    cases rest with
    | nil =>
      refine iff_of_true hmerged ?_
      by_contra hnone
      obtain ⟨hdesign, hlive⟩ := not_or.mp hnone
      rw [Documents.get_nil, not_not] at hdesign hlive
      exact hdiffer (by rw [hdesign, hlive]; exact R.refl _ _)
    | cons segment rest =>
      exact ih segment rest
        (fun conflict hconflict hinitial ↦ hfree conflict (Set.mem_iUnion.mpr ⟨segment, hconflict⟩)
          (by simpa using hinitial)) hwalks.2
  | takeLive hdiffer hsides hplain hdesign hlive =>
    cases rest with
    | nil => exact absurd hwalks hplain
    | cons segment rest => exact absurd hwalks.1 hplain
  | takeDesign hdiffer hsides hplain hdesign hlive =>
    cases rest with
    | nil => exact absurd hwalks hplain
    | cons segment rest => exact absurd hwalks.1 hplain

include h in
/-- Assumes: a merge without resolutions, and a path where it did not walk to the end, at or above
which it reported no conflict, and at which only the live side changed. An external change is
recorded at or above the path. -/
theorem Merges.covered
    (rest : List S) (hfree : ∀ conflict ∈ conflicts, ¬ conflict <+: path ++ rest)
    (hstops : ¬ R.Walks baseline design live rest)
    (hdesign : R.same (path ++ rest) (D.get design rest) (D.get baseline rest))
    (hlive : ¬ R.same (path ++ rest) (D.get live rest) (D.get baseline rest)) :
    ∃ change ∈ external, change <+: path ++ rest := by
  induction h generalizing rest with
  | agree hsame =>
    have hagree := R.symm _ _ _ (R.get hsame rest)
    exact absurd (R.trans _ _ _ _ hagree hdesign) hlive
  | report hclash hopen => exact absurd (List.prefix_append _ _) (hfree _ rfl)
  | resolve side hclash hside => exact nomatch hside
  | walk hdiffer hsides hcomposite hmerged hagain hbelow ih =>
    cases rest with
    | nil => exact absurd hcomposite hstops
    | cons segment rest =>
      obtain ⟨change, hchange, hinitial⟩ := ih segment rest
        (fun conflict hconflict hinitial ↦ hfree conflict (Set.mem_iUnion.mpr ⟨segment, hconflict⟩)
          (by simpa using hinitial))
        (fun hwalks ↦ hstops ⟨hcomposite, hwalks⟩) (by simpa using hdesign) (by simpa using hlive)
      exact ⟨change, Set.mem_iUnion.mpr ⟨segment, hchange⟩, by simpa using hinitial⟩
  | takeLive _ _ _ _ _ => exact ⟨_, rfl, List.prefix_append _ _⟩
  | takeDesign _ _ _ _ hsame => exact absurd (R.get hsame rest) hlive

/-! ### Where conflicts are reported -/

/-- The merge arrives at a path: at every proper prefix it walks on. -/
def MergeRules.Arrives (R : MergeRules D) :
    List S → Option V → Option V → Option V → List S → Prop
  | _, _, _, _, [] => True
  | path, baseline, design, live, segment :: rest =>
    ¬ R.same path design live ∧ (baseline = none ∨ design ≠ none ∧ live ≠ none) ∧
      R.composite baseline design live ∧
      Arrives R (path ++ [segment]) (D.below baseline segment) (D.below design segment)
        (D.below live segment) rest

theorem MergeRules.Clashes.direct (h : R.Clashes path baseline design live)
    (hsides : baseline = none ∨ design ≠ none ∧ live ≠ none) :
    ¬ R.composite baseline design live ∧ ¬ R.same path design baseline ∧
      ¬ R.same path live baseline := by
  refine h.2.resolve_left ?_
  rintro ⟨hbaseline, hmissing⟩
  have hboth := hsides.resolve_left hbaseline
  exact hmissing.elim hboth.1 hboth.2

/-- Assumes: the merge arrives at a path below a value that is not composite. It is that value. -/
theorem MergeRules.Arrives.eq_nil {path rest : List S}
    (h : R.Arrives path baseline design live rest) (hplain : ¬ R.composite baseline design live) :
    rest = [] := by
  cases rest with
  | nil => rfl
  | cons segment rest => exact absurd h.2.2.1 hplain

theorem Merges.conflict_below
    (h : Merges R resolution path baseline design live merged external conflicts)
    (conflict : List S) (hmem : conflict ∈ conflicts) : path <+: conflict := by
  induction h with
  | agree => exact absurd hmem (Set.notMem_empty _)
  | report => rw [Set.mem_singleton_iff.mp hmem]
  | resolve => exact absurd hmem (Set.notMem_empty _)
  | walk _ _ _ _ _ _ ih =>
    obtain ⟨segment, hsegment⟩ := Set.mem_iUnion.mp hmem
    exact (List.prefix_append _ _).trans (ih segment hsegment)
  | takeLive => exact absurd hmem (Set.notMem_empty _)
  | takeDesign => exact absurd hmem (Set.notMem_empty _)

include h in
/-- Assumes: a merge without resolutions. A conflict is reported at a path exactly when the merge
arrives there and the values clash. -/
theorem Merges.conflict_iff
    (rest : List S) :
    path ++ rest ∈ conflicts ↔ R.Arrives path baseline design live rest ∧
      R.Clashes (path ++ rest) (D.get baseline rest) (D.get design rest) (D.get live rest) := by
  induction h generalizing rest with
  | agree hsame =>
    refine iff_of_false (Set.notMem_empty _) ?_
    rintro ⟨harrives, hclash⟩
    exact hclash.1 (R.get hsame rest)
  | report hclash hopen =>
    rw [Set.mem_singleton_iff]
    constructor
    · intro hself
      obtain rfl : rest = [] := by simpa using hself
      exact ⟨trivial, by simpa using hclash⟩
    · rintro ⟨harrives, -⟩
      cases rest with
      | nil => exact List.append_nil _
      | cons segment rest =>
        obtain ⟨-, hsides, hcomposite, -⟩ := harrives
        exact absurd hcomposite (hclash.direct hsides).1
  | resolve side hclash hside => exact nomatch hside
  | walk hdiffer hsides hcomposite hmerged hagain hbelow ih =>
    cases rest with
    | nil =>
      refine iff_of_false ?_ ?_
      · intro hmem
        obtain ⟨segment, hsegment⟩ := Set.mem_iUnion.mp hmem
        have hlength := (Merges.conflict_below (hbelow segment) _ hsegment).length_le
        simp at hlength
      · rintro ⟨-, hclash⟩
        exact (hclash.direct hsides).1 hcomposite
    | cons segment rest =>
      have hsegment := ih segment rest
      rw [List.append_assoc, List.singleton_append] at hsegment
      rw [Set.mem_iUnion]
      constructor
      · rintro ⟨other, hother⟩
        -- Only the conflicts of the segment itself lie below it.
        obtain ⟨tail, htail⟩ := Merges.conflict_below (hbelow other) _ hother
        have hsame : other :: tail = segment :: rest := by simpa using htail
        obtain rfl := (List.cons.inj hsame).1
        obtain ⟨harrives, hclash⟩ := hsegment.mp hother
        exact ⟨⟨hdiffer, hsides, hcomposite, harrives⟩, hclash⟩
      · rintro ⟨⟨-, -, -, harrives⟩, hclash⟩
        exact ⟨segment, hsegment.mpr ⟨harrives, hclash⟩⟩
  | takeLive hdiffer hsides hplain hdesign hlive =>
    refine iff_of_false (Set.notMem_empty _) ?_
    rintro ⟨harrives, hclash⟩
    obtain rfl := harrives.eq_nil hplain
    exact (hclash.direct hsides).2.1 (by simpa using hdesign)
  | takeDesign hdiffer hsides hplain hdesign hlive =>
    refine iff_of_false (Set.notMem_empty _) ?_
    rintro ⟨harrives, hclash⟩
    obtain rfl := harrives.eq_nil hplain
    exact (hclash.direct hsides).2.2 (by simpa using hlive)

/-! ### Conflicts and one-sided changes -/

/-- Every proper prefix of a path is composite and present on all three sides. -/
def MergeRules.Shared (R : MergeRules D) : Option V → Option V → Option V → List S → Prop
  | _, _, _, [] => True
  | baseline, design, live, segment :: rest =>
    baseline ≠ none ∧ design ≠ none ∧ live ≠ none ∧ R.composite baseline design live ∧
      Shared R (D.below baseline segment) (D.below design segment) (D.below live segment) rest

/-- A value of the baseline is missing on one side and unchanged on the other, below values that all
three have. -/
def MergeRules.RemovedOnce (R : MergeRules D) (path : List S)
    (baseline design live : Option V) (rest : List S) : Prop :=
  R.Shared baseline design live rest ∧ D.get baseline rest ≠ none ∧
    (D.get design rest = none ∧ R.same (path ++ rest) (D.get live rest) (D.get baseline rest) ∨
      D.get live rest = none ∧ R.same (path ++ rest) (D.get design rest) (D.get baseline rest))

/-- Assumes: a path below values that all three have, at which one side is missing and the other is
not. The merge arrives there. -/
theorem MergeRules.Shared.arrives {rest : List S} (h : R.Shared baseline design live rest)
    (hdiffer : (D.get design rest).isSome ≠ (D.get live rest).isSome) :
    R.Arrives path baseline design live rest := by
  induction rest generalizing path baseline design live with
  | nil => trivial
  | cons segment rest ih =>
    obtain ⟨-, hdesign, hlive, hcomposite, hbelow⟩ := h
    refine ⟨fun hsame ↦ hdiffer (R.isSome_eq (R.get hsame (segment :: rest))),
      .inr ⟨hdesign, hlive⟩, hcomposite, ih hbelow hdiffer⟩

/-- Assumes: the merge arrives at a path that the baseline has. All three have the values above. -/
theorem MergeRules.Arrives.shared {rest : List S}
    (h : R.Arrives path baseline design live rest) (hbaseline : D.get baseline rest ≠ none) :
    R.Shared baseline design live rest := by
  induction rest generalizing path baseline design live with
  | nil => trivial
  | cons segment rest ih =>
    obtain ⟨-, hsides, hcomposite, hbelow⟩ := h
    have hpresent : baseline ≠ none := by
      rintro rfl
      simp at hbaseline
    have hboth := hsides.resolve_left hpresent
    exact ⟨hpresent, hboth.1, hboth.2, hcomposite, ih hbelow hbaseline⟩

include h in
/-- Assumes: a merge without resolutions. Every reported conflict is one of two changes exactly when
no value is removed on one side and unchanged on the other. -/
theorem Merges.two_sided_iff :
    (∀ rest, path ++ rest ∈ conflicts →
      ¬ R.same (path ++ rest) (D.get design rest) (D.get baseline rest) ∧
        ¬ R.same (path ++ rest) (D.get live rest) (D.get baseline rest)) ↔
      ∀ rest, ¬ R.RemovedOnce path baseline design live rest := by
  constructor
  · rintro htwo rest ⟨hshared, hbaseline, hremoved⟩
    -- The value that is there on one side only clashes, so it is reported.
    have hreported : (D.get design rest).isSome ≠ (D.get live rest).isSome →
        (D.get design rest = none ∨ D.get live rest = none) → path ++ rest ∈ conflicts := by
      intro hdiffer hmissing
      refine (h.conflict_iff rest).mpr ⟨hshared.arrives hdiffer, ?_, .inl ⟨hbaseline, hmissing⟩⟩
      exact fun hsame ↦ hdiffer (R.isSome_eq hsame)
    rcases hremoved with ⟨hnone, hsame⟩ | ⟨hnone, hsame⟩
    · have hsome := R.isSome_eq hsame
      have hpresent := Option.isSome_iff_ne_none.mpr hbaseline
      exact (htwo rest (hreported (by simp [hnone, hsome, hpresent]) (.inl hnone))).2 hsame
    · have hsome := R.isSome_eq hsame
      have hpresent := Option.isSome_iff_ne_none.mpr hbaseline
      exact (htwo rest (hreported (by simp [hnone, hsome, hpresent]) (.inr hnone))).1 hsame
  · intro hnever rest hmem
    obtain ⟨harrives, hdiffer, hkind⟩ := (h.conflict_iff rest).mp hmem
    rcases hkind with ⟨hbaseline, hmissing⟩ | ⟨-, hchanged⟩
    · have hshared := harrives.shared hbaseline
      have hmissed : ∀ {value : Option V}, value = none →
          ¬ R.same (path ++ rest) value (D.get baseline rest) := by
        rintro value rfl hsame
        exact hbaseline (R.missing _ _ hsame)
      rcases hmissing with hnone | hnone
      · exact ⟨hmissed hnone, fun hsame ↦ hnever rest ⟨hshared, hbaseline, .inl ⟨hnone, hsame⟩⟩⟩
      · exact ⟨fun hsame ↦ hnever rest ⟨hshared, hbaseline, .inr ⟨hnone, hsame⟩⟩, hmissed hnone⟩
    · exact hchanged

/-! ### Merging again after the conflicts are resolved -/

/-- Assumes: a merge whose conflicts are all resolved. Where it arrives and the values clash, a side
was chosen, and the merge took its value. -/
theorem Merges.resolved {rest : List S}
    (h : Merges R resolution path baseline design live merged external conflicts)
    (hall : conflicts = ∅) (harrives : R.Arrives path baseline design live rest)
    (hclash : R.Clashes (path ++ rest) (D.get baseline rest) (D.get design rest)
      (D.get live rest)) :
    ∃ side, resolution (path ++ rest) (D.get baseline rest) (D.get design rest)
        (D.get live rest) = some side ∧
      D.get merged rest = side.pick (D.get design rest) (D.get live rest) := by
  induction h generalizing rest with
  | agree hsame => exact absurd (R.get hsame rest) hclash.1
  | report => exact absurd hall (Set.singleton_ne_empty _)
  | resolve side hhere hside =>
    cases rest with
    | nil => exact ⟨side, by simpa using hside, rfl⟩
    | cons segment rest =>
      obtain ⟨-, hsides, hcomposite, -⟩ := harrives
      exact absurd hcomposite (hhere.direct hsides).1
  | walk hdiffer hsides hcomposite hmerged hagain hbelow ih =>
    cases rest with
    | nil => exact absurd hcomposite (hclash.direct hsides).1
    | cons segment rest =>
      have hnone := Set.iUnion_eq_empty.mp hall segment
      obtain ⟨-, -, -, harrives⟩ := harrives
      obtain ⟨side, hside, hpick⟩ := ih segment hnone harrives (by simpa using hclash)
      exact ⟨side, by simpa using hside, hpick⟩
  | takeLive hdiffer hsides hplain hdesign hlive =>
    obtain rfl := harrives.eq_nil hplain
    exact absurd (by simpa using hdesign) (hclash.direct hsides).2.1
  | takeDesign hdiffer hsides hplain hdesign hlive =>
    obtain rfl := harrives.eq_nil hplain
    exact absurd (by simpa using hlive) (hclash.direct hsides).2.2

theorem Merges.present_above {above rest : List S}
    (h : Merges R resolution path baseline design live merged external conflicts)
    (harrives : R.Arrives path baseline design live rest) (habove : above <+: rest)
    (hproper : above ≠ rest) : D.get merged above ≠ none := by
  obtain ⟨tail, rfl⟩ := habove
  have htail : tail ≠ [] := by
    rintro rfl
    exact hproper (List.append_nil _).symm
  -- The merge walks on at the first step, so only that case is left.
  have hfirst : ∃ segment more, above ++ tail = segment :: more :=
    List.exists_cons_of_ne_nil (by simp [htail])
  obtain ⟨segment, more, hcons⟩ := hfirst
  have hwalk := hcons ▸ harrives
  obtain ⟨hdiffer, hsides, hcomposite, -⟩ := hwalk
  induction h generalizing above segment more with
  | agree hsame => exact absurd hsame hdiffer
  | report hclash => exact absurd hcomposite (hclash.direct hsides).1
  | resolve side hclash => exact absurd hcomposite (hclash.direct hsides).1
  | walk _ _ _ hmerged _ _ ih =>
    cases above with
    | nil => exact hmerged
    | cons first above =>
      obtain ⟨-, -, -, hbelow⟩ := harrives
      obtain ⟨next, others, hnext⟩ : ∃ next others, above ++ tail = next :: others :=
        List.exists_cons_of_ne_nil (by simp [htail])
      have hstep : R.Arrives _ _ _ _ (above ++ tail) := hbelow
      rw [hnext] at hstep
      obtain ⟨hdifferBelow, hsidesBelow, hcompositeBelow, -⟩ := hstep
      exact ih first hbelow (by simpa using htail) next others hnext hdifferBelow hsidesBelow
        hcompositeBelow
  | takeLive _ _ hplain => exact absurd hcomposite hplain
  | takeDesign _ _ hplain => exact absurd hcomposite hplain

/-- Assumes: a merge without resolutions whose baseline is the live value. Its conflicts are the
values that the design misses and the live side has. -/
theorem Merges.conflict_iff_missing {design live merged : Option V}
    (h : Merges R (fun _ _ _ _ ↦ none) path live design live merged external conflicts)
    (rest : List S) :
    path ++ rest ∈ conflicts ↔ R.Arrives path live design live rest ∧
      D.get design rest = none ∧ D.get live rest ≠ none := by
  rw [h.conflict_iff rest]
  refine and_congr_right fun _ ↦ ?_
  constructor
  · rintro ⟨hdiffer, ⟨hlive, hmissing⟩ | ⟨-, -, hchanged⟩⟩
    · exact ⟨hmissing.resolve_right hlive, hlive⟩
    · exact absurd (R.refl _ _) hchanged
  · rintro ⟨hdesign, hlive⟩
    refine ⟨fun hsame ↦ hlive ?_, .inl ⟨hlive, .inl hdesign⟩⟩
    exact R.missing _ _ (hdesign ▸ hsame)

end Merging

end Schemii.Foundations
