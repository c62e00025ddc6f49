import Mathlib.Tactic

/-!
# Replacing parts of a list until the rest fits

A list of parts, each with a cost and perhaps a replacement. The costs add up, so what one replacement
saves does not depend on the others. Going through the list and replacing every part that this makes
cheaper, until the costs fit a budget (`greedy`), replaces a set of parts such that

* no other set of replacements fits when this one does not (`Outcome.fits_of_fits`);
* a part is replaced only when replacing all the earlier ones that get cheaper does not fit
  (`Outcome.needed`).

`greedy_outcome` is the run of the loop.
-/

set_option autoImplicit false

namespace Schemii.Foundations.GreedyReplacement

variable {α : Type*} (replacement : α → Option α) (cost : α → ℕ)

/-- The cost of a list. -/
def totalCost (parts : List α) : ℕ :=
  (parts.map cost).sum

@[simp]
theorem totalCost_cons (part : α) (rest : List α) :
    totalCost cost (part :: rest) = cost part + totalCost cost rest := by
  rw [totalCost, List.map_cons, List.sum_cons]
  rfl

/-- The parts at some places are replaced, where they can be. -/
def replaceAt (chosen : ℕ → Bool) (parts : List α) : List α :=
  parts.mapIdx fun index part ↦ if chosen index then (replacement part).getD part else part

@[simp]
theorem replaceAt_cons (chosen : ℕ → Bool) (part : α) (rest : List α) :
    replaceAt replacement chosen (part :: rest) =
      (if chosen 0 then (replacement part).getD part else part) ::
        replaceAt replacement (fun index ↦ chosen (index + 1)) rest :=
  List.mapIdx_cons

/-- A part gets cheaper by its replacement. -/
def profitable (part : α) : Bool :=
  match replacement part with
  | some other => cost other < cost part
  | none => false

/-- The places before another whose parts get cheaper. -/
def older (parts : List α) (last index : ℕ) : Bool :=
  index < last && (parts[index]?.map (profitable replacement cost)).getD false

/-- The loop: every part that gets cheaper is replaced until all fits. The first number is what stands
before the list. -/
def greedy (budget : ℕ) : ℕ → List α → List α
  | _, [] => []
  | before, part :: rest =>
    match replacement part with
    | none => part :: greedy budget (before + cost part) rest
    | some other =>
      if cost part ≤ cost other then part :: greedy budget (before + cost part) rest
      else if before + cost other + totalCost cost rest ≤ budget then other :: rest
      else other :: greedy budget (before + cost other) rest

/-- What the replacements at some places are to a budget. -/
structure Outcome (budget before : ℕ) (parts result : List α) (chosen : ℕ → Bool) : Prop where
  replaced : result = replaceAt replacement chosen parts
  cheaper : ∀ index, chosen index → ∃ part, parts[index]? = some part ∧
    profitable replacement cost part
  fits_of_fits : ∀ other, before + totalCost cost (replaceAt replacement other parts) ≤ budget →
    before + totalCost cost result ≤ budget
  needed : ∀ index, chosen index →
    budget < before + totalCost cost (replaceAt replacement (older replacement cost parts index) parts)

/-- A choice for the first place and choices for the others. -/
def consAt (first : Bool) (chosen : ℕ → Bool) : ℕ → Bool
  | 0 => first
  | index + 1 => chosen index

variable {replacement cost}

theorem older_zero (parts : List α) : older replacement cost parts 0 = fun _ ↦ false := by
  funext index
  simp [older]

theorem older_succ (part : α) (rest : List α) (last : ℕ) :
    older replacement cost (part :: rest) (last + 1) =
      consAt (profitable replacement cost part) (older replacement cost rest last) := by
  funext index
  cases index <;> simp [older, consAt]

theorem replaceAt_none (parts : List α) : replaceAt replacement (fun _ ↦ false) parts = parts := by
  induction parts with
  | nil => rfl
  | cons part rest ih => rw [replaceAt_cons, ih, if_neg Bool.false_ne_true]

theorem profitable_iff {part : α} : profitable replacement cost part ↔
    ∃ other, replacement part = some other ∧ cost other < cost part := by
  unfold profitable
  cases replacement part <;> simp

theorem cost_le_of_not_profitable {part : α} (h : ¬ profitable replacement cost part)
    (chosen : Bool) :
    cost part ≤ cost (if chosen then (replacement part).getD part else part) := by
  split_ifs
  · cases hother : replacement part with
    | none => exact le_refl _
    | some other =>
      exact not_lt.mp fun hlt ↦ h (profitable_iff.mpr ⟨other, hother, hlt⟩)
  · exact le_refl _

theorem cost_le_of_profitable {part other : α} (h : replacement part = some other)
    (hlt : cost other < cost part) (chosen : Bool) :
    cost other ≤ cost (if chosen then (replacement part).getD part else part) := by
  split_ifs
  · rw [h, Option.getD_some]
  · exact hlt.le

section Steps

variable {budget before : ℕ} {part other : α} {rest result : List α} {chosen : ℕ → Bool}

theorem Outcome.keep (hpart : ¬ profitable replacement cost part)
    (h : Outcome replacement cost budget (before + cost part) rest result chosen) :
    Outcome replacement cost budget before (part :: rest) (part :: result)
      (consAt false chosen) where
  replaced := by
    rw [replaceAt_cons, h.replaced]
    rfl
  cheaper := fun index hindex ↦ by
    cases index with
    | zero => exact nomatch hindex
    | succ index => exact h.cheaper index hindex
  fits_of_fits := fun others hothers ↦ by
    rw [replaceAt_cons, totalCost_cons] at hothers
    have hfirst := cost_le_of_not_profitable hpart (others 0)
    have hfits := h.fits_of_fits (fun index ↦ others (index + 1)) (by omega)
    rwa [totalCost_cons, ← add_assoc]
  needed := fun index hindex ↦ by
    cases index with
    | zero => exact nomatch hindex
    | succ index =>
      have hneeded := h.needed index hindex
      rw [older_succ, Bool.eq_false_iff.mpr hpart, replaceAt_cons, totalCost_cons, ← add_assoc]
      exact hneeded

theorem Outcome.replace (hpart : replacement part = some other) (hlt : cost other < cost part)
    (hover : budget < before + totalCost cost (part :: rest))
    (h : Outcome replacement cost budget (before + cost other) rest result chosen) :
    Outcome replacement cost budget before (part :: rest) (other :: result)
      (consAt true chosen) where
  replaced := by
    rw [replaceAt_cons, h.replaced, hpart]
    rfl
  cheaper := fun index hindex ↦ by
    cases index with
    | zero => exact ⟨part, rfl, profitable_iff.mpr ⟨other, hpart, hlt⟩⟩
    | succ index => exact h.cheaper index hindex
  fits_of_fits := fun others hothers ↦ by
    rw [replaceAt_cons, totalCost_cons] at hothers
    have hfirst := cost_le_of_profitable hpart hlt (others 0)
    have hfits := h.fits_of_fits (fun index ↦ others (index + 1)) (by omega)
    rwa [totalCost_cons, ← add_assoc]
  needed := fun index hindex ↦ by
    cases index with
    | zero => rwa [older_zero, replaceAt_none]
    | succ index =>
      have hneeded := h.needed index hindex
      have hcheaper : profitable replacement cost part := profitable_iff.mpr ⟨other, hpart, hlt⟩
      rw [older_succ, hcheaper, replaceAt_cons, totalCost_cons, ← add_assoc, hpart]
      exact hneeded

theorem Outcome.fitting (h : before + totalCost cost rest ≤ budget) :
    Outcome replacement cost budget before rest rest (fun _ ↦ false) where
  replaced := (replaceAt_none rest).symm
  cheaper := fun _ ↦ nofun
  fits_of_fits := fun _ _ ↦ h
  needed := fun _ ↦ nofun

theorem Outcome.empty : Outcome replacement cost budget before [] [] (fun _ ↦ false) where
  replaced := rfl
  cheaper := fun _ ↦ nofun
  fits_of_fits := fun _ hfits ↦ hfits
  needed := fun _ ↦ nofun

end Steps

/-- Assumes: parts that do not fit. The loop replaces parts that get cheaper, and no more than are
needed. -/
theorem greedy_outcome {budget before : ℕ} {parts : List α}
    (h : budget < before + totalCost cost parts) : ∃ chosen,
      Outcome replacement cost budget before parts (greedy replacement cost budget before parts)
        chosen := by
  induction parts generalizing before with
  | nil => exact ⟨_, .empty⟩
  | cons part rest ih =>
    have hrest : budget < before + cost part + totalCost cost rest := by
      rwa [totalCost_cons, ← add_assoc] at h
    unfold greedy
    cases hpart : replacement part with
    | none =>
      obtain ⟨chosen, houtcome⟩ := ih hrest
      refine ⟨_, houtcome.keep fun hcheaper ↦ ?_⟩
      obtain ⟨other, hother, -⟩ := profitable_iff.mp hcheaper
      exact nomatch hpart.symm.trans hother
    | some other =>
      simp only
      split_ifs with hdear hfits
      · obtain ⟨chosen, houtcome⟩ := ih hrest
        refine ⟨_, houtcome.keep fun hcheaper ↦ ?_⟩
        obtain ⟨found, hfound, hlt⟩ := profitable_iff.mp hcheaper
        obtain rfl := Option.some.inj (hpart.symm.trans hfound)
        exact absurd hdear (not_le.mpr hlt)
      · exact ⟨_, Outcome.replace hpart (not_le.mp hdear) h (.fitting hfits)⟩
      · obtain ⟨chosen, houtcome⟩ := ih (not_le.mp hfits)
        exact ⟨_, houtcome.replace hpart (not_le.mp hdear) h⟩

theorem Outcome.totalCost_le {budget before : ℕ} {parts result : List α} {chosen : ℕ → Bool}
    (h : Outcome replacement cost budget before parts result chosen) :
    totalCost cost result ≤ totalCost cost parts := by
  rw [h.replaced]
  have hcheaper := h.cheaper
  clear h
  induction parts generalizing chosen with
  | nil => exact le_refl _
  | cons part rest ih =>
    rw [replaceAt_cons, totalCost_cons, totalCost_cons]
    refine Nat.add_le_add ?_ (ih fun index hindex ↦ hcheaper (index + 1) hindex)
    split_ifs with hchosen
    · obtain ⟨found, hfound, hprofit⟩ := hcheaper 0 hchosen
      obtain rfl := Option.some.inj hfound
      obtain ⟨other, hother, hlt⟩ := profitable_iff.mp hprofit
      rw [hother]
      exact hlt.le
    · exact le_refl _

end Schemii.Foundations.GreedyReplacement
