import Schemii.Foundations.Checks
import Mathlib.Data.List.Forall2
import Mathlib.Data.List.Nodup
import Mathlib.Data.List.Perm.Basic

/-!
# Changes between lists of keyed items

Two lists whose items have keys: which items are created, deleted or updated from one to the other, and
whether the items of both stand in another order. When none is, the lists agree: up to their order
(`unchanged_iff`), or entirely (`eq_iff_unchanged`).
-/

set_option autoImplicit false

namespace Schemii.Foundations.KeyedChanges

variable {α κ β : Type} [DecidableEq κ] (key : α → κ) (content : α → β) (old new : List α)

/-- Some item is new. -/
def Created : Prop :=
  ∃ item ∈ new, ∀ other ∈ old, key other ≠ key item

/-- Some item is gone. -/
def Deleted : Prop :=
  ∃ item ∈ old, ∀ other ∈ new, key other ≠ key item

/-- Some item of both lists has another content. -/
def Updated : Prop :=
  ∃ item ∈ old, ∃ other ∈ new, key item = key other ∧ content item ≠ content other

/-- The keys of a list that another has too, in order. -/
def survivors : List κ :=
  (old.map key).filter fun name ↦ name ∈ new.map key

/-- The items of both lists stand in another order. -/
def Reordered : Prop :=
  survivors key old new ≠ survivors key new old

variable {key old new}

/-- Assumes: a relation of items of one key. Two lists are related one to one, up to order, exactly when
nothing is created or deleted and all items of one key are related. -/
theorem unchanged_iff {R : α → α → Prop} (hR : ∀ item other, R item other → key item = key other)
    (hold : (old.map key).Nodup) (hnew : (new.map key).Nodup) :
    (∃ others, others.Perm new ∧ List.Forall₂ R old others) ↔
      ¬ Created key old new ∧ ¬ Deleted key old new ∧
        ∀ item ∈ old, ∀ other ∈ new, key item = key other → R item other := by
  constructor
  · rintro ⟨others, hperm, hrelated⟩
    refine ⟨?_, ?_, ?_⟩
    · rintro ⟨item, hitem, hnone⟩
      obtain ⟨other, hother, hrel⟩ :=
        Checks.exists_of_mem_right hrelated (hperm.symm.subset hitem)
      exact hnone other hother (hR other item hrel)
    · rintro ⟨item, hitem, hnone⟩
      obtain ⟨other, hother, hrel⟩ := Checks.exists_of_mem_left hrelated hitem
      exact hnone other (hperm.subset hother) (hR item other hrel).symm
    · intro item hitem other hother hkey
      obtain ⟨partner, hpartner, hrel⟩ := Checks.exists_of_mem_left hrelated hitem
      have hsame : partner = other := List.inj_on_of_nodup_map hnew (hperm.subset hpartner) hother
        ((hR item partner hrel).symm.trans hkey)
      exact hsame ▸ hrel
  · rintro ⟨hcreated, hdeleted, hrelated⟩
    have hpartner : ∀ item ∈ old, ∃ other ∈ new, key item = key other := by
      intro item hitem
      by_contra hnone
      push Not at hnone
      exact hdeleted ⟨item, hitem, fun other hother hkey ↦ hnone other hother hkey.symm⟩
    let partner (item : α) : α := (new.find? fun other ↦ key other = key item).getD item
    have hfound : ∀ item ∈ old, partner item ∈ new ∧ key (partner item) = key item := by
      intro item hitem
      obtain ⟨other, hother, hkey⟩ := hpartner item hitem
      obtain ⟨found, hfind⟩ := Option.isSome_iff_exists.mp
        ((List.find?_isSome (p := fun other ↦ decide (key other = key item))).mpr
          ⟨other, hother, decide_eq_true hkey.symm⟩)
      have hsame : partner item = found := by
        simp only [partner, hfind, Option.getD_some]
      rw [hsame]
      exact ⟨List.mem_of_find?_eq_some hfind, by simpa using List.find?_some hfind⟩
    have hkeys : (old.map partner).map key = old.map key := by
      rw [List.map_map]
      exact List.map_congr_left fun item hitem ↦ (hfound item hitem).2
    refine ⟨old.map partner, ?_, ?_⟩
    · have hdistinct : (old.map partner).Nodup := List.Nodup.of_map key (hkeys ▸ hold)
      refine (List.perm_ext_iff_of_nodup hdistinct (List.Nodup.of_map key hnew)).mpr fun other ↦ ?_
      constructor
      · intro hother
        obtain ⟨item, hitem, rfl⟩ := List.mem_map.mp hother
        exact (hfound item hitem).1
      · intro hother
        by_contra hmissing
        refine hcreated ⟨other, hother, fun item hitem hkey ↦ hmissing ?_⟩
        have hsame : partner item = other := List.inj_on_of_nodup_map hnew (hfound item hitem).1
          hother ((hfound item hitem).2.trans hkey)
        exact hsame ▸ List.mem_map_of_mem hitem
    · rw [List.forall₂_map_right_iff, List.forall₂_same]
      exact fun item hitem ↦ hrelated item hitem _ (hfound item hitem).1 (hfound item hitem).2.symm

theorem perm_iff_unchanged (hold : (old.map key).Nodup) (hnew : (new.map key).Nodup) :
    old.Perm new ↔ ¬ Created key old new ∧ ¬ Deleted key old new ∧ ¬ Updated key id old new := by
  have hequal := unchanged_iff (R := Eq) (fun _ _ hsame ↦ congrArg key hsame) hold hnew
  simp only [List.forall₂_eq_eq_eq] at hequal
  have hexists : (∃ others, others.Perm new ∧ old = others) ↔ old.Perm new := by
    constructor
    · rintro ⟨others, hperm, rfl⟩
      exact hperm
    · exact fun hperm ↦ ⟨old, hperm, rfl⟩
  have hupdated : ¬ Updated key id old new ↔
      ∀ item ∈ old, ∀ other ∈ new, key item = key other → item = other := by
    simp only [Updated, id_eq, not_exists, not_and, not_not]
  rw [← hexists, hequal, hupdated]

/-- Two lists are the same exactly when they agree and their items stand in the same order. -/
theorem eq_iff_unchanged (hold : (old.map key).Nodup) (hnew : (new.map key).Nodup) :
    old = new ↔ ¬ Created key old new ∧ ¬ Deleted key old new ∧ ¬ Updated key id old new ∧
      ¬ Reordered key old new := by
  constructor
  · rintro rfl
    obtain ⟨hcreated, hdeleted, hupdated⟩ := (perm_iff_unchanged hold hold).mp (List.Perm.refl _)
    exact ⟨hcreated, hdeleted, hupdated, fun hreordered ↦ hreordered rfl⟩
  · rintro ⟨hcreated, hdeleted, hupdated, hordered⟩
    have hperm := (perm_iff_unchanged hold hnew).mpr ⟨hcreated, hdeleted, hupdated⟩
    have hkeys : old.map key = new.map key := by
      have hsame := not_not.mp hordered
      unfold survivors at hsame
      rwa [List.filter_eq_self.mpr, List.filter_eq_self.mpr] at hsame
      · exact fun name hname ↦ decide_eq_true ((hperm.map key).symm.subset hname)
      · exact fun name hname ↦ decide_eq_true ((hperm.map key).subset hname)
    refine List.ext_getElem hperm.length_eq fun index hfirst hsecond ↦ ?_
    refine List.inj_on_of_nodup_map hnew (hperm.subset (List.getElem_mem hfirst))
      (List.getElem_mem hsecond) ?_
    have hat := congrArg (fun names ↦ names[index]?) hkeys
    simpa [hfirst, hsecond] using hat

end Schemii.Foundations.KeyedChanges
