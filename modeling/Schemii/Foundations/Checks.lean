import Mathlib.Data.List.Forall2
import Mathlib.Tactic

/-!
# Sequences of checks

A computation that checks as it goes, in `Except`, ends in a result exactly when every check passes.

* `bind_eq_ok`, `forM_eq_ok`: one check after the other, and one check for every value of a list.
* `foldlM_induction`: what holds of the start of an accumulation and is kept by its steps holds of
  its result.
* `exists_of_mem_left`, `exists_of_mem_right`: the partners of two lists that are related one by one.
-/

set_option autoImplicit false

namespace Schemii.Foundations.Checks

variable {ε α β : Type}

theorem bind_eq_ok {first : Except ε α} {next : α → Except ε β} {result : β} :
    (first >>= next) = .ok result ↔ ∃ value, first = .ok value ∧ next value = .ok result := by
  cases first with
  | error problem =>
    constructor
    · exact fun h ↦ by cases h
    · rintro ⟨_, hvalue, -⟩
      cases hvalue
  | ok value =>
    constructor
    · exact fun h ↦ ⟨value, rfl, h⟩
    · rintro ⟨_, hvalue, h⟩
      cases hvalue
      exact h

theorem forM_eq_ok {check : α → Except ε Unit} {values : List α} :
    values.forM check = .ok () ↔ ∀ value ∈ values, check value = .ok () := by
  induction values with
  | nil => exact ⟨fun _ ↦ by simp, fun _ ↦ rfl⟩
  | cons value values ih =>
    rw [List.forall_mem_cons, ← ih, List.forM_eq_forM, List.forM_cons, bind_eq_ok]
    exact ⟨fun ⟨_, hfirst, hrest⟩ ↦ ⟨hfirst, hrest⟩, fun ⟨hfirst, hrest⟩ ↦ ⟨(), hfirst, hrest⟩⟩

/-- Assumes: a statement about the values that were taken and what is accumulated of them, which holds
at the start and is kept by every step. It holds at the end. -/
theorem foldlM_induction {step : β → α → Except ε β} (holds : List α → β → Prop) {values : List α}
    {start result : β} (h : values.foldlM step start = .ok result) (hstart : holds [] start)
    (hstep : ∀ before value after state next, values = before ++ value :: after →
      holds before state → step state value = .ok next → holds (before ++ [value]) next) :
    holds values result := by
  suffices hall : ∀ before rest state, values = before ++ rest → holds before state →
      rest.foldlM step state = .ok result → holds values result from hall [] values start rfl hstart h
  intro before rest
  induction rest generalizing before with
  | nil =>
    intro state hsplit hholds hlast
    obtain rfl : state = result := Except.ok.inj hlast
    rwa [hsplit, List.append_nil]
  | cons value rest ih =>
    intro state hsplit hholds hlast
    rw [List.foldlM_cons, bind_eq_ok] at hlast
    obtain ⟨next, hnext, hlater⟩ := hlast
    exact ih (before ++ [value]) next (by simpa using hsplit)
      (hstep before value rest state next hsplit hholds hnext) hlater

/-- Assumes: two lists that are related one by one. A value of the first has a partner. -/
theorem exists_of_mem_left {related : α → β → Prop} {first : List α} {second : List β}
    (h : List.Forall₂ related first second) {value : α} (hvalue : value ∈ first) :
    ∃ other ∈ second, related value other := by
  induction h with
  | nil => cases hvalue
  | @cons head partner first second hrelated hrest ih =>
    rcases List.mem_cons.mp hvalue with rfl | hlater
    · exact ⟨partner, by simp, hrelated⟩
    · obtain ⟨other, hother, hpair⟩ := ih hlater
      exact ⟨other, List.mem_cons_of_mem _ hother, hpair⟩

/-- Assumes: two lists that are related one by one. A value of the second has a partner. -/
theorem exists_of_mem_right {related : α → β → Prop} {first : List α} {second : List β}
    (h : List.Forall₂ related first second) {other : β} (hother : other ∈ second) :
    ∃ value ∈ first, related value other :=
  exists_of_mem_left h.flip hother

/-- Assumes: a computation of every value ends in a result. All of them do, one after the other. -/
theorem mapM_ok {compute : α → Except ε β} {holds : α → β → Prop} (values : List α)
    (h : ∀ value ∈ values, ∃ result, compute value = .ok result ∧ holds value result) :
    ∃ results, values.mapM compute = .ok results ∧ List.Forall₂ holds values results := by
  induction values with
  | nil => exact ⟨[], rfl, .nil⟩
  | cons value values ih =>
    obtain ⟨⟨result, hresult, hholds⟩, hrest⟩ := List.forall_mem_cons.mp h
    obtain ⟨results, hresults, hall⟩ := ih hrest
    refine ⟨result :: results, ?_, .cons hholds hall⟩
    rw [List.mapM_cons, hresult, hresults]
    rfl

end Schemii.Foundations.Checks
