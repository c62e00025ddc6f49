import Mathlib.Data.List.Basic
import Mathlib.Tactic

/-!
# Unfolding a graph to a bounded depth

A graph is given by the list of successors of each vertex. `unfolded` collects the vertices that are
met when the graph is unfolded from a vertex to a bounded depth, without walking into a vertex that
lies on the way.

`mem_unfolded_iff`: these are exactly the vertices at the end of a walk that is not longer than the
bound. Leaving out walks that return to a vertex loses none, since a shortest walk does not return.
-/

set_option autoImplicit false

namespace Schemii.Foundations

variable {V : Type} [DecidableEq V] (next : V → List V)

/-- A walk of a length from one vertex to another. -/
inductive WalkOf : ℕ → V → V → Prop
  | stay (vertex : V) : WalkOf 0 vertex vertex
  | step {length : ℕ} {first second last : V} (hnext : second ∈ next first)
      (hrest : WalkOf length second last) : WalkOf (length + 1) first last

/-- The vertices that are met from a vertex, to a bounded depth, without those on the way. -/
def unfolded : ℕ → List V → V → List V
  | 0, _, vertex => [vertex]
  | bound + 1, trail, vertex =>
    vertex :: ((next vertex).filter fun other ↦ other ∉ vertex :: trail).flatMap
      (unfolded bound (vertex :: trail))

variable {next} {vertex found : V} {trail : List V} {bound : ℕ}

theorem walk_of_mem_unfolded (h : found ∈ unfolded next bound trail vertex) :
    ∃ length ≤ bound, WalkOf next length vertex found := by
  induction bound generalizing trail vertex with
  | zero =>
    obtain rfl := List.mem_singleton.mp h
    exact ⟨0, Nat.le_refl 0, .stay found⟩
  | succ bound ih =>
    rcases List.mem_cons.mp h with rfl | hbelow
    · exact ⟨0, Nat.zero_le _, .stay found⟩
    · obtain ⟨other, hother, hfound⟩ := List.mem_flatMap.mp hbelow
      obtain ⟨length, hlength, hwalk⟩ := ih hfound
      exact ⟨length + 1, Nat.succ_le_succ hlength, .step (List.mem_filter.mp hother).1 hwalk⟩

/-- Assumes: a walk within the bound to a vertex that no vertex on the way reaches as fast. The vertex
is met. -/
theorem mem_unfolded_of_walk {bound length : ℕ}
    (hwalk : WalkOf next length vertex found) (hlength : length ≤ bound)
    (hshortest : ∀ shorter < length, ¬ WalkOf next shorter vertex found)
    (htrail : ∀ other ∈ trail, ∀ shorter ≤ length, ¬ WalkOf next shorter other found) :
    found ∈ unfolded next bound trail vertex := by
  induction hwalk generalizing bound trail with
  | stay vertex => cases bound <;> simp [unfolded]
  | @step length first second last hnext hrest ih =>
    obtain ⟨bound, rfl⟩ : ∃ smaller, bound = smaller + 1 :=
      ⟨bound - 1, by omega⟩
    -- The next vertex is closer than every vertex on the way, so it is not one of them.
    have hclose : ∀ other ∈ first :: trail, ∀ shorter ≤ length,
        ¬ WalkOf next shorter other last := by
      intro other hother shorter hshorter
      rcases List.mem_cons.mp hother with rfl | hmem
      · exact hshortest shorter (by omega)
      · exact htrail other hmem shorter (by omega)
    have hfresh : second ∉ first :: trail := fun hmem ↦ hclose second hmem length le_rfl hrest
    refine List.mem_cons_of_mem _ (List.mem_flatMap.mpr ⟨second, ?_, ?_⟩)
    · exact List.mem_filter.mpr ⟨hnext, by simpa using hfresh⟩
    · exact ih (by omega) (fun shorter hshorter hwalk ↦
        hshortest (shorter + 1) (by omega) (.step hnext hwalk)) hclose

theorem mem_unfolded_iff :
    found ∈ unfolded next bound [] vertex ↔ ∃ length ≤ bound, WalkOf next length vertex found := by
  refine ⟨walk_of_mem_unfolded, ?_⟩
  rintro ⟨length, hlength, hwalk⟩
  classical
  have hexists : ∃ length, WalkOf next length vertex found := ⟨length, hwalk⟩
  have hleast := Nat.find_min' hexists hwalk
  exact mem_unfolded_of_walk (Nat.find_spec hexists) (hleast.trans hlength)
    (fun shorter hshorter ↦ Nat.find_min hexists hshorter) (by simp)

theorem not_mem_trail_of_mem_unfolded
    (hvertex : vertex ∉ trail) (h : found ∈ unfolded next bound trail vertex) : found ∉ trail := by
  induction bound generalizing trail vertex with
  | zero =>
    obtain rfl := List.mem_singleton.mp h
    exact hvertex
  | succ bound ih =>
    rcases List.mem_cons.mp h with rfl | hbelow
    · exact hvertex
    · obtain ⟨other, hother, hfound⟩ := List.mem_flatMap.mp hbelow
      have hfresh : other ∉ vertex :: trail := by simpa using (List.mem_filter.mp hother).2
      exact fun hmem ↦ ih hfresh hfound (List.mem_cons_of_mem _ hmem)

theorem not_mem_below {vertex : V} :
    vertex ∉ ((next vertex).filter fun other ↦ other ∉ vertex :: trail).flatMap
      (unfolded next bound (vertex :: trail)) := by
  intro hmem
  obtain ⟨other, hother, hfound⟩ := List.mem_flatMap.mp hmem
  have hfresh : other ∉ vertex :: trail := by simpa using (List.mem_filter.mp hother).2
  exact not_mem_trail_of_mem_unfolded hfresh hfound List.mem_cons_self

end Schemii.Foundations
