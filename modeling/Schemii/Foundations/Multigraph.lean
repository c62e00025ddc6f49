import Mathlib.Data.List.Nodup
import Mathlib.Tactic

/-!
# Undirected multigraphs

The edges of a multigraph have identities, so that parallel edges differ, and an edge may join a
vertex to itself. A walk is the list of its steps, each an edge and the vertex it leads to.

* `onCycle_iff`: an edge lies on a cycle exactly when its ends are connected without it.
* `isForest_iff`: a graph without cycles is one where no edge lies on a cycle.
* `path_unique`: in a forest there is at most one path between two vertices.
-/

set_option autoImplicit false

namespace Schemii.Foundations

/-- An undirected multigraph: which edge joins which two vertices. -/
@[ext]
structure Multigraph (V E : Type) where
  joins : E → V → V → Prop
  symm : ∀ {edge first second}, joins edge first second → joins edge second first
  ends : ∀ {edge first second third fourth}, joins edge first second → joins edge third fourth →
    first = third ∧ second = fourth ∨ first = fourth ∧ second = third

namespace Multigraph

variable {V E : Type} {G : Multigraph V E}

/-- A walk from one vertex to another, by its steps. -/
inductive Walk (G : Multigraph V E) : V → List (E × V) → V → Prop
  | stay (vertex : V) : Walk G vertex [] vertex
  | step {edge : E} {first second last : V} {steps : List (E × V)} (hjoins : G.joins edge first second)
      (hrest : Walk G second steps last) : Walk G first ((edge, second) :: steps) last

/-- A path: a walk that meets no vertex twice. -/
structure Path (G : Multigraph V E) (first : V) (steps : List (E × V)) (last : V) : Prop where
  walk : Walk G first steps last
  nodup : (first :: steps.map Prod.snd).Nodup

/-- A cycle: a walk back to its start that takes no edge twice and meets no vertex twice. -/
structure Cycle (G : Multigraph V E) (vertex : V) (steps : List (E × V)) : Prop where
  walk : Walk G vertex steps vertex
  nonempty : steps ≠ []
  edges : (steps.map Prod.fst).Nodup
  vertices : (steps.map Prod.snd).Nodup

/-- An edge lies on a cycle. -/
def OnCycle (G : Multigraph V E) (edge : E) : Prop :=
  ∃ vertex steps, Cycle G vertex steps ∧ edge ∈ steps.map Prod.fst

/-- A graph without cycles. -/
def IsForest (G : Multigraph V E) : Prop := ∀ vertex steps, ¬ Cycle G vertex steps

variable {first second last : V} {steps others : List (E × V)} {edge : E}

/-! ### Walks -/

theorem Walk.append (hfirst : Walk G first steps second) (hsecond : Walk G second others last) :
    Walk G first (steps ++ others) last := by
  induction hfirst with
  | stay vertex => exact hsecond
  | step hjoins hrest ih => exact .step hjoins (ih hsecond)

theorem Walk.divide (h : Walk G first (steps ++ others) last) :
    ∃ middle, Walk G first steps middle ∧ Walk G middle others last := by
  induction steps generalizing first with
  | nil => exact ⟨first, .stay first, h⟩
  | cons step steps ih =>
    cases h with
    | step hjoins hrest =>
      obtain ⟨middle, hbefore, hafter⟩ := ih hrest
      exact ⟨middle, .step hjoins hbefore, hafter⟩

theorem Walk.reverse (h : Walk G first steps last) :
    ∃ back, Walk G last back first ∧ back.map Prod.fst = (steps.map Prod.fst).reverse := by
  induction h with
  | stay vertex => exact ⟨[], .stay vertex, rfl⟩
  | @step edge first second last steps hjoins hrest ih =>
    obtain ⟨back, hback, hedges⟩ := ih
    refine ⟨back ++ [(edge, first)], hback.append (.step (G.symm hjoins) (.stay first)), ?_⟩
    simp [hedges]

theorem Walk.last_mem (h : Walk G first steps last) : last ∈ first :: steps.map Prod.snd := by
  induction h with
  | stay vertex => simp
  | step hjoins hrest ih => exact List.mem_cons_of_mem _ (by simpa using ih)

/-- An edge of a walk joins two vertices of the walk, the later of which is the end of a step. -/
theorem Walk.joins_of_mem (h : Walk G first steps last) (hedge : edge ∈ steps.map Prod.fst) :
    ∃ third ∈ first :: steps.map Prod.snd, ∃ fourth ∈ steps.map Prod.snd,
      G.joins edge third fourth := by
  induction h with
  | stay vertex => cases hedge
  | @step other first second last steps hjoins hrest ih =>
    rcases List.mem_cons.mp hedge with rfl | hlater
    · exact ⟨first, by simp, second, by simp, hjoins⟩
    · obtain ⟨third, hthird, fourth, hfourth, hother⟩ := ih hlater
      exact ⟨third, List.mem_cons_of_mem _ hthird, fourth, List.mem_cons_of_mem _ hfourth, hother⟩

theorem Walk.exists_path (h : Walk G first steps last) :
    ∃ path, Path G first path last ∧ path.map Prod.fst ⊆ steps.map Prod.fst := by
  classical
  induction h with
  | stay vertex => exact ⟨[], ⟨.stay vertex, by simp⟩, by simp⟩
  | @step edge first second last steps hjoins hrest ih =>
    obtain ⟨path, hpath, hedges⟩ := ih
    by_cases hreturns : first ∈ second :: path.map Prod.snd
    · -- The path comes back to the start: what it does before is left out.
      have hwhole : ∃ before after, (edge, second) :: path = before ++ after ∧ before ≠ [] ∧
          Walk G first after last ∧ (first :: after.map Prod.snd).Nodup := by
        rcases List.mem_cons.mp hreturns with rfl | hlater
        · exact ⟨[(edge, first)], path, rfl, by simp, hpath.walk, hpath.nodup⟩
        · obtain ⟨⟨other, same⟩, hstep, rfl⟩ := List.mem_map.mp hlater
          obtain ⟨before, after, rfl⟩ := List.append_of_mem hstep
          have hsplit : before ++ (other, same) :: after = (before ++ [(other, same)]) ++ after := by
            simp
          obtain ⟨middle, hbefore, hafter⟩ := (hsplit ▸ hpath.walk).divide
          have hmiddle : middle = same := by
            obtain ⟨earlier, -, hlast⟩ := hbefore.divide
            cases hlast with
            | step hjoins hstay =>
              cases hstay
              rfl
          subst hmiddle
          refine ⟨(edge, second) :: before ++ [(other, middle)], after, by simp, by simp, hafter, ?_⟩
          have hnodup := hpath.nodup
          rw [List.map_append, List.map_cons] at hnodup
          exact (List.nodup_append.mp (List.nodup_cons.mp hnodup).2).2.1
      obtain ⟨before, after, hsplit, hne, hwalk, hnodup⟩ := hwhole
      refine ⟨after, ⟨hwalk, hnodup⟩, ?_⟩
      cases before with
      | nil => exact absurd rfl hne
      | cons step before =>
        have hpath' : path = before ++ after := (List.cons.inj hsplit).2
        rw [hpath', List.map_append] at hedges
        exact fun other hother ↦
          List.mem_cons_of_mem _ (hedges (List.mem_append_right _ hother))
    · refine ⟨(edge, second) :: path, ⟨.step hjoins hpath.walk, ?_⟩, ?_⟩
      · simpa using List.nodup_cons.mpr ⟨hreturns, hpath.nodup⟩
      · intro other hother
        rcases List.mem_cons.mp hother with rfl | hlater
        · simp
        · exact List.mem_cons_of_mem _ (hedges hlater)

/-! ### Paths -/

theorem Path.tail (h : Path G first ((edge, second) :: steps) last) : Path G second steps last := by
  cases h.walk with
  | step hjoins hrest => exact ⟨hrest, (List.nodup_cons.mp h.nodup).2⟩

theorem Path.first_notMem (h : Path G first ((edge, second) :: steps) last) :
    edge ∉ steps.map Prod.fst := by
  intro hagain
  cases h.walk with
  | step hjoins hrest =>
    obtain ⟨third, hthird, fourth, hfourth, hother⟩ := hrest.joins_of_mem hagain
    have hnot : first ∉ second :: steps.map Prod.snd := (List.nodup_cons.mp h.nodup).1
    rcases G.ends hjoins hother with ⟨rfl, -⟩ | ⟨rfl, -⟩
    · exact hnot hthird
    · exact hnot (List.mem_cons_of_mem _ hfourth)

theorem Path.edges_nodup (h : Path G first steps last) : (steps.map Prod.fst).Nodup := by
  induction steps generalizing first with
  | nil => exact List.nodup_nil
  | cons step steps ih =>
    obtain ⟨edge, second⟩ := step
    exact List.nodup_cons.mpr ⟨h.first_notMem, ih h.tail⟩

theorem Path.eq_nil (h : Path G first steps first) : steps = [] := by
  cases steps with
  | nil => rfl
  | cons step steps =>
    obtain ⟨edge, second⟩ := step
    exact absurd h.tail.walk.last_mem (List.nodup_cons.mp h.nodup).1

/-! ### Cycles -/

theorem onCycle_iff (hedge : G.joins edge first second) :
    G.OnCycle edge ↔ ∃ steps, Walk G first steps second ∧ edge ∉ steps.map Prod.fst := by
  constructor
  · rintro ⟨vertex, steps, hcycle, hin⟩
    obtain ⟨⟨same, last⟩, hstep, rfl⟩ := List.mem_map.mp hin
    obtain ⟨before, after, rfl⟩ := List.append_of_mem hstep
    obtain ⟨middle, hbefore, hrest⟩ := hcycle.walk.divide
    cases hrest with
    | step hjoins hafter =>
      -- The rest of the cycle leads from the one end of the edge to the other.
      have haround : Walk G last (after ++ before) middle := hafter.append hbefore
      have hnot : same ∉ (after ++ before).map Prod.fst := by
        have hnodup := hcycle.edges
        rw [List.map_append, List.map_cons, List.nodup_append, List.nodup_cons] at hnodup
        rw [List.map_append, List.mem_append, not_or]
        exact ⟨hnodup.2.1.1, fun hmem ↦ hnodup.2.2 same hmem same (by simp) rfl⟩
      rcases G.ends hedge hjoins with ⟨rfl, rfl⟩ | ⟨rfl, rfl⟩
      · obtain ⟨back, hback, hedges⟩ := haround.reverse
        refine ⟨back, hback, ?_⟩
        rwa [hedges, List.mem_reverse]
      · exact ⟨after ++ before, haround, hnot⟩
  · rintro ⟨steps, hwalk, hnot⟩
    obtain ⟨path, hpath, hedges⟩ := hwalk.exists_path
    refine ⟨second, (edge, first) :: path, ⟨.step (G.symm hedge) hpath.walk, by simp, ?_, ?_⟩,
      by simp⟩
    · exact List.nodup_cons.mpr ⟨fun hin ↦ hnot (hedges hin), hpath.edges_nodup⟩
    · exact hpath.nodup

theorem isForest_iff : G.IsForest ↔ ∀ edge, ¬ G.OnCycle edge := by
  constructor
  · rintro hforest edge ⟨vertex, steps, hcycle, -⟩
    exact hforest vertex steps hcycle
  · intro hnone vertex steps hcycle
    cases steps with
    | nil => exact hcycle.nonempty rfl
    | cons step steps => exact hnone step.1 ⟨vertex, step :: steps, hcycle, by simp⟩

theorem path_unique (hforest : G.IsForest) (h : Path G first steps last)
    (hother : Path G first others last) : steps = others := by
  induction steps generalizing first others with
  | nil =>
    cases h.walk
    exact hother.eq_nil.symm
  | cons step steps ih =>
    obtain ⟨edge, second⟩ := step
    cases others with
    | nil =>
      cases hother.walk
      exact h.eq_nil
    | cons step' others =>
      obtain ⟨edge', second'⟩ := step'
      have hjoins : G.joins edge first second := by
        cases h.walk with
        | step hjoins hrest => exact hjoins
      have hjoins' : G.joins edge' first second' := by
        cases hother.walk with
        | step hjoins hrest => exact hjoins
      by_cases hsame : edge = edge'
      · subst hsame
        have hvertex : second = second' := by
          rcases G.ends hjoins hjoins' with ⟨-, hsecond⟩ | ⟨hfirst, -⟩
          · exact hsecond
          · exact absurd hfirst fun heq ↦ (List.nodup_cons.mp hother.nodup).1 (by simp [heq])
        subst hvertex
        rw [ih h.tail hother.tail]
      · -- The other path and the rest of the first connect the ends of the first edge without it.
        exfalso
        have hnot : edge ∉ ((edge', second') :: others).map Prod.fst := by
          intro hin
          rcases List.mem_cons.mp hin with heq | hlater
          · exact hsame heq
          · obtain ⟨third, hthird, fourth, hfourth, hagain⟩ := hother.tail.walk.joins_of_mem hlater
            have hfirst := (List.nodup_cons.mp hother.nodup).1
            rcases G.ends hjoins hagain with ⟨rfl, -⟩ | ⟨rfl, -⟩
            · exact hfirst hthird
            · exact hfirst (List.mem_cons_of_mem _ hfourth)
        obtain ⟨back, hback, hedges⟩ := h.tail.walk.reverse
        refine isForest_iff.mp hforest edge ((onCycle_iff hjoins).mpr
          ⟨(edge', second') :: others ++ back, hother.walk.append hback, ?_⟩)
        rw [List.map_append, List.mem_append, not_or]
        exact ⟨hnot, by simpa [hedges] using h.first_notMem⟩

end Multigraph

end Schemii.Foundations
