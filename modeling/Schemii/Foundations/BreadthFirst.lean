import Mathlib.Logic.Relation
import Schemii.Foundations.Multigraph

/-!
# Breadth-first search with parents

`search` explores a graph from a vertex with a queue and remembers for every vertex it meets the step
that led to it, in the order in which the vertices are met. `climb` follows these steps back to the
start.

* `mem_search_iff`, `leads_iff_walk`: with enough rounds exactly the vertices are met that walks over
  the edges of the search lead to.
* `climb_path`: the steps from the start to a vertex are a path.
-/

set_option autoImplicit false

namespace Schemii.Foundations.BreadthFirst

variable {V E : Type} [DecidableEq V] (next : V → List (V × E))

/-- The vertices that were met, each with the vertex and the edge that led to it. -/
abbrev Parents (V E : Type) := List (V × Option (V × E))

/-- A vertex was met. -/
def met (parents : Parents V E) (vertex : V) : Bool := parents.any fun entry ↦ entry.1 == vertex

/-- One step out of a vertex: a vertex that was not met is entered and queued. -/
def visit (previous : V) (state : Parents V E × List V) (step : V × E) : Parents V E × List V :=
  if met state.1 step.1 then state
  else (state.1 ++ [(step.1, some (previous, step.2))], state.2 ++ [step.1])

/-- The rounds of the search: the steps out of the first vertex of the queue. -/
def rounds : ℕ → Parents V E → List V → Parents V E
  | 0, parents, _ => parents
  | _ + 1, parents, [] => parents
  | count + 1, parents, previous :: queue =>
    let state := (next previous).foldl (visit previous) (parents, queue)
    rounds count state.1 state.2

/-- The search from a vertex. -/
def search (count : ℕ) (start : V) : Parents V E := rounds next count [(start, none)] [start]

/-- The steps from the start to a vertex, by the steps that led to the vertices on the way. -/
def climb (parents : Parents V E) : ℕ → V → List (E × V)
  | 0, _ => []
  | count + 1, vertex =>
    match parents.lookup vertex with
    | some (some (previous, edge)) => climb parents count previous ++ [(edge, vertex)]
    | _ => []

variable {next}

/-! ### What a search keeps -/

/-- A state of the search: the queue are the last vertices that were met, and every vertex but the
first was entered by a step out of an earlier one. -/
structure Explored (next : V → List (V × E)) (start : V) (parents : Parents V E) (front queue : List V) :
    Prop where
  vertices : parents.map Prod.fst = front ++ queue
  nodup : (front ++ queue).Nodup
  first : parents.head? = some (start, none)
  entered : ∀ before vertex parent after, parents = before ++ (vertex, parent) :: after →
    before ≠ [] → ∃ previous edge, parent = some (previous, edge) ∧
      previous ∈ before.map Prod.fst ∧ (vertex, edge) ∈ next previous

variable {start previous : V} {parents : Parents V E} {front queue : List V}

theorem met_iff {vertex : V} : met parents vertex = true ↔ vertex ∈ parents.map Prod.fst := by
  simp only [met, List.any_eq_true, beq_iff_eq, List.mem_map]

/-- Assumes: a state of the search, and a step out of a vertex that was met. The step keeps it, and
its end has been met. -/
theorem Explored.visit (h : Explored next start parents front queue) {step : V × E}
    (hprevious : previous ∈ front ++ queue) (hstep : step ∈ next previous) :
    ∃ added, (visit previous (parents, queue) step).2 = queue ++ added ∧
      Explored next start (visit previous (parents, queue) step).1 front (queue ++ added) ∧
      step.1 ∈ front ++ (queue ++ added) := by
  by_cases hmet : met parents step.1
  · refine ⟨[], by simp [BreadthFirst.visit, hmet], ?_, ?_⟩
    · simpa [BreadthFirst.visit, hmet] using h
    · rw [List.append_nil, ← h.vertices]
      exact met_iff.mp hmet
  · have hnew : step.1 ∉ front ++ queue := by
      rw [← h.vertices]
      exact fun hin ↦ hmet (met_iff.mpr hin)
    refine ⟨[step.1], by simp [BreadthFirst.visit, hmet], ?_, by simp⟩
    simp only [BreadthFirst.visit, hmet]
    refine ⟨?_, ?_, ?_, ?_⟩
    · simp [h.vertices]
    · rw [← List.append_assoc]
      exact List.nodup_append.mpr ⟨h.nodup, by simp, by
        rintro vertex hvertex other hother rfl
        rw [List.mem_singleton] at hother
        exact hnew (hother ▸ hvertex)⟩
    · have hfirst := h.first
      cases parents with
      | nil => cases hfirst
      | cons entry parents => exact hfirst
    · intro before vertex parent after hsplit hbefore
      rcases List.eq_nil_or_concat after with rfl | ⟨others, last, rfl⟩
      · -- The new entry.
        have hcut : parents ++ [(step.1, some (previous, step.2))] =
            before ++ [(vertex, parent)] := hsplit
        obtain ⟨rfl, hentry⟩ := List.append_inj' hcut rfl
        obtain ⟨rfl, rfl⟩ := Prod.mk.inj (List.singleton_inj.mp hentry)
        exact ⟨previous, step.2, rfl, h.vertices ▸ hprevious, hstep⟩
      · have hsplit' : parents = before ++ (vertex, parent) :: others := by
          have hcut : parents ++ [(step.1, some (previous, step.2))] =
              (before ++ (vertex, parent) :: others) ++ [last] := by simpa using hsplit
          exact (List.append_inj' hcut rfl).1
        exact h.entered before vertex parent others hsplit' hbefore

/-- Assumes: a state of the search, and steps out of a vertex that was met. They keep it, and their
ends have been met. -/
theorem Explored.foldl_visit (steps : List (V × E)) (h : Explored next start parents front queue)
    (hprevious : previous ∈ front ++ queue) (hsteps : ∀ step ∈ steps, step ∈ next previous) :
    ∃ added, (steps.foldl (BreadthFirst.visit previous) (parents, queue)).2 = queue ++ added ∧
      Explored next start (steps.foldl (BreadthFirst.visit previous) (parents, queue)).1 front
        (queue ++ added) ∧
      ∀ step ∈ steps, step.1 ∈ front ++ (queue ++ added) := by
  induction steps generalizing parents queue with
  | nil => exact ⟨[], by simp, by simpa using h, by simp⟩
  | cons step steps ih =>
    obtain ⟨added, hqueue, hexplored, hmet⟩ := h.visit hprevious (hsteps step (by simp))
    have hstill : previous ∈ front ++ (queue ++ added) := by
      rw [← List.append_assoc]
      exact List.mem_append_left _ hprevious
    obtain ⟨more, hqueues, hexplored', hothers⟩ := ih hexplored hstill
      fun other hother ↦ hsteps other (List.mem_cons_of_mem _ hother)
    rw [← hqueue] at hqueues hexplored' hothers
    refine ⟨added ++ more, ?_, ?_, ?_⟩
    · rw [List.foldl_cons, ← List.append_assoc, ← hqueue]
      exact hqueues
    · rw [List.foldl_cons, ← List.append_assoc, ← hqueue]
      exact hexplored'
    · intro other hother
      rcases List.mem_cons.mp hother with rfl | hlater
      · simp only [List.mem_append] at hmet ⊢
        tauto
      · rw [← List.append_assoc queue, ← hqueue]
        exact hothers other hlater

omit [DecidableEq V] in
/-- Assumes: a state of the search, and a set that holds the start and is closed under steps. It holds
the vertices that were met. -/
theorem Explored.subset (known : V → Prop) (h : Explored next start parents front queue)
    (hstart : known start) (hclosed : ∀ vertex, known vertex → ∀ step ∈ next vertex, known step.1)
    {vertex : V} (hvertex : vertex ∈ front ++ queue) : known vertex := by
  -- By the number of vertices that were met before.
  suffices hall : ∀ count before vertex parent after, before.length = count →
      parents = before ++ (vertex, parent) :: after → known vertex by
    rw [← h.vertices] at hvertex
    obtain ⟨⟨same, parent⟩, hentry, rfl⟩ := List.mem_map.mp hvertex
    obtain ⟨before, after, hsplit⟩ := List.append_of_mem hentry
    exact hall _ before same parent after rfl hsplit
  intro count
  induction count using Nat.strong_induction_on with
  | _ count ih =>
    intro before vertex parent after hlength hsplit
    by_cases hbefore : before = []
    · have hfirst := h.first
      subst hbefore
      rw [hsplit] at hfirst
      obtain ⟨rfl, -⟩ := Prod.mk.inj (Option.some.inj hfirst)
      exact hstart
    · obtain ⟨previous, edge, rfl, hprevious, hstep⟩ :=
        h.entered before vertex parent after hsplit hbefore
      obtain ⟨⟨same, earlier⟩, hentry, rfl⟩ := List.mem_map.mp hprevious
      obtain ⟨first, second, rfl⟩ := List.append_of_mem hentry
      have hshort : first.length < count := by
        rw [← hlength, List.length_append]
        simp
      have hknown := ih first.length hshort first same earlier
        (second ++ (vertex, some (same, edge)) :: after) rfl (by simpa using hsplit)
      exact hclosed same hknown (vertex, edge) hstep

/-- Assumes: a state of the search in which the steps of the vertices before the queue were taken, a
closed list that holds the start, and rounds for those of its vertices whose steps were not taken. At
the end the steps of all vertices that were met were taken. -/
theorem Explored.rounds {count : ℕ} {known : List V} (h : Explored next start parents front queue)
    (htaken : ∀ vertex ∈ front, ∀ step ∈ next vertex, step.1 ∈ front ++ queue)
    (hstart : start ∈ known) (hclosed : ∀ vertex ∈ known, ∀ step ∈ next vertex, step.1 ∈ known)
    (hcount : known.length ≤ count + front.length) :
    ∃ vertices, Explored next start (rounds next count parents queue) vertices [] ∧
      ∀ vertex ∈ vertices, ∀ step ∈ next vertex, step.1 ∈ vertices := by
  induction count generalizing parents front queue with
  | zero =>
    -- All known vertices have been taken, so the queue is empty.
    have hknown : front ++ queue ⊆ known := fun vertex hvertex ↦
      h.subset (· ∈ known) hstart hclosed hvertex
    have hlength : (front ++ queue).length ≤ known.length := (h.nodup.subperm hknown).length_le
    have hempty : queue = [] := by
      rw [List.length_append] at hlength
      exact List.eq_nil_of_length_eq_zero (by omega)
    subst hempty
    exact ⟨front, h, by simpa using htaken⟩
  | succ count ih =>
    cases queue with
    | nil => exact ⟨front, h, by simpa using htaken⟩
    | cons previous queue =>
      have hmoved : Explored next start parents (front ++ [previous]) queue :=
        ⟨by simpa using h.vertices, by simpa using h.nodup, h.first, h.entered⟩
      obtain ⟨added, hqueue, hexplored, hmet⟩ := hmoved.foldl_visit (next previous)
        (by simp) fun _ hstep ↦ hstep
      rw [BreadthFirst.rounds]
      simp only [hqueue]
      refine ih hexplored ?_ ?_
      · intro vertex hvertex step hstep
        rcases List.mem_append.mp hvertex with hbefore | hlast
        · have hold := htaken vertex hbefore step hstep
          simp only [List.mem_append, List.mem_cons] at hold ⊢
          tauto
        · rw [List.mem_singleton] at hlast
          subst hlast
          exact hmet step hstep
      · rw [List.length_append]
        simp only [List.length_singleton]
        omega

/-! ### What a search finds -/

/-- One vertex leads to another by a step. -/
def Leads (next : V → List (V × E)) (vertex other : V) : Prop := ∃ edge, (other, edge) ∈ next vertex

/-- Assumes: a closed list that holds the start, and rounds for its vertices. The search ends in a
state with an empty queue, where the steps of all vertices were taken. -/
theorem search_explored {count : ℕ} {known : List V} (hstart : start ∈ known)
    (hclosed : ∀ vertex ∈ known, ∀ step ∈ next vertex, step.1 ∈ known)
    (hcount : known.length ≤ count) :
    ∃ vertices, Explored next start (search next count start) vertices [] ∧
      ∀ vertex ∈ vertices, ∀ step ∈ next vertex, step.1 ∈ vertices := by
  have hinitial : Explored next start [(start, none)] [] [start] := by
    refine ⟨by simp, by simp, rfl, ?_⟩
    intro before vertex parent after hsplit hbefore
    cases before with
    | nil => exact absurd rfl hbefore
    | cons entry before =>
      have hlength := congrArg List.length hsplit
      simp at hlength
  exact hinitial.rounds (by simp) hstart hclosed (by simpa using hcount)

/-- Assumes: a closed list that holds the start, and rounds for its vertices. The search meets exactly
the vertices that the start leads to. -/
theorem mem_search_iff {count : ℕ} {known : List V} {vertex : V} (hstart : start ∈ known)
    (hclosed : ∀ vertex ∈ known, ∀ step ∈ next vertex, step.1 ∈ known)
    (hcount : known.length ≤ count) :
    vertex ∈ (search next count start).map Prod.fst ↔
      Relation.ReflTransGen (Leads next) start vertex := by
  obtain ⟨vertices, hexplored, htaken⟩ := search_explored hstart hclosed hcount
  rw [hexplored.vertices, List.append_nil]
  constructor
  · intro hvertex
    refine hexplored.subset (Relation.ReflTransGen (Leads next) start) .refl ?_ (by simpa)
    intro other hother step hstep
    exact hother.tail ⟨step.2, hstep⟩
  · intro hreached
    induction hreached with
    | refl =>
      have hfirst : (search next count start).head? = some (start, none) := hexplored.first
      have hmem : (start, none) ∈ search next count start := List.mem_of_head? hfirst
      have hall := List.mem_map_of_mem (f := Prod.fst) hmem
      rwa [hexplored.vertices, List.append_nil] at hall
    | tail hfirst hlast ih =>
      obtain ⟨edge, hedge⟩ := hlast
      exact htaken _ ih _ hedge

omit [DecidableEq V] in
/-- Assumes: the steps are those over some edges of a graph. What a vertex leads to is what walks over
these edges lead to. -/
theorem leads_iff_walk {G : Multigraph V E} {allowed : E → Prop}
    (hsteps : ∀ vertex other edge, (other, edge) ∈ next vertex ↔ G.joins edge vertex other ∧ allowed edge)
    {vertex : V} :
    Relation.ReflTransGen (Leads next) start vertex ↔
      ∃ steps, Multigraph.Walk G start steps vertex ∧ ∀ edge ∈ steps.map Prod.fst, allowed edge := by
  constructor
  · intro h
    induction h with
    | refl => exact ⟨[], .stay start, by simp⟩
    | @tail before after hfirst hlast ih =>
      obtain ⟨steps, hwalk, hallowed⟩ := ih
      obtain ⟨edge, hedge⟩ := hlast
      obtain ⟨hjoins, hlastAllowed⟩ := (hsteps before after edge).mp hedge
      refine ⟨steps ++ [(edge, after)], hwalk.append (.step hjoins (.stay after)), ?_⟩
      intro other hother
      rw [List.map_append, List.mem_append] at hother
      rcases hother with hearlier | hother
      · exact hallowed other hearlier
      · rw [List.map_singleton, List.mem_singleton] at hother
        rwa [hother]
  · rintro ⟨steps, hwalk, hallowed⟩
    induction hwalk with
    | stay vertex => exact .refl
    | @step edge first second last steps hjoins hrest ih =>
      rw [List.map_cons, List.forall_mem_cons] at hallowed
      exact .head ⟨edge, (hsteps first second edge).mpr ⟨hjoins, hallowed.1⟩⟩ (ih hallowed.2)

/-- Assumes: a state of the search, and an entry of it. It is what is found at its vertex. -/
theorem Explored.lookup {before after : Parents V E} {vertex : V} {parent : Option (V × E)}
    (h : Explored next start parents front queue) (hsplit : parents = before ++ (vertex, parent) :: after) :
    parents.lookup vertex = some parent := by
  have hnodup : (parents.map Prod.fst).Nodup := h.vertices ▸ h.nodup
  rw [hsplit, List.map_append, List.map_cons] at hnodup
  have hnot : vertex ∉ before.map Prod.fst := fun hin ↦
    (List.nodup_append.mp hnodup).2.2 vertex hin vertex (by simp) rfl
  have hbefore : before.lookup vertex = none := by
    rw [List.lookup_eq_none_iff]
    intro entry hentry
    have hne : vertex ≠ entry.1 := fun heq ↦ hnot (heq ▸ List.mem_map_of_mem hentry)
    simpa using hne
  rw [hsplit, List.lookup_append, hbefore]
  simp

/-- Assumes: a state of a search along edges of a graph. The steps that lead to a vertex are a path
from the start. -/
theorem Explored.climb_path {G : Multigraph V E}
    (hjoins : ∀ vertex, ∀ step ∈ next vertex, G.joins step.2 vertex step.1)
    (h : Explored next start parents front queue) {count : ℕ} {before after : Parents V E} {vertex : V}
    {parent : Option (V × E)} (hsplit : parents = before ++ (vertex, parent) :: after)
    (hcount : before.length ≤ count) :
    G.Path start (climb parents count vertex) vertex ∧
      ∀ other ∈ (climb parents count vertex).map Prod.snd, other ∈ vertex :: before.map Prod.fst := by
  induction count generalizing before vertex parent after with
  | zero =>
    obtain rfl := List.eq_nil_of_length_eq_zero (Nat.le_zero.mp hcount)
    have hfirst := h.first
    rw [hsplit] at hfirst
    obtain ⟨rfl, -⟩ := Prod.mk.inj (Option.some.inj hfirst)
    exact ⟨⟨.stay vertex, by simp [climb]⟩, by simp [climb]⟩
  | succ count ih =>
    have hlookup := h.lookup hsplit
    by_cases hbefore : before = []
    · have hfirst := h.first
      subst hbefore
      rw [hsplit] at hfirst
      obtain ⟨rfl, rfl⟩ := Prod.mk.inj (Option.some.inj hfirst)
      have hclimb : climb parents (count + 1) vertex = [] := by rw [climb, hlookup]
      rw [hclimb]
      exact ⟨⟨.stay vertex, by simp⟩, by simp⟩
    · obtain ⟨previous, edge, rfl, hprevious, hstep⟩ :=
        h.entered before vertex parent after hsplit hbefore
      obtain ⟨⟨same, earlier⟩, hentry, rfl⟩ := List.mem_map.mp hprevious
      obtain ⟨first, second, rfl⟩ := List.append_of_mem hentry
      have hshort : first.length ≤ count := by
        rw [List.length_append, List.length_cons] at hcount
        omega
      have hearlier : parents = first ++ (same, earlier) ::
          (second ++ (vertex, some (same, edge)) :: after) := by simpa using hsplit
      obtain ⟨hpath, hinside⟩ := ih hearlier hshort
      have hclimb : climb parents (count + 1) vertex =
          climb parents count same ++ [(edge, vertex)] := by rw [climb, hlookup]
      -- The vertex was met after all vertices of the path to the one before it.
      have hnew : vertex ∉ start :: (climb parents count same).map Prod.snd := by
        have hnodup : (parents.map Prod.fst).Nodup := h.vertices ▸ h.nodup
        rw [hsplit, List.map_append, List.map_cons] at hnodup
        have hnot : vertex ∉ (first ++ (same, earlier) :: second).map Prod.fst := fun hin ↦
          (List.nodup_append.mp hnodup).2.2 vertex hin vertex (by simp) rfl
        intro hin
        refine hnot ?_
        rcases List.mem_cons.mp hin with rfl | hlater
        · have hfirst := h.first
          rw [hsplit] at hfirst
          cases first with
          | nil =>
            obtain ⟨rfl, -⟩ := Prod.mk.inj (Option.some.inj hfirst)
            simp
          | cons entry first =>
            obtain rfl := Option.some.inj hfirst
            simp
        · rw [List.map_append, List.map_cons]
          rcases List.mem_cons.mp (hinside vertex hlater) with rfl | hearlier
          · simp
          · exact List.mem_append_left _ hearlier
      rw [hclimb]
      constructor
      · refine ⟨hpath.walk.append (.step (hjoins same (vertex, edge) hstep) (.stay vertex)), ?_⟩
        rw [List.map_append, ← List.cons_append]
        refine List.nodup_append.mpr ⟨hpath.nodup, by simp, ?_⟩
        rintro other hother last hlast rfl
        have hvertex : other = vertex := by simpa using hlast
        exact hnew (hvertex ▸ hother)
      · intro other hother
        rw [List.map_append, List.mem_append] at hother
        rcases hother with hearlier | hlast
        · refine List.mem_cons_of_mem _ ?_
          rw [List.map_append, List.map_cons]
          rcases List.mem_cons.mp (hinside other hearlier) with rfl | hfirst
          · simp
          · exact List.mem_append_left _ hfirst
        · rw [List.map_singleton, List.mem_singleton] at hlast
          simp [hlast]

end Schemii.Foundations.BreadthFirst
