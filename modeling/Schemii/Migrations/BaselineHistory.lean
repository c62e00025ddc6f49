import Schemii.Migrations.Answers
import Schemii.Migrations.Effects

/-!
# The baselines of a workspace

The baselines that a workspace gets once an execution was reserved. `SyncsInTime` is a condition on
one kind of call: where the synchronisation of an execution that is settled already reads the head
of a workspace, the head still has the catalog of that execution. In runs whose calls meet it, each
execution of the workspace records at most one baseline, right after those it was reserved with, and
nothing else records one while it is not settled (`SteadyInv`).

The reason is the order of the steps. A workspace has one unsettled execution at a time, and drift is
resolved only when there is none. A synchronisation appends after the head it read, so an append is
granted only to a program that read the last baseline. If that program works for an execution that
was settled since, the head it read was there before the reservation, and settling had to see a
baseline with the same catalog or a later one.
-/

set_option autoImplicit false

namespace Schemii.Migrations

open Foundations Designs

variable {C K : Type}

/-! ### The invariant -/

section Invariant

variable (fingerprint : K → String) (workspace : Key)

/-- A synchronisation of a settled execution of the workspace reads a head with its catalog. -/
def SyncsInTime : MigrationCall C K → World C K → Prop
  | .currentBaseline _ (.synchronise key), world =>
    ∀ record ∈ world.record? key, record.workspace = workspace →
      record.blocksWorkspaceLifecycle = false → ∀ result ∈ record.intendedResult,
        (world.repository.currentBaseline workspace).map (fun head ↦ fingerprint head.catalog) =
          some (fingerprint result.catalog)
  | _, _ => True

instance (request : MigrationCall C K) (world : World C K) :
    Decidable (SyncsInTime fingerprint workspace request world) :=
  match request with
  | .currentBaseline _ (.synchronise key) =>
    inferInstanceAs (Decidable (∀ record ∈ world.record? key, record.workspace = workspace →
      record.blocksWorkspaceLifecycle = false → ∀ result ∈ record.intendedResult,
        (world.repository.currentBaseline workspace).map (fun head ↦ fingerprint head.catalog) =
          some (fingerprint result.catalog)))
  | .currentBaseline _ .review | .currentBaseline _ .recheck => .isTrue trivial
  | .now | .leaseToken | .getPlan _ | .getWorkspace _ | .getDesign _ | .createBaseline _
  | .getExecution _ | .claimNextExecution _ _ _ | .renewExecutionLease _ _ _
  | .transitionExecution _ _ | .replaceDesign _ _ _ | .useConnection _ _ | .gatewaySupports _
  | .beginTransaction _ _ _ | .lockTarget _ _ _ _ | .introspect _ _ | .tableEmptiness _ _ _
  | .targetIdentity _ | .currentTransactionId _ | .executeStatement _ _ | .commit _ | .cleanup _
  | .transactionStatus _ _ => .isTrue trivial

/-- A baseline has the catalog of an execution: its own one, right after those the execution was
reserved with, or the last of them. -/
def World.Synced (world : World C K) (key : Key) (id : String) (catalog : K) : Prop :=
  ∃ (index : ℕ) (baseline : BaselineRecord C K),
    (world.repository.baselines workspace)[index]? = some baseline ∧
    fingerprint baseline.catalog = fingerprint catalog ∧
    (index = world.baselineMarks key ∧ baseline.sourceExecutionId = some id ∨
      index + 1 = world.baselineMarks key)

/-- The invariant of the baselines of a workspace. -/
structure SteadyInv (world : World C K) : Prop where
  reviewed : ∀ (key : Key) (plan : PlanRecord C K), world.repository.plans.lookup key = some plan →
    (key.1, plan.plan.workspaceId) = workspace → world.repository.baselines workspace ≠ []
  marked : ∀ key record, world.record? key = some record → record.workspace = workspace →
    0 < world.baselineMarks key
  single : ∀ key other record second, world.record? key = some record →
    world.record? other = some second → record.workspace = workspace →
      second.workspace = workspace → record.blocksWorkspaceLifecycle = true →
        second.blocksWorkspaceLifecycle = true → key = other
  own : ∀ (key : Key) (record : ExecutionRecord C K) (index : ℕ) (baseline : BaselineRecord C K),
    world.record? key = some record → record.workspace = workspace →
      (world.repository.baselines workspace)[index]? = some baseline →
        baseline.sourceExecutionId = some record.execution.id →
          index = world.baselineMarks key ∧ ∃ result, record.intendedResult = some result ∧
            baseline.catalog = result.catalog
  pending : ∀ (key : Key) (record : ExecutionRecord C K) (index : ℕ)
    (baseline : BaselineRecord C K), world.record? key = some record →
      record.workspace = workspace → record.blocksWorkspaceLifecycle = true →
        world.baselineMarks key ≤ index →
          (world.repository.baselines workspace)[index]? = some baseline →
            baseline.sourceExecutionId = some record.execution.id
  settled : ∀ key record, world.record? key = some record → record.workspace = workspace →
    record.blocksWorkspaceLifecycle = false → record.execution.commitOutcome = some .committed →
      ∃ result, record.intendedResult = some result ∧
        world.Synced fingerprint workspace key record.execution.id result.catalog

/-- What a synchronisation of an execution of the workspace read: a head with its catalog, or the
baseline the execution was reserved with. -/
def SyncRead (key : Key) (head : Option (BaselineRecord C K)) (world : World C K) : Prop :=
  ∃ record, world.record? key = some record ∧ (record.workspace = workspace →
    ∃ result baseline, record.intendedResult = some result ∧ head = some baseline ∧
      (fingerprint baseline.catalog = fingerprint result.catalog ∨
        ∃ index, index + 1 = world.baselineMarks key ∧
          (world.repository.baselines workspace)[index]? = some baseline))

end Invariant

section Steady

variable {fingerprint : K → String} {workspace : Key} {before after : World C K}
  {baseline : BaselineRecord C K}

/-- Assumes: a list and one that it is the beginning of. Its members stand where they stood. -/
theorem WorldGrowth.getElem? (h : WorldGrowth before after) {index : ℕ}
    (hat : (before.repository.baselines workspace)[index]? = some baseline) :
    (after.repository.baselines workspace)[index]? = some baseline := by
  obtain ⟨hindex, hvalue⟩ := List.getElem?_eq_some_iff.mp hat
  rw [List.prefix_iff_getElem?.mp (h.baselines workspace) index hindex, hvalue]

variable {record : ExecutionRecord C K} {key : Key}

theorem World.Synced.growth {catalog : K}
    (hrecord : before.record? key = some record) (hgrowth : WorldGrowth before after)
    (h : before.Synced fingerprint workspace key record.execution.id catalog) :
    after.Synced fingerprint workspace key record.execution.id catalog := by
  obtain ⟨index, baseline, hat, hfingerprint, hplace⟩ := h
  refine ⟨index, baseline, hgrowth.getElem? hat, hfingerprint, ?_⟩
  rw [hgrowth.marks key record hrecord]
  exact hplace

theorem SyncRead.growth {head : Option (BaselineRecord C K)}
    (h : SyncRead fingerprint workspace key head before) (hgrowth : WorldGrowth before after) :
    SyncRead fingerprint workspace key head after := by
  obtain ⟨record, hrecord, hread⟩ := h
  obtain ⟨later, hlater, hrecordLater⟩ := hgrowth.executions key record hrecord
  refine ⟨later, hlater, fun hworkspace ↦ ?_⟩
  rw [hrecordLater.workspace_eq] at hworkspace
  obtain ⟨result, baseline, hresult, rfl, hcase⟩ := hread hworkspace
  refine ⟨result, baseline, hrecordLater.intended result hresult, rfl, ?_⟩
  rcases hcase with hfingerprint | ⟨index, hindex, hat⟩
  · exact Or.inl hfingerprint
  · refine Or.inr ⟨index, ?_, hgrowth.getElem? hat⟩
    rw [hgrowth.marks key record hrecord]
    exact hindex

variable (h : SteadyInv fingerprint workspace before)

include h in
/-- Assumes: the invariants, and a committed execution whose synchronisation reads the head in time.
What it read. -/
theorem SteadyInv.syncRead (hworld : WorldInv before)
    (hknows : before.Knows record) (hcommitted : record.execution.commitOutcome = some .committed)
    (htime : SyncsInTime fingerprint workspace
      (.currentBaseline record.workspace (.synchronise record.key)) before) :
    SyncRead fingerprint workspace record.key
      (before.repository.currentBaseline record.workspace) before := by
  obtain ⟨current, hcurrent, hlater⟩ := hknows
  refine ⟨current, hcurrent, fun hworkspace ↦ ?_⟩
  obtain ⟨result, hresult⟩ :=
    hworld.intended_of_committed hcurrent (hlater.committed hcommitted)
  have hmark := hworld.marks _ current hcurrent
  have hpositive := h.marked _ current hcurrent hworkspace
  rw [← hlater.workspace_eq, hworkspace]
  rw [hworkspace] at hmark
  unfold MigrationRepository.currentBaseline
  rw [List.getLast?_eq_getElem?]
  generalize hlast : (before.repository.baselines workspace).length - 1 = last
  obtain ⟨baseline, hat⟩ : ∃ baseline,
      (before.repository.baselines workspace)[last]? = some baseline :=
    ⟨_, List.getElem?_eq_getElem (by omega)⟩
  refine ⟨result, baseline, hresult, hat, ?_⟩
  cases hsettled : current.blocksWorkspaceLifecycle with
  | false =>
    have hhead := htime current hcurrent hworkspace hsettled result hresult
    unfold MigrationRepository.currentBaseline at hhead
    rw [List.getLast?_eq_getElem?, hlast, hat] at hhead
    exact Or.inl (Option.some.inj hhead)
  | true =>
    rcases Nat.lt_or_ge last (before.baselineMarks record.key) with hbefore | hafter
    · exact Or.inr ⟨last, by omega, hat⟩
    · have hsource := h.pending _ current last baseline hcurrent hworkspace hsettled hafter hat
      obtain ⟨-, own, hown, hcatalog⟩ :=
        h.own _ current last baseline hcurrent hworkspace hat hsource
      obtain rfl : own = result := Option.some.inj (hown.symm.trans hresult)
      exact Or.inl (by rw [hcatalog])

include h in
/-- Assumes: the invariants, and an execution that is not settled, where the baselines carry a catalog
or moved on. If the catalog is its own, a baseline has it. -/
theorem SteadyInv.synced {result : IntendedResult C K}
    (hrecord : before.record? key = some record) (hworkspace : record.workspace = workspace)
    (hblocks : record.blocksWorkspaceLifecycle = true)
    (hresult : record.intendedResult = some result)
    (hcarries : before.Carries fingerprint key result.catalog) :
    before.Synced fingerprint workspace key record.execution.id result.catalog := by
  -- A baseline since the reservation is the execution's own.
  have hown : ∀ {index : ℕ} {baseline : BaselineRecord C K}, before.baselineMarks key ≤ index →
      (before.repository.baselines workspace)[index]? = some baseline →
        before.Synced fingerprint workspace key record.execution.id result.catalog := by
    intro index baseline hmark hat
    have hsource := h.pending key record index baseline hrecord hworkspace hblocks hmark hat
    obtain ⟨hindex, own, hownResult, hcatalog⟩ :=
      h.own key record index baseline hrecord hworkspace hat hsource
    obtain rfl : own = result := Option.some.inj (hownResult.symm.trans hresult)
    exact ⟨index, baseline, hat, by rw [hcatalog], Or.inl ⟨hindex, hsource⟩⟩
  rcases hcarries with ⟨head, ⟨stored, index, hstored, hat, hmark⟩, hfingerprint⟩ |
    ⟨stored, hstored, hmoved⟩
  · obtain rfl : stored = record := Option.some.inj (hstored.symm.trans hrecord)
    rw [hworkspace] at hat
    rcases Nat.lt_or_ge index (before.baselineMarks key) with hbefore | hafter
    · exact ⟨index, head, hat, hfingerprint, Or.inr (by omega)⟩
    · exact hown hafter hat
  · obtain rfl : stored = record := Option.some.inj (hstored.symm.trans hrecord)
    rw [hworkspace] at hmoved
    exact hown (Nat.le_refl _) (List.getElem?_eq_getElem hmoved)

/-! ### Steps -/

include h in
/-- Assumes: the invariant, and a world with the same executions, marks and baselines. It carries
over, if every review of the workspace has a baseline. -/
theorem SteadyInv.congr (hgrowth : WorldGrowth before after)
    (hexecutions : after.repository.executions = before.repository.executions)
    (hmarks : after.baselineMarks = before.baselineMarks)
    (hbaselines : after.repository.baselines workspace = before.repository.baselines workspace)
    (hreviewed : ∀ (key : Key) (plan : PlanRecord C K),
      after.repository.plans.lookup key = some plan →
        (key.1, plan.plan.workspaceId) = workspace →
          after.repository.baselines workspace ≠ []) :
    SteadyInv fingerprint workspace after := by
  have hrecord : ∀ key, after.record? key = before.record? key := by
    intro key
    unfold World.record?
    rw [hexecutions]
  refine
    { reviewed := hreviewed, marked := ?_, single := ?_, own := ?_, pending := ?_, settled := ?_ }
  · simpa only [hrecord, hmarks] using h.marked
  · simpa only [hrecord] using h.single
  · simpa only [hrecord, hmarks, hbaselines] using h.own
  · simpa only [hrecord, hmarks, hbaselines] using h.pending
  · intro key record hfound hworkspace hsettled hcommitted
    rw [hrecord] at hfound
    obtain ⟨result, hresult, hsynced⟩ := h.settled key record hfound hworkspace hsettled hcommitted
    exact ⟨result, hresult, hsynced.growth hfound hgrowth⟩

include h in
/-- Assumes: the invariants, and a record that becomes a later one, which settles only where the
baselines carry its catalog. -/
theorem SteadyInv.setRecord
    {current next : ExecutionRecord C K} (hcurrent : before.record? key = some current)
    (hlater : current.Later next)
    (hsettles : next.blocksWorkspaceLifecycle = false →
      next.execution.commitOutcome = some .committed →
        current.execution.commitOutcome = some .committed ∧
          (current.blocksWorkspaceLifecycle = false ∨
            ∃ result, current.intendedResult = some result ∧
              before.Carries fingerprint key result.catalog))
    (hgrowth : WorldGrowth before (before.setRecord key next)) :
    SteadyInv fingerprint workspace (before.setRecord key next) := by
  -- A record of the new world was there before, no later than it is now.
  have hearlier : ∀ {other : Key} {record : ExecutionRecord C K},
      (before.setRecord key next).record? other = some record →
        ∃ earlier, before.record? other = some earlier ∧ earlier.Later record := by
    intro other record hrecord
    by_cases hsame : other = key
    · subst hsame
      rw [World.record?_setRecord_self] at hrecord
      exact ⟨current, hcurrent, Option.some.inj hrecord ▸ hlater⟩
    · rw [World.record?_setRecord_of_ne before next hsame] at hrecord
      exact ⟨record, hrecord, .refl record⟩
  have hunsettled : ∀ {earlier record : ExecutionRecord C K}, earlier.Later record →
      record.blocksWorkspaceLifecycle = true → earlier.blocksWorkspaceLifecycle = true := by
    intro earlier record hrecordLater hblocks
    by_contra hsettled
    rw [hrecordLater.settled (Bool.eq_false_iff.mpr hsettled)] at hblocks
    exact nomatch hblocks
  refine
    { reviewed := h.reviewed, marked := ?_, single := ?_, own := ?_, pending := ?_, settled := ?_ }
  · intro other record hrecord hworkspace
    obtain ⟨earlier, hfound, hrecordLater⟩ := hearlier hrecord
    exact h.marked other earlier hfound (hrecordLater.workspace_eq ▸ hworkspace)
  · intro first second record other hrecord hother hworkspace hotherWorkspace hblocks hotherBlocks
    obtain ⟨earlier, hfound, hrecordLater⟩ := hearlier hrecord
    obtain ⟨earlierOther, hfoundOther, hotherLater⟩ := hearlier hother
    exact h.single first second earlier earlierOther hfound hfoundOther
      (hrecordLater.workspace_eq ▸ hworkspace) (hotherLater.workspace_eq ▸ hotherWorkspace)
      (hunsettled hrecordLater hblocks) (hunsettled hotherLater hotherBlocks)
  · intro other record index baseline hrecord hworkspace hat hsource
    obtain ⟨earlier, hfound, hrecordLater⟩ := hearlier hrecord
    obtain ⟨hindex, result, hresult, hcatalog⟩ := h.own other earlier index baseline hfound
      (hrecordLater.workspace_eq ▸ hworkspace) hat (hrecordLater.id ▸ hsource)
    exact ⟨hindex, result, hrecordLater.intended result hresult, hcatalog⟩
  · intro other record index baseline hrecord hworkspace hblocks hmark hat
    obtain ⟨earlier, hfound, hrecordLater⟩ := hearlier hrecord
    rw [hrecordLater.id]
    exact h.pending other earlier index baseline hfound (hrecordLater.workspace_eq ▸ hworkspace)
      (hunsettled hrecordLater hblocks) hmark hat
  · intro other record hrecord hworkspace hsettled hcommitted
    by_cases hsame : other = key
    · subst hsame
      rw [World.record?_setRecord_self] at hrecord
      obtain rfl := Option.some.inj hrecord
      have hearlierWorkspace := hlater.workspace_eq ▸ hworkspace
      obtain ⟨hearlierCommitted, hcase⟩ := hsettles hsettled hcommitted
      have hsynced : ∃ result, current.intendedResult = some result ∧
          before.Synced fingerprint workspace other current.execution.id result.catalog := by
        cases hblocks : current.blocksWorkspaceLifecycle with
        | false =>
          exact h.settled other current hcurrent hearlierWorkspace hblocks hearlierCommitted
        | true =>
          rw [hblocks] at hcase
          obtain ⟨result, hresult, hcarries⟩ := hcase.resolve_left Bool.noConfusion
          exact ⟨result, hresult,
            h.synced hcurrent hearlierWorkspace hblocks hresult hcarries⟩
      obtain ⟨result, hresult, hcarried⟩ := hsynced
      refine ⟨result, hlater.intended result hresult, ?_⟩
      rw [hlater.id]
      exact hcarried.growth hcurrent hgrowth
    · rw [World.record?_setRecord_of_ne before next hsame] at hrecord
      obtain ⟨result, hresult, hsynced⟩ :=
        h.settled other record hrecord hworkspace hsettled hcommitted
      exact ⟨result, hresult, hsynced.growth hrecord hgrowth⟩

include h in
/-- Assumes: the invariant, and a world with one more baseline of the workspace. It stands where the
execution that made it was reserved, with its catalog, and every unsettled execution made it. -/
theorem SteadyInv.append (hgrowth : WorldGrowth before after)
    (hexecutions : after.repository.executions = before.repository.executions)
    (hmarks : after.baselineMarks = before.baselineMarks)
    (hbaselines : after.repository.baselines workspace =
      before.repository.baselines workspace ++ [baseline])
    (hown : ∀ key record, before.record? key = some record → record.workspace = workspace →
      baseline.sourceExecutionId = some record.execution.id →
        (before.repository.baselines workspace).length = before.baselineMarks key ∧
          ∃ result, record.intendedResult = some result ∧ baseline.catalog = result.catalog)
    (hpending : ∀ key record, before.record? key = some record → record.workspace = workspace →
      record.blocksWorkspaceLifecycle = true →
        baseline.sourceExecutionId = some record.execution.id) :
    SteadyInv fingerprint workspace after := by
  have hrecord : ∀ key, after.record? key = before.record? key := by
    intro key
    unfold World.record?
    rw [hexecutions]
  have hlookup : ∀ {index : ℕ} {found : BaselineRecord C K},
      (after.repository.baselines workspace)[index]? = some found →
        (before.repository.baselines workspace)[index]? = some found ∨
          index = (before.repository.baselines workspace).length ∧ found = baseline := by
    intro index found hfound
    rw [hbaselines] at hfound
    rcases Nat.lt_or_ge index (before.repository.baselines workspace).length with hindex | hindex
    · rw [List.getElem?_append_left hindex] at hfound
      exact Or.inl hfound
    · obtain ⟨hbound, hvalue⟩ := List.getElem?_eq_some_iff.mp hfound
      rw [List.length_append, List.length_singleton] at hbound
      obtain rfl : index = (before.repository.baselines workspace).length := by omega
      rw [List.getElem?_concat_length] at hfound
      exact Or.inr ⟨rfl, (Option.some.inj hfound).symm⟩
  refine
    { reviewed := ?_, marked := ?_, single := ?_, own := ?_, pending := ?_, settled := ?_ }
  · intro key plan _ _
    rw [hbaselines]
    exact List.append_ne_nil_of_right_ne_nil _ (List.cons_ne_nil _ _)
  · simpa only [hrecord, hmarks] using h.marked
  · simpa only [hrecord] using h.single
  · intro key record index found hfound hworkspace hat hsource
    rw [hrecord] at hfound
    rw [hmarks]
    rcases hlookup hat with hbefore | ⟨rfl, rfl⟩
    · exact h.own key record index found hfound hworkspace hbefore hsource
    · exact hown key record hfound hworkspace hsource
  · intro key record index found hfound hworkspace hblocks hmark hat
    rw [hrecord] at hfound
    rw [hmarks] at hmark
    rcases hlookup hat with hbefore | ⟨rfl, rfl⟩
    · exact h.pending key record index found hfound hworkspace hblocks hmark hbefore
    · exact hpending key record hfound hworkspace hblocks
  · intro key record hfound hworkspace hsettled hcommitted
    rw [hrecord] at hfound
    obtain ⟨result, hresult, hsynced⟩ := h.settled key record hfound hworkspace hsettled hcommitted
    exact ⟨result, hresult, hsynced.growth hfound hgrowth⟩

include h in
/-- Assumes: the invariants, and a licensed baseline after the head its program read. Its execution
is not settled, and the head is the baseline it was reserved with. -/
theorem SteadyInv.append_licence (hworld : WorldInv before) {values : BaselineCreate C K}
    {result : IntendedResult C K} {head : Option (BaselineRecord C K)}
    (hlicence : BaselineLicence fingerprint (SyncRead fingerprint workspace) before record values
      result head)
    (hhead : head.map BaselineRecord.id =
      (before.repository.currentBaseline record.workspace).map BaselineRecord.id)
    (hworkspace : record.workspace = workspace) :
    ∃ current, before.record? record.key = some current ∧ record.Later current ∧
      current.blocksWorkspaceLifecycle = true ∧
      (before.repository.baselines workspace).length = before.baselineMarks record.key := by
  obtain ⟨current, hcurrent, hread⟩ := hlicence.read
  obtain ⟨known, hknown, hlater⟩ := hlicence.knows
  obtain rfl : known = current := Option.some.inj (hknown.symm.trans hcurrent)
  have hintended := hlater.intended result hlicence.intended
  obtain ⟨found, baseline, hfound, rfl, hcase⟩ := hread (hlater.workspace_eq.trans hworkspace)
  obtain rfl : found = result := Option.some.inj (hfound.symm.trans hintended)
  have hdiffers : fingerprint baseline.catalog ≠ fingerprint found.catalog :=
    fun hsame ↦ hlicence.differs (congrArg some hsame)
  obtain ⟨index, hindex, hat⟩ := hcase.resolve_left hdiffers
  -- The head is current, so that it is the last baseline: identifiers are distinct.
  have hlength : (before.repository.baselines workspace).length = before.baselineMarks record.key := by
    obtain ⟨hbound, -⟩ := List.getElem?_eq_some_iff.mp hat
    rw [hworkspace] at hhead
    unfold MigrationRepository.currentBaseline at hhead
    rw [List.getLast?_eq_getElem?, ← hat, ← List.getElem?_map, ← List.getElem?_map,
      List.getElem?_inj (by rw [List.length_map]; exact hbound)
        (hworld.baselineIds workspace)] at hhead
    omega
  refine ⟨known, hcurrent, hlater, ?_, hlength⟩
  by_contra hblocks
  obtain ⟨synced, hsynced, other, carried, hother, hfingerprint, hplace⟩ := h.settled record.key
    known hcurrent (hlater.workspace_eq.trans hworkspace) (Bool.eq_false_iff.mpr hblocks)
    (hlater.committed hlicence.committed)
  obtain rfl : synced = found := Option.some.inj (hsynced.symm.trans hintended)
  -- Settling saw the baseline the execution was reserved with, which is the head.
  obtain ⟨hbound, -⟩ := List.getElem?_eq_some_iff.mp hother
  obtain rfl : other = index := by omega
  obtain rfl : carried = baseline := Option.some.inj (hother.symm.trans hat)
  exact hdiffers hfingerprint

include h in
/-- Assumes: the invariants, and an effect of a licensed call. The invariant holds after it. -/
theorem SteadyInv.effect {rules : ContentRules C} {limit : ℕ}
    (hworld : WorldInv before)
    (hgrowth : WorldGrowth before after)
    (heffect : CallEffect rules limit fingerprint (SyncRead fingerprint workspace) before after) :
    SteadyInv fingerprint workspace after := by
  cases heffect with
  | idle hrepository hdesigns hmarks hjournal =>
    refine h.congr hgrowth (by rw [hrepository]) hmarks (by rw [hrepository]) ?_
    rw [hrepository]
    exact h.reviewed
  | record key current next hcurrent hlater hsettles hafter =>
    subst hafter
    exact h.setRecord hcurrent hlater hsettles hgrowth
  | baseline record values result head created hlicence hhead hcatalog hsource hafter =>
    have hbaselines := before.appendBaseline_baselines record.workspace workspace created
    subst hafter
    by_cases hworkspace : record.workspace = workspace
    · rw [if_pos hworkspace.symm] at hbaselines
      obtain ⟨current, hcurrent, hlater, hblocks, hlength⟩ :=
        h.append_licence hworld hlicence hhead hworkspace
      have hcurrentWorkspace : current.workspace = workspace :=
        hlater.workspace_eq.trans hworkspace
      refine h.append hgrowth rfl rfl hbaselines ?_ ?_
      · intro key other hother hotherWorkspace hotherSource
        -- An execution of the workspace with the same identifier is the same.
        have hkey : key = record.key := by
          have hid : record.execution.id = other.execution.id :=
            Option.some.inj (hsource.symm.trans hotherSource)
          have howner : other.ownerId = record.ownerId :=
            congrArg Prod.fst (hotherWorkspace.trans hworkspace.symm)
          rw [← hworld.keyed key other hother]
          unfold ExecutionRecord.key
          rw [hid, howner]
        subst hkey
        obtain rfl : other = current := Option.some.inj (hother.symm.trans hcurrent)
        exact ⟨hlength, result, hlater.intended result hlicence.intended, hcatalog⟩
      · intro key other hother hotherWorkspace hotherBlocks
        obtain rfl : key = record.key := h.single key record.key other current hother hcurrent
          hotherWorkspace hcurrentWorkspace hotherBlocks hblocks
        obtain rfl : other = current := Option.some.inj (hother.symm.trans hcurrent)
        rw [hsource, hlater.id]
    · rw [if_neg (fun hsame ↦ hworkspace hsame.symm), List.append_nil] at hbaselines
      refine h.congr hgrowth rfl rfl hbaselines ?_
      rw [hbaselines]
      exact h.reviewed
  | design record plan request hknows hplan hrevision hafter =>
    have hrepository : after.repository = before.repository := by
      rw [hafter]
      unfold World.replaceDesign
      split <;> rfl
    have hmarks : after.baselineMarks = before.baselineMarks := by
      rw [hafter]
      unfold World.replaceDesign
      split <;> rfl
    refine h.congr hgrowth (by rw [hrepository]) hmarks (by rw [hrepository]) ?_
    rw [hrepository]
    exact h.reviewed

/-! ### The environment -/

theorem WorldInv.settled_of_free (h : WorldInv before)
    (hfree : before.repository.blocksWorkspaceLifecycle workspace = false)
    (hrecord : before.record? key = some record)
    (hworkspace : record.workspace = workspace) : record.blocksWorkspaceLifecycle = false := by
  have howner : key.1 = workspace.1 := by
    rw [← h.keyed key record hrecord, ← hworkspace]
    rfl
  have hid : record.execution.workspaceId = workspace.2 := by
    rw [← hworkspace]
    rfl
  have hentry := List.any_eq_false.mp hfree ⟨key, record⟩ (AList.mem_lookup_iff.mp hrecord)
  simpa [howner, hid] using hentry

include h in
/-- Assumes: the invariant, and a review that names a baseline of its workspace. Every review of the
workspace has a baseline when it is stored. -/
theorem SteadyInv.reviewed_createPlan {record : PlanRecord C K}
    (hbaseline : record.baselineId ∈ (before.repository.baselines
      (record.ownerId, record.plan.workspaceId)).map BaselineRecord.id) (key : Key)
    (plan : PlanRecord C K)
    (hplan : (before.repository.createPlan record).2.plans.lookup key = some plan)
    (hworkspace : (key.1, plan.plan.workspaceId) = workspace) :
    before.repository.baselines workspace ≠ [] := by
  rcases lookup_createPlan hplan with ⟨rfl, rfl⟩ | hbefore
  · rw [← hworkspace]
    intro hempty
    dsimp only at hempty
    rw [hempty] at hbaseline
    exact nomatch hbaseline
  · exact h.reviewed key plan hbefore hworkspace

include h in
/-- Assumes: the invariants, and a reservation under a new identifier. The invariant holds with the
new execution. -/
theorem SteadyInv.reserve (hworld : WorldInv before)
    {id ownerId planId : String} {plan : PlanRecord C K} {repository : MigrationRepository C K}
    (hunsourced : ∀ baseline ∈ before.repository.baselines workspace,
      baseline.sourceExecutionId ≠ some id)
    (hreserves : before.repository.Reserves id ownerId planId plan record repository)
    (hgrowth : WorldGrowth before after) (hrepository : after.repository = repository)
    (hmarks : after.baselineMarks = Function.update before.baselineMarks record.key
      (before.repository.baselines (ownerId, record.execution.workspaceId)).length) :
    SteadyInv fingerprint workspace after := by
  have hkey : record.key = (ownerId, id) := by
    unfold ExecutionRecord.key
    rw [hreserves.owner_eq, hreserves.id_eq]
  have hrecordWorkspace : record.workspace = (ownerId, plan.plan.workspaceId) := by
    unfold ExecutionRecord.workspace
    rw [hreserves.owner_eq, hreserves.workspace_eq]
  rw [hreserves.after_eq] at hrepository
  have hbaselines : after.repository.baselines workspace =
      before.repository.baselines workspace := by
    rw [hrepository]
    rfl
  -- A record is the new one, or it was there under another key and with its mark.
  have hlookup : ∀ {key : Key} {found : ExecutionRecord C K}, after.record? key = some found →
      (key = (ownerId, id) ∧ found = record ∧ after.baselineMarks key =
          (before.repository.baselines record.workspace).length) ∨
        before.record? key = some found ∧
          after.baselineMarks key = before.baselineMarks key := by
    intro key found hfound
    unfold World.record? at hfound
    rw [hrepository] at hfound
    by_cases hsame : key = (ownerId, id)
    · subst hsame
      rw [AList.lookup_insert] at hfound
      refine Or.inl ⟨rfl, (Option.some.inj hfound).symm, ?_⟩
      rw [hmarks, hkey, Function.update_self, ← hreserves.owner_eq]
      rfl
    · rw [AList.lookup_insert_ne hsame] at hfound
      refine Or.inr ⟨hfound, ?_⟩
      rw [hmarks, hkey, Function.update_of_ne hsame]
  have hblocks : record.blocksWorkspaceLifecycle = true := by
    simp [ExecutionRecord.blocksWorkspaceLifecycle, activeExecutionStatuses, hreserves.status]
  have hfree : ∀ {key : Key} {found : ExecutionRecord C K}, before.record? key = some found →
      found.workspace = workspace → record.workspace = workspace →
        found.blocksWorkspaceLifecycle = false := by
    intro key found hfound hworkspace hsame
    refine hworld.settled_of_free ?_ hfound hworkspace
    rw [← hsame, hrecordWorkspace]
    exact hreserves.free
  refine
    { reviewed := ?_, marked := ?_, single := ?_, own := ?_, pending := ?_, settled := ?_ }
  · intro key found hfound hworkspace
    rw [hbaselines]
    rw [hrepository] at hfound
    by_cases hsame : key = (ownerId, planId)
    · subst hsame
      rw [AList.lookup_insert] at hfound
      obtain rfl := Option.some.inj hfound
      exact h.reviewed _ plan hreserves.stored hworkspace
    · rw [AList.lookup_insert_ne hsame] at hfound
      exact h.reviewed key found hfound hworkspace
  · intro key found hfound hworkspace
    rcases hlookup hfound with ⟨-, rfl, hmark⟩ | ⟨hbefore, hmark⟩
    · rw [hmark, hworkspace, List.length_pos_iff]
      exact h.reviewed _ plan hreserves.stored (hrecordWorkspace.symm.trans hworkspace)
    · rw [hmark]
      exact h.marked key found hbefore hworkspace
  · intro key other found second hfound hsecond hworkspace hother hfoundBlocks hsecondBlocks
    rcases hlookup hfound with ⟨rfl, rfl, -⟩ | ⟨hbefore, -⟩
    · rcases hlookup hsecond with ⟨rfl, -, -⟩ | ⟨hsecondBefore, -⟩
      · rfl
      · rw [hfree hsecondBefore hother hworkspace] at hsecondBlocks
        cases hsecondBlocks
    · rcases hlookup hsecond with ⟨rfl, rfl, -⟩ | ⟨hsecondBefore, -⟩
      · rw [hfree hbefore hworkspace hother] at hfoundBlocks
        cases hfoundBlocks
      · exact h.single key other found second hbefore hsecondBefore hworkspace hother hfoundBlocks
          hsecondBlocks
  · intro key found index baseline hfound hworkspace hat hsource
    rw [hbaselines] at hat
    rcases hlookup hfound with ⟨-, rfl, -⟩ | ⟨hbefore, hmark⟩
    · refine absurd hsource ?_
      rw [hreserves.id_eq]
      exact hunsourced baseline (List.mem_of_getElem? hat)
    · rw [hmark]
      exact h.own key found index baseline hbefore hworkspace hat hsource
  · intro key found index baseline hfound hworkspace hfoundBlocks hmarked hat
    rw [hbaselines] at hat
    rcases hlookup hfound with ⟨-, rfl, hmark⟩ | ⟨hbefore, hmark⟩
    · obtain ⟨hindex, -⟩ := List.getElem?_eq_some_iff.mp hat
      rw [hmark, hworkspace] at hmarked
      exact absurd hindex (Nat.not_lt.mpr hmarked)
    · rw [hmark] at hmarked
      exact h.pending key found index baseline hbefore hworkspace hfoundBlocks hmarked hat
  · intro key found hfound hworkspace hsettled hcommitted
    rcases hlookup hfound with ⟨-, rfl, -⟩ | ⟨hbefore, -⟩
    · rw [hblocks] at hsettled
      cases hsettled
    · obtain ⟨result, hresult, hsynced⟩ :=
        h.settled key found hbefore hworkspace hsettled hcommitted
      exact ⟨result, hresult, hsynced.growth hbefore hgrowth⟩

include h in
/-- Assumes: the invariants, and a baseline that no execution made, in a workspace whose executions
are settled. -/
theorem SteadyInv.append_unsourced (hgrowth : WorldGrowth before after) (owner : Key)
    (hexecutions : after.repository.executions = before.repository.executions)
    (hmarks : after.baselineMarks = before.baselineMarks)
    (hbaselines : after.repository.baselines =
      (before.appendBaseline owner baseline).repository.baselines)
    (hreviewed : ∀ (key : Key) (plan : PlanRecord C K),
      after.repository.plans.lookup key = some plan → ∃ earlier,
        before.repository.plans.lookup key = some earlier ∧
          earlier.plan.workspaceId = plan.plan.workspaceId)
    (hsource : baseline.sourceExecutionId = none)
    (hsettled : ∀ key record, before.record? key = some record → record.workspace = workspace →
      owner = workspace → record.blocksWorkspaceLifecycle = false) :
    SteadyInv fingerprint workspace after := by
  have hrows : after.repository.baselines workspace =
      before.repository.baselines workspace ++ if workspace = owner then [baseline] else [] := by
    rw [hbaselines]
    exact before.appendBaseline_baselines owner workspace baseline
  by_cases hsame : workspace = owner
  · rw [if_pos hsame] at hrows
    refine h.append hgrowth hexecutions hmarks hrows ?_ ?_
    · intro key record _ _ hmade
      rw [hsource] at hmade
      exact nomatch hmade
    · intro key record hrecord hworkspace hblocks
      rw [hsettled key record hrecord hworkspace hsame.symm] at hblocks
      exact nomatch hblocks
  · rw [if_neg hsame, List.append_nil] at hrows
    refine h.congr hgrowth hexecutions hmarks hrows ?_
    intro key plan hplan hworkspace
    obtain ⟨earlier, hearlier, hid⟩ := hreviewed key plan hplan
    rw [hrows]
    exact h.reviewed key earlier hearlier (by rw [hid]; exact hworkspace)

include h in
/-- Assumes: the invariants. Whatever happens without a call keeps the invariant of the
baselines. -/
theorem SteadyInv.change {rules : ContentRules C} {limit : ℕ}
    (hworld : WorldInv before)
    (hchange : WorldChange rules limit before after) : SteadyInv fingerprint workspace after := by
  have hgrowth : WorldGrowth before after :=
    ((environment_guarantees hworld hchange).2 0).quiet.growth
  cases hchange with
  | tick clock hclock => exact h.congr hgrowth rfl rfl rfl h.reviewed
  | configure workspaces connections => exact h.congr hgrowth rfl rfl rfl h.reviewed
  | design request => exact h.congr hgrowth rfl rfl rfl h.reviewed
  | plan record hnew hdesign hbaseline =>
    obtain ⟨hbaselines, hexecutions, -⟩ := before.repository.createPlan_frame record
    refine h.congr hgrowth hexecutions rfl (congrFun hbaselines workspace) ?_
    intro key plan hplan hworkspace
    rw [hbaselines]
    exact h.reviewed_createPlan hbaseline key plan hplan hworkspace
  | reserve id ownerId planId reviewDigest confirmDestructive confirmExternalChanges reservedAt
      record repository hnew hsource hreserve =>
    obtain ⟨plan, hreserves⟩ := MigrationRepository.reserves_of_reserveExecution hreserve
    exact h.reserve hworld (hsource workspace) hreserves hgrowth rfl rfl
  | drift baselineId record expectedDesignRevision resolvedContent liveContent hplan hid =>
    rcases before.repository.reconcileDrift_cases rules limit before.designs baselineId record
        expectedDesignRevision resolvedContent liveContent with
      hsame | ⟨baseline, hfree, -, hsource, hafter⟩
    · refine h.congr hgrowth (congrArg MigrationRepository.executions hsame) rfl
        (congrArg (fun repository ↦ repository.baselines workspace) hsame) ?_
      dsimp only
      rw [hsame]
      exact h.reviewed
    · have hexecutions := congrArg MigrationRepository.executions hafter
      have hbaselines := congrArg MigrationRepository.baselines hafter
      refine h.append_unsourced hgrowth (record.ownerId, record.plan.workspaceId) hexecutions rfl
        hbaselines ?_ hsource ?_
      · intro key plan hfound
        dsimp only at hfound
        rw [hafter] at hfound
        by_cases hsame : key = (record.ownerId, record.plan.id)
        · subst hsame
          rw [AList.lookup_insert] at hfound
          obtain rfl := Option.some.inj hfound
          exact ⟨record, hplan, rfl⟩
        · rw [AList.lookup_insert_ne hsame] at hfound
          exact ⟨plan, hfound, rfl⟩
      · intro key found hfound hworkspace howner
        rw [howner] at hfree
        exact hworld.settled_of_free hfree hfound hworkspace
  | baseline id values hid hsource hexpected hexecution =>
    rcases before.repository.createBaseline_cases id values with
      ⟨failure, houtcome⟩ | ⟨baseline, hpredecessor, -, -, hmade, houtcome⟩
    · refine h.congr hgrowth (by rw [houtcome]) rfl (by rw [houtcome]) ?_
      rw [houtcome]
      exact h.reviewed
    · rw [houtcome] at hgrowth ⊢
      refine h.append_unsourced hgrowth (values.ownerId, values.workspaceId) rfl rfl rfl
        (fun key plan hplan ↦ ⟨plan, hplan, rfl⟩) (hmade.trans hexecution) ?_
      -- An execution was reserved with a baseline, so that a first one is not granted.
      intro key found hfound hworkspace howner
      have hmark := h.marked key found hfound hworkspace
      have hlength := hworld.marks key found hfound
      rw [hworkspace] at hlength
      rw [howner, hexpected] at hpredecessor
      have hempty : before.repository.baselines workspace = [] :=
        List.getLast?_eq_none_iff.mp (Option.map_eq_none_iff.mp hpredecessor.symm)
      rw [hempty] at hlength
      exact absurd hmark (Nat.not_lt.mpr hlength)
  | transaction index transaction phase hat hphase => exact h.congr hgrowth rfl rfl rfl h.reviewed

end Steady

/-! ### Runs -/

/-- The invariants of the world and of the baselines of a workspace, with what programs rely on. -/
def steadyDiscipline (rules : ContentRules C) (limit : ℕ) (fingerprint : K → String)
    (workspace : Key) : Discipline rules limit fingerprint where
  semantics := (migrationSemantics rules limit).restrict (SyncsInTime fingerprint workspace)
  logic :=
    { inv := fun world ↦ WorldInv world ∧ SteadyInv fingerprint workspace world
      rely := WorldRely
      rely_refl := WorldRely.refl
      rely_trans := fun _ _ _ _ h h' ↦ h.trans h' }
  fact := SyncRead fingerprint workspace
  perform_le := And.right
  inv_le := And.left
  rely_le := id
  fact_growth := fun hgrowth hread ↦ hread.growth hgrowth
  fact_read := by
    rintro thread record before after head ⟨hworld, hsteady⟩ hknows hcommitted ⟨htime, hperform⟩
    rcases hperform with ⟨hreply, rfl⟩ | ⟨failure, -, hreply, -⟩
    · rw [Except.ok.inj hreply]
      exact hsteady.syncRead hworld hknows hcommitted htime
    · exact nomatch hreply
  guarantees := by
    rintro thread request before after reply ⟨hworld, hsteady⟩ hlicensed ⟨-, hperform⟩
    have hkeeps := perform_guarantees hworld hlicensed hperform
    have hgrowth := (hkeeps.2 (thread + 1) (Nat.succ_ne_self thread)).quiet.growth
    exact ⟨⟨hkeeps.1, hsteady.effect hworld hgrowth (effect_of_perform hworld hlicensed hperform)⟩,
      hkeeps.2⟩

/-- Assumes: an initial world. The invariant holds of the baselines of every workspace. -/
theorem World.IsInitial.steadyInv {world : World C K} (h : world.IsInitial)
    (fingerprint : K → String) (workspace : Key) : SteadyInv fingerprint workspace world := by
  obtain ⟨clock, repository, designs, workspaces, connections, target, marks, journal⟩ := world
  obtain ⟨rfl, rfl, rfl, rfl⟩ := h
  have hnone : ∀ {key : Key} {record : ExecutionRecord C K},
      (∅ : AList fun _ : Key ↦ ExecutionRecord C K).lookup key ≠ some record :=
    fun hfound ↦ nomatch (AList.lookup_empty _).symm.trans hfound
  exact
    { reviewed := fun _ _ hplan ↦ nomatch (AList.lookup_empty _).symm.trans hplan
      marked := fun _ _ hfound ↦ (hnone hfound).elim
      single := fun _ _ _ _ hfound ↦ (hnone hfound).elim
      own := fun _ _ _ _ hfound ↦ (hnone hfound).elim
      pending := fun _ _ _ _ hfound ↦ (hnone hfound).elim
      settled := fun _ _ hfound ↦ (hnone hfound).elim }

/-- Assumes: a state of a run in which the synchronisations of settled executions of the workspace are
in time. The invariants of the world and of the baselines hold. -/
theorem Coordinator.ReachableUnder.steadyInv {coordinator : Coordinator C K}
    {rules : ContentRules C} {limit : ℕ} {workspace : Key}
    {pool : Pool (migrationInterface C K) Failure (World C K)}
    (h : coordinator.ReachableUnder rules limit
      (SyncsInTime coordinator.planner.catalogFingerprint workspace) pool) :
    WorldInv pool.world ∧
      SteadyInv coordinator.planner.catalogFingerprint workspace pool.world := by
  let D := steadyDiscipline rules limit coordinator.planner.catalogFingerprint workspace
  refine RelyGuarantee.reachable_inv (R := D.logic)
    (fun world hworld ↦ ⟨hworld.worldInv, hworld.steadyInv _ _⟩)
    (fun _ hstarts _ _ _ ↦ D.safe_starts hstarts) ?_ h
  rintro before after ⟨hworld, hsteady⟩ hchange
  have hspares := environment_guarantees hworld hchange
  exact ⟨⟨hspares.1, hsteady.change hworld hchange⟩, hspares.2⟩

end Schemii.Migrations
