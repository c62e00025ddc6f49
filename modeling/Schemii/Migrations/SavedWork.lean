import Schemii.Designs.SavedRevisions
import Schemii.Migrations.Effects

/-!
# Synchronisations spare what users saved

The journal of a world lists reservations, saves of users and drift resolutions, and designs that a
synchronisation saved, in their order. `JournalInv` says that no synchronisation of an execution saved
a design after a user did so since the reservation.

A synchronisation saves against the revision of the reviewed design. Reviews are made of saved
revisions, revisions only grow, and a save since the reservation is a later revision, so that the
store refuses.
-/

set_option autoImplicit false

namespace Schemii.Migrations

open Foundations Designs

variable {C K : Type}
variable {journal : List JournalEvent} {execution workspace : Key}

/-- A design of a workspace was saved since an execution was reserved. -/
def SavedSince (journal : List JournalEvent) (execution workspace : Key) : Prop :=
  [.reserved execution, .saved workspace].Sublist journal

/-- A synchronisation of an execution saved the design of its workspace after it was saved since the
reservation. -/
def Overwrites (journal : List JournalEvent) (execution workspace : Key) : Prop :=
  [.reserved execution, .saved workspace, .synchronised execution].Sublist journal

/-- The invariant of the journal. -/
structure JournalInv (rules : ContentRules C) (world : World C K) : Prop where
  reserved : ∀ key, .reserved key ∈ world.journal → ∃ record, world.record? key = some record
  reviewed : ∀ (key : Key) (plan : PlanRecord C K), world.repository.plans.lookup key = some plan →
    plan.plan.designRevision ≤ revisionOf rules world.designs (key.1, plan.plan.workspaceId)
  saved : ∀ key record plan, world.record? key = some record →
    world.repository.plans.lookup (record.ownerId, record.execution.planId) = some plan →
      SavedSince world.journal key record.workspace →
        plan.plan.designRevision < revisionOf rules world.designs record.workspace
  spared : ∀ key record, world.record? key = some record →
    ¬ Overwrites world.journal key record.workspace

/-! ### Journals -/

variable {event : JournalEvent}

/-- Assumes: a part of a journal with one more event. It is a part of the journal, or it ends with
the event. -/
theorem sublist_concat (part : List JournalEvent) (last : JournalEvent)
    (h : (part ++ [last]).Sublist (journal ++ [event])) :
    (part ++ [last]).Sublist journal ∨ event = last ∧ part.Sublist journal := by
  obtain ⟨first, rest, hpart, hfirst, hrest⟩ := List.sublist_append_iff.mp h
  rcases List.sublist_singleton.mp hrest with rfl | rfl
  · rw [hpart, List.append_nil]
    exact Or.inl hfirst
  · obtain ⟨rfl, hlast⟩ := List.append_inj' hpart rfl
    exact Or.inr ⟨(List.cons.inj hlast).1.symm, hfirst⟩

/-- Assumes: a save since a reservation in a journal with one more event. It is in the journal, or it
is the event and the reservation is in the journal. -/
theorem SavedSince.of_concat (h : SavedSince (journal ++ [event]) execution workspace) :
    SavedSince journal execution workspace ∨
      event = .saved workspace ∧ .reserved execution ∈ journal := by
  rcases sublist_concat [.reserved execution] (.saved workspace) h with hbefore | ⟨hevent, hpart⟩
  · exact Or.inl hbefore
  · exact Or.inr ⟨hevent, List.singleton_sublist.mp hpart⟩

/-- Assumes: a design that was overwritten in a journal with one more event. So it was in the journal,
or the event is a synchronisation of an execution since whose reservation the design was saved. -/
theorem Overwrites.of_concat (h : Overwrites (journal ++ [event]) execution workspace) :
    Overwrites journal execution workspace ∨
      event = .synchronised execution ∧ SavedSince journal execution workspace :=
  sublist_concat [.reserved execution, .saved workspace] (.synchronised execution) h

theorem SavedSince.reserved
    (h : SavedSince journal execution workspace) : .reserved execution ∈ journal :=
  h.subset List.mem_cons_self

theorem Overwrites.savedSince
    (h : Overwrites journal execution workspace) : SavedSince journal execution workspace :=
  (List.sublist_append_left [_, _] [_]).trans h

/-! ### Steps -/

section Steps

variable {rules : ContentRules C} {limit : ℕ} {before after : World C K}

/-- What a step may add to the journal: nothing, a save that is a later revision, or a
synchronisation of an execution since whose reservation the design was not saved. -/
def Journals (rules : ContentRules C) (before after : World C K) : Prop :=
  after.journal = before.journal ∨
    (∃ workspace, after.journal = before.journal ++ [.saved workspace] ∧
      revisionOf rules before.designs workspace < revisionOf rules after.designs workspace) ∨
    ∃ execution, after.journal = before.journal ++ [.synchronised execution] ∧
      ∀ record, before.record? execution = some record →
        ¬ SavedSince before.journal execution record.workspace

variable (h : JournalInv rules before)

include h in
/-- Assumes: the invariants, and a step that makes no execution, lets no revision shrink, and adds to
the journal what it may. The invariant of the journal holds after it, if every review is of a saved
revision. -/
theorem JournalInv.step (hworld : WorldInv before)
    (hgrowth : WorldGrowth before after)
    (hearlier : ∀ key record, after.record? key = some record →
      ∃ earlier, before.record? key = some earlier ∧ earlier.Later record)
    (hrevisions : ∀ workspace,
      revisionOf rules before.designs workspace ≤ revisionOf rules after.designs workspace)
    (hreviewed : ∀ (key : Key) (plan : PlanRecord C K),
      after.repository.plans.lookup key = some plan → plan.plan.designRevision ≤
        revisionOf rules after.designs (key.1, plan.plan.workspaceId))
    (hjournal : Journals rules before after) : JournalInv rules after := by
  -- The review of an execution is as it was, up to its status.
  have hplans : ∀ {key : Key} {earlier record : ExecutionRecord C K} {plan : PlanRecord C K},
      before.record? key = some earlier → earlier.Later record →
        after.repository.plans.lookup (record.ownerId, record.execution.planId) = some plan →
          ∃ first, before.repository.plans.lookup (earlier.ownerId, earlier.execution.planId) =
              some first ∧ plan.plan.designRevision = first.plan.designRevision ∧
            plan.plan.workspaceId = earlier.execution.workspaceId := by
    intro key earlier record plan hrecord hlater hplan
    obtain ⟨-, first, hfirst, hworkspace⟩ := hworld.plans key earlier hrecord
    obtain ⟨later, hlaterPlan, status, rfl⟩ := hgrowth.plans key earlier first hrecord hfirst
    rw [hlater.ownerId, hlater.planId, hlaterPlan] at hplan
    obtain rfl := Option.some.inj hplan
    exact ⟨first, hfirst, rfl, hworkspace⟩
  refine ⟨?_, hreviewed, ?_, ?_⟩
  · intro key hmem
    have hbefore : .reserved key ∈ before.journal := by
      rcases hjournal with hsame | ⟨workspace, hsame, -⟩ | ⟨execution, hsame, -⟩
      · rwa [hsame] at hmem
      · rw [hsame] at hmem
        exact (List.mem_append.mp hmem).resolve_right (by simp)
      · rw [hsame] at hmem
        exact (List.mem_append.mp hmem).resolve_right (by simp)
    obtain ⟨record, hrecord⟩ := h.reserved key hbefore
    obtain ⟨later, hlater, -⟩ := hgrowth.executions key record hrecord
    exact ⟨later, hlater⟩
  · intro key record plan hrecord hplan hsaved
    obtain ⟨earlier, hfound, hlater⟩ := hearlier key record hrecord
    obtain ⟨first, hfirst, hrevision, hplanWorkspace⟩ := hplans hfound hlater hplan
    rw [hlater.workspace_eq] at hsaved ⊢
    have hold : SavedSince before.journal key earlier.workspace →
        plan.plan.designRevision < revisionOf rules after.designs earlier.workspace := by
      intro hbefore
      rw [hrevision]
      exact (h.saved key earlier first hfound hfirst hbefore).trans_le (hrevisions _)
    rcases hjournal with hsame | ⟨workspace, hsame, hnext⟩ | ⟨execution, hsame, -⟩
    · rw [hsame] at hsaved
      exact hold hsaved
    · rw [hsame] at hsaved
      rcases hsaved.of_concat with hbefore | ⟨hevent, -⟩
      · exact hold hbefore
      · obtain rfl := JournalEvent.saved.inj hevent
        have hreview := h.reviewed _ first hfirst
        rw [← hrevision] at hreview
        obtain ⟨-, stored, hstored, hstoredWorkspace⟩ := hworld.plans key earlier hfound
        obtain rfl : stored = first := Option.some.inj (hstored.symm.trans hfirst)
        rw [hstoredWorkspace] at hreview
        exact hreview.trans_lt hnext
    · rw [hsame] at hsaved
      rcases hsaved.of_concat with hbefore | ⟨hevent, -⟩
      · exact hold hbefore
      · exact nomatch hevent
  · intro key record hrecord hoverwrites
    obtain ⟨earlier, hfound, hlater⟩ := hearlier key record hrecord
    rw [hlater.workspace_eq] at hoverwrites
    rcases hjournal with hsame | ⟨workspace, hsame, -⟩ | ⟨execution, hsame, hunsaved⟩
    · rw [hsame] at hoverwrites
      exact h.spared key earlier hfound hoverwrites
    · rw [hsame] at hoverwrites
      rcases hoverwrites.of_concat with hbefore | ⟨hevent, -⟩
      · exact h.spared key earlier hfound hbefore
      · exact nomatch hevent
    · rw [hsame] at hoverwrites
      rcases hoverwrites.of_concat with hbefore | ⟨hevent, hsaved⟩
      · exact h.spared key earlier hfound hbefore
      · obtain rfl := JournalEvent.synchronised.inj hevent
        exact hunsaved earlier hfound hsaved

include h in
/-- Assumes: the invariants, and a step that leaves the executions, the plans, the designs and the
journal as they are. -/
theorem JournalInv.congr (hworld : WorldInv before)
    (hgrowth : WorldGrowth before after)
    (hexecutions : after.repository.executions = before.repository.executions)
    (hplans : after.repository.plans = before.repository.plans)
    (hdesigns : after.designs = before.designs) (hjournal : after.journal = before.journal) :
    JournalInv rules after := by
  refine h.step hworld hgrowth ?_ (fun _ ↦ by rw [hdesigns]) ?_ (Or.inl hjournal)
  · intro key record hrecord
    unfold World.record? at hrecord
    rw [hexecutions] at hrecord
    exact ⟨record, hrecord, .refl record⟩
  · rw [hplans, hdesigns]
    exact h.reviewed

include h in
/-- Assumes: the invariant, and designs that stay or of which the next revision of one is saved.
Every review is of a saved revision, if it was stored. -/
theorem JournalInv.reviewed_of_revisions (hrevisions : ∀ workspace,
      revisionOf rules before.designs workspace ≤ revisionOf rules after.designs workspace)
    (key : Key) (plan : PlanRecord C K) (hplan : before.repository.plans.lookup key = some plan) :
    plan.plan.designRevision ≤ revisionOf rules after.designs (key.1, plan.plan.workspaceId) :=
  (h.reviewed key plan hplan).trans (hrevisions _)

include h in
/-- Assumes: the invariants, and a design that a synchronisation saves against the revision of its
review. The invariant of the journal holds after it. -/
theorem JournalInv.replaceDesign (hworld : WorldInv before)
    {record : ExecutionRecord C K} {plan : PlanRecord C K} {request : DesignReplace C}
    (hknows : before.Knows record) (hplan : before.KnowsPlan record plan)
    (hrevision : request.expectedDesignRevision = plan.plan.designRevision)
    (hgrowth : WorldGrowth before
      (before.replaceDesign rules limit record.workspace record.key request).2) :
    JournalInv rules (before.replaceDesign rules limit record.workspace record.key request).2 := by
  have hdesigns := replace_designs rules limit before.designs record.workspace false request
    .checkpoint
  unfold World.replaceDesign at hgrowth ⊢
  rcases houtcome : before.designs.replace rules limit record.workspace false request .checkpoint
    with ⟨error | design, designs⟩
  · rw [houtcome] at hdesigns hgrowth
    have hrevisions : ∀ workspace,
        revisionOf rules before.designs workspace ≤ revisionOf rules designs workspace := by
      intro workspace
      rcases hdesigns with ⟨hsame, -⟩ | ⟨hsaves, -⟩
      · exact (revisionOf_congr (hsame workspace)).ge
      · exact hsaves.revisionOf_le workspace
    exact h.step hworld hgrowth (fun key found hfound ↦ ⟨found, hfound, .refl found⟩) hrevisions
      (h.reviewed_of_revisions hrevisions) (Or.inl rfl)
  · rw [houtcome] at hdesigns hgrowth
    rcases hdesigns with ⟨-, hrefused⟩ | ⟨hsaves, hcurrent⟩
    · obtain ⟨error, herror⟩ := hrefused rfl
      exact nomatch herror
    · refine h.step hworld hgrowth (fun key found hfound ↦ ⟨found, hfound, .refl found⟩)
        hsaves.revisionOf_le (h.reviewed_of_revisions hsaves.revisionOf_le)
        (Or.inr (Or.inr ⟨record.key, rfl, ?_⟩))
      -- A save since the reservation is a later revision than the one that was reviewed.
      intro found hfound hsaved
      obtain ⟨known, hknown, hlater⟩ := hknows
      obtain rfl : known = found := Option.some.inj (hknown.symm.trans hfound)
      obtain ⟨stored, hstored, status, rfl⟩ := hplan
      rw [← hlater.ownerId, ← hlater.planId] at hstored
      have hlate := h.saved record.key known _ hfound hstored hsaved
      rw [hlater.workspace_eq, ← hcurrent, hrevision] at hlate
      exact Nat.lt_irrefl _ hlate

include h in
/-- Assumes: the invariants, and an effect of a licensed call. The invariant of the journal holds
after it. -/
theorem JournalInv.effect {fingerprint : K → String}
    {fact : Key → Option (BaselineRecord C K) → World C K → Prop}
    (hworld : WorldInv before) (hgrowth : WorldGrowth before after)
    (heffect : CallEffect rules limit fingerprint fact before after) : JournalInv rules after := by
  cases heffect with
  | idle hrepository hdesigns hmarks hjournal =>
    exact h.congr hworld hgrowth (by rw [hrepository]) (by rw [hrepository]) hdesigns hjournal
  | record key current next hcurrent hlater hsettles hafter =>
    subst hafter
    refine h.step hworld hgrowth ?_ (fun _ ↦ Nat.le_refl _) h.reviewed (Or.inl rfl)
    intro other record hrecord
    by_cases hsame : other = key
    · subst hsame
      rw [World.record?_setRecord_self] at hrecord
      exact ⟨current, hcurrent, Option.some.inj hrecord ▸ hlater⟩
    · rw [World.record?_setRecord_of_ne before next hsame] at hrecord
      exact ⟨record, hrecord, .refl record⟩
  | baseline record values result head created hlicence hhead hcatalog hsource hafter =>
    subst hafter
    exact h.congr hworld hgrowth rfl rfl rfl rfl
  | design record plan request hknows hplan hrevision hafter =>
    subst hafter
    exact h.replaceDesign hworld hknows hplan hrevision hgrowth

include h in
/-- Assumes: the invariants, and a step that leaves the executions and the revisions that were
reviewed as they are, and saves at most the next revision of one design, which the journal
records. -/
theorem JournalInv.save (hworld : WorldInv before)
    (hgrowth : WorldGrowth before after) {designs : DesignRepository C} {key : Key}
    (hexecutions : after.repository.executions = before.repository.executions)
    (hplans : ∀ (key : Key) (plan : PlanRecord C K),
      after.repository.plans.lookup key = some plan → ∃ earlier,
        before.repository.plans.lookup key = some earlier ∧
          earlier.plan.designRevision = plan.plan.designRevision ∧
          earlier.plan.workspaceId = plan.plan.workspaceId)
    (hdesigns : SameDesigns before.designs designs ∨ SavesRevision rules key before.designs designs)
    (hafter : after.designs = designs)
    (hjournal : after.journal = before.journal ++
      if SavedDesign rules before.designs designs key then [.saved key] else []) :
    JournalInv rules after := by
  subst hafter
  have hrevisions : ∀ workspace,
      revisionOf rules before.designs workspace ≤ revisionOf rules after.designs workspace := by
    intro workspace
    rcases hdesigns with hsame | hsaves
    · exact (revisionOf_congr (hsame workspace)).ge
    · exact hsaves.revisionOf_le workspace
  refine h.step hworld hgrowth ?_ hrevisions ?_ ?_
  · intro other record hrecord
    unfold World.record? at hrecord
    rw [hexecutions] at hrecord
    exact ⟨record, hrecord, .refl record⟩
  · intro other plan hplan
    obtain ⟨earlier, hearlier, hrevision, hworkspace⟩ := hplans other plan hplan
    rw [← hrevision, ← hworkspace]
    exact h.reviewed_of_revisions hrevisions other earlier hearlier
  · rcases hdesigns with hsame | hsaves
    · have hunsaved : SavedDesign rules before.designs after.designs key = false := by
        unfold SavedDesign
        rw [decide_eq_false_iff_not, not_not]
        exact revisionOf_congr (hsame key)
      refine Or.inl ?_
      rw [hjournal, hunsaved]
      simp
    · have hsaved : SavedDesign rules before.designs after.designs key = true := by
        unfold SavedDesign
        rw [decide_eq_true_iff]
        exact (Nat.succ_ne_self _) ∘ hsaves.revisionOf_self.symm.trans
      refine Or.inr (Or.inl ⟨key, ?_, ?_⟩)
      · rw [hjournal, hsaved, if_pos rfl]
      · rw [hsaves.revisionOf_self]
        exact Nat.lt_succ_self _

theorem reconcileDrift_designs (rules : ContentRules C) (limit : ℕ)
    (repository : MigrationRepository C K) (designs : DesignRepository C)
    (baselineId : String) (record : PlanRecord C K) (expectedDesignRevision : ℕ)
    (resolvedContent liveContent : C) :
    let after := (repository.reconcileDrift rules limit designs baselineId record
      expectedDesignRevision resolvedContent liveContent).2.2
    SameDesigns designs after ∨
      SavesRevision rules (record.ownerId, record.plan.workspaceId) designs after := by
  intro after
  have hafter : after = (repository.reconcileDrift rules limit designs baselineId record
    expectedDesignRevision resolvedContent liveContent).2.2 := rfl
  have hdesigns := replace_designs rules limit designs (record.ownerId, record.plan.workspaceId)
    false ⟨expectedDesignRevision, resolvedContent, none⟩ .checkpoint
  unfold MigrationRepository.reconcileDrift at hafter
  dsimp only at hafter
  split at hafter
  · rw [hafter]
    exact Or.inl fun _ ↦ rfl
  · rcases hreplaced : designs.replace rules limit (record.ownerId, record.plan.workspaceId) false
      ⟨expectedDesignRevision, resolvedContent, none⟩ .checkpoint with ⟨outcome, replaced⟩
    rw [hreplaced] at hafter hdesigns
    have hsame : after = replaced := by
      rw [hafter]
      split
      · next heq => exact (Prod.mk.inj heq).2.symm
      · next heq =>
        split
        · exact (Prod.mk.inj heq).2.symm
        · exact (Prod.mk.inj heq).2.symm
    rw [hsame]
    exact hdesigns.imp And.left And.left

include h in
/-- Assumes: the invariants, and a reservation under a new identifier. The invariant of the journal
holds with the new execution. -/
theorem JournalInv.reserve (hworld : WorldInv before)
    {id ownerId planId : String} {plan : PlanRecord C K} {record : ExecutionRecord C K}
    {repository : MigrationRepository C K}
    (hnew : (ownerId, id) ∉ before.repository.executions)
    (hreserves : before.repository.Reserves id ownerId planId plan record repository)
    (hgrowth : WorldGrowth before after) (hrepository : after.repository = repository)
    (hdesigns : after.designs = before.designs)
    (hjournal : after.journal = before.journal ++ [.reserved record.key]) :
    JournalInv rules after := by
  have hkey : record.key = (ownerId, id) := by
    unfold ExecutionRecord.key
    rw [hreserves.owner_eq, hreserves.id_eq]
  rw [hreserves.after_eq] at hrepository
  have hlookup : ∀ {key : Key} {found : ExecutionRecord C K}, after.record? key = some found →
      key = (ownerId, id) ∨ before.record? key = some found := by
    intro key found hfound
    unfold World.record? at hfound
    rw [hrepository] at hfound
    by_cases hsame : key = (ownerId, id)
    · exact Or.inl hsame
    · rw [AList.lookup_insert_ne hsame] at hfound
      exact Or.inr hfound
  have hsaved : ∀ {key workspace : Key}, SavedSince after.journal key workspace →
      key ≠ (ownerId, id) ∧ SavedSince before.journal key workspace := by
    intro key workspace hsince
    rw [hjournal] at hsince
    rcases hsince.of_concat with hbefore | ⟨hevent, -⟩
    · refine ⟨?_, hbefore⟩
      rintro rfl
      obtain ⟨found, hfound⟩ := h.reserved _ hbefore.reserved
      exact hnew (AList.lookup_isSome.mp (Option.isSome_iff_exists.mpr ⟨found, hfound⟩))
    · exact nomatch hevent
  refine ⟨?_, ?_, ?_, ?_⟩
  · intro key hmem
    rw [hjournal, List.mem_append, List.mem_singleton] at hmem
    rcases hmem with hbefore | hevent
    · obtain ⟨found, hfound⟩ := h.reserved key hbefore
      obtain ⟨later, hlater, -⟩ := hgrowth.executions key found hfound
      exact ⟨later, hlater⟩
    · obtain rfl := JournalEvent.reserved.inj hevent
      refine ⟨record, ?_⟩
      unfold World.record?
      rw [hrepository, hkey]
      exact AList.lookup_insert _
  · intro key found hfound
    rw [hdesigns]
    rw [hrepository] at hfound
    by_cases hsame : key = (ownerId, planId)
    · subst hsame
      rw [AList.lookup_insert] at hfound
      obtain rfl := Option.some.inj hfound
      exact h.reviewed _ plan hreserves.stored
    · rw [AList.lookup_insert_ne hsame] at hfound
      exact h.reviewed key found hfound
  · intro key found review hfound hreview hsince
    obtain ⟨hne, hbefore⟩ := hsaved hsince
    have hold := (hlookup hfound).resolve_left hne
    obtain ⟨-, first, hfirst, -⟩ := hworld.plans key found hold
    obtain ⟨later, hlater, status, rfl⟩ := hgrowth.plans key found first hold hfirst
    obtain rfl := Option.some.inj (hlater.symm.trans hreview)
    rw [hdesigns]
    exact h.saved key found first hold hfirst hbefore
  · intro key found hfound hoverwrites
    obtain ⟨hne, -⟩ := hsaved hoverwrites.savedSince
    rw [hjournal] at hoverwrites
    rcases hoverwrites.of_concat with hbefore | ⟨hevent, -⟩
    · exact h.spared key found ((hlookup hfound).resolve_left hne) hbefore
    · exact nomatch hevent

include h in
/-- Assumes: the invariants. Whatever happens without a call keeps the invariant of the journal. -/
theorem JournalInv.change (hworld : WorldInv before)
    (hchange : WorldChange rules limit before after) : JournalInv rules after := by
  have hgrowth : WorldGrowth before after :=
    ((environment_guarantees hworld hchange).2 0).quiet.growth
  cases hchange with
  | tick clock hclock => exact h.congr hworld hgrowth rfl rfl rfl rfl
  | configure workspaces connections => exact h.congr hworld hgrowth rfl rfl rfl rfl
  | design request =>
    exact h.save hworld hgrowth rfl (fun key plan hplan ↦ ⟨plan, hplan, rfl, rfl⟩)
      (step_designs rules limit before.designs request) rfl rfl
  | plan record hnew hdesign hbaseline =>
    obtain ⟨-, hexecutions, -⟩ := before.repository.createPlan_frame record
    refine h.step hworld hgrowth ?_ (fun _ ↦ Nat.le_refl _) ?_ (Or.inl rfl)
    · intro key found hfound
      unfold World.record? at hfound
      rw [hexecutions] at hfound
      exact ⟨found, hfound, .refl found⟩
    · intro key plan hplan
      rcases lookup_createPlan hplan with ⟨rfl, rfl⟩ | hbefore
      · exact hdesign
      · exact h.reviewed key plan hbefore
  | reserve id ownerId planId reviewDigest confirmDestructive confirmExternalChanges reservedAt
      record repository hnew hsource hreserve =>
    obtain ⟨plan, hreserves⟩ := MigrationRepository.reserves_of_reserveExecution hreserve
    exact h.reserve hworld (hnew ownerId) hreserves hgrowth rfl rfl rfl
  | drift baselineId record expectedDesignRevision resolvedContent liveContent hplan hid =>
    have hdesigns := reconcileDrift_designs rules limit before.repository before.designs
      baselineId record expectedDesignRevision resolvedContent liveContent
    rcases before.repository.reconcileDrift_cases rules limit before.designs baselineId record
        expectedDesignRevision resolvedContent liveContent with
      hsame | ⟨baseline, -, -, -, hafter⟩
    · refine h.save hworld hgrowth (congrArg MigrationRepository.executions hsame) ?_ hdesigns rfl
        rfl
      intro key plan hfound
      dsimp only at hfound
      rw [hsame] at hfound
      exact ⟨plan, hfound, rfl, rfl⟩
    · have hexecutions := congrArg MigrationRepository.executions hafter
      refine h.save hworld hgrowth hexecutions ?_ hdesigns rfl rfl
      intro key plan hfound
      dsimp only at hfound
      rw [hafter] at hfound
      by_cases hsame : key = (record.ownerId, record.plan.id)
      · subst hsame
        rw [AList.lookup_insert] at hfound
        obtain rfl := Option.some.inj hfound
        exact ⟨record, hplan, rfl, rfl⟩
      · rw [AList.lookup_insert_ne hsame] at hfound
        exact ⟨plan, hfound, rfl, rfl⟩
  | baseline id values hid hsource hexpected hexecution =>
    rcases before.repository.createBaseline_cases id values with
      ⟨failure, houtcome⟩ | ⟨baseline, -, -, -, -, houtcome⟩
    · rw [houtcome] at hgrowth ⊢
      exact h.congr hworld hgrowth rfl rfl rfl rfl
    · rw [houtcome] at hgrowth ⊢
      exact h.congr hworld hgrowth rfl rfl rfl rfl
  | transaction index transaction phase hat hphase =>
    exact h.congr hworld hgrowth rfl rfl rfl rfl

end Steps

/-! ### Runs -/

/-- The invariants of the world and of the journal, with what programs rely on. -/
def journalDiscipline (rules : ContentRules C) (limit : ℕ) (fingerprint : K → String) :
    Discipline rules limit fingerprint where
  semantics := migrationSemantics rules limit
  logic :=
    { inv := fun world ↦ WorldInv world ∧ JournalInv rules world
      rely := WorldRely
      rely_refl := WorldRely.refl
      rely_trans := fun _ _ _ _ h h' ↦ h.trans h' }
  fact := fun _ _ _ ↦ True
  perform_le := (worldDiscipline rules limit fingerprint).perform_le
  inv_le := And.left
  rely_le := id
  fact_growth := fun _ _ ↦ trivial
  fact_read := fun _ _ _ _ ↦ trivial
  guarantees := by
    rintro thread request before after reply ⟨hworld, hjournal⟩ hlicensed hperform
    have hkeeps := perform_guarantees hworld hlicensed hperform
    have hgrowth := (hkeeps.2 (thread + 1) (Nat.succ_ne_self thread)).quiet.growth
    exact ⟨⟨hkeeps.1, hjournal.effect hworld hgrowth
      (effect_of_perform hworld hlicensed hperform)⟩, hkeeps.2⟩

theorem World.IsInitial.journalInv {world : World C K} (h : world.IsInitial)
    (rules : ContentRules C) : JournalInv rules world := by
  obtain ⟨clock, repository, designs, workspaces, connections, target, marks, journal⟩ := world
  obtain ⟨rfl, rfl, rfl, rfl⟩ := h
  have hnone : ∀ {key : Key} {record : ExecutionRecord C K},
      (∅ : AList fun _ : Key ↦ ExecutionRecord C K).lookup key ≠ some record :=
    fun hfound ↦ nomatch (AList.lookup_empty _).symm.trans hfound
  exact
    { reserved := fun _ hmem ↦ nomatch hmem
      reviewed := fun _ _ hplan ↦ nomatch (AList.lookup_empty _).symm.trans hplan
      saved := fun _ _ _ hfound ↦ (hnone hfound).elim
      spared := fun _ _ hfound ↦ (hnone hfound).elim }

theorem Coordinator.Reachable.journalInv {coordinator : Coordinator C K} {rules : ContentRules C}
    {limit : ℕ} {pool : Pool (migrationInterface C K) Failure (World C K)}
    (h : coordinator.Reachable rules limit pool) : JournalInv rules pool.world := by
  let D := journalDiscipline rules limit coordinator.planner.catalogFingerprint
  refine (RelyGuarantee.reachable_inv (R := D.logic)
    (fun world hworld ↦ ⟨hworld.worldInv, hworld.journalInv rules⟩)
    (fun _ hstarts _ _ _ ↦ D.safe_starts hstarts) ?_ h).2
  rintro before after ⟨hworld, hjournal⟩ hchange
  have hspares := environment_guarantees hworld hchange
  exact ⟨⟨hspares.1, hjournal.change hworld hchange⟩, hspares.2⟩

end Schemii.Migrations
