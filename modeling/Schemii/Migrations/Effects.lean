import Schemii.Migrations.Environment

/-!
# What a licensed call does to the stores

A licensed call changes the stores in one of three ways, or not at all: it replaces a record by a
later one, it appends a baseline that its licence names, or it saves a design for a synchronisation
(`CallEffect`). An execution becomes settled while it is recorded as committed only where the
baselines carry its catalog, or moved on since its reservation.

`effect_of_perform` goes through the calls once. An invariant of the stores is then a matter of the
three effects, and does not look at the calls.
-/

set_option autoImplicit false

namespace Schemii.Migrations

open Foundations Designs

variable {C K : Type}

/-- What a licensed call made of the stores. -/
inductive CallEffect (rules : ContentRules C) (limit : ℕ) (fingerprint : K → String)
    (fact : Key → Option (BaselineRecord C K) → World C K → Prop) (before after : World C K) : Prop
  | idle (hrepository : after.repository = before.repository)
      (hdesigns : after.designs = before.designs)
      (hmarks : after.baselineMarks = before.baselineMarks)
      (hjournal : after.journal = before.journal)
  | record (key : Key) (current next : ExecutionRecord C K)
      (hcurrent : before.record? key = some current) (hlater : current.Later next)
      (hsettles : next.blocksWorkspaceLifecycle = false →
        next.execution.commitOutcome = some .committed →
          current.execution.commitOutcome = some .committed ∧
            (current.blocksWorkspaceLifecycle = false ∨
              ∃ result, current.intendedResult = some result ∧
                before.Carries fingerprint key result.catalog))
      (hafter : after = before.setRecord key next)
  | baseline (record : ExecutionRecord C K) (values : BaselineCreate C K)
      (result : IntendedResult C K) (head : Option (BaselineRecord C K))
      (created : BaselineRecord C K)
      (hlicence : BaselineLicence fingerprint fact before record values result head)
      (hhead : head.map BaselineRecord.id =
        (before.repository.currentBaseline record.workspace).map BaselineRecord.id)
      (hcatalog : created.catalog = result.catalog)
      (hsource : created.sourceExecutionId = some record.execution.id)
      (hafter : after = before.appendBaseline record.workspace created)
  | design (record : ExecutionRecord C K) (plan : PlanRecord C K) (request : DesignReplace C)
      (hknows : before.Knows record) (hplan : before.KnowsPlan record plan)
      (hrevision : request.expectedDesignRevision = plan.plan.designRevision)
      (hafter : after = (before.replaceDesign rules limit record.workspace record.key request).2)

section Effects

variable {rules : ContentRules C} {limit thread : ℕ} {fingerprint : K → String}
  {fact : Key → Option (BaselineRecord C K) → World C K → Prop} {before after : World C K}

theorem CallEffect.refl (world : World C K) :
    CallEffect rules limit fingerprint fact world world :=
  .idle rfl rfl rfl rfl

/-- Assumes: a call to a store whose effect is one of these. So is the effect of the call, lost or
not. -/
theorem Attempted.effect {α : Type} {outcome : Except Failure α × World C K}
    {reply : Except Failure α} (h : Attempted outcome before reply after)
    (houtcome : CallEffect rules limit fingerprint fact before outcome.2) :
    CallEffect rules limit fingerprint fact before after := by
  rcases h with ⟨-, rfl⟩ | ⟨failure, -, -, rfl | rfl⟩
  · exact houtcome
  · exact .refl after
  · exact houtcome

theorem InTransaction.effect {α : Type} {index : ℕ} {reply : Except Failure α}
    {succeeds : TargetTransaction K → α → TargetTransaction K → Prop}
    (h : InTransaction index before reply after succeeds) :
    CallEffect rules limit fingerprint fact before after := by
  rcases h with ⟨failure, -, -, rfl⟩ | ⟨transaction, value, changed, -, -, -, -, rfl⟩
  · exact .refl after
  · exact .idle rfl rfl rfl rfl

/-- Assumes: a licensed transition that leaves a committed execution settled. It was recorded as
committed, and the baselines carry its catalog, or moved on. -/
theorem carries_of_licence {world : World C K} {record current : ExecutionRecord C K}
    {transition : ExecutionTransition C K} (hsame : record.SameRevision current)
    (hlicence : TransitionLicence fingerprint thread world record transition.status
      transition.changes)
    (hsettled : (MigrationRepository.revisedExecution current
      transition).blocksWorkspaceLifecycle = false)
    (hcommitted : (MigrationRepository.revisedExecution current
      transition).execution.commitOutcome = some .committed) :
    current.execution.commitOutcome = some .committed ∧
      ∃ result, current.intendedResult = some result ∧
        world.Carries fingerprint record.key result.catalog := by
  have houtcome : transition.changes.commitOutcome.getD current.execution.commitOutcome =
      some .committed := hcommitted
  have hsucceeded : transition.status = .succeeded := by
    rcases ExecutionRecord.settled_cases hsettled with hfailed | ⟨hsucceeded, -⟩
    · have hstatus : transition.status = .failed := hfailed
      generalize transition.status = status at hlicence hstatus
      generalize transition.changes = changes at hlicence houtcome
      subst hstatus
      cases hlicence with
      | fail _ _ hrolled =>
        rw [hrolled] at houtcome
        exact nomatch houtcome
      | uncertain _ _ _ _ _ hstatus =>
        exact hstatus.elim (fun h ↦ nomatch h) fun h ↦ h.elim (fun h ↦ nomatch h) fun h ↦ nomatch h
    · exact hsucceeded
  -- The synchronisation is over, which only settling says.
  have hover : holdsExecutionLease .succeeded
      (transition.changes.syncStatus.getD current.execution.syncStatus) = false := by
    rcases ExecutionRecord.settled_cases hsettled with hfailed | ⟨-, hreleased⟩
    · have hstatus : transition.status = .failed := hfailed
      rw [hsucceeded] at hstatus
      exact nomatch hstatus
    · exact hreleased hcommitted
  generalize transition.status = status at hlicence hsucceeded
  generalize transition.changes = changes at hlicence houtcome hover
  subst hsucceeded
  cases hlicence with
  | uncertain _ _ _ _ _ hstatus =>
    exact hstatus.elim (fun h ↦ nomatch h) fun h ↦ h.elim (fun h ↦ nomatch h) fun h ↦ nomatch h
  | succeed _ _ _ hsync =>
    rw [hsync] at hover
    exact nomatch hover
  | settle _ result sync _ _ _ _ hmade hresult hcarries =>
    exact ⟨hsame.commitOutcome.trans hmade, result, hsame.intendedResult.trans hresult, hcarries⟩
  | syncFailed _ _ _ hsync =>
    rw [hsync] at hover
    exact nomatch hover

theorem WorldInv.effect_transition {world : World C K} (h : WorldInv world)
    {record : ExecutionRecord C K} {transition : ExecutionTransition C K}
    (hknows : world.Knows record)
    (hrevision : transition.expectedRevision = record.execution.revision)
    (hlicence : TransitionLicence fingerprint thread world record transition.status
      transition.changes) :
    CallEffect rules limit fingerprint fact world (world.withRepository
      (world.repository.transitionExecution record.key transition)).2 := by
  rcases world.repository.transitionExecution_cases record.key transition with
    ⟨failure, houtcome⟩ | ⟨current, hlookup, hcurrentRevision, hlegal, -, -, houtcome⟩
  · rw [World.withRepository, houtcome]
    exact .refl world
  · rw [World.withRepository, houtcome]
    obtain ⟨stored, hstored, hlater⟩ := hknows
    obtain rfl : stored = current := Option.some.inj (hstored.symm.trans hlookup)
    have hsame := hlater.same (hcurrentRevision.trans hrevision)
    exact .record record.key stored _ hstored
      (h.revises_of_licence hstored hsame hlegal hlicence).later
      (fun hsettled hcommitted ↦
        (carries_of_licence hsame hlicence hsettled hcommitted).imp_right Or.inr) rfl

theorem World.Leases.effect (h : before.Leases thread after) :
    CallEffect rules limit fingerprint fact before after := by
  rcases h with rfl | ⟨key, current, next, hcurrent, hrevises, hsettled, hcommitted, rfl⟩
  · exact .refl after
  · refine .record key current next hcurrent hrevises.later (fun hnext hmade ↦ ⟨?_, Or.inl ?_⟩) rfl
    · exact hcommitted.symm.trans hmade
    · exact hsettled.symm.trans hnext

theorem BaselineLicence.effect {world : World C K} {record : ExecutionRecord C K}
    {values : BaselineCreate C K} {result : IntendedResult C K}
    {head : Option (BaselineRecord C K)}
    (h : BaselineLicence fingerprint fact world record values result head) (id : String) :
    CallEffect rules limit fingerprint fact world
      (world.withRepository (world.repository.createBaseline id values)).2 := by
  rcases world.repository.createBaseline_cases id values with
    ⟨failure, houtcome⟩ | ⟨created, hexpected, -, hcatalog, hsource, houtcome⟩
  · rw [World.withRepository, houtcome]
    exact .refl world
  · rw [World.withRepository, houtcome]
    rw [h.workspace, h.predecessor] at hexpected
    refine .baseline record values result head created h hexpected (hcatalog.trans h.catalog)
      (hsource.trans h.source) ?_
    rw [← h.workspace]
    rfl

theorem effect_of_perform {request : MigrationCall C K} {reply : request.Reply}
    (h : WorldInv before) (hlicensed : Licensed fingerprint fact thread before request)
    (hperform : perform rules limit thread request before reply after) :
    CallEffect rules limit fingerprint fact before after := by
  have hread : ∀ {α : Type} {outcome : Except Failure α} {answer : Except Failure α},
      Attempted (outcome, before) before answer after →
        CallEffect rules limit fingerprint fact before after :=
    fun hattempted ↦ hattempted.effect (.refl before)
  cases request with
  | now =>
    obtain ⟨-, rfl⟩ := hperform
    exact .refl after
  | leaseToken =>
    obtain rfl : after = before := hperform
    exact .refl after
  | getPlan key => exact hread hperform
  | getWorkspace key => exact hread hperform
  | getDesign key =>
    rcases hperform with hattempted | ⟨message, -, rfl⟩
    · exact hread hattempted
    · exact .refl after
  | currentBaseline workspace purpose => exact hread hperform
  | createBaseline values =>
    obtain ⟨id, -, hattempted⟩ := hperform
    obtain ⟨record, result, head, hlicence⟩ := hlicensed
    exact hattempted.effect (hlicence.effect id)
  | getExecution key => exact hread hperform
  | claimNextExecution claimedAt leaseOwner leaseExpiresAt =>
    exact Attempted.effect hperform
      (h.leases_claim thread claimedAt leaseOwner leaseExpiresAt).effect
  | renewExecutionLease key leaseOwner leaseExpiresAt =>
    exact Attempted.effect hperform (h.leases_renewal thread key leaseOwner leaseExpiresAt).effect
  | transitionExecution key transition =>
    obtain ⟨record, hknows, rfl, hrevision, hlicence⟩ := hlicensed
    exact Attempted.effect hperform (h.effect_transition hknows hrevision hlicence)
  | replaceDesign workspace execution request =>
    obtain ⟨record, plan, hknows, hplan, -, rfl, rfl, hrevision⟩ := hlicensed
    exact Attempted.effect hperform (.design record plan request hknows hplan hrevision rfl)
  | useConnection ownerId connectionId => exact hread hperform
  | gatewaySupports method =>
    obtain rfl : after = before := hperform
    exact .refl after
  | beginTransaction execution connection freshSnapshots =>
    rcases hperform with ⟨failure, -, -, rfl⟩ | ⟨identity, -, rfl⟩
    · exact .refl after
    · exact .idle rfl rfl rfl rfl
  | lockTarget index targetNamespace tables conversions => exact InTransaction.effect hperform
  | introspect index targetNamespace => exact InTransaction.effect hperform
  | tableEmptiness index targetNamespace tables => exact InTransaction.effect hperform
  | targetIdentity index => exact InTransaction.effect hperform
  | currentTransactionId index => exact InTransaction.effect hperform
  | executeStatement index statement => exact InTransaction.effect hperform
  | commit index =>
    rcases hperform with hperform | ⟨transaction, phase, failure, -, -, -, rfl⟩
    · exact InTransaction.effect hperform
    · exact .idle rfl rfl rfl rfl
  | cleanup index =>
    rcases hperform with rfl | ⟨transaction, -, -, rfl⟩
    · exact .refl after
    · exact .idle rfl rfl rfl rfl
  | transactionStatus connection transactionId =>
    obtain ⟨rfl, -⟩ := hperform
    exact .refl after

end Effects

end Schemii.Migrations
