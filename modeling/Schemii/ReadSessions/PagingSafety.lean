import Schemii.ReadSessions.Paging

/-!
# The invariant of the pages

`PagingInv` and what each call that is not steady does to it.

* `PageFits`: a page shows the rows from its offset on, and is the last one only at their end.
* `PageRely`: what a call may rely on that has claimed a page, or an execution that is not retained.
* `claims_paging`, `opens_paging`, `retains_paging`, `claimPage_paging`, `fetchPage_paging`,
  `responds_paging`: the calls.
-/

set_option autoImplicit false

namespace Schemii.ReadSessions

open Schemii.Foundations

variable {E : Encoding}

/-- A page shows the rows of its result from its offset on. One without a next page is the last one,
and one with a next page shows some row. -/
structure PageFits (registry : Registry E) (page : Page E) : Prop where
  shown : page.rows.map some =
    ((registry.sources page.result).drop page.offset).take page.rows.length
  bound : page.offset + page.rows.length ≤ (registry.sources page.result).length
  start : page.cursor = none → page.offset = 0
  last : page.next = none → Kept registry page.result →
    page.offset + page.rows.length = (registry.sources page.result).length
  more : page.next ≠ none → page.rows ≠ []

/-- What holds of a token. -/
structure TokenFits (registry : Registry E) (token : ℕ) (cursor : PageCursor) : Prop where
  issued : token ∈ registry.issued
  unspent : token ∉ registry.consumed
  idle : registry.pager cursor.result = none
  retained : registry.retained cursor.result.execution = true
  requested : ∀ value, registry.transientResults.get? cursor.result = some value →
    value.firstPageRequested = true
  stands : StandsAt registry cursor.result cursor.offset
  bound : cursor.offset ≤ (registry.sources cursor.result).length

/-- What holds of a result. -/
structure ResultFits (registry : Registry E) (result : ResultId) (value : TransientResult) : Prop where
  retained : registry.retained result.execution = true
  counted : Counted registry result value.rowCount
  fresh : value.firstPageRequested = false →
    (∀ page ∈ registry.pages, page.result ≠ result) ∧ StandsAt registry result 0

/-- The invariant of the pages. -/
structure PagingInv (registry : Registry E) : Prop where
  tokens : ∀ token cursor, registry.resultCursors.get? token = some cursor →
    TokenFits registry token cursor
  single : ∀ token cursor token' cursor', registry.resultCursors.get? token = some cursor →
    registry.resultCursors.get? token' = some cursor' → cursor.result = cursor'.result →
      token = token'
  results : ∀ result value, registry.transientResults.get? result = some value →
    ResultFits registry result value
  /-- A claimed page is of a retained result whose first page was requested. -/
  pagers : ∀ result thread, registry.pager result = some thread →
    registry.retained result.execution = true ∧ ∀ value,
      registry.transientResults.get? result = some value → value.firstPageRequested = true
  /-- While no page is claimed, the portal of a result reads its rows. -/
  views : ∀ result view, registry.view result = some view → registry.pager result = none →
    ReadsRows (registry.sources result) view
  /-- A session that is not retained has no pages and was not read. -/
  unread : ∀ execution, registry.retained execution = false →
    (∀ page ∈ registry.pages, page.result.execution ≠ execution) ∧
      ∀ result, result.execution = execution → StandsAt registry result 0
  pages : ∀ page ∈ registry.pages, PageFits registry page
  /-- The token of a page is for the rows after it. -/
  nexts : ∀ page ∈ registry.pages, ∀ token, page.next = some token → token ∈ registry.issued ∧
    ∀ cursor, registry.resultCursors.get? token = some cursor →
      cursor.result = page.result ∧ cursor.offset = page.offset + page.rows.length
  /-- The page that was asked with the token of a page shows the rows after it. -/
  links : ∀ page ∈ registry.pages, ∀ other ∈ registry.pages, ∀ token, page.next = some token →
    other.cursor = some token → other.result = page.result ∧
      other.offset = page.offset + page.rows.length
  /-- No page was answered twice. -/
  answered : (registry.pages.map fun page ↦ (page.result, page.cursor)).Nodup
  /-- No token was taken twice. -/
  consumed : registry.consumed.Nodup
  spent : ∀ page ∈ registry.pages, ∀ token, page.cursor = some token → token ∈ registry.consumed
  known : ∀ token ∈ registry.consumed, token ∈ registry.issued
  /-- An execution that no run claimed was not retained. -/
  unclaimed : ∀ execution, registry.claimedBy execution = none →
    registry.retained execution = false

/-- A session is gone or reads as before. -/
def SameView (before after : Registry E) (result : ResultId) : Prop :=
  after.view result = none ∨ after.view result = before.view result

/-- What a call may rely on while the others act. -/
structure PageRely (thread : ℕ) (before after : Registry E) : Prop where
  /-- The execution that it claimed is its own until it is retained. -/
  claimed : ∀ execution, before.claimedBy execution = some thread →
    before.retained execution = false → after.claimedBy execution = some thread ∧
      after.retained execution = false ∧ ∀ result, result.execution = execution →
        after.sources result = before.sources result ∧ SameView before after result
  retained : ∀ execution, before.retained execution = true → after.retained execution = true
  sources : ∀ result, before.retained result.execution = true →
    after.sources result = before.sources result
  /-- A result that was given up stays so. -/
  kept : ∀ result, before.retained result.execution = true → Kept after result → Kept before result
  /-- The page that it claimed is its own. -/
  pager : ∀ result, before.pager result = some thread → after.pager result = some thread ∧
    SameView before after result ∧ ∀ page ∈ after.pages, page.result = result →
      page ∈ before.pages
  pages : ∀ page ∈ after.pages, page ∈ before.pages ∨ ∀ token, page.next = some token →
    token ∉ before.issued
  issued : ∀ token ∈ before.issued, token ∈ after.issued
  consumed : ∀ token ∈ before.consumed, token ∈ after.consumed

variable {first second third : Registry E}

theorem SameView.trans {result : ResultId}
    (h : SameView first second result) (h' : SameView second third result) :
    SameView first third result := by
  rcases h' with hnone | hsame
  · exact .inl hnone
  · exact h.imp hsame.trans hsame.trans

theorem SameView.found {before after : Registry E} {result : ResultId}
    {view : List E.Row × Portal E} (h : SameView before after result) (hview : after.view result = some view) :
    before.view result = some view := by
  rcases h with hnone | hsame
  · rw [hnone] at hview
    cases hview
  · exact hsame ▸ hview

theorem PageRely.refl (thread : ℕ) (registry : Registry E) : PageRely thread registry registry where
  claimed := fun _ hclaimed hnew ↦ ⟨hclaimed, hnew, fun _ _ ↦ ⟨rfl, .inr rfl⟩⟩
  retained := fun _ hretained ↦ hretained
  sources := fun _ _ ↦ rfl
  kept := fun _ _ hkept ↦ hkept
  pager := fun _ hpager ↦ ⟨hpager, .inr rfl, fun _ hmem _ ↦ hmem⟩
  pages := fun _ hmem ↦ .inl hmem
  issued := fun _ hmem ↦ hmem
  consumed := fun _ hmem ↦ hmem

theorem PageRely.trans {thread : ℕ}
    (h : PageRely thread first second) (h' : PageRely thread second third) :
    PageRely thread first third where
  claimed := fun execution hclaimed hnew ↦ by
    obtain ⟨hclaimed', hnew', hsame⟩ := h.claimed execution hclaimed hnew
    obtain ⟨hclaimed'', hnew'', hsame'⟩ := h'.claimed execution hclaimed' hnew'
    refine ⟨hclaimed'', hnew'', fun result hresult ↦ ?_⟩
    exact ⟨(hsame' result hresult).1.trans (hsame result hresult).1,
      (hsame result hresult).2.trans (hsame' result hresult).2⟩
  retained := fun execution hretained ↦ h'.retained execution (h.retained execution hretained)
  sources := fun result hretained ↦
    (h'.sources result (h.retained _ hretained)).trans (h.sources result hretained)
  kept := fun result hretained hkept ↦
    h.kept result hretained (h'.kept result (h.retained _ hretained) hkept)
  pager := fun result hpager ↦ by
    obtain ⟨hpager', hview, hpages⟩ := h.pager result hpager
    obtain ⟨hpager'', hview', hpages'⟩ := h'.pager result hpager'
    exact ⟨hpager'', hview.trans hview', fun page hmem hresult ↦
      hpages page (hpages' page hmem hresult) hresult⟩
  pages := fun page hmem ↦ by
    rcases h'.pages page hmem with hmiddle | hnew
    · exact h.pages page hmiddle
    · exact .inr fun token htoken hissued ↦ hnew token htoken (h.issued token hissued)
  issued := fun token hmem ↦ h'.issued token (h.issued token hmem)
  consumed := fun token hmem ↦ h'.consumed token (h.consumed token hmem)

/-- The invariant of the pages and what the calls rely on. -/
def paging (S : Semantics (readInterface E) (Registry E)) : RelyGuarantee S where
  inv := PagingInv
  rely := PageRely
  rely_refl := PageRely.refl
  rely_trans := fun _ _ _ _ ↦ PageRely.trans

/-! ### Steady changes -/

section Steady

variable {before after : Registry E}

theorem StandsAt.same {result : ResultId} {offset : ℕ} (h : StandsAt before result offset)
    (hsame : SameView before after result) : StandsAt after result offset := by
  exact fun view hview ↦ h view (hsame.found hview)

theorem Counted.same {result : ResultId} {count : Option ℕ} (h : Counted before result count)
    (hsources : after.sources result = before.sources result)
    (hsame : SameView before after result) : Counted after result count := by
  exact ⟨fun number hnumber ↦ by rw [hsources]; exact h.1 number hnumber,
    fun view hview ↦ h.2 view (hsame.found hview)⟩

theorem Steady.kept (h : Steady before after) {result : ResultId} (hkept : Kept after result) :
    Kept before result := by
  obtain ⟨⟨value, hvalue, hopen⟩, hview⟩ := hkept
  obtain ⟨old, hold, -, -, hclosing⟩ := h.results result value hvalue
  refine ⟨⟨old, hold, ?_⟩, fun hnone ↦ ?_⟩
  · by_contra hwas
    rw [hclosing (by simpa using hwas)] at hopen
    cases hopen
  · rcases h.views result with hgone | hsame
    · exact hview hgone
    · exact hview (hsame.trans hnone)

theorem Steady.rely (h : Steady before after) (thread : ℕ) : PageRely thread before after where
  claimed := fun execution hclaimed hnew ↦ ⟨h.claimedBy _ _ hclaimed, h.retained ▸ hnew,
    fun result _ ↦ ⟨by rw [h.sources], h.views result⟩⟩
  retained := fun execution hretained ↦ h.retained ▸ hretained
  sources := fun _ _ ↦ by rw [h.sources]
  kept := fun _ _ hkept ↦ h.kept hkept
  pager := fun result hpager ↦ ⟨h.pager ▸ hpager, h.views result,
    fun page hmem _ ↦ h.pages ▸ hmem⟩
  pages := fun page hmem ↦ .inl (h.pages ▸ hmem)
  issued := fun token hmem ↦ h.issued ▸ hmem
  consumed := fun token hmem ↦ h.consumed ▸ hmem

/-- The fit of a page stays. Assumes: the rows of its result stay, and the result does not come
back. -/
theorem PageFits.same {page : Page E} (h : PageFits before page)
    (hsources : after.sources page.result = before.sources page.result)
    (hkept : Kept after page.result → Kept before page.result) : PageFits after page where
  shown := hsources ▸ h.shown
  bound := hsources ▸ h.bound
  start := h.start
  last := fun hlast hstill ↦ hsources ▸ h.last hlast (hkept hstill)
  more := h.more

theorem Steady.inv (h : Steady before after) (hinv : PagingInv before) : PagingInv after where
  tokens := fun token cursor hcursor ↦ by
    have hfits := hinv.tokens token cursor (h.cursors token cursor hcursor)
    refine ⟨h.issued ▸ hfits.issued, h.consumed ▸ hfits.unspent, h.pager ▸ hfits.idle,
      h.retained ▸ hfits.retained, fun value hvalue ↦ ?_, hfits.stands.same (h.views _),
      by rw [h.sources]; exact hfits.bound⟩
    obtain ⟨old, hold, -, hfirst, -⟩ := h.results _ value hvalue
    exact hfirst.trans (hfits.requested old hold)
  single := fun token cursor token' cursor' hcursor hcursor' hsame ↦
    hinv.single token cursor token' cursor' (h.cursors _ _ hcursor) (h.cursors _ _ hcursor') hsame
  results := fun result value hvalue ↦ by
    obtain ⟨old, hold, hcount, hfirst, -⟩ := h.results result value hvalue
    have hfits := hinv.results result old hold
    refine ⟨h.retained ▸ hfits.retained, ?_, fun hnot ↦ ?_⟩
    · rw [hcount]
      exact hfits.counted.same (by rw [h.sources]) (h.views result)
    · obtain ⟨hnone, hstands⟩ := hfits.fresh (hfirst.symm.trans hnot)
      exact ⟨fun page hmem ↦ hnone page (h.pages ▸ hmem), hstands.same (h.views result)⟩
  pagers := fun result thread hpager ↦ by
    obtain ⟨hretained, hrequested⟩ := hinv.pagers result thread (h.pager ▸ hpager)
    refine ⟨h.retained ▸ hretained, fun value hvalue ↦ ?_⟩
    obtain ⟨old, hold, -, hfirst, -⟩ := h.results result value hvalue
    exact hfirst.trans (hrequested old hold)
  views := fun result view hview hidle ↦ by
    rw [h.sources]
    exact hinv.views result view (SameView.found (h.views result) hview) (h.pager ▸ hidle)
  unread := fun execution hnew ↦ by
    obtain ⟨hnone, hstands⟩ := hinv.unread execution (h.retained ▸ hnew)
    exact ⟨fun page hmem ↦ hnone page (h.pages ▸ hmem),
      fun result hresult ↦ (hstands result hresult).same (h.views result)⟩
  pages := fun page hmem ↦
    (hinv.pages page (h.pages ▸ hmem)).same (by rw [h.sources]) fun hkept ↦ h.kept hkept
  nexts := fun page hmem token htoken ↦ by
    obtain ⟨hissued, hcursors⟩ := hinv.nexts page (h.pages ▸ hmem) token htoken
    exact ⟨h.issued ▸ hissued, fun cursor hcursor ↦ hcursors cursor (h.cursors _ _ hcursor)⟩
  links := fun page hmem other hother ↦ hinv.links page (h.pages ▸ hmem) other (h.pages ▸ hother)
  answered := by
    rw [h.pages]
    exact hinv.answered
  consumed := by
    rw [h.consumed]
    exact hinv.consumed
  spent := fun page hmem token htoken ↦ by
    rw [h.consumed]
    exact hinv.spent page (h.pages ▸ hmem) token htoken
  known := fun token hmem ↦ by
    rw [h.issued]
    exact hinv.known token (h.consumed ▸ hmem)
  unclaimed := fun execution hfree ↦ by
    rw [h.retained]
    refine hinv.unclaimed execution ?_
    cases hclaimed : before.claimedBy execution with
    | none => rfl
    | some thread =>
      rw [h.claimedBy execution thread hclaimed] at hfree
      cases hfree

end Steady

/-- A call keeps the invariant and what the others rely on. -/
abbrev KeepsPaging (thread : ℕ) (before after : Registry E) : Prop :=
  PagingInv after ∧ ∀ other, other ≠ thread → PageRely other before after

theorem Steady.keeps {before after : Registry E} (h : Steady before after) (hinv : PagingInv before)
    (thread : ℕ) : KeepsPaging thread before after :=
  ⟨h.inv hinv, fun other _ ↦ h.rely other⟩

theorem KeepsPaging.trans {thread : ℕ}
    (h : KeepsPaging thread first second) (h' : KeepsPaging thread second third) :
    KeepsPaging thread first third :=
  ⟨h'.1, fun other hother ↦ (h.2 other hother).trans (h'.2 other hother)⟩

/-! ### Opening and retaining a session -/

section Sessions

variable {before : Registry E} {thread execution : ℕ}

theorem ReadCursor.Prepared.reads {reader : ReadCursor E} (h : reader.Prepared) :
    ReadsRows reader.source (reader.rows, reader.page) ∧ reader.page.position = 0 := by
  obtain ⟨hposition, hpending, -⟩ := h
  refine ⟨⟨fun hnone ↦ ?_, fun hsome ↦ ?_⟩, hposition⟩
  · have hcursor : reader.page.cursor = none := hnone
    simp [ReadCursor.source, hcursor]
  · obtain ⟨selected, hselected⟩ := Option.ne_none_iff_exists'.1 hsome
    have hcursor : reader.page.cursor = some selected := hselected
    refine ⟨selected, by simp [ReadCursor.source, hcursor], fun server hserver ↦ ?_⟩
    obtain rfl := Option.some.inj (hcursor.symm.trans hserver)
    exact ⟨by rw [hposition]; exact Nat.zero_le _, by simp [hposition, hpending]⟩

variable {after : Registry E}

/-- Opening the session of an execution. Assumes: the thread claimed it, and it is not retained. -/
theorem opens_paging {reply : Except Problem Unit} (hinv : PagingInv before)
    (hclaimed : before.claimedBy execution = some thread) (hnew : before.retained execution = false)
    (h : Opens thread execution before reply after) : KeepsPaging thread before after := by
  cases h with
  | failed problem => exact (Steady.refl before).keeps hinv thread
  | @opened readers hstatements hprepared =>
    generalize hafter : ({ before.writeConnection execution ⟨false, false, some thread, readers⟩ with
      sources := fun result ↦
        if result.execution = execution then
          ((readers.get? result.statement).map ReadCursor.source).getD []
        else before.sources result } : Registry E) = after
    -- Sessions and rows of the other executions stay.
    have hview : ∀ result, result.execution ≠ execution → after.view result = before.view result := by
      intro result hne
      rw [← hafter]
      exact (view_writeConnection before execution _ result).trans (if_neg hne)
    have hsources : ∀ result, result.execution ≠ execution →
        after.sources result = before.sources result := by
      intro result hne
      rw [← hafter]
      exact if_neg hne
    have hother : ∀ result : ResultId, before.retained result.execution = true →
        result.execution ≠ execution := by
      rintro result hretained rfl
      rw [hnew] at hretained
      cases hretained
    have hopened : ∀ result view, result.execution = execution → after.view result = some view →
        ReadsRows (after.sources result) view ∧ view.2.position = 0 := by
      intro result view hresult hfound
      rw [← hafter] at hfound
      have hfound' := (view_writeConnection before execution _ result).symm.trans hfound
      rw [if_pos hresult] at hfound'
      obtain ⟨reader, hreader, rfl⟩ := Option.map_eq_some_iff.1 hfound'
      have hsource : after.sources result = reader.source := by
        have hreader' : readers.get? result.statement = some reader := hreader
        rw [← hafter]
        simp [hresult, hreader']
      rw [hsource]
      exact (hprepared _ reader hreader).reads
    have hpageOther : ∀ page ∈ before.pages, page.result.execution ≠ execution :=
      (hinv.unread execution hnew).1
    have hlog : after.claimedBy = before.claimedBy ∧ after.retained = before.retained ∧
        after.pager = before.pager ∧ after.pages = before.pages ∧ after.issued = before.issued ∧
        after.consumed = before.consumed ∧ after.transientResults = before.transientResults ∧
        after.resultCursors = before.resultCursors := by
      rw [← hafter]
      exact ⟨rfl, rfl, rfl, rfl, rfl, rfl, rfl, rfl⟩
    obtain ⟨hclaims, hretained, hpager, hpages, hissued, hconsumed, hresults, hcursors⟩ := hlog
    have hkept : ∀ result, result.execution ≠ execution → Kept after result → Kept before result := by
      rintro result hne ⟨hvalue, hopen⟩
      exact ⟨hresults ▸ hvalue, hview result hne ▸ hopen⟩
    refine ⟨⟨fun token cursor hcursor ↦ ?_, ?_, fun result value hvalue ↦ ?_, ?_,
      fun result view hfound hidle ↦ ?_, fun other hother ↦ ?_, fun page hmem ↦ ?_, ?_, ?_, ?_, ?_,
      ?_, ?_, ?_⟩, fun other hne ↦ ⟨fun target htarget hnot ↦ ?_, ?_, fun result hwas ↦ ?_,
      fun result hwas ↦ hkept result (hother result hwas), fun result hmine ↦ ?_,
      fun page hmem ↦ .inl (hpages ▸ hmem), ?_, ?_⟩⟩
    · have hfits := hinv.tokens token cursor (hcursors ▸ hcursor)
      have hne := hother _ hfits.retained
      exact ⟨hissued ▸ hfits.issued, hconsumed ▸ hfits.unspent, hpager ▸ hfits.idle,
        hretained ▸ hfits.retained, hresults ▸ hfits.requested,
        hfits.stands.same (.inr (hview _ hne)), by rw [hsources _ hne]; exact hfits.bound⟩
    · rw [hcursors]
      exact hinv.single
    · have hfits := hinv.results result value (hresults ▸ hvalue)
      have hne := hother _ hfits.retained
      exact ⟨hretained ▸ hfits.retained,
        hfits.counted.same (hsources _ hne) (.inr (hview _ hne)), fun hnot ↦
          ⟨hpages ▸ (hfits.fresh hnot).1, (hfits.fresh hnot).2.same (.inr (hview _ hne))⟩⟩
    · rw [hpager, hretained, hresults]
      exact hinv.pagers
    · by_cases hresult : result.execution = execution
      · exact (hopened result view hresult hfound).1
      · rw [hsources result hresult]
        rw [hview result hresult] at hfound
        exact hinv.views result view hfound (hpager ▸ hidle)
    · obtain ⟨hnone, hstands⟩ := hinv.unread other (hretained ▸ hother)
      refine ⟨hpages ▸ hnone, fun result hresult ↦ ?_⟩
      by_cases hsame : result.execution = execution
      · exact fun view hfound _ ↦ (hopened result view hsame hfound).2
      · exact (hstands result hresult).same (.inr (hview result hsame))
    · rw [hpages] at hmem
      have hne := hpageOther page hmem
      exact (hinv.pages page hmem).same (hsources _ hne) (hkept _ hne)
    · rw [hpages, hissued, hcursors]
      exact hinv.nexts
    · rw [hpages]
      exact hinv.links
    · rw [hpages]
      exact hinv.answered
    · rw [hconsumed]
      exact hinv.consumed
    · rw [hpages, hconsumed]
      exact hinv.spent
    · rw [hconsumed, hissued]
      exact hinv.known
    · rw [hclaims, hretained]
      exact hinv.unclaimed
    · have hdifferent : target ≠ execution := by
        rintro rfl
        exact hne (Option.some.inj (htarget.symm.trans hclaimed))
      refine ⟨hclaims ▸ htarget, hretained ▸ hnot, fun result hresult ↦ ?_⟩
      exact ⟨hsources result (hresult ▸ hdifferent), .inr (hview result (hresult ▸ hdifferent))⟩
    · rw [hretained]
      exact fun _ hwas ↦ hwas
    · exact hsources result (hother result hwas)
    · have hdifferent := hother result (hinv.pagers result other hmine).1
      exact ⟨hpager ▸ hmine, .inr (hview result hdifferent), fun page hmem _ ↦ hpages ▸ hmem⟩
    · rw [hissued]
      exact fun _ hmem ↦ hmem
    · rw [hconsumed]
      exact fun _ hmem ↦ hmem

theorem addResults_get? {record : ExecutionRecord} {expiresAt : ℕ} {summaries : Summaries}
    {results : Dictionary ResultId TransientResult} {result : ResultId} {value : TransientResult}
    (h : (Registry.addResults record execution expiresAt summaries results).get? result =
      some value) :
    results.get? result = some value ∨ (result.execution = execution ∧
      (result.statement, value.rowCount) ∈ summaries ∧ value.firstPageRequested = false) := by
  induction summaries generalizing results with
  | nil => exact .inl h
  | cons summary rest ih =>
    obtain ⟨statement, rowCount⟩ := summary
    rcases ih h with hold | ⟨hexecution, hmem, hfirst⟩
    · rw [Dictionary.get?_insert] at hold
      split at hold
      · next hsame =>
        obtain rfl := Option.some.inj hold
        subst hsame
        exact .inr ⟨rfl, List.mem_cons_self, rfl⟩
      · exact .inl hold
    · exact .inr ⟨hexecution, List.mem_cons_of_mem _ hmem, hfirst⟩

/-- Adding the session of an execution and its results. Assumes: the thread claimed the execution, it
is not retained, and the results come with the counts of their rows. -/
theorem addSession_paging {record : ExecutionRecord} {expiresAt : ℕ} {summaries : Summaries}
    (hinv : PagingInv before) (hclaimed : before.claimedBy execution = some thread)
    (hnew : before.retained execution = false)
    (hcounted : ∀ entry ∈ summaries, Counted before ⟨execution, entry.1⟩ entry.2) :
    KeepsPaging thread before (before.addSession record execution expiresAt summaries) := by
  have hview : ∀ result, (before.addSession record execution expiresAt summaries).view result =
      before.view result := by
    intro result
    simp only [Registry.view, Registry.addSession, Dictionary.get?_mapValues]
    cases before.connections.get? result.execution with
    | none => rfl
    | some connection =>
      simp only [Option.map_some, Option.bind_some]
      split <;> rfl
  have hold : ∀ {result value}, (before.addSession record execution expiresAt
      summaries).transientResults.get? result = some value → result.execution ≠ execution →
        before.transientResults.get? result = some value := by
    intro result value hvalue hne
    exact (addResults_get? hvalue).resolve_right fun hadded ↦ hne hadded.1
  have hother : ∀ result : ResultId, before.retained result.execution = true →
      result.execution ≠ execution := by
    rintro result hretained rfl
    rw [hnew] at hretained
    cases hretained
  have hstill : ∀ other, before.retained other = true →
      (before.addSession record execution expiresAt summaries).retained other = true := by
    intro other hwas
    by_cases hsame : other = execution
    · rw [hsame]
      exact Function.update_self _ _ _
    · exact (Function.update_of_ne hsame _ _).trans hwas
  have hkept : ∀ result, result.execution ≠ execution →
      Kept (before.addSession record execution expiresAt summaries) result → Kept before result := by
    rintro result hne ⟨⟨value, hvalue, hopen⟩, hfound⟩
    exact ⟨⟨value, hold hvalue hne, hopen⟩, hview result ▸ hfound⟩
  obtain ⟨hnone, hunread⟩ := hinv.unread execution hnew
  refine ⟨⟨fun token cursor hcursor ↦ ?_, hinv.single, fun result value hvalue ↦ ?_,
    fun result holder hpager ↦ ?_, fun result view hfound hidle ↦ ?_, fun other hnot ↦ ?_,
    fun page hmem ↦ ?_, hinv.nexts, hinv.links, hinv.answered, hinv.consumed, hinv.spent,
    hinv.known, fun other hfree ↦ ?_⟩, fun other hne ↦ ⟨fun target htarget hnot ↦ ?_, hstill, fun _ _ ↦ rfl,
    fun result hwas ↦ hkept result (hother result hwas), fun result hmine ↦
      ⟨hmine, .inr (hview result), fun _ hmem _ ↦ hmem⟩, fun _ hmem ↦ .inl hmem, fun _ hmem ↦ hmem,
    fun _ hmem ↦ hmem⟩⟩
  · have hfits := hinv.tokens token cursor hcursor
    exact ⟨hfits.issued, hfits.unspent, hfits.idle, hstill _ hfits.retained,
      fun value hvalue ↦ hfits.requested value (hold hvalue (hother _ hfits.retained)),
      hfits.stands.same (.inr (hview _)), hfits.bound⟩
  · rcases addResults_get? hvalue with hwas | ⟨hexecution, hmem, hfirst⟩
    · have hfits := hinv.results result value hwas
      exact ⟨hstill _ hfits.retained, hfits.counted.same rfl (.inr (hview result)), fun hnot ↦
        ⟨(hfits.fresh hnot).1, (hfits.fresh hnot).2.same (.inr (hview result))⟩⟩
    · have hsame : result = ⟨execution, result.statement⟩ := by rw [← hexecution]
      refine ⟨?_, ?_, fun _ ↦ ⟨fun page hpage hresult ↦ ?_, ?_⟩⟩
      · rw [hexecution]
        exact Function.update_self _ _ _
      · rw [hsame]
        exact (hcounted _ hmem).same rfl (.inr (hview _))
      · exact hnone page hpage (by rw [hresult, hexecution])
      · exact (hunread result hexecution).same (.inr (hview result))
  · obtain ⟨hretained, hrequested⟩ := hinv.pagers result holder hpager
    exact ⟨hstill _ hretained, fun value hvalue ↦
      hrequested value (hold hvalue (hother _ hretained))⟩
  · rw [hview] at hfound
    exact hinv.views result view hfound hidle
  · have hne : other ≠ execution := by
      rintro rfl
      simp [Registry.addSession] at hnot
    obtain ⟨hpages, hstands⟩ := hinv.unread other ((Function.update_of_ne hne _ _).symm.trans hnot)
    exact ⟨hpages, fun result hresult ↦ (hstands result hresult).same (.inr (hview result))⟩
  · exact (hinv.pages page hmem).same rfl (hkept _ (hnone page hmem))
  · have hunclaimed : before.claimedBy other = none := hfree
    have hne : other ≠ execution := by
      rintro rfl
      rw [hclaimed] at hunclaimed
      cases hunclaimed
    exact (Function.update_of_ne hne _ _).trans (hinv.unclaimed other hunclaimed)
  · have hdifferent : target ≠ execution := by
      rintro rfl
      exact hne (Option.some.inj (htarget.symm.trans hclaimed))
    exact ⟨htarget, (Function.update_of_ne hdifferent _ _).trans hnot,
      fun result _ ↦ ⟨rfl, .inr (hview result)⟩⟩

/-- A thread has claimed an execution that is not retained, and has the counts of its rows. -/
def Stored (thread execution : ℕ) (summaries : Summaries) (registry : Registry E) : Prop :=
  registry.claimedBy execution = some thread ∧ registry.retained execution = false ∧
    ∀ entry ∈ summaries, Counted registry ⟨execution, entry.1⟩ entry.2

theorem Stored.stable {summaries : Summaries}
    (hrely : PageRely thread before after) (h : Stored thread execution summaries before) :
    Stored thread execution summaries after := by
  obtain ⟨hclaimed, hnew, hcounted⟩ := h
  obtain ⟨hclaimed', hnew', hsame⟩ := hrely.claimed execution hclaimed hnew
  exact ⟨hclaimed', hnew', fun entry hmem ↦
    (hcounted entry hmem).same (hsame _ rfl).1 (hsame _ rfl).2⟩

/-- `_retain_results`. Assumes: the thread has stored the results. -/
theorem retains_paging {settings : Settings} {records : ℕ → ExecutionRecord} {summaries : Summaries}
    {reply : Except Problem Unit} (hinv : PagingInv before)
    (hstored : Stored thread execution summaries before)
    (h : Retains settings records execution summaries before reply after) :
    KeepsPaging thread before after := by
  have hretain : ∀ expiresAt now, KeepsPaging thread before
      (before.retainResults settings (records execution) execution expiresAt summaries now).2 := by
    intro expiresAt now
    have hpurge := purge_steady before now
    obtain ⟨hclaimed, hnew, hcounted⟩ := Stored.stable (hpurge.rely thread) hstored
    have hadded := @addSession_paging E _ thread execution (records execution) expiresAt summaries
      (hpurge.inv hinv) hclaimed hnew hcounted
    exact ((hpurge.keeps hinv thread).trans hadded).trans
      ((retainLoop_steady execution _ _).keeps hadded.1 thread)
  cases h with
  | refused expiresAt now => exact hretain expiresAt now
  | retained expiresAt now =>
    have hmarked : Steady (before.retainResults settings (records execution) execution expiresAt
        summaries now).2 ((before.retainResults settings (records execution) execution expiresAt
        summaries now).2.overtake records (records execution).target) :=
      .of_same ⟨fun _ _ h ↦ h, rfl, rfl, rfl, rfl, rfl, rfl⟩ rfl rfl rfl
    exact (hretain expiresAt now).trans (hmarked.keeps (hretain expiresAt now).1 thread)

end Sessions

/-! ### Pages -/

/-- A thread has claimed a page: the token it was asked with, its offset, and the count of the rows. -/
structure PageHeld (thread : ℕ) (result : ResultId) (cursor : Option ℕ) (offset : ℕ)
    (count : Option ℕ) (registry : Registry E) : Prop where
  pager : registry.pager result = some thread
  retained : registry.retained result.execution = true
  counted : Counted registry result count
  bound : offset ≤ (registry.sources result).length
  unanswered : ∀ page ∈ registry.pages, page.result = result → page.cursor ≠ cursor
  start : cursor = none → offset = 0
  token : ∀ token, cursor = some token → token ∈ registry.consumed ∧ token ∈ registry.issued ∧
    ∀ page ∈ registry.pages, page.next = some token →
      result = page.result ∧ offset = page.offset + page.rows.length

/-- The portal of a result reads its rows, and stands at an offset. -/
def ReadsFrom (registry : Registry E) (result : ResultId) (offset : ℕ) : Prop :=
  StandsAt registry result offset ∧
    ∀ view, registry.view result = some view → ReadsRows (registry.sources result) view

section Pages

variable {before after : Registry E} {thread offset : ℕ} {result : ResultId} {cursor : Option ℕ}
  {count : Option ℕ}

theorem PageHeld.stable (hrely : PageRely thread before after)
    (h : PageHeld thread result cursor offset count before) :
    PageHeld thread result cursor offset count after := by
  obtain ⟨hpager, hview, hpages⟩ := hrely.pager result h.pager
  have hsources := hrely.sources result h.retained
  refine ⟨hpager, hrely.retained _ h.retained, h.counted.same hsources hview,
    by rw [hsources]; exact h.bound, fun page hmem hresult ↦
      h.unanswered page (hpages page hmem hresult) hresult, h.start, fun token htoken ↦ ?_⟩
  obtain ⟨hconsumed, hissued, hnexts⟩ := h.token token htoken
  refine ⟨hrely.consumed token hconsumed, hrely.issued token hissued, fun page hmem hnext ↦ ?_⟩
  rcases hrely.pages page hmem with hold | hnew
  · exact hnexts page hold hnext
  · exact absurd hissued (hnew token hnext)

theorem ReadsFrom.stable {offset' : ℕ} (hrely : PageRely thread before after)
    (h : PageHeld thread result cursor offset count before) (hreads : ReadsFrom before result offset') :
    ReadsFrom after result offset' := by
  obtain ⟨-, hsame, -⟩ := hrely.pager result h.pager
  refine ⟨hreads.1.same hsame, fun view hview ↦ ?_⟩
  rw [hrely.sources result h.retained]
  exact hreads.2 view (hsame.found hview)

theorem popCursor_paging (hinv : PagingInv before) (token thread : ℕ) :
    KeepsPaging thread before (before.popCursor token) := by
  have hconsumed : ∀ other ∈ before.consumed, other ∈ (before.popCursor token).consumed := by
    intro other hmem
    simp only [Registry.popCursor]
    split
    · exact List.mem_cons_of_mem _ hmem
    · exact hmem
  have herase : ∀ {other cursor}, (before.popCursor token).resultCursors.get? other = some cursor →
      other ≠ token ∧ before.resultCursors.get? other = some cursor := by
    intro other cursor hcursor
    have herased : (before.resultCursors.erase token).get? other = some cursor := hcursor
    rw [Dictionary.get?_erase] at herased
    split at herased
    · cases herased
    · next hne => exact ⟨hne, herased⟩
  have hconsumedOnly : ∀ other, other ≠ token → other ∈ (before.popCursor token).consumed →
      other ∈ before.consumed := by
    intro other hne hmem
    simp only [Registry.popCursor] at hmem
    split at hmem
    · exact (List.mem_cons.1 hmem).resolve_left hne
    · exact hmem
  refine ⟨⟨fun other cursor hcursor ↦ ?_, fun _ _ _ _ hcursor hcursor' ↦
    hinv.single _ _ _ _ (herase hcursor).2 (herase hcursor').2, fun result value hvalue ↦ ?_,
    hinv.pagers, hinv.views, hinv.unread, fun page hmem ↦ ?_, fun page hmem other hnext ↦ ?_,
    hinv.links, hinv.answered, ?_, fun page hmem other hcursor ↦
      hconsumed other (hinv.spent page hmem other hcursor), fun other hmem ↦ ?_, hinv.unclaimed⟩,
    fun other _ ↦ ⟨fun _ hclaimed hnew ↦ ⟨hclaimed, hnew, fun _ _ ↦ ⟨rfl, .inr rfl⟩⟩,
      fun _ hretained ↦ hretained, fun _ _ ↦ rfl, fun _ _ hkept ↦ hkept,
      fun _ hpager ↦ ⟨hpager, .inr rfl, fun _ hmem _ ↦ hmem⟩, fun _ hmem ↦ .inl hmem,
      fun _ hmem ↦ hmem, hconsumed⟩⟩
  · obtain ⟨hne, hcursor⟩ := herase hcursor
    have hfits := hinv.tokens other cursor hcursor
    exact ⟨hfits.issued, fun hmem ↦ hfits.unspent (hconsumedOnly other hne hmem), hfits.idle,
      hfits.retained, hfits.requested, hfits.stands, hfits.bound⟩
  · have hfits := hinv.results result value hvalue
    exact ⟨hfits.retained, hfits.counted, hfits.fresh⟩
  · have hfits := hinv.pages page hmem
    exact ⟨hfits.shown, hfits.bound, hfits.start, hfits.last, hfits.more⟩
  · obtain ⟨hissued, hcursors⟩ := hinv.nexts page hmem other hnext
    exact ⟨hissued, fun cursor hcursor ↦ hcursors cursor (herase hcursor).2⟩
  · simp only [Registry.popCursor]
    split
    · next hcontains =>
      obtain ⟨cursor, hcursor⟩ := Dictionary.contains_iff.1 hcontains
      exact List.nodup_cons.2 ⟨(hinv.tokens token cursor hcursor).unspent, hinv.consumed⟩
    · exact hinv.consumed
  · simp only [Registry.popCursor] at hmem
    split at hmem
    · next hcontains =>
      rcases List.mem_cons.1 hmem with rfl | hmem
      · obtain ⟨cursor, hcursor⟩ := Dictionary.contains_iff.1 hcontains
        exact (hinv.tokens other cursor hcursor).issued
      · exact hinv.known other hmem
    · exact hinv.known other hmem

/-- Claiming a page of a result. Assumes: it has no token and no page is claimed, it is retained, its
first page is requested now or was before, and what the thread knows of the page. -/
theorem beginPage_paging {value : TransientResult} (hinv : PagingInv before)
    (hidle : before.pager result = none)
    (htokens : ∀ token cursor, before.resultCursors.get? token = some cursor →
      cursor.result ≠ result)
    (hold : ∃ old, before.transientResults.get? result = some old ∧ value.rowCount = old.rowCount ∧
      value.pendingClose = old.pendingClose)
    (hfirst : value.firstPageRequested = true)
    (hunanswered : ∀ page ∈ before.pages, page.result = result → page.cursor ≠ cursor)
    (hstart : cursor = none → offset = 0) (hbound : offset ≤ (before.sources result).length)
    (hstands : StandsAt before result offset)
    (htoken : ∀ token, cursor = some token → token ∈ before.consumed ∧ token ∈ before.issued ∧
      ∀ page ∈ before.pages, page.next = some token →
        result = page.result ∧ offset = page.offset + page.rows.length) :
    KeepsPaging thread before ((before.beginPage thread result).lease thread result value) ∧
      PageHeld thread result cursor offset value.rowCount
        ((before.beginPage thread result).lease thread result value) ∧
      ReadsFrom ((before.beginPage thread result).lease thread result value) result offset := by
  obtain ⟨old, hold, hcount, hclosing⟩ := hold
  have hfits := hinv.results result old hold
  have hpager : ∀ other, ((before.beginPage thread result).lease thread result value).pager other =
      if other = result then some thread else before.pager other := by
    intro other
    by_cases hsame : other = result
    · rw [if_pos hsame, hsame]
      exact Function.update_self _ _ _
    · rw [if_neg hsame]
      exact Function.update_of_ne hsame _ _
  have hget : ∀ other, ((before.beginPage thread result).lease thread result
      value).transientResults.get? other =
        if other = result then some { value with activeExports := value.activeExports + 1 }
        else before.transientResults.get? other := by
    intro other
    simp [Registry.lease, Registry.writeResult, Registry.beginPage]
  have hkept : ∀ other, Kept ((before.beginPage thread result).lease thread result value) other →
      Kept before other := by
    rintro other ⟨⟨found, hfound, hopen⟩, hview⟩
    refine ⟨?_, hview⟩
    rw [hget] at hfound
    split at hfound
    · next hsame =>
      obtain rfl := Option.some.inj hfound
      exact ⟨old, hsame ▸ hold, hclosing ▸ hopen⟩
    · exact ⟨found, hfound, hopen⟩
  have hcounted : Counted before result value.rowCount := hcount ▸ hfits.counted
  refine ⟨⟨⟨fun token found hfound ↦ ?_, hinv.single, fun other found hfound ↦ ?_,
    fun other holder hholder ↦ ?_, fun other view hview hfree ↦ ?_, hinv.unread,
    fun page hmem ↦ (hinv.pages page hmem).same rfl (hkept _), hinv.nexts, hinv.links, hinv.answered,
    hinv.consumed, hinv.spent, hinv.known, hinv.unclaimed⟩, fun other hother ↦
      ⟨fun _ hclaimed hnew ↦ ⟨hclaimed, hnew, fun _ _ ↦ ⟨rfl, .inr rfl⟩⟩,
        fun _ hretained ↦ hretained, fun _ _ ↦ rfl, fun other _ ↦ hkept other,
        fun target hmine ↦ ⟨?_, .inr rfl, fun _ hmem _ ↦ hmem⟩, fun _ hmem ↦ .inl hmem,
        fun _ hmem ↦ hmem, fun _ hmem ↦ hmem⟩⟩,
    ⟨(hpager result).trans (if_pos rfl), hfits.retained, hcounted, hbound, hunanswered, hstart,
      htoken⟩, hstands, fun view hview ↦ hinv.views result view hview hidle⟩
  · have hfits' := hinv.tokens token found hfound
    have hne := htokens token found hfound
    refine ⟨hfits'.issued, hfits'.unspent, ?_, hfits'.retained, fun other hother ↦ ?_, hfits'.stands,
      hfits'.bound⟩
    · rw [hpager, if_neg hne]
      exact hfits'.idle
    · rw [hget, if_neg hne] at hother
      exact hfits'.requested other hother
  · rw [hget] at hfound
    split at hfound
    · next hsame =>
      obtain rfl := Option.some.inj hfound
      subst hsame
      exact ⟨hfits.retained, hcounted, fun hnot ↦ by
        rw [show value.firstPageRequested = false from hnot] at hfirst
        cases hfirst⟩
    · have hfits' := hinv.results other found hfound
      exact ⟨hfits'.retained, hfits'.counted, hfits'.fresh⟩
  · by_cases hsame : other = result
    · subst hsame
      refine ⟨hfits.retained, fun found hfound ↦ ?_⟩
      rw [hget, if_pos rfl] at hfound
      obtain rfl := Option.some.inj hfound
      exact hfirst
    · rw [hpager, if_neg hsame] at hholder
      obtain ⟨hretained, hrequested⟩ := hinv.pagers other holder hholder
      refine ⟨hretained, fun found hfound ↦ ?_⟩
      rw [hget, if_neg hsame] at hfound
      exact hrequested found hfound
  · rw [hpager] at hfree
    split at hfree
    · cases hfree
    · exact hinv.views other view hview hfree
  · have hne : target ≠ result := by
      rintro rfl
      rw [hidle] at hmine
      cases hmine
    rw [hpager, if_neg hne]
    exact hmine

/-- The first section of `page`. A claimed page is held by its thread, and its portal stands at its
offset. -/
theorem claimPage_paging {settings : Settings} {request : Registry.PageRequest} {now : ℕ}
    {reply : Except Registry.Refusal Registry.PageClaim} (hinv : PagingInv before)
    (hclaim : (reply, after) = before.claimPage settings thread request now) :
    KeepsPaging thread before after ∧ ∀ claim, reply = .ok claim →
      PageHeld thread request.result request.cursor claim.offset claim.rowCount after ∧
        ReadsFrom after request.result claim.offset ∧ 1 ≤ claim.batchSize := by
  have hclaims := before.claimPage_claims settings thread request now
  rw [← hclaim] at hclaims
  have hpurge := purge_steady before now
  have hpurged : KeepsPaging thread before (before.purgeTransientResults now) :=
    hpurge.keeps hinv thread
  -- What is known of a claimed page stays when its session is moved to the end.
  have htouched : ∀ {registry : Registry E} {cursor : Option ℕ} {offset : ℕ} {count : Option ℕ},
      KeepsPaging thread before registry → PageHeld thread request.result cursor offset count registry →
      ReadsFrom registry request.result offset →
      KeepsPaging thread before (registry.touch request.execution) ∧
        PageHeld thread request.result cursor offset count (registry.touch request.execution) ∧
        ReadsFrom (registry.touch request.execution) request.result offset := by
    intro registry cursor offset count hkeeps hheld hreads
    have htouch := touch_steady registry request.execution
    exact ⟨hkeeps.trans (htouch.keeps hkeeps.1 thread), hheld.stable (htouch.rely thread),
      ReadsFrom.stable (htouch.rely thread) hheld hreads⟩
  cases hclaims with
  | refused refusal => exact ⟨hpurged, fun claim hok ↦ by cases hok⟩
  | spent refusal token =>
    exact ⟨hpurged.trans (popCursor_paging hpurged.1 token thread), fun claim hok ↦ by cases hok⟩
  | @first value hvalue hopen hexecution hsize hcursor hfirst =>
    have hfits := hpurged.1.results request.result value hvalue
    obtain ⟨hnone, hstands⟩ := hfits.fresh hfirst
    have hidle : (before.purgeTransientResults now).pager request.result = none := by
      cases hpager : (before.purgeTransientResults now).pager request.result with
      | none => rfl
      | some holder =>
        have hrequested := (hpurged.1.pagers _ holder hpager).2 value hvalue
        rw [hfirst] at hrequested
        cases hrequested
    have htokens : ∀ token cursor,
        (before.purgeTransientResults now).resultCursors.get? token = some cursor →
          cursor.result ≠ request.result := by
      intro token cursor htoken hsame
      have hrequested := (hpurged.1.tokens token cursor htoken).requested value (hsame ▸ hvalue)
      rw [hfirst] at hrequested
      cases hrequested
    obtain ⟨hkeeps, hheld, hreads⟩ := @beginPage_paging E (before.purgeTransientResults now) thread 0
      request.result none { value with firstPageRequested := true } hpurged.1 hidle htokens
      ⟨value, hvalue, rfl, rfl⟩ rfl (fun page hmem hresult ↦ absurd hresult (hnone page hmem))
      (fun _ ↦ rfl) (Nat.zero_le _) hstands (fun _ hnever ↦ by cases hnever)
    obtain ⟨hkeeps', hheld', hreads'⟩ := htouched (hpurged.trans hkeeps) hheld hreads
    refine ⟨hkeeps', fun claim hok ↦ ?_⟩
    obtain rfl := Except.ok.inj hok
    rw [hcursor]
    exact ⟨hheld', hreads', hsize⟩
  | @next value token cursor hvalue hopen hexecution hsize hcursor htoken hresult =>
    have hfits := hpurged.1.tokens token cursor htoken
    have hpopped := popCursor_paging hpurged.1 token thread
    have htokens : ∀ other found, ((before.purgeTransientResults now).popCursor
        token).resultCursors.get? other = some found → found.result ≠ request.result := by
      intro other found hfound hsame
      have herased : ((before.purgeTransientResults now).resultCursors.erase token).get? other =
        some found := hfound
      rw [Dictionary.get?_erase] at herased
      split at herased
      · cases herased
      · next hne =>
        exact hne (hpurged.1.single other found token cursor herased htoken
          (hsame.trans hresult.symm))
    have hspent : token ∈ ((before.purgeTransientResults now).popCursor token).consumed := by
      simp only [Registry.popCursor]
      rw [if_pos (Dictionary.contains_iff.2 ⟨cursor, htoken⟩)]
      exact List.mem_cons_self
    obtain ⟨hkeeps, hheld, hreads⟩ := @beginPage_paging E
      ((before.purgeTransientResults now).popCursor token) thread cursor.offset request.result
      (some token) value hpopped.1 (hresult ▸ hfits.idle) htokens ⟨value, hvalue, rfl, rfl⟩
      (hfits.requested value (hresult ▸ hvalue))
      (fun page hmem _ hasked ↦ hfits.unspent (hpurged.1.spent page hmem token hasked))
      (fun hnever ↦ by cases hnever) (hresult ▸ hfits.bound) (hresult ▸ hfits.stands) fun other hother ↦ by
        obtain rfl := Option.some.inj hother
        refine ⟨hspent, hfits.issued, fun page hmem hnext ↦ ?_⟩
        obtain ⟨-, hnexts⟩ := hpurged.1.nexts page hmem token hnext
        obtain ⟨hsame, hoffset⟩ := hnexts cursor htoken
        exact ⟨hresult.symm.trans hsame, hoffset⟩
    obtain ⟨hkeeps', hheld', hreads'⟩ := htouched ((hpurged.trans hpopped).trans hkeeps) hheld hreads
    refine ⟨hkeeps', fun claim hok ↦ ?_⟩
    obtain rfl := Except.ok.inj hok
    rw [hcursor]
    exact ⟨hheld', hreads', hsize⟩

/-- Writing the read cursor of a result. Assumes: the thread has claimed a page of it, and the cursor is
of the same kind. -/
theorem writeReader_paging {connection : Connection E} {reader reader' : ReadCursor E}
    (hinv : PagingInv before) (hheld : PageHeld thread result cursor offset count before)
    (hconnection : before.connections.get? result.execution = some connection)
    (hreader : connection.readers.get? result.statement = some reader)
    (hkind : reader'.page.cursor = none ↔ reader.page.cursor = none) :
    KeepsPaging thread before (before.writeReader result connection reader') ∧
      PageHeld thread result cursor offset count (before.writeReader result connection reader') := by
  have hview := view_writeReader hconnection reader'
  have hother : ∀ other, other ≠ result →
      SameView before (before.writeReader result connection reader') other :=
    fun other hne ↦ .inr ((hview other).trans (if_neg hne))
  have hbefore : before.view result = some (reader.rows, reader.page) := by
    rw [Registry.view, hconnection, Option.bind_some, hreader]
    rfl
  have hcounted : ∀ {number}, Counted before result number →
      Counted (before.writeReader result connection reader') result number := by
    intro number hnumber
    refine ⟨hnumber.1, fun view hfound ↦ ?_⟩
    rw [hview, if_pos rfl] at hfound
    obtain rfl := Option.some.inj hfound
    exact hkind.trans (hnumber.2 _ hbefore)
  have hkept : ∀ other, Kept (before.writeReader result connection reader') other →
      Kept before other := by
    rintro other ⟨hvalue, hopen⟩
    refine ⟨hvalue, ?_⟩
    by_cases hsame : other = result
    · rw [hsame, hbefore]
      exact Option.some_ne_none _
    · rw [hview, if_neg hsame] at hopen
      exact hopen
  obtain ⟨-, hrequested⟩ := hinv.pagers result thread hheld.pager
  refine ⟨⟨⟨fun token found hfound ↦ ?_, hinv.single, fun other value hvalue ↦ ?_, hinv.pagers,
    fun other view hfound hidle ↦ ?_, fun other hnew ↦ ⟨(hinv.unread other hnew).1,
      fun target htarget ↦ ?_⟩, fun page hmem ↦ (hinv.pages page hmem).same rfl (hkept _), hinv.nexts,
    hinv.links, hinv.answered, hinv.consumed, hinv.spent, hinv.known, hinv.unclaimed⟩,
    fun other hne ↦
      ⟨fun target hclaimed hnew ↦ ⟨hclaimed, hnew, fun found hfound ↦ ⟨rfl, hother found ?_⟩⟩,
        fun _ hretained ↦ hretained, fun _ _ ↦ rfl, fun found _ ↦ hkept found,
        fun target hmine ↦ ⟨hmine, hother target ?_, fun _ hmem _ ↦ hmem⟩, fun _ hmem ↦ .inl hmem,
        fun _ hmem ↦ hmem, fun _ hmem ↦ hmem⟩⟩,
    ⟨hheld.pager, hheld.retained, hcounted hheld.counted, hheld.bound, hheld.unanswered, hheld.start,
      hheld.token⟩⟩
  · have hfits := hinv.tokens token found hfound
    have hne : found.result ≠ result := by
      intro hsame
      have hidle := hfits.idle
      rw [hsame, hheld.pager] at hidle
      cases hidle
    exact ⟨hfits.issued, hfits.unspent, hfits.idle, hfits.retained, hfits.requested,
      hfits.stands.same (hother _ hne), hfits.bound⟩
  · have hfits := hinv.results other value hvalue
    by_cases hsame : other = result
    · subst hsame
      refine ⟨hfits.retained, hcounted hfits.counted, fun hnot ↦ ?_⟩
      rw [hrequested value hvalue] at hnot
      cases hnot
    · exact ⟨hfits.retained, hfits.counted.same rfl (hother _ hsame), fun hnot ↦
        ⟨(hfits.fresh hnot).1, (hfits.fresh hnot).2.same (hother _ hsame)⟩⟩
  · have hne : other ≠ result := by
      rintro rfl
      have hfree : before.pager other = none := hidle
      rw [hheld.pager] at hfree
      cases hfree
    rw [hview, if_neg hne] at hfound
    exact hinv.views other view hfound hidle
  · have hne : target ≠ result := by
      rintro rfl
      have hnot : before.retained other = false := hnew
      rw [← htarget, hheld.retained] at hnot
      cases hnot
    exact ((hinv.unread other hnew).2 target htarget).same (hother _ hne)
  · rintro rfl
    rw [← hfound, hheld.retained] at hnew
    cases hnew
  · rintro rfl
    exact hne (Option.some.inj (hmine.symm.trans hheld.pager))

/-- What a fetch has shown of a result: the rows from an offset on. Whether there are more is known of a
count, or of a cursor that is open still. -/
structure PageShown (registry : Registry E) (result : ResultId) (offset size : ℕ) (count : Option ℕ)
    (rows : List E.Row) : Prop where
  shown : rows.map some = ((registry.sources result).drop offset).take rows.length
  bound : offset + rows.length ≤ (registry.sources result).length
  reads : ReadsFrom registry result (offset + rows.length)
  whole : count ≠ none → rows = [] → offset = (registry.sources result).length
  more : count = none → ∀ view, registry.view result = some view → view.2.pending ≠ [] → rows ≠ []
  last : count = none → ∀ view, registry.view result = some view → rows.length ≠ size →
    view.2.pending = [] → offset + rows.length = (registry.sources result).length

variable {rows : List E.Row}

theorem PageShown.stable {size : ℕ} (hrely : PageRely thread before after)
    (hheld : PageHeld thread result cursor offset count before)
    (h : PageShown before result offset size count rows) :
    PageShown after result offset size count rows := by
  obtain ⟨-, hsame, -⟩ := hrely.pager result hheld.pager
  have hsources := hrely.sources result hheld.retained
  exact ⟨hsources ▸ h.shown, hsources ▸ h.bound, ReadsFrom.stable hrely hheld h.reads,
    hsources ▸ h.whole, fun hnone view hview ↦ h.more hnone view (hsame.found hview),
    fun hnone view hview ↦ hsources ▸ h.last hnone view (hsame.found hview)⟩

theorem shown_of_rows (offset size : ℕ) :
    ((rows.drop offset).take size).map some =
      ((rows.map some).drop offset).take ((rows.drop offset).take size).length := by
  rw [← List.map_drop, ← List.map_take]
  congr 1
  rw [List.length_take, ← List.take_eq_take_min]

/-- A fetch of a page that was claimed. It is not out of sequence, and what it answers are the rows from
its offset on. -/
theorem fetchPage_paging {limit size : ℕ} {reply : Except FetchProblem (List E.Row)}
    (hinv : PagingInv before) (hheld : PageHeld thread result cursor offset count before)
    (hreads : ReadsFrom before result offset) (hsize : 1 ≤ size)
    (h : Fetches (fun reader ↦ reader.fetchPage limit offset size) ReadCursor.movePage result before
      reply after) :
    KeepsPaging thread before after ∧ PageHeld thread result cursor offset count after ∧
      reply ≠ .error .sequence ∧ ∀ rows, reply = .ok rows →
        PageShown after result offset size count rows := by
  have hview : ∀ {connection reader}, before.connections.get? result.execution = some connection →
      connection.readers.get? result.statement = some reader →
      before.view result = some (reader.rows, reader.page) := by
    intro connection reader hconnection hreader
    rw [Registry.view, hconnection, Option.bind_some, hreader]
    rfl
  cases h with
  | unavailable =>
    exact ⟨(Steady.refl before).keeps hinv thread, hheld, by rintro ⟨⟩, fun rows hok ↦ by cases hok⟩
  | cancelled =>
    exact ⟨(Steady.refl before).keeps hinv thread, hheld, by rintro ⟨⟩, fun rows hok ↦ by cases hok⟩
  | @failed connection reader problem sent hproblem hconnection hreader =>
    obtain ⟨hkeeps, hheld'⟩ := @writeReader_paging E before thread offset result cursor count connection
      reader (reader.movePage sent) hinv hheld hconnection hreader
      (by simp [ReadCursor.movePage])
    refine ⟨hkeeps, hheld', ?_, fun rows hok ↦ by cases hok⟩
    rcases hproblem with rfl | rfl
    · rintro ⟨⟩
    · rintro ⟨⟩
  | @raised connection reader problem hconnection hreader hopen hfetch =>
    have hstands := hreads.1 _ (hview hconnection hreader)
    have hsequence : problem ≠ .sequence := by
      rintro rfl
      simp only [ReadCursor.fetchPage] at hfetch
      split at hfetch
      · next problem hforward =>
        obtain rfl := Except.error.inj hfetch
        unfold fetchForward at hforward
        split at hforward
        · cases hforward
        · next server hserver =>
          split at hforward
          · next hoffset => exact hoffset (hstands (by rw [hserver]; exact Option.some_ne_none _)).symm
          · split at hforward
            · next problem hrows =>
              obtain rfl := Except.error.inj hforward
              exact fetchRows_sequence hrows
            · cases hforward
      · cases hfetch
    have hclosed : Steady before (if problem.closes then
        before.closeConnections fun other ↦ decide (other = result.execution) else before) := by
      split
      · exact closeConnections_steady before _
      · exact .refl before
    exact ⟨hclosed.keeps hinv thread, hheld.stable (hclosed.rely thread),
      fun hsame ↦ hsequence (Except.error.inj hsame), fun rows hok ↦ by cases hok⟩
  | @fetched connection reader reader' rows hconnection hreader hopen hcancelled hfetch =>
    simp only [ReadCursor.fetchPage] at hfetch
    split at hfetch
    · cases hfetch
    · next shown portal hforward =>
      obtain ⟨rfl, rfl⟩ := Prod.mk.inj (Except.ok.inj hfetch)
      have hrows := hreads.2 _ (hview hconnection hreader)
      have hcounted := hheld.counted.2 _ (hview hconnection hreader)
      have hafter : (before.writeReader result connection { reader with page := portal }).view result =
          some (reader.rows, portal) := (view_writeReader hconnection _ result).trans (if_pos rfl)
      have hwritten : ∀ {kept : Portal E}, (kept.cursor = none ↔ reader.page.cursor = none) →
          KeepsPaging thread before
              (before.writeReader result connection { reader with page := kept }) ∧
            PageHeld thread result cursor offset count
              (before.writeReader result connection { reader with page := kept }) :=
        fun hkind ↦ writeReader_paging hinv hheld hconnection hreader hkind
      cases hserver : reader.page.cursor with
      | none =>
        -- The rows are there, and so is their count.
        simp only [fetchForward, hserver, Except.ok.injEq, Prod.mk.injEq] at hforward
        obtain ⟨rfl, rfl⟩ := hforward
        obtain ⟨hkeeps, hheld'⟩ := hwritten Iff.rfl
        have hsource : before.sources result = reader.rows.map some := hrows.1 hserver
        refine ⟨hkeeps, hheld', by rintro ⟨⟩, fun answered hok ↦ ?_⟩
        obtain rfl := Except.ok.inj hok
        have hlength : offset + ((reader.rows.drop offset).take size).length ≤
            (before.sources result).length := by
          have hbound := hheld.bound
          rw [hsource] at hbound ⊢
          simp only [List.length_take, List.length_drop, List.length_map] at hbound ⊢
          omega
        refine ⟨?_, hlength, ⟨fun view hfound hsome ↦ ?_, fun view hfound ↦ ?_⟩, fun _ hnothing ↦ ?_,
          fun hnone ↦ absurd hnone (hcounted.1 hserver), fun hnone ↦ absurd hnone (hcounted.1 hserver)⟩
        · rw [show (before.writeReader result connection _).sources result = _ from hsource]
          exact shown_of_rows offset size
        · obtain rfl := Option.some.inj (hafter.symm.trans hfound)
          exact absurd hserver hsome
        · obtain rfl := Option.some.inj (hafter.symm.trans hfound)
          exact hrows
        · have hbound := hheld.bound
          have hempty := congrArg List.length hnothing
          show offset = (before.sources result).length
          rw [hsource] at hbound ⊢
          simp only [List.length_take, List.length_drop, List.length_map, List.length_nil] at *
          omega
      | some server =>
        have hsome : reader.page.cursor ≠ none := by simp [hserver]
        obtain ⟨raws, hsource, hportal⟩ := hrows.2 hsome
        obtain ⟨-, hposition, hshown, hreads', hcursor, hlast, hmore⟩ :=
          fetchForward_spec hportal hserver hforward
        have hkind : portal.cursor ≠ none := fun hnone ↦ by simp [hnone] at hcursor
        obtain ⟨hkeeps, hheld'⟩ := hwritten ⟨fun hnone ↦ absurd hnone hkind,
          fun hnone ↦ absurd hnone hsome⟩
        refine ⟨hkeeps, hheld', by rintro ⟨⟩, fun answered hok ↦ ?_⟩
        obtain rfl := Except.ok.inj hok
        have hlength : (before.sources result).length = raws.length := by
          rw [show before.sources result = _ from hsource, List.length_map]
        obtain ⟨found, hfound⟩ := Option.isSome_iff_exists.1 hcursor
        have hbound : offset + shown.length ≤ (before.sources result).length := by
          rw [hlength, ← hposition]
          exact (hreads' found hfound).1
        have hunknown : count = none := by
          by_contra hknown
          exact hsome (hcounted.2 hknown)
        refine ⟨?_, hbound, ⟨fun view hview' _ ↦ ?_, fun view hview' ↦ ?_⟩,
          fun hknown ↦ absurd hunknown hknown, fun _ view hview' hkept ↦ ?_,
          fun _ view hview' hnotfull hnothing ↦ ?_⟩
        · rw [show (before.writeReader result connection _).sources result = _ from hsource]
          exact hshown
        · obtain rfl := Option.some.inj (hafter.symm.trans hview')
          exact hposition
        · obtain rfl := Option.some.inj (hafter.symm.trans hview')
          exact ⟨fun hnone ↦ absurd hnone hkind, fun _ ↦ ⟨raws, hsource, hreads'⟩⟩
        · obtain rfl := Option.some.inj (hafter.symm.trans hview')
          exact hmore hsize hkept
        · obtain rfl := Option.some.inj (hafter.symm.trans hview')
          exact (hlast hnotfull hnothing).trans hlength.symm

/-- What is known of a page that is about to be answered. -/
structure AnswerFits (registry : Registry E) (result : ResultId) (offset : ℕ) (rows : List E.Row)
    (hasMore : Bool) : Prop where
  shown : rows.map some = ((registry.sources result).drop offset).take rows.length
  bound : offset + rows.length ≤ (registry.sources result).length
  reads : ReadsFrom registry result (offset + rows.length)
  more : hasMore = true → rows ≠ []
  last : hasMore = false → Kept registry result →
    offset + rows.length = (registry.sources result).length

theorem AnswerFits.stable {hasMore : Bool} (hrely : PageRely thread before after)
    (hheld : PageHeld thread result cursor offset count before)
    (h : AnswerFits before result offset rows hasMore) :
    AnswerFits after result offset rows hasMore := by
  have hsources := hrely.sources result hheld.retained
  exact ⟨hsources ▸ h.shown, hsources ▸ h.bound, ReadsFrom.stable hrely hheld h.reads, h.more,
    fun hlast hkept ↦ hsources ▸ h.last hlast (hrely.kept result hheld.retained hkept)⟩

/-- What `page` concludes of the rows that it fetched and of the rows that are buffered. -/
theorem answerFits_of_shown {registry : Registry E} {claim : Registry.PageClaim}
    (hheld : PageHeld thread result cursor claim.offset claim.rowCount registry)
    (hsize : 1 ≤ claim.batchSize)
    (h : PageShown registry result claim.offset claim.batchSize claim.rowCount rows) :
    AnswerFits registry result claim.offset rows (hasMore claim rows
      (((registry.connections.get? result.execution).bind fun connection ↦
        connection.readers.get? result.statement).any fun reader ↦ !reader.page.pending.isEmpty)) := by
  -- The buffered rows are those of the view.
  have hbuffered : (((registry.connections.get? result.execution).bind fun connection ↦
      connection.readers.get? result.statement).any fun reader ↦ !reader.page.pending.isEmpty) =
        (registry.view result).any fun view ↦ !view.2.pending.isEmpty := by
    rw [Registry.view]
    cases registry.connections.get? result.execution with
    | none => rfl
    | some connection => cases hreader : connection.readers.get? result.statement <;> simp [hreader]
  rw [hbuffered]
  refine ⟨h.shown, h.bound, h.reads, fun hmore ↦ ?_, fun hlast hkept ↦ ?_⟩
  · unfold hasMore at hmore
    split at hmore
    · next hnone =>
      rcases Bool.or_eq_true_iff.1 hmore with hfull | hkept
      · rintro rfl
        simp only [List.length_nil, decide_eq_true_eq] at hfull
        omega
      · cases hview : registry.view result with
        | none => simp [hview] at hkept
        | some view =>
          rw [hview] at hkept
          exact h.more hnone view hview (by simpa using hkept)
    · next number hnumber =>
      rintro rfl
      have htotal := h.whole (by simp [hnumber]) rfl
      have hcount := hheld.counted.1 number hnumber
      simp only [List.length_nil, decide_eq_true_eq] at hmore
      omega
  · unfold hasMore at hlast
    split at hlast
    · next hnone =>
      obtain ⟨hnotfull, hnothing⟩ := Bool.or_eq_false_iff.1 hlast
      obtain ⟨view, hview⟩ := Option.ne_none_iff_exists'.1 hkept.2
      rw [hview] at hnothing
      exact h.last hnone view hview (by simpa using hnotfull) (by simpa using hnothing)
    · next number hnumber =>
      have hcount := hheld.counted.1 number hnumber
      have hbound := h.bound
      simp only [decide_eq_false_iff_not] at hlast
      omega

/-- Answering a page. Assumes: the thread has claimed it, what is known of its rows, and a token that was
not issued before. -/
theorem answer_paging {next : Option ℕ} {closing : Bool} (hinv : PagingInv before)
    (hheld : PageHeld thread result cursor offset count before)
    (hpages : after.pages = ⟨result, cursor, offset, rows, next, closing⟩ :: before.pages)
    (hpager : after.pager = Function.update before.pager result none)
    (hclaims : after.claimedBy = before.claimedBy) (hretained : after.retained = before.retained)
    (hsources : after.sources = before.sources) (hconnections : after.connections = before.connections)
    (hresults : after.transientResults = before.transientResults)
    (hconsumed : after.consumed = before.consumed)
    (hissued : ∀ token, token ∈ after.issued ↔ next = some token ∨ token ∈ before.issued)
    (hcursors : ∀ token found, after.resultCursors.get? token = some found →
      (next = some token ∧ found.result = result ∧ found.offset = offset + rows.length) ∨
        (next ≠ some token ∧ before.resultCursors.get? token = some found))
    (hfresh : ∀ token, next = some token → token ∉ before.issued)
    (hreads : ReadsFrom before result (offset + rows.length))
    (hfits : PageFits before ⟨result, cursor, offset, rows, next, closing⟩) :
    KeepsPaging thread before after := by
  have hview : ∀ other, after.view other = before.view other := by
    intro other
    rw [Registry.view, Registry.view, hconnections]
  have hsame : ∀ other, SameView before after other := fun other ↦ .inr (hview other)
  have hkept : ∀ other, Kept after other → Kept before other := by
    rintro other ⟨hvalue, hopen⟩
    exact ⟨hresults ▸ hvalue, hview other ▸ hopen⟩
  have hfit : ∀ page, PageFits before page → PageFits after page :=
    fun page hpage ↦ hpage.same (by rw [hsources]) (hkept _)
  have hidle : ∀ other, other ≠ result → after.pager other = before.pager other := by
    intro other hne
    rw [hpager, Function.update_of_ne hne]
  have hmem : ∀ page, page ∈ after.pages ↔
      page = ⟨result, cursor, offset, rows, next, closing⟩ ∨ page ∈ before.pages := by
    intro page
    rw [hpages, List.mem_cons]
  obtain ⟨hwas, hrequested⟩ := hinv.pagers result thread hheld.pager
  -- The tokens of other pages are for other results.
  have hothers : ∀ token found, before.resultCursors.get? token = some found →
      found.result ≠ result := by
    rintro token found hfound rfl
    have hnone := (hinv.tokens token found hfound).idle
    rw [hheld.pager] at hnone
    cases hnone
  have hunissued : ∀ token page, page ∈ before.pages → page.cursor = some token →
      next ≠ some token := by
    intro token page hpage hasked hnext
    exact hfresh token hnext (hinv.known token (hinv.spent page hpage token hasked))
  refine ⟨⟨fun token found hfound ↦ ?_, fun token found token' found' hfound hfound' hresult ↦ ?_,
    fun other value hvalue ↦ ?_, fun other holder hholder ↦ ?_, fun other view hfound hfree ↦ ?_,
    fun other hnew ↦ ?_, fun page hpage ↦ ?_, fun page hpage token htoken ↦ ?_,
    fun page hpage other hother token htoken hasked ↦ ?_, ?_, by rw [hconsumed]; exact hinv.consumed,
    fun page hpage token hasked ↦ ?_, fun token htoken ↦ ?_,
    by rw [hclaims, hretained]; exact hinv.unclaimed⟩, fun other hother ↦
      ⟨fun target hclaimed hnew ↦ ⟨hclaims ▸ hclaimed, hretained ▸ hnew,
        fun found _ ↦ ⟨by rw [hsources], hsame found⟩⟩, fun _ hold ↦ hretained ▸ hold,
        fun _ _ ↦ by rw [hsources], fun found _ ↦ hkept found, fun target hmine ↦ ?_,
        fun page hpage ↦ ?_, fun token htoken ↦ (hissued token).2 (.inr htoken),
        fun _ htoken ↦ hconsumed ▸ htoken⟩⟩
  · rcases hcursors token found hfound with ⟨hnext, hresult, hoffset⟩ | ⟨-, hold⟩
    · refine ⟨(hissued token).2 (.inl hnext), fun hspent ↦ ?_, ?_, ?_, ?_, ?_, ?_⟩
      · rw [hconsumed] at hspent
        exact hfresh token hnext (hinv.known token hspent)
      · rw [hpager, hresult]
        exact Function.update_self _ _ _
      · rw [hretained, hresult]
        exact hwas
      · rw [hresults, hresult]
        exact hrequested
      · rw [hresult, hoffset]
        exact hreads.1.same (hsame result)
      · rw [hsources, hresult, hoffset]
        exact hfits.bound
    · have hold' := hinv.tokens token found hold
      exact ⟨(hissued token).2 (.inr hold'.issued), hconsumed ▸ hold'.unspent,
        (hidle _ (hothers token found hold)).trans hold'.idle, hretained ▸ hold'.retained,
        hresults ▸ hold'.requested, hold'.stands.same (hsame _), by rw [hsources]; exact hold'.bound⟩
  · rcases hcursors token found hfound with ⟨hnext, hmine, -⟩ | ⟨-, hold⟩
    · rcases hcursors token' found' hfound' with ⟨hnext', -, -⟩ | ⟨-, hold'⟩
      · exact Option.some.inj (hnext.symm.trans hnext')
      · exact absurd (hresult.symm.trans hmine) (hothers token' found' hold')
    · rcases hcursors token' found' hfound' with ⟨-, hmine', -⟩ | ⟨-, hold'⟩
      · exact absurd (hresult.trans hmine') (hothers token found hold)
      · exact hinv.single token found token' found' hold hold' hresult
  · rw [hresults] at hvalue
    have hold := hinv.results other value hvalue
    refine ⟨hretained ▸ hold.retained, hold.counted.same (by rw [hsources]) (hsame other), fun hnot ↦
      ⟨fun page hpage ↦ ?_, (hold.fresh hnot).2.same (hsame other)⟩⟩
    rcases (hmem page).1 hpage with rfl | hpage
    · rintro rfl
      rw [hrequested value hvalue] at hnot
      cases hnot
    · exact (hold.fresh hnot).1 page hpage
  · have hne : other ≠ result := by
      rintro rfl
      rw [hpager, Function.update_self] at hholder
      cases hholder
    rw [hidle other hne] at hholder
    rw [hretained, hresults]
    exact hinv.pagers other holder hholder
  · rw [hsources]
    rw [hview] at hfound
    by_cases hmine : other = result
    · subst hmine
      exact hreads.2 view hfound
    · exact hinv.views other view hfound (hidle other hmine ▸ hfree)
  · rw [hretained] at hnew
    obtain ⟨hnone, hstands⟩ := hinv.unread other hnew
    refine ⟨fun page hpage ↦ ?_, fun found hfound ↦ (hstands found hfound).same (hsame found)⟩
    rcases (hmem page).1 hpage with rfl | hpage
    · rintro rfl
      rw [show before.retained result.execution = false from hnew] at hwas
      cases hwas
    · exact hnone page hpage
  · rcases (hmem page).1 hpage with rfl | hpage
    · exact hfit _ hfits
    · exact hfit _ (hinv.pages page hpage)
  · rcases (hmem page).1 hpage with rfl | hpage
    · have hnext : next = some token := htoken
      refine ⟨(hissued token).2 (.inl hnext), fun found hfound ↦ ?_⟩
      rcases hcursors token found hfound with ⟨-, hresult, hoffset⟩ | ⟨hnot, -⟩
      · exact ⟨hresult, hoffset⟩
      · exact absurd hnext hnot
    · obtain ⟨hold, hnexts⟩ := hinv.nexts page hpage token htoken
      refine ⟨(hissued token).2 (.inr hold), fun found hfound ↦ ?_⟩
      rcases hcursors token found hfound with ⟨hnext, -, -⟩ | ⟨-, hfound⟩
      · exact absurd hold (hfresh token hnext)
      · exact hnexts found hfound
  · rcases (hmem page).1 hpage with rfl | hpage
    · have hnext : next = some token := htoken
      rcases (hmem other).1 hother with rfl | hother
      · exact absurd (hheld.token token hasked).2.1 (hfresh token hnext)
      · exact absurd hnext (hunissued token other hother hasked)
    · rcases (hmem other).1 hother with rfl | hother
      · exact (hheld.token token hasked).2.2 page hpage htoken
      · exact hinv.links page hpage other hother token htoken hasked
  · rw [hpages, List.map_cons]
    refine List.nodup_cons.2 ⟨fun hanswered ↦ ?_, hinv.answered⟩
    obtain ⟨page, hpage, hsame'⟩ := List.mem_map.1 hanswered
    obtain ⟨hresult, hasked⟩ := Prod.mk.inj hsame'
    exact hheld.unanswered page hpage hresult hasked
  · rw [hconsumed]
    rcases (hmem page).1 hpage with rfl | hpage
    · exact (hheld.token token hasked).1
    · exact hinv.spent page hpage token hasked
  · rw [hconsumed] at htoken
    exact (hissued token).2 (.inr (hinv.known token htoken))
  · have hne : target ≠ result := by
      rintro rfl
      exact hother (Option.some.inj (hmine.symm.trans hheld.pager))
    refine ⟨(hidle target hne).trans hmine, hsame target, fun page hpage hresult ↦ ?_⟩
    rcases (hmem page).1 hpage with rfl | hpage
    · exact absurd hresult.symm hne
    · exact hpage
  · rcases (hmem page).1 hpage with rfl | hpage
    · exact .inr fun token htoken ↦ hfresh token htoken
    · exact .inl hpage

/-- The section of `page` that answers it. -/
theorem responds_paging {hasMore : Bool} {reply : Option ℕ}
    (hinv : PagingInv before) (hheld : PageHeld thread result cursor offset count before)
    (hfits : AnswerFits before result offset rows hasMore)
    (h : Responds result cursor offset rows hasMore before reply after) :
    KeepsPaging thread before after := by
  cases h with
  | last hlast =>
    refine answer_paging hinv hheld rfl rfl rfl rfl rfl rfl rfl rfl (fun token ↦ by simp)
      (fun token found hfound ↦ .inr ⟨by simp, hfound⟩) (fun token hnever ↦ by cases hnever)
      hfits.reads ⟨hfits.shown, hfits.bound, hheld.start, fun _ hkept ↦ ?_, fun hnot ↦ absurd rfl hnot⟩
    obtain ⟨value, hvalue, hopen⟩ := hkept.1
    have hmore := hlast value hvalue
    rw [hopen, Bool.not_false, Bool.and_true] at hmore
    exact hfits.last hmore hkept
  | next token expiresAt hmore hresult hfresh =>
    refine answer_paging hinv hheld rfl rfl rfl rfl rfl rfl rfl rfl
      (fun other ↦ by simp [eq_comm]) (fun other found hfound ↦ ?_) (fun other hsame ↦ ?_) hfits.reads
      ⟨hfits.shown, hfits.bound, hheld.start, (fun hnever ↦ by cases hnever),
        fun _ ↦ hfits.more hmore⟩
    · simp only [Dictionary.get?_insert] at hfound
      split at hfound
      · next hsame =>
        obtain rfl := Option.some.inj hfound
        exact .inl ⟨by rw [hsame], rfl, rfl⟩
      · next hne => exact .inr ⟨fun hsame ↦ hne (Option.some.inj hsame).symm, hfound⟩
    · obtain rfl := Option.some.inj hsame
      exact hfresh

end Pages

end Schemii.ReadSessions
