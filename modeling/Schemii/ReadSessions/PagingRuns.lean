import Schemii.ReadSessions.PagingSafety

/-!
# Paging is complete and exactly once

Every program of the service, in any interleaving, keeps the invariant of the pages, and no page fails
for being out of sequence.

* `Followed`: the pages that a client gets who asks for the first page and then with the token of each
  page for the next one.
* `followed_rows`: their rows, in order, are the first rows of the result.
* `paging_complete_and_once`: they are all its rows at the end, and no token is taken twice.
-/

set_option autoImplicit false

namespace Schemii.ReadSessions

open Schemii.Foundations

variable {E : Encoding}

/-! ### Programs -/

/-- A program does not end with a page out of sequence. -/
def InSequence {α : Type} (outcome : Except Problem α) : Prop := outcome ≠ .error (.page .sequence)

section Programs

variable {settings : Settings} {records : ℕ → ExecutionRecord} {thread execution : ℕ}
  {world : Registry E}

/-- Safety of a program, which does not end with a page out of sequence. -/
abbrev Sequences (settings : Settings) (records : ℕ → ExecutionRecord) (thread : ℕ)
    (program : ReadProgram E Unit) (world : Registry E) : Prop :=
  Safe (paging (registrySemantics settings records)) thread program world
    fun outcome _ ↦ InSequence outcome

theorem sequences_steady {request : ReadCall E} {next : request.Reply E → ReadProgram E Unit}
    {fact : Registry E → Prop} (hsteady : SteadyCall request)
    (hstable : ∀ before after, PageRely thread before after → fact before → fact after)
    (hfact : fact world)
    (hnext : ∀ reply after, fact after → Sequences settings records thread (next reply) after) :
    Sequences settings records thread (Program.bind (ask request) next) world := by
  intro before hrely hinv reply after hperform
  have hsame := call_steady hsteady hperform
  exact ⟨hsame.keeps hinv thread,
    hnext reply after (hstable _ _ (hsame.rely thread) (hstable _ _ hrely hfact))⟩

theorem sequences_then {request : ReadCall E} {next : request.Reply E → ReadProgram E Unit}
    (hsteady : SteadyCall request)
    (hnext : ∀ reply after, Sequences settings records thread (next reply) after) :
    Sequences settings records thread (Program.bind (ask request) next) world := by
  have hstable : ∀ before after : Registry E, PageRely thread before after → True → True :=
    fun _ _ _ h ↦ h
  exact sequences_steady hsteady hstable trivial fun reply after _ ↦ hnext reply after

theorem steady_returns {α : Type} {program : ReadProgram E α} (h : program.Returns SteadyCall) :
    Safe (paging (registrySemantics settings records)) thread program world fun outcome _ ↦
      ∃ value, outcome = .ok value := by
  have hcall : ∀ request (before : Registry E) reply after, SteadyCall request → PagingInv before →
      True → (registrySemantics settings records).perform thread request before reply after →
        (paging (registrySemantics settings records)).Guarantees thread before after ∧ True :=
    fun request before reply after hsteady hinv _ hperform ↦
      ⟨(call_steady hsteady hperform).keeps hinv thread, trivial⟩
  exact (Safe.of_returns (fun _ _ _ _ ↦ trivial) hcall h trivial).mono fun _ _ hended ↦ hended.1

theorem sequences_returns {program : ReadProgram E Unit} (h : program.Returns SteadyCall) :
    Sequences settings records thread program world := by
  refine (steady_returns h).mono ?_
  rintro outcome after ⟨value, rfl⟩
  exact nofun

theorem sequences_attempt (asked : ReadProgram E (Except Problem Unit))
    (h : asked.Returns SteadyCall) {next : Unit → ReadProgram E Unit}
    (hnext : ∀ world, Sequences settings records thread (next ()) world) :
    Sequences settings records thread (Program.bind (attempt asked) next) world := by
  refine Safe.bind (Safe.bind ((steady_returns h).mono ?_))
  rintro outcome after ⟨answered, rfl⟩
  cases answered with
  | error problem => exact nofun
  | ok _ => exact hnext after

/-- A thread has claimed an execution that is not retained. -/
def Unretained (thread execution : ℕ) (registry : Registry E) : Prop :=
  registry.claimedBy execution = some thread ∧ registry.retained execution = false

theorem Unretained.stable {before after : Registry E} (hrely : PageRely thread before after)
    (h : Unretained thread execution before) : Unretained thread execution after := by
  obtain ⟨hclaimed, hnew, -⟩ := hrely.claimed execution h.1 h.2
  exact ⟨hclaimed, hnew⟩

/-- How a run ends once its connection was to be retained. -/
def afterRetain (E : Encoding) (execution : ℕ) (retained : Except Problem Unit) :
    ReadProgram E Unit :=
  match retained with
  | .error _ => abandonRun E execution
  | .ok () => .done ()

/-- The part of `run` after its session was opened. -/
theorem sequences_finishRun (h : Unretained thread execution world) :
    Sequences settings records thread (finishRun E execution) world := by
  intro before hrely hinv succeeded after hperform
  obtain ⟨rfl, hsucceeds⟩ := hperform
  obtain ⟨hclaimed, hnew⟩ := Unretained.stable hrely h
  refine ⟨(Steady.refl after).keeps hinv thread, ?_⟩
  have habandon : ∀ {world : Registry E},
      Sequences settings records thread (abandonRun E execution) world :=
    sequences_returns ⟨trivial, fun _ ↦ ⟨trivial, fun _ ↦ ⟨trivial, fun _ ↦ trivial⟩⟩⟩
  have hretain : ∀ summaries : Summaries, Stored thread execution summaries after →
      Sequences settings records thread (Program.bind (ask (.retain execution summaries))
        (afterRetain E execution)) after := by
    intro summaries hstored retaining hrely' hinv' retained last hretains
    refine ⟨retains_paging hinv' (hstored.stable hrely') hretains, ?_⟩
    cases retained with
    | error problem => exact habandon
    | ok _ => rintro ⟨⟩
  cases hsucceeds with
  | failed problem => exact habandon
  | cancelled hcancelled => exact hretain [] ⟨hclaimed, hnew, fun entry hmem ↦ by cases hmem⟩
  | @stored connection hcancelled hconnection =>
    refine hretain connection.summaries ⟨hclaimed, hnew, fun entry hmem ↦ ?_⟩
    obtain ⟨⟨statement, reader⟩, hreader, rfl⟩ := List.mem_map.1 hmem
    have hget : connection.readers.get? statement = some reader := Dictionary.mem_entries.1 hreader
    have hview : after.view ⟨execution, statement⟩ = some (reader.rows, reader.page) := by
      simp only [Registry.view, hconnection, Option.bind_some, hget]
      rfl
    have hidle : after.pager ⟨execution, statement⟩ = none := by
      cases hpager : after.pager ⟨execution, statement⟩ with
      | none => rfl
      | some holder =>
        have hwas := (hinv.pagers _ holder hpager).1
        rw [hnew] at hwas
        cases hwas
    obtain ⟨hrows, -⟩ := hinv.views _ _ hview hidle
    refine ⟨fun number hnumber ↦ ?_, fun view hfound ↦ ?_⟩
    · unfold ReadCursor.rowCount at hnumber
      split at hnumber
      · next hnone =>
        rw [hrows hnone, List.length_map]
        exact (Option.some.inj hnumber).symm
      · cases hnumber
    · obtain rfl := Option.some.inj (hview.symm.trans hfound)
      unfold ReadCursor.rowCount
      split
      · next hnone => exact ⟨fun _ ↦ Option.some_ne_none _, fun _ ↦ hnone⟩
      · next selected hselected =>
        exact ⟨fun hnone ↦ absurd (hselected.symm.trans hnone) (Option.some_ne_none _),
          fun hnot ↦ absurd rfl hnot⟩

/-- `run`. -/
theorem sequences_run : Sequences settings records thread (run E execution) world := by
  have hfailure : ∀ {world : Registry E},
      Sequences settings records thread (recordRunFailure E execution) world :=
    sequences_returns ⟨trivial, fun _ ↦ ⟨trivial, fun _ ↦ trivial⟩⟩
  intro before hrely hinv claimed after hperform
  have hsteady : Steady before after := @call_steady E settings records thread (.claim execution)
    claimed before after trivial hperform
  refine ⟨hsteady.keeps hinv thread, ?_⟩
  rcases claimed with problem | mine
  · exact hfailure
  cases mine with
  | false => exact nofun
  | true =>
    obtain ⟨-, hnot⟩ | ⟨-, hfree, rfl⟩ := hperform
    · exact absurd rfl hnot
    have hmine : Unretained thread execution { before with
        claimedBy := Function.update before.claimedBy execution (some thread) } :=
      ⟨Function.update_self _ _ _, hinv.unclaimed execution hfree⟩
    refine sequences_steady trivial (fun _ _ ↦ Unretained.stable) hmine fun resolved _ hmine ↦ ?_
    rcases resolved with problem | same
    · exact hfailure
    cases same with
    | false =>
      refine sequences_then trivial fun stored _ ↦ ?_
      cases stored with
      | error problem => exact hfailure
      | ok _ => exact nofun
    | true =>
      refine sequences_steady trivial (fun _ _ ↦ Unretained.stable) hmine fun admitted _ hmine ↦ ?_
      rcases admitted with problem | _
      · exact hfailure
      · intro opening hrely' hinv' opened last hopens
        obtain ⟨hclaimed, hnew⟩ := Unretained.stable hrely' hmine
        refine ⟨opens_paging hinv' hclaimed hnew hopens, ?_⟩
        cases hopens with
        | failed problem => exact hfailure
        | opened readers hstatements hprepared => exact sequences_finishRun ⟨hclaimed, hnew⟩

/-- The end of a page or an export whose fetch raised. Assumes: it was not a page out of sequence. -/
theorem sequences_abandonFetch {result : ResultId} {raised : FetchProblem → Problem}
    {problem : FetchProblem} (h : raised problem ≠ .page .sequence) :
    Sequences settings records thread (abandonFetch E result raised problem) world := by
  have hrelease : ∀ {world : Registry E}, Sequences settings records thread
      (Program.bind (ask (.releaseLease result)) fun _ ↦ .raise (raised problem)) world :=
    sequences_then trivial fun _ _ hsame ↦ h (Except.error.inj hsame)
  unfold abandonFetch
  split
  · exact sequences_then trivial fun _ _ ↦ hrelease
  · exact hrelease

theorem sequences_fetchLeased {request : Registry.PageRequest} {claim : Registry.PageClaim}
    (hheld : PageHeld thread request.result request.cursor claim.offset claim.rowCount world)
    (hreads : ReadsFrom world request.result claim.offset) (hsize : 1 ≤ claim.batchSize) :
    Sequences settings records thread (fetchLeased E request claim) world := by
  intro before hrely hinv fetched after hperform
  obtain ⟨hkeeps, hheld', hsequence, hanswered⟩ := fetchPage_paging hinv (hheld.stable hrely)
    (ReadsFrom.stable hrely hheld hreads) hsize hperform
  refine ⟨hkeeps, ?_⟩
  rcases fetched with problem | rows
  · exact sequences_abandonFetch fun hsame ↦ hsequence (by rw [Problem.page.inj hsame])
  · have hshown := hanswered rows rfl
    intro buffering hrely' hinv' buffered next hbuffered
    obtain ⟨rfl, rfl⟩ := hbuffered
    have hfits := answerFits_of_shown (hheld'.stable hrely') hsize
      (PageShown.stable hrely' hheld' hshown)
    refine ⟨(Steady.refl next).keeps hinv' thread, ?_⟩
    intro answering hrely'' hinv'' reply last hresponds
    refine ⟨responds_paging hinv'' ((hheld'.stable hrely').stable hrely'')
      (hfits.stable hrely'' (hheld'.stable hrely')) hresponds, ?_⟩
    exact sequences_then trivial fun _ _ ↦ nofun

/-- `page`. -/
theorem sequences_page (request : Registry.PageRequest) :
    Sequences settings records thread (page E request) world := by
  refine sequences_attempt (ask (.getReceipt request.execution)) ⟨trivial, fun _ ↦ trivial⟩
    fun world before hrely hinv claimed after hperform ↦ ?_
  obtain ⟨now, hclaim⟩ := hperform
  obtain ⟨hkeeps, hclaimed⟩ := claimPage_paging hinv hclaim
  refine ⟨hkeeps, ?_⟩
  cases claimed with
  | error refusal => exact nofun
  | ok claim =>
    obtain ⟨hheld, hreads, hsize⟩ := hclaimed claim rfl
    exact sequences_fetchLeased hheld hreads hsize

theorem exportChunks_returns (result : ResultId) (pageSize : ℕ) (rowCount : Option ℕ) (asked : ℕ)
    (offset : ℕ) : (exportChunks E result pageSize rowCount asked offset).Returns SteadyCall := by
  induction asked generalizing offset with
  | zero => trivial
  | succ asked ih =>
    unfold exportChunks
    split
    · trivial
    · refine ⟨trivial, fun fetched ↦ ?_⟩
      rcases fetched with problem | rows
      · trivial
      · cases rows with
        | nil => trivial
        | cons row rest => exact ih _

/-- `export_csv` with its consumer. -/
theorem sequences_exportCsv (owner : String) (workspace : Option String) (result : ResultId)
    (asked : ℕ) :
    Sequences settings records thread (exportCsv E owner workspace execution result asked) world := by
  refine sequences_attempt (ask (.getReceipt execution)) ⟨trivial, fun _ ↦ trivial⟩ fun world ↦ ?_
  refine sequences_then trivial fun started after ↦ ?_
  rcases started with refusal | ⟨pageSize, rowCount⟩
  · exact nofun
  cases asked with
  | zero => exact nofun
  | succ asked =>
    refine Safe.bind ((steady_returns (exportChunks_returns result pageSize rowCount asked 0)).mono ?_)
    rintro outcome after ⟨ended, rfl⟩
    cases ended with
    | error problem => exact sequences_abandonFetch nofun
    | ok _ => exact sequences_then trivial fun _ _ ↦ nofun

theorem closeEach_returns (sessions : List ℕ) : (closeEach E sessions).Returns SteadyCall := by
  induction sessions with
  | nil => trivial
  | cons execution rest ih => exact ⟨trivial, fun _ ↦ ih⟩

theorem sequences_starts {program : ReadProgram E Unit} (h : Starts E program) :
    Sequences settings records thread program world := by
  cases h with
  | run execution => exact sequences_run
  | page request => exact sequences_page request
  | exportCsv owner workspace execution result asked =>
    exact sequences_exportCsv owner workspace result asked
  | closeResult result =>
    exact sequences_attempt (ask (.storeClosed result)) ⟨trivial, fun _ ↦ trivial⟩ fun _ ↦
      sequences_returns ⟨trivial, fun _ ↦ trivial⟩
  | cancel execution =>
    refine sequences_attempt (ask (.requestCancel execution)) ⟨trivial, fun _ ↦ trivial⟩ fun _ ↦
      sequences_returns ⟨trivial, fun retained ↦ ?_⟩
    cases retained with
    | false => trivial
    | true => exact ⟨trivial, fun _ ↦ trivial⟩
  | close =>
    refine sequences_returns ⟨trivial, fun sessions ↦ ?_⟩
    exact closeEach_returns sessions
  | reclaim identity globalCapacity =>
    exact sequences_returns ⟨trivial, fun _ ↦ trivial⟩
  | protect execution => exact sequences_returns ⟨trivial, fun _ ↦ trivial⟩

end Programs

/-! ### Every run -/

theorem pagingInv_initial : PagingInv (Registry.initial : Registry E) where
  tokens := fun _ _ hcursor ↦ by cases hcursor
  single := fun _ _ _ _ hcursor ↦ by cases hcursor
  results := fun _ _ hvalue ↦ by cases hvalue
  pagers := fun _ _ hpager ↦ by cases hpager
  views := fun _ _ hview ↦ by cases hview
  unread := fun _ _ ↦ ⟨fun _ hmem ↦ (by cases hmem), fun _ _ _ hview ↦ by cases hview⟩
  pages := fun _ hmem ↦ by cases hmem
  nexts := fun _ hmem ↦ by cases hmem
  links := fun _ hmem ↦ by cases hmem
  answered := List.nodup_nil
  consumed := List.nodup_nil
  spent := fun _ hmem ↦ by cases hmem
  known := fun _ hmem ↦ by cases hmem
  unclaimed := fun _ _ ↦ rfl

/-- The pages that follow each other from the first page of a result on: each one was asked with the
token of the one before. With the token of the last one. -/
inductive Followed (registry : Registry E) (result : ResultId) : List (Page E) → Option ℕ → Prop
  | first (page : Page E) (hmem : page ∈ registry.pages) (hresult : page.result = result)
      (hcursor : page.cursor = none) : Followed registry result [page] page.next
  | next {pages : List (Page E)} {token : ℕ} (h : Followed registry result pages (some token))
      (page : Page E) (hmem : page ∈ registry.pages) (hcursor : page.cursor = some token) :
      Followed registry result (pages ++ [page]) page.next

/-- The rows of some pages, in order. -/
def shownRows (pages : List (Page E)) : List E.Row := pages.flatMap Page.rows

/-- Pages that follow each other show the first rows of their result. The last one ends where they do,
and it is the last page of the result only at the end. -/
theorem followed_rows {registry : Registry E} {result : ResultId} {pages : List (Page E)}
    {next : Option ℕ} (hinv : PagingInv registry) (h : Followed registry result pages next) :
    (shownRows pages).map some = (registry.sources result).take (shownRows pages).length ∧
      (shownRows pages).length ≤ (registry.sources result).length ∧
      (next = none → Kept registry result →
        (shownRows pages).length = (registry.sources result).length) ∧
      ∃ last ∈ registry.pages, last.result = result ∧ last.next = next ∧
        last.offset + last.rows.length = (shownRows pages).length := by
  induction h with
  | first page hmem hresult hcursor =>
    have hfits := hinv.pages page hmem
    subst hresult
    have hshown := hfits.shown
    have hbound := hfits.bound
    rw [hfits.start hcursor] at hshown hbound
    have hrows : shownRows [page] = page.rows := by simp [shownRows]
    rw [hrows]
    refine ⟨by simpa using hshown, by simpa using hbound, fun hlast hkept ↦ ?_, page, hmem, rfl, rfl,
      by rw [hfits.start hcursor, Nat.zero_add]⟩
    have htotal := hfits.last hlast hkept
    rwa [hfits.start hcursor, Nat.zero_add] at htotal
  | @next pages token hfollowed page hmem hcursor ih =>
    obtain ⟨hbegins, hle, -, last, hlast, hresult, hnext, hend⟩ := ih
    obtain ⟨hsame, hoffset⟩ := hinv.links last hlast page hmem token hnext hcursor
    have hfits := hinv.pages page hmem
    have hpage : page.result = result := hsame.trans hresult
    have hat : page.offset = (shownRows pages).length := hoffset.trans hend
    have hshown := hfits.shown
    have hbound := hfits.bound
    have hcomplete := hfits.last
    rw [hpage, hat] at hshown hbound hcomplete
    have hrows : shownRows (pages ++ [page]) = shownRows pages ++ page.rows := by simp [shownRows]
    rw [hrows, List.map_append, List.length_append, hbegins, hshown]
    refine ⟨List.take_add.symm, hbound, hcomplete, page, hmem, hpage, rfl, by rw [hat]⟩

/-- Paging in one state of the service. -/
structure PagesSound (pool : Pool (readInterface E) Problem (Registry E)) : Prop where
  /-- The rows of the pages that follow each other are the first rows of their result, in order. -/
  ordered : ∀ result pages next, Followed pool.world result pages next →
    (shownRows pages).map some = (pool.world.sources result).take (shownRows pages).length
  /-- When a page has no next one and the result stays retained, they are all its rows. -/
  complete : ∀ result pages, Followed pool.world result pages none → Kept pool.world result →
    (shownRows pages).map some = pool.world.sources result
  /-- A page with a next one shows some row. -/
  progress : ∀ page ∈ pool.world.pages, page.next ≠ none → page.rows ≠ []
  /-- No token is taken twice, and no page is answered twice. -/
  once : pool.world.consumed.Nodup ∧
    (pool.world.pages.map fun page ↦ (page.result, page.cursor)).Nodup
  /-- No page fails for being out of sequence. -/
  inSequence : ∀ thread, pool.threads thread ≠ some (.raise (.page .sequence))

/-- Paging is complete and exactly once. Assumes: a state that some interleaving of the programs of the
service reaches, with any batch sizes and any byte budget. -/
theorem paging_complete_and_once (settings : Settings) (records : ℕ → ExecutionRecord)
    (pool : Pool (readInterface E) Problem (Registry E))
    (hreach : Pool.Reachable (registrySemantics settings records) (Starts E) (· = Registry.initial)
      pool) : PagesSound pool := by
  have hguarded : (paging (registrySemantics settings records)).Guarded (fun _ _ ↦ True)
      (fun _ outcome _ ↦ InSequence outcome) pool := by
    refine RelyGuarantee.reachable_guarded ?_ (fun _ _ _ ↦ trivial) (fun _ _ _ _ _ ↦ trivial)
      (fun program hstarts thread world _ _ ↦ sequences_starts hstarts)
      (fun _ _ _ henvironment ↦ henvironment.elim) hreach
    rintro world rfl
    exact pagingInv_initial
  obtain ⟨hinv, -, hthreads⟩ := hguarded
  refine ⟨fun result pages next hfollowed ↦ (followed_rows hinv hfollowed).1,
    fun result pages hfollowed hkept ↦ ?_, fun page hmem ↦ (hinv.pages page hmem).more,
    ⟨hinv.consumed, hinv.answered⟩, fun thread hthread ↦ ?_⟩
  · obtain ⟨hrows, -, hlast, -⟩ := followed_rows hinv hfollowed
    rw [hrows, hlast rfl hkept, List.take_length]
  · obtain ⟨-, seen, -, hsafe⟩ := hthreads thread _ hthread
    exact hsafe rfl

/-- Room for four sessions, and for one byte on a page. -/
def oneByte : Settings := ⟨100, 1, 4, 4, 900⟩

/-- A run that selects two rows, and two pages of two rows each that the byte budget cuts after one. -/
def cutPages : Pool (readInterface numberRows) Problem (Registry numberRows) :=
  samplePool oneByte [7, 8] [run _ 1, page _ ⟨"owner", 1, ⟨1, 0⟩, none, none⟩,
    page _ ⟨"owner", 1, ⟨1, 0⟩, some 1, none⟩] [0, 0, 0, 0, 0, 0, 1, 1, 1, 1, 1, 1, 2, 2, 2, 2, 2, 2]

/-- The row that the first page kept is on the second one. -/
theorem cut_pages_sound : PagesSound cutPages ∧ cutPages.world.consumed = [1] ∧
    (cutPages.world.pages.reverse.map fun page ↦ (page.rows : List ℕ)) = [[7], [8]] := by
  refine ⟨paging_complete_and_once oneByte (fun _ ↦ sampleRecord) cutPages (samplePool_reachable
    (fun program hmem ↦ ?_) (Pool.follows_true _ _ _)).of_restrict, by decide,
    by decide⟩
  simp only [List.mem_cons, List.not_mem_nil, or_false] at hmem
  rcases hmem with rfl | rfl | rfl
  · exact .run 1
  · exact .page _
  · exact .page _

/-- What a run does not take back in the registry. -/
structure OnlyForward (before after : Registry E) : Prop where
  /-- A retained result that is gone does not come back. -/
  gone : ∀ result, before.retained result.execution = true → ¬ Kept before result →
    ¬ Kept after result
  /-- The rows of a retained result do not change. -/
  sources : ∀ result, before.retained result.execution = true →
    after.sources result = before.sources result
  consumed : before.consumed ⊆ after.consumed
  /-- A later page has a token that was not issued before. -/
  fresh : ∀ page ∈ after.pages, page ∈ before.pages ∨
    ∀ token, page.next = some token → token ∉ before.issued

end Schemii.ReadSessions
