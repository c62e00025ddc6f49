import Schemii.ReadSessions.Service

/-!
# Refused page requests

What a refused request for a page leaves of the registry, apart from what has expired: the live results
and cursors, where the read cursors stand, and what any later request is answered. It leaves all of
them, unless it names a live cursor of another result: `page` takes the token out of the cursors before
it looks at the result of the token.
-/

set_option autoImplicit false

namespace Schemii.ReadSessions

open Schemii.Foundations

namespace Registry

variable {E : Encoding} {settings : Settings} {request : PageRequest} {before after : Registry E}
  {now later thread : ℕ}

/-- The result at an id that no purge drops at some time. -/
def liveResult (registry : Registry E) (now : ℕ) (result : ResultId) : Option TransientResult :=
  (registry.transientResults.get? result).filter fun value ↦ !expired now value

/-- The cursor of a token that no purge drops at some time. -/
def liveCursor (registry : Registry E) (now token : ℕ) : Option PageCursor :=
  (registry.resultCursors.get? token).filter fun cursor ↦
    !((registry.transientResults.get? cursor.result).any (expired now)) &&
      decide (now < cursor.expiresAt)

/-- The read cursor of a result, with its position. -/
def readerOf (registry : Registry E) (result : ResultId) : Option (ReadCursor E) :=
  (registry.connections.get? result.execution).bind fun connection ↦
    connection.readers.get? result.statement

/-- From some time on, one registry is as good as another. -/
structure Keeps (settings : Settings) (now : ℕ) (before after : Registry E) : Prop where
  results : ∀ later, now ≤ later → ∀ result,
    after.liveResult later result = before.liveResult later result
  cursors : ∀ later, now ≤ later → ∀ token,
    after.liveCursor later token = before.liveCursor later token
  positions : ∀ result, (before.liveResult now result).isSome = true →
    after.readerOf result = before.readerOf result
  answers : ∀ later, now ≤ later → ∀ thread request,
    (after.claimPage settings thread request later).1 =
      (before.claimPage settings thread request later).1

/-- A request that passes the checks of its result and its page size, and names a live cursor of
another result. -/
def NamesForeign (settings : Settings) (request : PageRequest) (now : ℕ) (registry : Registry E) :
    Prop :=
  ∃ value token cursor, registry.liveResult now request.result = some value ∧
    ¬(value.pendingClose ∨ value.owner ≠ request.owner ∨
      request.result.execution ≠ request.execution) ∧
    ¬(request.pageSize.getD value.pageSize < 1 ∨
      min value.pageSize settings.rowPageSize < request.pageSize.getD value.pageSize) ∧
    request.cursor = some token ∧ registry.liveCursor now token = some cursor ∧
    cursor.result ≠ request.result

/-! ### Purges -/

theorem get?_purge_results (registry : Registry E) (now : ℕ) (result : ResultId) :
    (registry.purgeTransientResults now).transientResults.get? result =
      registry.liveResult now result :=
  Dictionary.get?_filter _ _ _

theorem get?_purge_cursors (registry : Registry E) (now token : ℕ) :
    (registry.purgeTransientResults now).resultCursors.get? token = registry.liveCursor now token :=
  Dictionary.get?_filter _ _ _

theorem expired_mono {value : TransientResult} (hlater : now ≤ later)
    (h : expired now value = true) : expired later value = true := by
  simp only [expired, Bool.and_eq_true, Bool.or_eq_true, decide_eq_true_eq] at h ⊢
  exact ⟨h.1.imp_left fun hle ↦ hle.trans hlater, h.2⟩

theorem liveResult_purge (registry : Registry E) (hlater : now ≤ later) (result : ResultId) :
    (registry.purgeTransientResults now).liveResult later result =
      registry.liveResult later result := by
  rw [liveResult, get?_purge_results, liveResult, liveResult, Option.filter_filter]
  congr 1
  ext value
  cases hnow : expired now value with
  | false => simp
  | true => simp [expired_mono hlater hnow]

theorem liveCursor_purge (registry : Registry E) (hlater : now ≤ later) (token : ℕ) :
    (registry.purgeTransientResults now).liveCursor later token =
      registry.liveCursor later token := by
  rw [liveCursor, get?_purge_cursors, liveCursor, liveCursor, Option.filter_filter]
  congr 1
  ext cursor
  rw [get?_purge_results, liveResult]
  have hclock : later < cursor.expiresAt → now < cursor.expiresAt := hlater.trans_lt
  cases registry.transientResults.get? cursor.result with
  | none => simpa using hclock
  | some value =>
    cases hnow : expired now value with
    | false => simpa [hnow] using fun _ ↦ hclock
    | true => simp [hnow, expired_mono hlater hnow]

theorem readerOf_purge {registry : Registry E} {result : ResultId}
    (h : (registry.liveResult now result).isSome = true) :
    (registry.purgeTransientResults now).readerOf result = registry.readerOf result := by
  obtain ⟨value, hvalue⟩ := Option.isSome_iff_exists.1 h
  have hreferenced : (registry.dropExpired now).referenced result.execution = true :=
    List.any_eq_true.2 ⟨result, Dictionary.mem_keys.2 ⟨value,
      (get?_purge_results registry now result).trans hvalue⟩, decide_eq_true rfl⟩
  have hconnection : (registry.purgeTransientResults now).connections.get? result.execution =
      registry.connections.get? result.execution := by
    simp only [purgeTransientResults, closeUnreferencedReadSessions, closeConnections,
      Dictionary.get?_mapValues, hreferenced]
    simp [dropExpired]
  rw [readerOf, readerOf, hconnection]

/-! ### Answers -/

theorem claimPage_eq
    (hresults : ∀ result, after.liveResult now result = before.liveResult now result)
    (hcursors : ∀ token, after.liveCursor now token = before.liveCursor now token) :
    (after.claimPage settings thread request now).1 =
      (before.claimPage settings thread request now).1 := by
  simp only [claimPage, get?_purge_results, get?_purge_cursors, hresults, hcursors]
  cases before.liveResult now request.result with
  | none => rfl
  | some value =>
    cases request.cursor with
    | none => dsimp only; split_ifs <;> rfl
    | some token =>
      dsimp only
      cases before.liveCursor now token with
      | none => dsimp only; split_ifs <;> rfl
      | some cursor => dsimp only; split_ifs <;> rfl

theorem keeps_purge (settings : Settings) (registry : Registry E) (now : ℕ) :
    Keeps settings now registry (registry.purgeTransientResults now) where
  results := fun _ hlater ↦ liveResult_purge registry hlater
  cursors := fun _ hlater ↦ liveCursor_purge registry hlater
  positions := fun _ ↦ readerOf_purge
  answers := fun _ hlater _ _ ↦
    claimPage_eq (liveResult_purge registry hlater) (liveCursor_purge registry hlater)

theorem Keeps.popCursor {token : ℕ} (h : Keeps settings now before after)
    (hnone : after.resultCursors.get? token = none) :
    Keeps settings now before (after.popCursor token) := by
  have hcursors : ∀ later other,
      (after.popCursor token).liveCursor later other = after.liveCursor later other := by
    intro later other
    simp only [liveCursor, Registry.popCursor, Dictionary.get?_erase]
    split
    · next hother => simp [hother, hnone]
    · rfl
  refine ⟨h.results, fun later hlater other ↦ (hcursors later other).trans
    (h.cursors later hlater other), h.positions, fun later hlater thread request ↦ ?_⟩
  rw [← h.answers later hlater]
  exact claimPage_eq (fun _ ↦ rfl) (hcursors later)

/-! ### Refusals -/

/-- What a refused request leaves: a purged registry, or one without the token of the request. -/
inductive Refuses (settings : Settings) (request : PageRequest) (now : ℕ) (registry : Registry E) :
    Registry E → Prop
  | early (hown : ¬registry.NamesForeign settings request now) :
      Refuses settings request now registry (registry.purgeTransientResults now)
  | unknown {token : ℕ} (htoken : registry.liveCursor now token = none)
      (hown : ¬registry.NamesForeign settings request now) :
      Refuses settings request now registry ((registry.purgeTransientResults now).popCursor token)
  | foreign {token : ℕ} {cursor : PageCursor} (htoken : registry.liveCursor now token = some cursor)
      (hforeign : registry.NamesForeign settings request now) :
      Refuses settings request now registry ((registry.purgeTransientResults now).popCursor token)

theorem claimPage_refuses {registry : Registry E} {refusal : Refusal}
    (hrefused : (registry.claimPage settings thread request now).1 = .error refusal) :
    Refuses settings request now registry (registry.claimPage settings thread request now).2 := by
  unfold claimPage at hrefused ⊢
  simp only [get?_purge_results, get?_purge_cursors] at hrefused ⊢
  cases hvalue : registry.liveResult now request.result with
  | none =>
    refine .early ?_
    rintro ⟨_, _, _, hsome, -⟩
    simp [hvalue] at hsome
  | some value =>
    rw [hvalue] at hrefused
    dsimp only at hrefused ⊢
    split
    · next hstate =>
      refine .early ?_
      rintro ⟨_, _, _, hsome, hopen, -⟩
      rw [← Option.some.inj (hvalue.symm.trans hsome)] at hopen
      exact hopen hstate
    · next hstate =>
      split
      · next hsize =>
        refine .early ?_
        rintro ⟨_, _, _, hsome, -, hfits, -⟩
        rw [← Option.some.inj (hvalue.symm.trans hsome)] at hfits
        exact hfits hsize
      · next hsize =>
        rw [if_neg hstate, if_neg hsize] at hrefused
        cases hcursor : request.cursor with
        | none =>
          dsimp only
          split
          · refine .early ?_
            rintro ⟨_, _, _, -, -, -, hsome, -⟩
            simp [hcursor] at hsome
          · next hfirst => simp [hcursor, hfirst] at hrefused
        | some token =>
          rw [hcursor] at hrefused
          dsimp only at hrefused ⊢
          cases htoken : registry.liveCursor now token with
          | none =>
            refine .unknown htoken ?_
            rintro ⟨_, _, _, -, -, -, hsome, hfound, -⟩
            rw [← Option.some.inj (hcursor.symm.trans hsome), htoken] at hfound
            cases hfound
          | some cursor =>
            rw [htoken] at hrefused
            dsimp only at hrefused ⊢
            split
            · next hforeign =>
              have hkept := (Option.filter_eq_some_iff.1 htoken).2
              simp only [Bool.and_eq_true, decide_eq_true_eq] at hkept
              exact .foreign htoken ⟨value, token, cursor, hvalue, hstate, hsize, hcursor, htoken,
                hforeign.resolve_right hkept.2.not_ge⟩
            · next hown => simp [hown] at hrefused

/-- Assumes: a refused request. It keeps what is live if and only if it names no live cursor of another
result. -/
theorem refused_page_keeps_iff (settings : Settings) (thread : ℕ) (request : PageRequest) (now : ℕ)
    (registry : Registry E) (refusal : Refusal)
    (hrefused : (registry.claimPage settings thread request now).1 = .error refusal) :
    Keeps settings now registry (registry.claimPage settings thread request now).2 ↔
      ¬registry.NamesForeign settings request now := by
  have hpurge := keeps_purge settings registry now
  have hrefuses := claimPage_refuses hrefused
  generalize (registry.claimPage settings thread request now).2 = after at hrefuses ⊢
  cases hrefuses with
  | early hown => exact iff_of_true hpurge hown
  | unknown htoken hown =>
    exact iff_of_true (hpurge.popCursor ((get?_purge_cursors registry now _).trans htoken)) hown
  | @foreign token cursor htoken hforeign =>
    refine iff_of_false (fun hkeeps ↦ ?_) (not_not.2 hforeign)
    have hgone := hkeeps.cursors now le_rfl token
    rw [htoken, liveCursor] at hgone
    simp [Registry.popCursor] at hgone

/-- Room for four sessions. -/
def roomForFour : Settings := ⟨100, 1, 4, 4, 900⟩

/-- Two runs, and the first page of the result of the first. -/
def twoResults : Pool (readInterface numberRows) Problem (Registry numberRows) :=
  samplePool roomForFour [7, 8] [run _ 1, run _ 2, page _ ⟨"owner", 1, ⟨1, 0⟩, none, none⟩]
    [0, 0, 0, 0, 0, 0, 1, 1, 1, 1, 1, 1, 2, 2, 2, 2, 2, 2]

/-- A second request for the first page is refused, and the next page can still be read. -/
theorem repeated_first_page_keeps : Keeps roomForFour 1 twoResults.world
    (twoResults.world.claimPage roomForFour 3 ⟨"owner", 1, ⟨1, 0⟩, none, none⟩ 1).2 := by
  refine (refused_page_keeps_iff roomForFour 3 ⟨"owner", 1, ⟨1, 0⟩, none, none⟩ 1 twoResults.world
    .resultGone (by decide)).2 ?_
  rintro ⟨_, _, _, -, -, -, hsome, -⟩
  cases hsome

/-- A request for the other result with the token of the first is refused, and the token is lost. -/
theorem foreign_token_is_lost :
    ∃ pool, Pool.Reachable (registrySemantics roomForFour fun _ ↦ sampleRecord) (Starts numberRows)
        (· = Registry.initial) pool ∧
      ∃ request refusal, (pool.world.claimPage roomForFour 3 request 1).1 = .error refusal ∧
        ¬Keeps roomForFour 1 pool.world (pool.world.claimPage roomForFour 3 request 1).2 := by
  refine ⟨twoResults, (samplePool_reachable (fun program hmem ↦ ?_)
    (Pool.follows_true _ _ _)).of_restrict, ⟨"owner", 2, ⟨2, 0⟩, some 1, none⟩, .resultGone,
    by decide, fun hkeeps ↦ ?_⟩
  · simp only [List.mem_cons, List.not_mem_nil, or_false] at hmem
    rcases hmem with rfl | rfl | rfl
    · exact .run 1
    · exact .run 2
    · exact .page _
  · exact absurd (hkeeps.cursors 1 le_rfl 1) (by decide)

end Registry

end Schemii.ReadSessions
