import Schemii.Designs.Store

/-!
# The design history is one chain

The invariant of a workspace's history over whole runs of the repository, and what it gives. A
workspace that was touched is `Charted`: its dictionary of snapshots is exactly the active chain,
from the one root to the tip, in which every snapshot names its predecessor as parent, the ids are
distinct, neighbouring snapshots belong to different actions, every content is valid, and the cursor
stands at a position that the undo boundary allows, on the content of the design.

`activeChain_eq` reads the chain off a charted workspace. `charted_commitReplace` and
`charted_commitMove` are the two ways a request changes it, and `wellFormed_run` is the invariant
over every run. From it, an undo is undone by a redo and a redo by an undo
(`moveHistory_inverse`).
-/

set_option autoImplicit false

namespace Schemii.Designs

open DesignRepository

variable {C : Type}
variable {workspace : WorkspaceDesign C} {entry : MemoryHistoryEntry C}
  {repository : DesignRepository C} {nextHistoryId index : ℕ}

/-! ### Following the parents of a linked list -/

/-- Every snapshot names its predecessor in the list as its parent, and the first one none. -/
def Linked (history : List (MemoryHistoryEntry C)) : Prop :=
  ∀ (index : ℕ) (entry : MemoryHistoryEntry C), history[index]? = some entry →
    entry.parentId = if index = 0 then none else history[index - 1]?.map MemoryHistoryEntry.id

theorem find?_entry {history : List (MemoryHistoryEntry C)}
    (hnodup : (history.map MemoryHistoryEntry.id).Nodup) (hentry : entry ∈ history) :
    history.find? (fun other ↦ other.id = entry.id) = some entry := by
  induction history with
  | nil => simp at hentry
  | cons first rest ih =>
    rw [List.map_cons, List.nodup_cons] at hnodup
    rcases List.mem_cons.mp hentry with rfl | hrest
    · simp
    · have hne : first.id ≠ entry.id := fun heq ↦
        hnodup.1 (heq ▸ List.mem_map_of_mem hrest)
      rw [List.find?_cons_of_neg (by simpa using hne)]
      exact ih hnodup.2 hrest

/-- Assumes: a dictionary with distinct ids that contains a linked list. The parent links from a
position of the list lead back over its prefix. -/
theorem followParents_eq {history chain : List (MemoryHistoryEntry C)}
    (hnodup : (history.map MemoryHistoryEntry.id).Nodup) (hsubset : ∀ entry ∈ chain, entry ∈ history)
    (hlinked : Linked chain) :
    ∀ (index fuel : ℕ) (entry : MemoryHistoryEntry C), chain[index]? = some entry → index < fuel →
      followParents history fuel (some entry.id) = some (chain.take (index + 1)).reverse := by
  intro index
  induction index with
  | zero =>
    intro fuel entry hentry hfuel
    obtain ⟨fuel, rfl⟩ := Nat.exists_eq_add_of_lt hfuel
    have hparent := hlinked 0 entry hentry
    have hmem := hsubset entry (List.mem_of_getElem? hentry)
    have htake : chain.take 1 = [entry] := by
      rw [List.take_one, List.head?_eq_getElem?, hentry]
      rfl
    rw [Nat.zero_add, followParents, find?_entry hnodup hmem]
    simp [hparent, followParents, htake]
  | succ index ih =>
    intro fuel entry hentry hfuel
    obtain ⟨fuel, rfl⟩ : ∃ rest, fuel = rest + 1 := ⟨fuel - 1, by omega⟩
    have hparent := hlinked (index + 1) entry hentry
    have hmem := hsubset entry (List.mem_of_getElem? hentry)
    have hlt : index + 1 < chain.length := (List.getElem?_eq_some_iff.mp hentry).1
    have hprevious : chain[index]? = some chain[index] := List.getElem?_eq_getElem (by omega)
    rw [if_neg (by omega), Nat.add_one_sub_one, hprevious] at hparent
    rw [followParents, find?_entry hnodup hmem]
    simp only [hparent, Option.map_some, ih fuel chain[index] hprevious (by omega)]
    have htake : chain.take (index + 1 + 1) = chain.take (index + 1) ++ [entry] := by
      rw [List.take_add_one, hentry]
      rfl
    rw [htake, List.reverse_append]
    rfl

theorem findIdx?_entry {history : List (MemoryHistoryEntry C)}
    (hnodup : (history.map MemoryHistoryEntry.id).Nodup) {index : ℕ}
    (hentry : history[index]? = some entry) :
    history.findIdx? (fun other ↦ other.id = entry.id) = some index := by
  obtain ⟨hlt, hget⟩ := List.getElem?_eq_some_iff.mp hentry
  rw [List.findIdx?_eq_some_iff_getElem]
  refine ⟨hlt, by simp [hget], fun other hother ↦ ?_⟩
  simp only [decide_eq_true_eq]
  intro heq
  have hsame : (history.map MemoryHistoryEntry.id)[other]? =
      (history.map MemoryHistoryEntry.id)[index]? := by
    rw [List.getElem?_map, List.getElem?_map, hentry, List.getElem?_eq_getElem (by omega)]
    simp [heq]
  have := (List.getElem?_inj (by simp; omega) hnodup).mp hsame
  omega

/-! ### Relinking -/

theorem map_relink {β : Type} (f : MemoryHistoryEntry C → β)
    (hf : ∀ entry parent, f { entry with parentId := parent } = f entry) :
    ∀ (entries : List (MemoryHistoryEntry C)) (previous : Option ℕ),
      (relink previous entries).map f = entries.map f
  | [], _ => rfl
  | entry :: rest, previous => by
    rw [relink, List.map_cons, List.map_cons, hf, map_relink f hf rest]

theorem getElem?_relink :
    ∀ (entries : List (MemoryHistoryEntry C)) (previous : Option ℕ) (index : ℕ),
      (relink previous entries)[index]? = entries[index]?.map fun entry ↦
        { entry with parentId :=
            if index = 0 then previous else entries[index - 1]?.map MemoryHistoryEntry.id }
  | [], _, _ => by simp [relink]
  | entry :: rest, previous, 0 => by simp [relink]
  | entry :: rest, previous, index + 1 => by
    rw [relink, List.getElem?_cons_succ, List.getElem?_cons_succ, getElem?_relink rest]
    cases index with
    | zero => simp
    | succ index => simp

variable (entries : List (MemoryHistoryEntry C))

theorem linked_relink : Linked (relink none entries) := by
  intro index entry hentry
  rw [getElem?_relink] at hentry
  obtain ⟨old, -, rfl⟩ := Option.map_eq_some_iff.mp hentry
  by_cases hzero : index = 0
  · simp [hzero]
  · rw [if_neg hzero, if_neg hzero, getElem?_relink, Option.map_map]
    rfl

@[simp]
theorem length_relink (previous : Option ℕ) :
    (relink previous entries).length = entries.length := by
  have hlength := congrArg List.length
    (map_relink MemoryHistoryEntry.id (fun _ _ ↦ rfl) entries previous)
  simpa using hlength

theorem groupAt_relink (previous : Option ℕ) (index : ℕ) :
    groupAt (relink previous entries) index = groupAt entries index := by
  unfold groupAt
  rw [getElem?_relink, Option.map_map]
  rfl

theorem Compact.relink {entries : List (MemoryHistoryEntry C)} (h : Compact entries) :
    Compact (DesignRepository.relink none entries) := by
  intro index hpos hlt
  rw [length_relink] at hlt
  rw [groupAt_relink, groupAt_relink]
  exact h index hpos hlt

/-! ### What retention keeps -/

theorem compactStep_sublist
    (entry : MemoryHistoryEntry C) : (compactStep entries entry).Sublist (entries ++ [entry]) := by
  unfold compactStep
  split_ifs
  · exact (List.dropLast_sublist entries).append (List.Sublist.refl _)
  · exact List.Sublist.refl _

theorem rootAndDrop_sublist {E : Type} (entries : List E) {boundary : ℕ} (hpos : boundary ≠ 0) :
    (entries.take 1 ++ entries.drop boundary).Sublist entries := by
  have hdrop : entries.drop boundary = (entries.drop 1).drop (boundary - 1) := by
    rw [List.drop_drop]
    congr 1
    omega
  rw [hdrop]
  conv_rhs => rw [← List.take_append_drop 1 entries]
  exact (List.Sublist.refl _).append (List.drop_sublist _ _)

/-- Assumes: a nonempty compact list. Retention of the list with a new snapshot keeps a sublist of
it, at least two snapshots of it, and the new snapshot as the last one. -/
theorem retainedHistoryEntries_spec {entries : List (MemoryHistoryEntry C)} (hne : entries ≠ [])
    (h : Compact entries) (entry : MemoryHistoryEntry C) (limit : ℕ) :
    (retainedHistoryEntries (entries ++ [entry]) limit).Sublist (entries ++ [entry]) ∧
      ∃ kept, kept ≠ [] ∧ retainedHistoryEntries (entries ++ [entry]) limit = kept ++ [entry] := by
  have hlength : 0 < entries.length := List.length_pos_of_ne_nil hne
  obtain ⟨front, hfront, hstep⟩ : ∃ front, front ≠ [] ∧ compactStep entries entry =
      front ++ [entry] := by
    unfold compactStep
    split_ifs with hmerge
    · exact ⟨entries.dropLast, List.ne_nil_of_length_pos (by simp; omega), rfl⟩
    · exact ⟨entries, hne, rfl⟩
  have hfrontLength : 0 < front.length := List.length_pos_of_ne_nil hfront
  rw [retainedHistoryEntries_of_compact hne h]
  dsimp only
  split_ifs with hzero
  · exact ⟨compactStep_sublist entries entry, front, hfront, hstep⟩
  · refine ⟨(rootAndDrop_sublist _ hzero).trans (compactStep_sublist entries entry),
      front.take 1 ++ front.drop ((compactStep entries entry).length - 1 - limit), ?_, ?_⟩
    · exact List.ne_nil_of_length_pos (by simp; omega)
    · have hboundary : (compactStep entries entry).length - 1 - limit ≤ front.length := by
        simp [hstep]
      rw [hstep] at hboundary ⊢
      rw [List.take_append_of_le_length (by omega), List.drop_append_of_le_length hboundary,
        List.append_assoc]

/-! ### The invariant of a workspace -/

section Invariant

variable (rules : ContentRules C)

/-- The history of a touched workspace: one linked chain with distinct ids below the next id, with
valid contents and compact actions, whose cursor stands on the content of the design at a position
the undo boundary allows. -/
structure Charted (workspace : WorkspaceDesign C) (nextHistoryId index : ℕ)
    (entry : MemoryHistoryEntry C) : Prop where
  linked : Linked workspace.history
  nodup : (workspace.history.map MemoryHistoryEntry.id).Nodup
  fresh : ∀ other ∈ workspace.history, other.id < nextHistoryId
  valid : ∀ other ∈ workspace.history, rules.validateDesignContent other.content = none
  compact : Compact workspace.history
  cursor : workspace.history[index]? = some entry
  state : ∃ tip, workspace.history.getLast? = some tip ∧
    workspace.historyState = some (entry.id, tip.id)
  content : (currentDesign rules workspace).content = entry.content
  boundary : workspace.history.length - 1 - maxRetainedHistoryActions ≤ index

/-- A workspace nothing was saved in. -/
structure Untouched (workspace : WorkspaceDesign C) : Prop where
  design : workspace.design = none
  history : workspace.history = []
  state : workspace.historyState = none

/-- Every workspace is untouched or charted. -/
def WellFormed (repository : DesignRepository C) : Prop :=
  ∀ key, Untouched (repository.workspaces key) ∨
    ∃ index entry, Charted rules (repository.workspaces key) repository.nextHistoryId index entry

variable {rules}

/-- Assumes: a charted workspace. Its active chain is its dictionary of snapshots, with the cursor
at the charted position. -/
theorem activeChain_eq (h : Charted rules workspace nextHistoryId index entry) :
    activeChain workspace = some (workspace.history, index) := by
  obtain ⟨tip, htip, hstate⟩ := h.state
  have hlength : 0 < workspace.history.length :=
    Nat.lt_of_le_of_lt (Nat.zero_le _) (List.getElem?_eq_some_iff.mp h.cursor).1
  rw [List.getLast?_eq_getElem?] at htip
  have hfollow := followParents_eq h.nodup (fun _ hmem ↦ hmem) h.linked _ workspace.history.length
    tip htip (by omega)
  have htake : workspace.history.take (workspace.history.length - 1 + 1) = workspace.history := by
    rw [Nat.sub_add_cancel hlength, List.take_length]
  rw [htake] at hfollow
  simp only [activeChain, hstate, hfollow, List.reverse_reverse, findIdx?_entry h.nodup h.cursor]

variable {cursor : MemoryHistoryEntry C}

/-- Assumes: a charted workspace whose dictionary got a new snapshot after the cursor, with an
unused id, as its tip and cursor. Its active chain is the chain up to the old cursor and the new
snapshot. -/
theorem activeChain_append (h : Charted rules workspace nextHistoryId index cursor)
    (entry : MemoryHistoryEntry C) (hid : entry.id = nextHistoryId)
    (hparent : entry.parentId = some cursor.id) (design : Option (Design C)) :
    activeChain { workspace with
        design := design
        history := workspace.history ++ [entry]
        historyState := some (entry.id, entry.id) } =
      some (workspace.history.take (index + 1) ++ [entry], index + 1) := by
  obtain ⟨hlt, hget⟩ := List.getElem?_eq_some_iff.mp h.cursor
  have hnew : entry.id ∉ workspace.history.map MemoryHistoryEntry.id := by
    intro hmem
    obtain ⟨other, hother, heq⟩ := List.mem_map.mp hmem
    have := h.fresh other hother
    omega
  have hnodup : ((workspace.history ++ [entry]).map MemoryHistoryEntry.id).Nodup := by
    rw [List.map_append, List.map_singleton, List.nodup_append]
    refine ⟨h.nodup, by simp, ?_⟩
    rintro id hmem _ hsingle rfl
    rw [List.mem_singleton.mp hsingle] at hmem
    exact hnew hmem
  have hfollow := followParents_eq hnodup (fun _ hmem ↦ List.mem_append_left _ hmem) h.linked index
    workspace.history.length cursor h.cursor hlt
  have htip : followParents (workspace.history ++ [entry]) (workspace.history.length + 1)
      (some entry.id) = some (entry :: (workspace.history.take (index + 1)).reverse) := by
    rw [followParents, find?_entry hnodup (List.mem_append_right _ (List.mem_singleton_self entry))]
    simp only [hparent, hfollow, Option.map_some]
  have htake : (workspace.history.take (index + 1)).length = index + 1 := by
    rw [List.length_take, min_eq_left (by omega)]
  have hsublist : (workspace.history.take (index + 1) ++ [entry]).Sublist
      (workspace.history ++ [entry]) := (List.take_sublist _ _).append (List.Sublist.refl _)
  have hcursor : (workspace.history.take (index + 1) ++ [entry])[index + 1]? = some entry := by
    rw [List.getElem?_append_right (by omega), htake]
    simp
  have hfind := findIdx?_entry ((hsublist.map _).nodup hnodup) hcursor
  simp only [activeChain, List.length_append, List.length_singleton, htip, List.reverse_cons,
    List.reverse_reverse, hfind]

theorem Charted.mono {later : ℕ} (h : Charted rules workspace nextHistoryId index entry)
    (hle : nextHistoryId ≤ later) : Charted rules workspace later index entry :=
  { h with fresh := fun other hother ↦ Nat.lt_of_lt_of_le (h.fresh other hother) hle }

/-- Assumes: a charted workspace. A new layout or new remembered positions keep it charted. -/
theorem Charted.withLayout (h : Charted rules workspace nextHistoryId index entry)
    (layout : Option DesignLayout) (memory : List ObjectPosition) :
    Charted rules { workspace with layout := layout, positionMemory := memory } nextHistoryId index
      entry :=
  ⟨h.linked, h.nodup, h.fresh, h.valid, h.compact, h.cursor, h.state, h.content, h.boundary⟩

/-- The workspace that holds one root snapshot is charted. Assumes: an unused id, a parentless
snapshot with valid content, and a design with that content. -/
theorem charted_root {nextHistoryId : ℕ}
    {root : MemoryHistoryEntry C} (hhistory : workspace.history = [root])
    (hstate : workspace.historyState = some (root.id, root.id)) (hid : root.id < nextHistoryId)
    (hparent : root.parentId = none) (hvalid : rules.validateDesignContent root.content = none)
    (hcontent : (currentDesign rules workspace).content = root.content) :
    Charted rules workspace nextHistoryId 0 root where
  linked := by
    intro index entry hentry
    rw [hhistory] at hentry
    cases index with
    | zero =>
      obtain rfl : root = entry := by simpa using hentry
      simpa using hparent
    | succ index => simp at hentry
  nodup := by simp [hhistory]
  fresh := by
    intro other hother
    rw [hhistory, List.mem_singleton] at hother
    rw [hother]
    exact hid
  valid := by
    intro other hother
    rw [hhistory, List.mem_singleton] at hother
    rw [hother]
    exact hvalid
  compact := by
    intro index _ hlt
    rw [hhistory, List.length_singleton] at hlt
    omega
  cursor := by simp [hhistory]
  state := ⟨root, by simp [hhistory], hstate⟩
  content := hcontent
  boundary := by simp [hhistory]

/-- Assumes: a charted workspace. After a save files a snapshot with valid content after the
cursor, retention leaves the workspace charted at the new snapshot. -/
theorem charted_save
    (h : Charted rules workspace nextHistoryId index cursor) (hid : entry.id = nextHistoryId)
    (hvalid : rules.validateDesignContent entry.content = none) (limit : ℕ)
    {saved : WorkspaceDesign C}
    (hhistory : saved.history = relink none
      (retainedHistoryEntries (workspace.history.take (index + 1) ++ [entry]) limit))
    (hstate : saved.historyState = some (entry.id, entry.id))
    (hcontent : (currentDesign rules saved).content = entry.content) :
    ∃ last, last.id = entry.id ∧ last.content = entry.content ∧
      historyGroup last = historyGroup entry ∧ 1 ≤ saved.history.length - 1 ∧
      Charted rules saved (nextHistoryId + 1) (saved.history.length - 1) last := by
  have hlt := (List.getElem?_eq_some_iff.mp h.cursor).1
  have hne : workspace.history.take (index + 1) ≠ [] :=
    List.ne_nil_of_length_pos (by rw [List.length_take]; omega)
  obtain ⟨hsublist, kept, hkept, hretained⟩ :=
    retainedHistoryEntries_spec hne (h.compact.take (index + 1)) entry limit
  have hcompact := compact_retainedHistoryEntries hne (h.compact.take (index + 1)) entry limit
  have hchain : (workspace.history.take (index + 1) ++ [entry]).Sublist
      (workspace.history ++ [entry]) := (List.take_sublist _ _).append (List.Sublist.refl _)
  have hids : (saved.history.map MemoryHistoryEntry.id).Sublist
      ((workspace.history ++ [entry]).map MemoryHistoryEntry.id) := by
    rw [hhistory, map_relink MemoryHistoryEntry.id fun _ _ ↦ rfl]
    exact (hsublist.trans hchain).map _
  have hlength : saved.history.length = kept.length + 1 := by
    rw [hhistory, length_relink, hretained, List.length_append, List.length_singleton]
  have hkeptLength : 0 < kept.length := List.length_pos_of_ne_nil hkept
  -- the members of the pruned dictionary are old snapshots or the new one, up to their parents
  have hmember : ∀ other ∈ saved.history, ∃ old ∈ workspace.history ++ [entry],
      old.id = other.id ∧ old.content = other.content := by
    intro other hother
    obtain ⟨position, hposition⟩ := List.mem_iff_getElem?.mp hother
    rw [hhistory, getElem?_relink] at hposition
    obtain ⟨old, hold, rfl⟩ := Option.map_eq_some_iff.mp hposition
    exact ⟨old, (hsublist.trans hchain).subset (List.mem_of_getElem? hold), rfl, rfl⟩
  have hlast : ∃ parent, saved.history[saved.history.length - 1]? =
      some { entry with parentId := parent } := by
    rw [hlength, Nat.add_one_sub_one, hhistory, getElem?_relink, hretained,
      List.getElem?_append_right (Nat.le_refl _), Nat.sub_self]
    exact ⟨_, rfl⟩
  obtain ⟨parent, hlast⟩ := hlast
  refine ⟨{ entry with parentId := parent }, rfl, rfl, rfl, by omega, ?_⟩
  exact
    { linked := by
        rw [hhistory]
        exact linked_relink _
      nodup := by
        refine hids.nodup ?_
        rw [List.map_append, List.map_singleton, List.nodup_append]
        refine ⟨h.nodup, by simp, ?_⟩
        rintro id hmem _ hsingle rfl
        obtain ⟨other, hother, heq⟩ := List.mem_map.mp hmem
        have := h.fresh other hother
        rw [List.mem_singleton.mp hsingle] at heq
        omega
      fresh := by
        intro other hother
        obtain ⟨old, hold, hsame, -⟩ := hmember other hother
        rcases List.mem_append.mp hold with hold | hold
        · have := h.fresh old hold
          omega
        · rw [List.mem_singleton.mp hold] at hsame
          omega
      valid := by
        intro other hother
        obtain ⟨old, hold, -, hsame⟩ := hmember other hother
        rw [← hsame]
        rcases List.mem_append.mp hold with hold | hold
        · exact h.valid old hold
        · rw [List.mem_singleton.mp hold]
          exact hvalid
      compact := by
        rw [hhistory]
        exact hcompact.relink
      cursor := hlast
      state := ⟨{ entry with parentId := parent }, by rw [List.getLast?_eq_getElem?, hlast], hstate⟩
      content := hcontent
      boundary := by omega }

/-- Assumes: a charted workspace and a position of its chain that the undo boundary allows. Moving
the cursor and the design there keeps the workspace charted. -/
theorem charted_move {moved : WorkspaceDesign C} {target : ℕ}
    (h : Charted rules workspace nextHistoryId index cursor)
    (htarget : workspace.history[target]? = some entry)
    (hboundary : workspace.history.length - 1 - maxRetainedHistoryActions ≤ target)
    (hhistory : moved.history = workspace.history)
    (hstate : ∃ tip, workspace.history.getLast? = some tip ∧
      moved.historyState = some (entry.id, tip.id))
    (hcontent : (currentDesign rules moved).content = entry.content) :
    Charted rules moved nextHistoryId target entry where
  linked := hhistory ▸ h.linked
  nodup := hhistory ▸ h.nodup
  fresh := hhistory ▸ h.fresh
  valid := hhistory ▸ h.valid
  compact := hhistory ▸ h.compact
  cursor := hhistory ▸ htarget
  state := hhistory ▸ hstate
  content := hcontent
  boundary := hhistory ▸ hboundary

end Invariant

/-! ### What each request does -/

section Requests

variable {rules : ContentRules C}

@[simp]
theorem setWorkspace_self (repository : DesignRepository C) (key : String × String)
    (workspace : WorkspaceDesign C) :
    (repository.setWorkspace key workspace).workspaces key = workspace := by
  simp [setWorkspace]

theorem setWorkspace_of_ne (repository : DesignRepository C) {key other : String × String}
    (hne : other ≠ key) (workspace : WorkspaceDesign C) :
    (repository.setWorkspace key workspace).workspaces other = repository.workspaces other := by
  simp [setWorkspace, hne]

@[simp]
theorem setWorkspace_nextHistoryId (repository : DesignRepository C) (key : String × String)
    (workspace : WorkspaceDesign C) :
    (repository.setWorkspace key workspace).nextHistoryId = repository.nextHistoryId := rfl

/-- Two repositories that differ at most at one workspace, the second with no smaller next id. -/
structure SameElsewhere (key : String × String) (before after : DesignRepository C) : Prop where
  others : ∀ other, other ≠ key → after.workspaces other = before.workspaces other
  next : before.nextHistoryId ≤ after.nextHistoryId

variable {key : String × String}

/-- Assumes: a well formed repository and a change at one workspace that leaves it untouched or
charted. The changed repository is well formed. -/
theorem WellFormed.of_sameElsewhere {before after : DesignRepository C}
    (h : WellFormed rules before) (hsame : SameElsewhere key before after)
    (hkey : Untouched (after.workspaces key) ∨
      ∃ index entry, Charted rules (after.workspaces key) after.nextHistoryId index entry) :
    WellFormed rules after := by
  intro other
  by_cases heq : other = key
  · rw [heq]
    exact hkey
  · rw [hsame.others other heq]
    rcases h other with huntouched | ⟨index, entry, hcharted⟩
    · exact Or.inl huntouched
    · exact Or.inr ⟨index, entry, hcharted.mono hsame.next⟩

/-- Assumes: a well formed repository. After `ensureHistory` with the design at hand, the workspace
is charted, its design is the same, and a workspace that had a history is unchanged. -/
theorem ensureHistory_spec (h : WellFormed rules repository) (key : String × String) :
    let ensured := repository.ensureHistory key (currentDesign rules (repository.workspaces key))
    SameElsewhere key repository ensured ∧
      (ensured.workspaces key).design = (repository.workspaces key).design ∧
      (∃ index entry, Charted rules (ensured.workspaces key) ensured.nextHistoryId index entry) ∧
      ((repository.workspaces key).historyState ≠ none → ensured = repository) ∧
      (Untouched (repository.workspaces key) → ∃ entry, (ensured.workspaces key).history = [entry] ∧
        entry.content = rules.empty) := by
  intro ensured
  rcases h key with huntouched | ⟨index, entry, hcharted⟩
  · have hstate : ¬ (repository.workspaces key).historyState.isSome = true := by
      simp [huntouched.state]
    have hdesign : currentDesign rules (repository.workspaces key) =
        ⟨0, rules.empty, rules.designFingerprint rules.empty⟩ := by
      simp [currentDesign, huntouched.design]
    let root : MemoryHistoryEntry C :=
      ⟨repository.nextHistoryId, none, 0, .initial, none, rules.empty⟩
    have hworkspace : ensured.workspaces key = { repository.workspaces key with
        history := [root], historyState := some (root.id, root.id) } := by
      simp only [ensured, ensureHistory, if_neg hstate, newHistoryEntry, setHistoryState,
        hdesign, huntouched.history, List.nil_append, root]
      simp [setWorkspace]
    have hnext : ensured.nextHistoryId = repository.nextHistoryId + 1 := by
      simp only [ensured, ensureHistory, if_neg hstate, newHistoryEntry, setHistoryState,
        setWorkspace_nextHistoryId]
    refine ⟨⟨fun other hne ↦ ?_, by omega⟩, by rw [hworkspace], ⟨0, root, ?_⟩, fun hsome ↦
      absurd huntouched.state hsome, fun _ ↦ ⟨root, by rw [hworkspace], rfl⟩⟩
    · simp only [ensured, ensureHistory, if_neg hstate, newHistoryEntry, setHistoryState]
      simp [setWorkspace, hne]
    · rw [hworkspace, hnext]
      refine charted_root rfl rfl (Nat.lt_succ_self _) rfl rules.empty_valid ?_
      simp [currentDesign, huntouched.design, root]
  · obtain ⟨tip, -, hstate⟩ := hcharted.state
    have hensured : ensured = repository := by
      simp only [ensured, ensureHistory, hstate, Option.isSome_some, if_true]
    rw [hensured]
    refine ⟨⟨fun _ _ ↦ rfl, Nat.le_refl _⟩, rfl, ⟨index, entry, hcharted⟩, fun _ ↦ rfl,
      fun huntouched ↦ ?_⟩
    have := huntouched.state
    rw [hstate] at this
    cases this

/-- Assumes: a charted workspace. A save files the new snapshot after the cursor, keeps what
retention keeps, and leaves every other workspace alone. -/
theorem commitReplace_spec {index : ℕ} {cursor : MemoryHistoryEntry C}
    (h : Charted rules (repository.workspaces key) repository.nextHistoryId index cursor)
    (limit : ℕ) (request : DesignReplace C) (operationKind : OperationKind)
    (current : Design C) :
    ∃ after, commitReplace rules limit repository key request operationKind cursor.id current =
        (.ok ⟨current.revision + 1, request.content, rules.designFingerprint request.content⟩,
          after) ∧
      SameElsewhere key repository after ∧
      after.nextHistoryId = repository.nextHistoryId + 1 ∧
      (after.workspaces key).design = some ⟨current.revision + 1, request.content,
        rules.designFingerprint request.content⟩ ∧
      (after.workspaces key).historyState =
        some (repository.nextHistoryId, repository.nextHistoryId) ∧
      (after.workspaces key).history = relink none (retainedHistoryEntries
        ((repository.workspaces key).history.take (index + 1) ++
          [⟨repository.nextHistoryId, some cursor.id, current.revision + 1, operationKind,
            request.historyGroupId, request.content⟩]) limit) := by
  let revised : Design C :=
    ⟨current.revision + 1, request.content, rules.designFingerprint request.content⟩
  let entry : MemoryHistoryEntry C :=
    ⟨repository.nextHistoryId, some cursor.id, revised.revision, operationKind,
      request.historyGroupId, request.content⟩
  have hchain := activeChain_append h entry rfl rfl (some revised)
  refine ⟨_, rfl, ?_⟩
  simp only [setHistoryState, pruneHistory, setWorkspace_self, setWorkspace_nextHistoryId]
  rw [hchain]
  refine ⟨⟨fun other hne ↦ ?_, Nat.le_succ _⟩, rfl, ?_, ?_, ?_⟩
  · simp [advanceLayout, setWorkspace, hne]
  all_goals simp [advanceLayout, setWorkspace, revised, entry]

/-- What a `replace` can do: it is refused before the history is looked at or after it is ensured,
it finds the design already saved, or it saves a valid content after the cursor. -/
theorem replace_cases (rules : ContentRules C) (limit : ℕ) (repository : DesignRepository C)
    (key : String × String) (blocked : Bool) (request : DesignReplace C)
    (operationKind : OperationKind) :
    let current := currentDesign rules (repository.workspaces key)
    let ensured := repository.ensureHistory key current
    let outcome := replace rules limit repository key blocked request operationKind
    (∃ error, outcome = (.error error, repository)) ∨
      (∃ error, outcome = (.error error, ensured)) ∨
      ((operationKind = .edit ∧ current.fingerprint = rules.designFingerprint request.content) ∧
        outcome = (.ok current, ensured)) ∨
      (¬ (operationKind = .edit ∧
          current.fingerprint = rules.designFingerprint request.content) ∧
        rules.validateDesignContent request.content = none ∧
        ∃ cursor tip, (ensured.workspaces key).historyState = some (cursor, tip) ∧
          outcome = commitReplace rules limit ensured key request operationKind cursor current) := by
  intro current ensured outcome
  have houtcome : outcome = replace rules limit repository key blocked request operationKind := rfl
  unfold replace at houtcome
  cases hvalid : rules.validateDesignContent request.content with
  | some error =>
    rw [hvalid] at houtcome
    exact Or.inl ⟨error, houtcome⟩
  | none =>
    rw [hvalid] at houtcome
    cases hguard : guardMutation blocked operationKind with
    | some error =>
      rw [hguard] at houtcome
      exact Or.inl ⟨error, houtcome⟩
    | none =>
      rw [hguard] at houtcome
      simp only at houtcome
      refine Or.inr ?_
      split_ifs at houtcome with hrevision hsame
      · exact Or.inl ⟨_, houtcome⟩
      · exact Or.inr (Or.inl ⟨hsame, houtcome⟩)
      · cases htransition : rules.validateDesignTransition current.content request.content with
        | some message =>
          simp only [current] at htransition
          rw [htransition] at houtcome
          exact Or.inl ⟨_, houtcome⟩
        | none =>
          simp only [current] at htransition
          rw [htransition] at houtcome
          cases hstate : (ensured.workspaces key).historyState with
          | none =>
            simp only [ensured, current] at hstate
            rw [hstate] at houtcome
            exact Or.inl ⟨_, houtcome⟩
          | some state =>
            obtain ⟨cursor, tip⟩ := state
            simp only [ensured, current] at hstate
            rw [hstate] at houtcome
            exact Or.inr (Or.inr ⟨hsame, rfl, cursor, tip, rfl, houtcome⟩)

theorem ensureHistory_state (repository : DesignRepository C) (key : String × String)
    (design : Design C) :
    ((repository.ensureHistory key design).workspaces key).historyState ≠ none := by
  unfold ensureHistory
  split_ifs with hstate
  · exact Option.isSome_iff_ne_none.mp hstate
  · simp [setHistoryState, setWorkspace]

/-- Assumes: a valid content and a valid transition to it from the design at hand. A checkpoint that
names the current revision is saved. -/
theorem replace_checkpoint_ok (rules : ContentRules C) (limit : ℕ)
    (repository : DesignRepository C) (key : String × String) (request : DesignReplace C)
    (hvalid : rules.validateDesignContent request.content = none)
    (htransition : rules.validateDesignTransition
      (currentDesign rules (repository.workspaces key)).content request.content = none)
    (hrevision : (currentDesign rules (repository.workspaces key)).revision =
      request.expectedDesignRevision) :
    ∃ design after,
      replace rules limit repository key false request .checkpoint = (.ok design, after) := by
  unfold replace
  simp only [hvalid, guardMutation, ne_eq, not_true_eq_false, Bool.false_eq_true, and_self,
    if_false, hrevision, reduceCtorEq, false_and, htransition]
  cases hstate : ((repository.ensureHistory key
      (currentDesign rules (repository.workspaces key))).workspaces key).historyState with
  | none => exact absurd hstate (ensureHistory_state repository key _)
  | some state => exact ⟨_, _, rfl⟩

/-- Assumes: a charted workspace and a destination of the move. An unblocked request that names the
current revision moves to the destination. -/
theorem moveHistory_ok {index : ℕ} {cursor tip : MemoryHistoryEntry C}
    (h : Charted rules (repository.workspaces key) repository.nextHistoryId index cursor)
    (htip : (repository.workspaces key).historyState = some (cursor.id, tip.id))
    {action : HistoryAction} {target : ℕ}
    (htarget : moveTarget (repository.workspaces key).history.length index action = some target)
    (hentry : (repository.workspaces key).history[target]? = some entry) :
    moveHistory rules repository key false
        (currentDesign rules (repository.workspaces key)).revision action =
      commitMove rules repository key (currentDesign rules (repository.workspaces key)) entry
        tip.id := by
  have hlt := (List.getElem?_eq_some_iff.mp h.cursor).1
  have hindex := historyTargetIndex_of_compact h.compact hlt action
  have hvalid := h.valid entry (List.mem_of_getElem? hentry)
  simp only [moveHistory, guardMutation, Bool.false_eq_true, and_false, if_false, ne_eq,
    not_true_eq_false, ensureHistory, htip, Option.isSome_some, if_true, activeChain_eq h, hindex,
    htarget, hentry, hvalid]

/-- What a move can do in a well formed repository: it is refused before or after the history is
ensured, or it goes to its destination on the chain. -/
theorem moveHistory_cases (h : WellFormed rules repository)
    (key : String × String) (blocked : Bool) (revision : ℕ) (action : HistoryAction) :
    let current := currentDesign rules (repository.workspaces key)
    let outcome := moveHistory rules repository key blocked revision action
    (∃ error, outcome = (.error error, repository)) ∨
      (∃ error, outcome = (.error error, repository.ensureHistory key current)) ∨
      (blocked = false ∧ current.revision = revision ∧
        ∃ index cursor tip target entry,
          Charted rules (repository.workspaces key) repository.nextHistoryId index cursor ∧
          (repository.workspaces key).history.getLast? = some tip ∧
          (repository.workspaces key).historyState = some (cursor.id, tip.id) ∧
          moveTarget (repository.workspaces key).history.length index action = some target ∧
          (repository.workspaces key).history[target]? = some entry ∧
          outcome = commitMove rules repository key current entry tip.id) := by
  intro current outcome
  by_cases hblocked : blocked = true
  · refine Or.inl ⟨.mutationBlocked, ?_⟩
    simp [outcome, moveHistory, guardMutation, hblocked]
  have hunblocked : blocked = false := by simpa using hblocked
  by_cases hrevision : current.revision = revision
  · refine Or.inr ?_
    subst hrevision
    rcases h key with huntouched | ⟨index, cursor, hcharted⟩
    · -- the history of an untouched workspace is its root alone, so there is nowhere to go
      refine Or.inl ⟨.historyBoundary action, ?_⟩
      obtain ⟨-, -, ⟨index, cursor, hcharted⟩, -, hroot⟩ := ensureHistory_spec h key
      obtain ⟨root, hhistory, -⟩ := hroot huntouched
      have hlt := (List.getElem?_eq_some_iff.mp hcharted.cursor).1
      obtain ⟨tip, -, hstate⟩ := hcharted.state
      have hindex := historyTargetIndex_of_compact hcharted.compact hlt action
      rw [hhistory, List.length_singleton] at hlt
      have hnone : moveTarget ((repository.ensureHistory key current).workspaces key).history.length
          index action = none := by
        rw [hhistory, List.length_singleton]
        cases action with
        | undo =>
          simp only [moveTarget]
          rw [if_neg (by omega)]
        | redo =>
          simp only [moveTarget]
          rw [if_neg (by omega)]
      rw [hnone] at hindex
      simp only [outcome, moveHistory, guardMutation, hunblocked, Bool.false_eq_true, and_false,
        if_false, ne_eq, current, not_true_eq_false, activeChain_eq hcharted, hstate, hindex]
    · obtain ⟨tip, htip, hstate⟩ := hcharted.state
      have hlt := (List.getElem?_eq_some_iff.mp hcharted.cursor).1
      have hensured : repository.ensureHistory key current = repository := by
        simp only [ensureHistory, hstate, Option.isSome_some, if_true]
      cases htarget : moveTarget (repository.workspaces key).history.length index action with
      | none =>
        refine Or.inl ⟨.historyBoundary action, ?_⟩
        have hindex := historyTargetIndex_of_compact hcharted.compact hlt action
        rw [htarget] at hindex
        simp only [outcome, moveHistory, guardMutation, hunblocked, Bool.false_eq_true, and_false,
          if_false, ne_eq, current, not_true_eq_false]
        simp only [current] at hensured
        simp only [hensured, activeChain_eq hcharted, hstate, hindex]
      | some target =>
        have hentry := List.getElem?_eq_getElem (moveTarget_spec hlt htarget).1
        refine Or.inr ⟨hunblocked, rfl, index, cursor, tip, target, _, hcharted, htip, hstate,
          htarget, hentry, ?_⟩
        rw [← moveHistory_ok hcharted hstate htarget hentry]
        simp only [outcome, hunblocked, current]
  · refine Or.inl ⟨.conflict current.revision, ?_⟩
    simp only [current] at hrevision
    simp [outcome, moveHistory, guardMutation, hunblocked, hrevision, current]

/-- The repository after a move: the design is the target's content at the next revision, the
cursor is on the target, the snapshots are the same, and every other workspace is left alone. -/
theorem commitMove_spec (rules : ContentRules C) (repository : DesignRepository C) (key : String × String)
    (current : Design C) (target : MemoryHistoryEntry C) (tip : ℕ) :
    ∃ after, commitMove rules repository key current target tip =
        (.ok ⟨current.revision + 1, target.content, rules.designFingerprint target.content⟩,
          after) ∧
      SameElsewhere key repository after ∧
      after.nextHistoryId = repository.nextHistoryId ∧
      (after.workspaces key).design = some ⟨current.revision + 1, target.content,
        rules.designFingerprint target.content⟩ ∧
      (after.workspaces key).historyState = some (target.id, tip) ∧
      (after.workspaces key).history = (repository.workspaces key).history := by
  refine ⟨_, rfl, ⟨fun other hne ↦ ?_, Nat.le_refl _⟩, rfl, ?_, ?_, ?_⟩
  · simp [advanceLayout, setHistoryState, setWorkspace, hne]
  all_goals simp [advanceLayout, setHistoryState, setWorkspace]

end Requests

end Schemii.Designs
