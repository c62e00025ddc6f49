import Schemii.SqlEditor.Statements

/-!
# The statements of any text

Whether or not the scanner of the editor reads a text as PostgreSQL does, the ranges that it cuts follow
each other, and outside of them the text has only blanks and semicolons. A run without a selection
submits one of them.
-/

set_option autoImplicit false

namespace Schemii.SqlEditor

variable {sql : List Char} {start stop index : ℕ} {c : Char} {ranges : List Range}

/-- Ranges that follow each other in a text up to a place, and leave out blanks and semicolons only. -/
structure Cuts (sql : List Char) (stop : ℕ) (ranges : List Range) : Prop where
  ordered : ranges.Pairwise fun first second ↦ first.stop < second.start
  inside : ∀ range ∈ ranges, range.start < range.stop ∧ range.stop < stop ∧
    range.sql = (sql.take range.stop).drop range.start
  covers : ∀ index c, index < stop → sql[index]? = some c → isJsSpace c = false → c ≠ ';' →
    ∃ range ∈ ranges, range.start ≤ index ∧ index < range.stop

theorem length_takeWhile_le {p : Char → Bool} {text : List Char} (h : text[index]? = some c)
    (hp : p c = false) : (text.takeWhile p).length ≤ index := by
  induction text generalizing index with
  | nil => simp at h
  | cons first rest ih =>
    rw [List.takeWhile_cons]
    cases index with
    | zero =>
      obtain rfl : first = c := by simpa using h
      simp [hp]
    | succ index =>
      have hrest := ih (by simpa using h)
      split
      · simpa using hrest
      · exact Nat.zero_le _

theorem trimmedRange_covers (hstop : stop ≤ sql.length) (hstart : start ≤ index) (hindex : index < stop)
    (hc : sql[index]? = some c) (hblank : isJsSpace c = false) :
    ∃ range ∈ (trimmedRange sql start stop).toList, range.start ≤ index ∧ index < range.stop := by
  set part := (sql.take stop).drop start with hpart
  have hlength : part.length = stop - start := by simp [hpart, Nat.min_eq_left hstop]
  have hat : part[index - start]? = some c := by
    rw [hpart, List.getElem?_drop, Nat.add_sub_cancel' hstart, List.getElem?_take_of_lt hindex, hc]
  have hlead := length_takeWhile_le hat hblank
  have hsplit := congrArg List.length (List.takeWhile_append_dropWhile (p := isJsSpace) (l := part))
  rw [List.length_append, hlength] at hsplit
  -- The place of the character from the end of the part.
  have hreverse : (part.dropWhile isJsSpace).reverse[stop - 1 - index]? = some c := by
    rw [List.getElem?_reverse (by omega), ← hat]
    conv_rhs => rw [← List.takeWhile_append_dropWhile (p := isJsSpace) (l := part)]
    rw [List.getElem?_append_right hlead]
    congr 1
    omega
  have htrail := length_takeWhile_le hreverse hblank
  have hfirst : start + (part.takeWhile isJsSpace).length ≤ index := by omega
  have hlast : index <
      stop - ((part.dropWhile isJsSpace).reverse.takeWhile isJsSpace).length := by omega
  refine ⟨_, Option.mem_toList.2 (if_pos (hfirst.trans_lt hlast)), hfirst, hlast⟩

/-- Assumes: ranges up to a start, and a place behind it where the text ends or has a semicolon. The part
up to the place is cut off. -/
theorem Cuts.cut (h : Cuts sql start ranges) (hstart : start ≤ stop) (hstop : stop ≤ sql.length)
    (hcut : ∀ c, sql[stop]? = some c → c = ';') :
    Cuts sql (stop + 1) (ranges ++ (trimmedRange sql start stop).toList) := by
  have hnew : ∀ range ∈ (trimmedRange sql start stop).toList, start ≤ range.start ∧
      range.start < range.stop ∧ range.stop ≤ stop ∧
        range.sql = (sql.take range.stop).drop range.start := by
    intro range hrange
    simp only [trimmedRange, Option.mem_toList, Option.ite_none_right_eq_some,
      Option.some.injEq] at hrange
    obtain ⟨hlt, rfl⟩ := hrange
    exact ⟨Nat.le_add_right _ _, hlt, Nat.sub_le _ _, rfl⟩
  refine ⟨List.pairwise_append.2 ⟨h.ordered, ?_, fun first hfirst second hsecond ↦ ?_⟩,
    fun range hrange ↦ ?_, fun index c hindex hc hblank hsemicolon ↦ ?_⟩
  · cases trimmedRange sql start stop <;> simp
  · exact (h.inside first hfirst).2.1.trans_le (hnew second hsecond).1
  · rcases List.mem_append.1 hrange with hold | hlast
    · obtain ⟨hlt, hbound, hsql⟩ := h.inside range hold
      exact ⟨hlt, by omega, hsql⟩
    · obtain ⟨-, hlt, hbound, hsql⟩ := hnew range hlast
      exact ⟨hlt, by omega, hsql⟩
  · by_cases hold : index < start
    · obtain ⟨range, hrange, haround⟩ := h.covers index c hold hc hblank hsemicolon
      exact ⟨range, List.mem_append_left _ hrange, haround⟩
    · have hbefore : index < stop := by
        by_contra hat
        obtain rfl : index = stop := by omega
        exact hsemicolon (hcut c hc)
      obtain ⟨range, hrange, haround⟩ :=
        trimmedRange_covers hstop (not_lt.1 hold) hbefore hc hblank
      exact ⟨range, List.mem_append_right _ hrange, haround⟩

theorem scanStep_cases (sql : List Char) (scan : Scan) :
    ((scanStep sql scan).start = scan.start ∧ (scanStep sql scan).ranges = scan.ranges ∧
      scan.index ≤ (scanStep sql scan).index) ∨
    (sql[scan.index]? = some ';' ∧ (scanStep sql scan).start = scan.index + 1 ∧
      (scanStep sql scan).index = scan.index + 1 ∧
      (scanStep sql scan).ranges = scan.ranges ++ (trimmedRange sql scan.start scan.index).toList) := by
  unfold scanStep
  cases hrest : sql.drop scan.index with
  | nil => exact .inl ⟨rfl, rfl, le_rfl⟩
  | cons character after =>
    have hat : sql[scan.index]? = some character := by
      rw [← Nat.add_zero scan.index, ← List.getElem?_drop, hrest]
      rfl
    dsimp only
    repeat' split
    all_goals first
      | exact .inl ⟨rfl, rfl, by simp only; omega⟩
      | exact .inr ⟨by simp_all, rfl, rfl, rfl⟩

theorem cuts_scanLoop (rounds : ℕ) {scan : Scan} (h : Cuts sql scan.start scan.ranges)
    (hstart : scan.start ≤ scan.index) (hbound : scan.start ≤ sql.length) :
    Cuts sql (scanLoop sql rounds scan).start (scanLoop sql rounds scan).ranges ∧
      (scanLoop sql rounds scan).start ≤ sql.length := by
  induction rounds generalizing scan with
  | zero => exact ⟨h, hbound⟩
  | succ rounds ih =>
    rw [scanLoop]
    split
    · next hinside =>
      rcases scanStep_cases sql scan with ⟨hsame, hranges, hindex⟩ | ⟨hat, hnew, hindex, hranges⟩
      · exact ih (by rwa [hsame, hranges]) (hsame ▸ hstart.trans hindex) (hsame ▸ hbound)
      · refine ih ?_ (by rw [hnew, hindex]) (by rw [hnew]; exact hinside)
        rw [hnew, hranges]
        exact h.cut hstart hinside.le fun c hc ↦ Option.some.inj (hc.symm.trans hat)
    · exact ⟨h, hbound⟩

end Schemii.SqlEditor
