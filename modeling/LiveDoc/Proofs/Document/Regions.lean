import LiveDoc.Proofs.Document.Pieces
import LiveDoc.Proofs.Markdown.CodeRanges

namespace LiveDoc

open Text Markdown

-- No two code blocks of a text share a line: the last character of the one is on an earlier line
-- than the first of the other.
def OwnLines (text : List Char) : Prop :=
  (codeRanges text).Pairwise fun a b => lineAt text (a.stop - 1) < lineAt text b.start

-- The first line of a text, with its newline.
def firstLine (text : List Char) : List Char :=
  text.takeWhile (· != '\n') ++ (text.dropWhile (· != '\n')).take 1

-- What a block that stops within a line takes of the rest of that line.
def closing (front tail : List Char) : List Char :=
  if atLineStart front = false ∧ (firstLine tail).all isBlank = true then firstLine tail else []

section Closing

variable (front tail after : List Char)

theorem newline_not_mem_takeWhile : '\n' ∉ tail.takeWhile (· != '\n') := by
  intro hmem
  have hkept := List.mem_takeWhile_imp hmem
  simp at hkept

theorem firstLine_cases : (firstLine tail = tail ∧ '\n' ∉ tail) ∨
    ∃ line rest, '\n' ∉ line ∧ tail = line ++ '\n' :: rest ∧ firstLine tail = line ++ ['\n'] := by
  have hplain := newline_not_mem_takeWhile tail
  have hsplit := List.takeWhile_append_dropWhile (p := (· != '\n')) (l := tail)
  rw [firstLine]
  cases hdrop : tail.dropWhile (· != '\n') with
  | nil =>
      rw [hdrop, List.append_nil] at hsplit
      rw [hsplit] at hplain ⊢
      exact .inl ⟨List.append_nil _, hplain⟩
  | cons c rest =>
      have hc : c = '\n' := by
        have := List.head?_dropWhile_not (· != '\n') tail
        simpa [hdrop] using this
      subst hc
      rw [hdrop] at hsplit
      exact .inr ⟨_, rest, hplain, hsplit.symm, rfl⟩

theorem firstLine_prefix : firstLine tail <+: tail := by
  rcases firstLine_cases tail with ⟨hline, -⟩ | ⟨line, rest, -, htail, hline⟩
  · exact ⟨[], (List.append_nil _).trans hline⟩
  · rw [hline, htail]
    exact ⟨rest, by simp⟩

theorem newline_not_mem_dropLast_firstLine : '\n' ∉ (firstLine tail).dropLast := by
  rcases firstLine_cases tail with ⟨hline, hplain⟩ | ⟨line, rest, hplain, -, hline⟩
  · rw [hline]
    exact fun hmem => hplain (List.dropLast_subset tail hmem)
  · rwa [hline, List.dropLast_concat]

theorem closing_prefix : closing front tail <+: tail := by
  unfold closing
  split
  · exact firstLine_prefix tail
  · exact List.nil_prefix

theorem byteCount_closing_le : byteCount (closing front tail) ≤ byteCount (firstLine tail) := by
  unfold closing
  split
  · exact Nat.le_refl _
  · exact Nat.zero_le _

theorem newline_not_mem_dropLast_closing : '\n' ∉ (closing front tail).dropLast := by
  unfold closing
  split
  · exact newline_not_mem_dropLast_firstLine tail
  · exact List.not_mem_nil

-- A block takes blanks and the newline after them, and nothing after a newline of its own.
theorem closingLine_append :
    closingLine (front ++ tail ++ after) (byteCount front) (byteCount front + byteCount tail) =
      byteCount front + byteCount (closing front tail) := by
  have htake : takeBytes (byteCount front) (front ++ tail ++ after) = front := by
    rw [List.append_assoc, takeBytes_byteCount]
  have hstart : (byteCount front = 0 ∨ front.getLast? = some '\n') ↔ atLineStart front = true := by
    rcases List.eq_nil_or_concat front with rfl | ⟨init, c, rfl⟩
    · simp [atLineStart]
    · have hpos := c.utf8Size_pos
      simp [atLineStart]
      omega
  unfold closingLine closing
  rw [slice_append, htake]
  dsimp only
  by_cases hfresh : atLineStart front = true
  · have hstop : byteCount front = 0 ∨ byteCount front + byteCount tail ≤ byteCount front ∨
        front.getLast? = some '\n' := (hstart.mpr hfresh).imp_right .inr
    rw [if_pos hstop, if_neg (by simp [hfresh]), byteCount_nil, Nat.add_zero]
  by_cases hnone : tail = []
  · subst hnone
    simp [firstLine]
  have hpos := byteCount_pos hnone
  have hopen : ¬ (byteCount front = 0 ∨ byteCount front + byteCount tail ≤ byteCount front ∨
      front.getLast? = some '\n') := by
    rintro (hzero | hle | hlast)
    · exact hfresh (hstart.mp (.inl hzero))
    · omega
    · exact hfresh (hstart.mp (.inr hlast))
  rw [if_neg hopen]
  rcases firstLine_cases tail with ⟨hline, hplain⟩ | ⟨line, rest, hplain, rfl, hline⟩
  · have htaken : tail.takeWhile (· != '\n') = tail :=
      List.takeWhile_eq_self_iff.mpr fun c hc => bne_iff_ne.mpr fun heq => hplain (heq ▸ hc)
    rw [htaken, hline]
    cases hblank : tail.all isBlank <;> simp [hfresh]
  · have hkept : ∀ c ∈ line, (c != '\n') = true :=
      fun c hc => bne_iff_ne.mpr fun heq => hplain (heq ▸ hc)
    have htaken : (line ++ '\n' :: rest).takeWhile (· != '\n') = line := by
      rw [List.takeWhile_append_of_pos hkept]
      simp
    have hnewline : isBlank '\n' = true := rfl
    have hsize : '\n'.utf8Size = 1 := rfl
    rw [htaken, hline, List.all_append]
    cases hblank : line.all isBlank <;> simp [hfresh, hnewline, hsize, Nat.add_assoc]

theorem firstLine_append_of_not_mem {line : List Char} (h : '\n' ∉ line) :
    firstLine (line ++ tail) = line ++ firstLine tail := by
  have hkept : ∀ c ∈ line, (c != '\n') = true := fun c hc => bne_iff_ne.mpr fun heq => h (heq ▸ hc)
  rw [firstLine, List.takeWhile_append_of_pos hkept, List.dropWhile_append_of_pos hkept, firstLine,
    List.append_assoc]

-- Where a later block stops, no earlier one takes more.
theorem byteCount_closing_append_le (middle : List Char) :
    byteCount front + byteCount (closing front (middle ++ tail)) ≤
      byteCount (front ++ middle) + byteCount (closing (front ++ middle) tail) := by
  by_cases hnone : middle = []
  · rw [hnone, List.append_nil, List.nil_append]
  rw [byteCount_append]
  rcases firstLine_cases middle with ⟨-, hplain⟩ | ⟨line, rest, hplain, rfl, -⟩
  · -- the middle is part of the line that the first block takes
    have hopen : atLineStart (front ++ middle) = false := by
      rw [atLineStart, List.getLast?_append_of_ne_nil _ hnone, List.getLast?_eq_some_getLast hnone]
      exact beq_eq_false_iff_ne.mpr fun heq => hplain (heq ▸ List.getLast_mem hnone)
    unfold closing
    rw [firstLine_append_of_not_mem tail hplain]
    split
    · rename_i htaken
      have hrest : (firstLine tail).all isBlank = true := by
        rw [List.all_append, Bool.and_eq_true] at htaken
        exact htaken.2.2
      rw [if_pos ⟨hopen, hrest⟩, byteCount_append, Nat.add_assoc]
    · exact Nat.le_trans (Nat.le_add_right ..) (Nat.le_add_right ..)
  · have hline : firstLine (line ++ '\n' :: rest ++ tail) = line ++ ['\n'] := by
      rw [List.append_assoc, firstLine_append_of_not_mem _ hplain]
      rfl
    have hle := byteCount_closing_le front (line ++ '\n' :: rest ++ tail)
    rw [hline] at hle
    simp only [byteCount_append, byteCount_cons, byteCount_nil] at hle ⊢
    omega

end Closing

-- What a region takes up in the whole text, for a code block of a window.
def closedRange (text : List Char) (window range : ByteRange) : ByteRange :=
  ⟨range.start + window.start, closingLine text (range.stop + window.start) window.stop⟩

theorem map_range_regions (text : List Char) (window : ByteRange) :
    (regions text window).map Region.range =
      (codeRanges (slice text window.start window.stop)).map (closedRange text window) := by
  rw [regions, codeRanges, List.map_filterMap, List.map_filterMap]
  congr 1
  funext leaf
  cases leaf <;> rfl

-- Between two blocks that share no line there is a newline, unless the first ends with one.
theorem newline_mem_gap {front gap rest : List Char} (hne : front ≠ [])
    (hlast : front.getLast? ≠ some '\n')
    (h : lineAt (front ++ (gap ++ rest)) (byteCount front - 1) <
      lineAt (front ++ (gap ++ rest)) (byteCount front + byteCount gap)) : '\n' ∈ gap := by
  have hgap : takeBytes (byteCount front + byteCount gap) (front ++ (gap ++ rest)) =
      front ++ gap := by
    rw [← List.append_assoc, ← byteCount_append, takeBytes_byteCount]
  rw [lineAt, lineAt, takeBytes_pred _ hne, hgap, List.count_append] at h
  have hfront : front.count '\n' = front.dropLast.count '\n' := by
    obtain ⟨init, c, rfl⟩ : ∃ init c, front = init ++ [c] :=
      ⟨front.dropLast, front.getLast hne, (List.dropLast_concat_getLast hne).symm⟩
    rw [List.getLast?_concat] at hlast
    have hc : c ≠ '\n' := fun h => hlast (congrArg some h)
    simp [hc]
  exact List.count_pos_iff.mp (by omega)

-- The part of a line that closes a block ends before the next block.
theorem closing_before_next {front line rest : List Char} {next : ByteRange}
    {more : List ByteRange} (hne : front ≠ []) (hline : front.getLast? = some '\n' → line = [])
    (hplain : '\n' ∉ line.dropLast)
    (hlaid : ByteRange.Laid (byteCount front) (line ++ rest) (next :: more))
    (h : lineAt (front ++ (line ++ rest)) (byteCount front - 1) <
      lineAt (front ++ (line ++ rest)) next.start) :
    byteCount front + byteCount line ≤ next.start := by
  generalize htext : line ++ rest = text at hlaid h
  cases hlaid with
  | @cons _ gap body after _ _ _ =>
      dsimp only at h ⊢
      by_cases hlast : front.getLast? = some '\n'
      · rw [hline hlast, byteCount_nil]
        omega
      · have hmem := newline_mem_gap hne hlast h
        refine Nat.le_of_not_lt fun hlt => ?_
        obtain ⟨x, hx, heq⟩ := exists_append_of_byteCount_lt (List.prefix_append gap _)
          ⟨rest, htext⟩ (Nat.lt_of_add_lt_add_left hlt)
        apply hplain
        rw [heq, List.dropLast_append_of_ne_nil hx]
        exact List.mem_append_left _ hmem

section Closed

variable {text before passed tail after : List Char} {window : ByteRange}
  (htext : text = before ++ (passed ++ tail) ++ after)
  (hwindow : window = ⟨byteCount before, byteCount before + byteCount (passed ++ tail)⟩)

include htext hwindow

-- A block of a window; `passed` ends with the block.
theorem closedRange_eq (start : Nat) :
    closedRange text window ⟨start, byteCount passed⟩ =
      ⟨byteCount before + start,
        byteCount (before ++ passed) + byteCount (closing (before ++ passed) tail)⟩ := by
  have hstop : byteCount passed + byteCount before = byteCount (before ++ passed) := by
    rw [byteCount_append, Nat.add_comm]
  have hlimit : byteCount before + byteCount (passed ++ tail) =
      byteCount (before ++ passed) + byteCount tail := by
    simp only [byteCount_append, Nat.add_assoc]
  have hsplit : before ++ (passed ++ tail) ++ after = before ++ passed ++ tail ++ after := by
    simp only [List.append_assoc]
  rw [closedRange, hwindow, htext]
  dsimp only
  rw [hstop, hlimit, hsplit, closingLine_append, Nat.add_comm start]

theorem exists_closedRange (start : Nat) :
    ∃ line rest, tail = line ++ rest ∧
      closedRange text window ⟨start, byteCount passed⟩ =
        ⟨byteCount before + start, byteCount before + byteCount passed + byteCount line⟩ ∧
      (passed.getLast? = some '\n' → line = []) ∧ '\n' ∉ line.dropLast := by
  obtain ⟨rest, hrest⟩ := closing_prefix (before ++ passed) tail
  refine ⟨_, rest, hrest.symm, ?_, fun hlast => ?_, ?_⟩
  · rw [closedRange_eq htext hwindow, byteCount_append before passed]
  · have hfresh : atLineStart (before ++ passed) = true := by
      rw [atLineStart, List.getLast?_append, hlast]
      rfl
    simp [closing, hfresh]
  · exact newline_not_mem_dropLast_closing _ tail

end Closed

-- With the ends of their last lines the blocks are still in order. The induction is on the blocks;
-- `front` is what has been passed of the window.
theorem laid_closed {text before after : List Char} {window : ByteRange} {front rest : List Char}
    {ranges : List ByteRange} (htext : text = before ++ (front ++ rest) ++ after)
    (hwindow : window = ⟨byteCount before, byteCount before + byteCount (front ++ rest)⟩)
    (hlaid : ByteRange.Laid (byteCount front) rest ranges)
    (hown : ranges.Pairwise fun a b =>
      lineAt (front ++ rest) (a.stop - 1) < lineAt (front ++ rest) b.start) :
    ByteRange.Laid (byteCount before + byteCount front) rest
      (ranges.map (closedRange text window)) := by
  generalize hposition : byteCount front = position at hlaid
  induction hlaid generalizing front with
  | nil => exact .nil _ _
  | @cons position gap body tail more hne hmore ih =>
      subst hposition
      obtain ⟨passed, hpassed⟩ : ∃ passed, passed = front ++ (gap ++ body) := ⟨_, rfl⟩
      have hassoc : front ++ (gap ++ (body ++ tail)) = passed ++ tail := by
        simp only [hpassed, List.append_assoc]
      have hcount : byteCount front + byteCount gap + byteCount body = byteCount passed := by
        simp only [hpassed, byteCount_append, Nat.add_assoc]
      have hfull : passed ≠ [] := by
        simp [hpassed, hne]
      rw [hassoc] at htext hwindow hown
      rw [hcount] at hown hmore
      rw [List.pairwise_cons] at hown
      have hlater := ih htext hwindow hown.2 hcount.symm
      obtain ⟨line, rest, rfl, hclosed, hline, hplain⟩ :=
        exists_closedRange htext hwindow (byteCount front + byteCount gap)
      have hbefore : ∀ r ∈ (more.map (closedRange text window)).head?,
          byteCount before + byteCount passed + byteCount line ≤ r.start := by
        intro r hr
        cases more with
        | nil => cases hr
        | cons next others =>
            cases hr
            have hnext := hown.1 next (List.mem_cons_self ..)
            have hle := closing_before_next hfull hline hplain hmore hnext
            rw [closedRange, hwindow]
            dsimp only
            omega
      rw [hcount] at hlater ⊢
      have hrest := hlater.drop_front hbefore
      rw [List.map_cons, hclosed, ← List.append_assoc body line rest]
      have hcons := @ByteRange.Laid.cons (byteCount before + byteCount front) gap (body ++ line) rest
        (more.map (closedRange text window)) (by simp [hne]) (by
          rw [hpassed] at hrest
          simpa only [byteCount_append, Nat.add_assoc] using hrest)
      rw [hpassed]
      simpa only [byteCount_append, Nat.add_assoc] using hcons

theorem laid_regions {text before inside after : List Char} {window : ByteRange}
    (htext : text = before ++ inside ++ after)
    (hwindow : window = ⟨byteCount before, byteCount before + byteCount inside⟩)
    (hown : OwnLines inside) :
    ByteRange.Laid window.start inside ((regions text window).map Region.range) := by
  have hslice : slice text window.start window.stop = inside := by
    rw [htext, hwindow]
    exact slice_append before inside after
  rw [map_range_regions, hslice, hwindow]
  exact @laid_closed text before after _ [] inside _ htext rfl (laid_codeRanges inside) hown

end LiveDoc
