import LiveDoc.Proofs.Document.LineEnds
import LiveDoc.Proofs.Document.Marks

namespace LiveDoc

open Text

-- What a text has of its last line, where that has not ended.
def openLine (text : List Char) : List Char := (text.reverse.takeWhile (· != '\n')).reverse

theorem lineLead_byteCount (before after : List Char) :
    lineLead (before ++ after) (byteCount before) = openLine before := by
  rw [lineLead, takeBytes_byteCount, openLine]

theorem openLine_of_not_mem {line : List Char} (h : '\n' ∉ line) : openLine line = line := by
  rw [openLine, List.takeWhile_eq_self_iff.mpr, List.reverse_reverse]
  intro c hc
  have hne : c ≠ '\n' := fun heq => h (heq ▸ List.mem_reverse.mp hc)
  simpa using hne

theorem openLine_append {front back : List Char} (h : atLineStart front = true ∨ '\n' ∈ back) :
    openLine (front ++ back) = openLine back := by
  by_cases hmem : '\n' ∈ back
  · have hstop : (back.reverse.takeWhile (· != '\n')).length ≠ back.reverse.length := by
      intro hlength
      have hall := (List.takeWhile_prefix (· != '\n')).eq_of_length hlength
      have hnewline := List.takeWhile_eq_self_iff.mp hall '\n' (List.mem_reverse.mpr hmem)
      simp at hnewline
    rw [openLine, List.reverse_append, List.takeWhile_append, if_neg hstop, openLine]
  · have hnone : front.reverse.takeWhile (· != '\n') = [] := by
      have hstart := h.resolve_right hmem
      rcases List.eq_nil_or_concat front with rfl | ⟨init, c, rfl⟩
      · rfl
      · have hc : c = '\n' := by simpa [atLineStart] using hstart
        simp [hc]
    have hback := openLine_of_not_mem hmem
    rw [hback]
    rw [openLine, List.reverse_eq_iff] at hback
    rw [openLine, List.reverse_append, List.takeWhile_append, hback, if_pos rfl, hnone,
      List.append_nil, List.reverse_reverse]

-- Lines outside code that end within a line end with prose.
theorem splitProse_openLine {ls : List (List Char)} (hls : LineList ls) (start : Nat) (whole : Bool)
    (hne : openLine ls.flatten ≠ []) (hmark : marker? (openLine ls.flatten) = none) :
    ∃ init place stem,
      splitProse start whole ls = init ++ [.prose place (stem ++ openLine ls.flatten)] := by
  induction hls generalizing start whole with
  | nil => exact (hne rfl).elim
  | @open_ line _ hn =>
      rw [List.flatten_singleton, openLine_of_not_mem hn] at hmark ⊢
      have hnone : (if whole = true then marker? line else none) = none := by
        rw [hmark, ite_self]
      simp only [splitProse, hnone]
      exact ⟨[], start, [], rfl⟩
  | @ended front more hn hmore ih =>
      have hstart : atLineStart (front ++ ['\n']) = true := atLineStart_of_getLast? (by simp)
      rw [List.flatten_cons, openLine_append (.inl hstart)] at hne hmark ⊢
      obtain ⟨init, place, stem, hinit⟩ := ih (start + byteCount (front ++ ['\n'])) true hne hmark
      simp only [splitProse, hinit]
      cases (if whole = true then marker? (front ++ ['\n']) else none) with
      | some marker => exact ⟨.mark start (front ++ ['\n']) marker :: init, place, stem, rfl⟩
      | none =>
          cases init with
          | nil => exact ⟨[], start, front ++ ['\n'] ++ stem, by simp⟩
          | cons first others =>
              cases first with
              | prose next piece =>
                  exact ⟨.prose start (front ++ ['\n'] ++ piece) :: others, place, stem, rfl⟩
              | mark next line marker =>
                  exact ⟨.prose start (front ++ ['\n']) :: .mark next line marker :: others, place,
                    stem, rfl⟩
              | fenced range info content =>
                  exact ⟨.prose start (front ++ ['\n']) :: .fenced range info content :: others,
                    place, stem, rfl⟩

theorem not_fenced_of_splitProse {start : Nat} {whole : Bool} {ls : List (List Char)}
    {range : ByteRange} {info content : List Char} :
    .fenced range info content ∉ splitProse start whole ls := by
  induction ls generalizing start whole with
  | nil => exact List.not_mem_nil
  | cons line rest ih =>
      have hmore := @ih (start + byteCount line) true
      simp only [splitProse]
      split
      · simpa using hmore
      · split
        · rename_i next piece tail htail
          rw [htail] at hmore
          simpa using hmore
        · simpa using hmore

-- The gap before a block that shares no line with the one before it starts with the rest of the
-- line that this one closes on, and holds all of the line that the next one opens on.
theorem openLine_gap {front line tail gap rest : List Char} (hrest : line ++ tail = gap ++ rest)
    (hfirst : front = [] ∨ lineAt (front ++ (gap ++ rest)) (byteCount front - 1) <
      lineAt (front ++ (gap ++ rest)) (byteCount front + byteCount gap))
    (hline : atLineStart front = true → line = []) (hplain : '\n' ∉ line.dropLast) :
    ∃ own, gap = line ++ own ∧ openLine (front ++ line ++ own) = openLine own := by
  by_cases hstart : atLineStart front = true
  · cases hline hstart
    refine ⟨gap, rfl, ?_⟩
    rw [List.append_nil]
    exact openLine_append (.inl hstart)
  · have hne : front ≠ [] := fun h => hstart (h ▸ rfl)
    have hmem : '\n' ∈ gap := newline_mem_gap hne (fun h => hstart (atLineStart_of_getLast? h))
      (hfirst.resolve_left hne)
    have hle : byteCount line ≤ byteCount gap := by
      refine Nat.le_of_not_lt fun hlong => hplain ?_
      obtain ⟨more, hmore, rfl⟩ := exists_append_of_byteCount_lt ⟨rest, hrest.symm⟩
        (List.prefix_append line tail) hlong
      rw [List.dropLast_append_of_ne_nil hmore]
      exact List.mem_append_left _ hmem
    obtain ⟨own, rfl⟩ := prefix_of_byteCount_le (List.prefix_append line tail)
      ⟨rest, hrest.symm⟩ hle
    refine ⟨own, rfl, openLine_append ?_⟩
    rcases List.mem_append.mp hmem with hmem | hmem
    · refine .inl (atLineStart_of_getLast? ?_)
      have hlast : line.getLast? = some '\n' := by
        rcases List.eq_nil_or_concat line with rfl | ⟨init, c, rfl⟩
        · cases hmem
        · rw [List.concat_eq_append, List.dropLast_concat] at hplain
          rw [List.concat_eq_append, List.mem_append, List.mem_singleton] at hmem
          rw [List.concat_eq_append, List.getLast?_concat, hmem.resolve_left hplain]
      rw [List.getLast?_append, hlast, Option.some_or]
    · exact .inr hmem

theorem proseBetween_append {text before gap after : List Char}
    (htext : text = before ++ gap ++ after) :
    proseBetween text (byteCount before) (byteCount (before ++ gap)) =
      splitProse (byteCount before) (atLineStart before) (lines gap) := by
  rw [proseBetween, byteCount_append, htext, slice_append, List.append_assoc, startsLine_append]

-- A fence in what a block gives, or behind it.
theorem fence_or_later {text : List Char} {region : Region} {prose later ss back : List Segment}
    {range : ByteRange} {info content : List Char} (hprose : .fenced range info content ∉ prose)
    (h : prose ++ (codeSegments text region ++ later) =
      ss ++ .fenced range info content :: back) :
    region.range = range ∧ ss = prose ∨
      ∃ front more, ss = front ++ more ∧ later = more ++ .fenced range info content :: back := by
  obtain ⟨own, rfl, hcode⟩ := append_eq_append_cons h hprose
  cases region with
  | indented code =>
      have hnone : .fenced range info content ∉ codeSegments text (.indented code) := by
        rw [codeSegments]
        split <;> simp
      obtain ⟨more, rfl, hlater⟩ := append_eq_append_cons hcode hnone
      exact .inr ⟨_, more, (List.append_assoc _ _ _).symm, hlater⟩
  | fenced code words inside =>
      cases own with
      | nil =>
          cases hcode
          exact .inl ⟨rfl, List.append_nil prose⟩
      | cons first more =>
          rw [codeSegments, List.singleton_append, List.cons_append, List.cons.injEq] at hcode
          exact .inr ⟨prose ++ [first], more, List.append_cons _ _ _, hcode.2⟩

-- The prose before a fence ends with all that stands before the fence on its line. The induction is
-- on the blocks, as `parts_segmentsFrom` takes them: no other block is on the line, so that all of
-- it is in the gap before the fence.
theorem exists_prose_before_fence {text front line tail : List Char} {ranges : List ByteRange}
    {regions : List Region} {stop : Nat} (htext : text = front ++ (line ++ tail))
    (hlaid : ByteRange.Laid (byteCount front) (line ++ tail) ranges)
    (hregions : regions.map Region.range = ranges.map (closedRange text ⟨0, byteCount text⟩))
    (hown : ranges.Pairwise fun a b => lineAt text (a.stop - 1) < lineAt text b.start)
    (hfirst : front = [] ∨
      ∀ next ∈ ranges.head?, lineAt text (byteCount front - 1) < lineAt text next.start)
    (hline : atLineStart front = true → line = []) (hplain : '\n' ∉ line.dropLast)
    {ss back : List Segment} {range : ByteRange} {info content : List Char}
    (hss : segmentsFrom text stop (byteCount (front ++ line)) regions =
      ss ++ .fenced range info content :: back)
    (hne : lineLead text range.start ≠ []) (hmark : marker? (lineLead text range.start) = none) :
    ∃ init place stem, ss = init ++ [.prose place (stem ++ lineLead text range.start)] := by
  generalize hposition : byteCount front = position at hlaid
  generalize hrest : line ++ tail = rest at hlaid
  induction hlaid generalizing front line tail regions ss with
  | nil position rest =>
      cases List.map_eq_nil_iff.mp hregions
      have hmem : .fenced range info content ∈
          proseBetween text (byteCount (front ++ line)) stop := by
        rw [segmentsFrom] at hss
        rw [hss]
        exact List.mem_append_right _ (List.mem_cons_self ..)
      exact (not_fenced_of_splitProse hmem).elim
  | @cons position gap body later more hbody hmore ih =>
      subst hposition
      rw [hrest] at htext
      obtain ⟨passed, hpassed⟩ : ∃ passed, passed = front ++ (gap ++ body) := ⟨_, rfl⟩
      have hassoc : front ++ (gap ++ (body ++ later)) = passed ++ later := by
        simp only [hpassed, List.append_assoc]
      have hcount : byteCount front + byteCount gap + byteCount body = byteCount passed := by
        simp only [hpassed, byteCount_append, Nat.add_assoc]
      have hnext : front = [] ∨ lineAt (front ++ (gap ++ (body ++ later))) (byteCount front - 1) <
          lineAt (front ++ (gap ++ (body ++ later))) (byteCount front + byteCount gap) := by
        rw [← htext]
        exact hfirst.imp_right fun h => h _ rfl
      obtain ⟨own, rfl, hopen⟩ := openLine_gap hrest hnext hline hplain
      rw [List.pairwise_cons, hcount] at hown
      rw [hassoc] at htext
      have hall : text = [] ++ (passed ++ later) ++ [] := by
        rw [htext, List.append_nil, List.nil_append]
      have hwindow : (⟨0, byteCount text⟩ : ByteRange) =
          ⟨byteCount [], byteCount [] + byteCount (passed ++ later)⟩ := by
        rw [htext, byteCount_nil, Nat.zero_add]
      obtain ⟨line', tail', rfl, hclosed, hline', hplain'⟩ :=
        exists_closedRange hall hwindow (byteCount front + byteCount (line ++ own))
      cases regions with
      | nil => cases hregions
      | cons region others =>
          rw [List.map_cons, List.map_cons, hcount, hclosed, List.cons.injEq] at hregions
          have hstart : region.range.start = byteCount (front ++ line ++ own) := by
            rw [hregions.1]
            simp only [byteCount_append, byteCount_nil, Nat.zero_add, Nat.add_assoc]
          have hstop : region.range.stop = byteCount (passed ++ line') := by
            rw [hregions.1]
            simp only [byteCount_append, byteCount_nil, Nat.zero_add]
          have hsplit : text = front ++ line ++ own ++ (body ++ (line' ++ tail')) := by
            rw [htext, hpassed]
            simp only [List.append_assoc]
          rw [segmentsFrom, hstart, hstop, proseBetween_append hsplit, List.append_assoc] at hss
          rcases fence_or_later not_fenced_of_splitProse hss with
            ⟨rfl, rfl⟩ | ⟨passing, ahead, rfl, hahead⟩
          · have hown := splitProse_openLine (lineList_lines own) (byteCount (front ++ line))
              (atLineStart (front ++ line))
            rw [hstart, hsplit, lineLead_byteCount, hopen] at hne hmark ⊢
            rw [flatten_lines] at hown
            exact hown hne hmark
          · have hfull : passed ≠ [] := by simp [hpassed, hbody]
            obtain ⟨init, place, stem, rfl⟩ := ih htext hregions.2 hown.2
              (.inr fun next hmem => hown.1 next (List.mem_of_mem_head? hmem))
              (fun h => hline' (getLast?_of_atLineStart h hfull)) hplain' hahead hcount.symm rfl
            exact ⟨passing ++ init, place, stem, (List.append_assoc _ _ _).symm⟩

-- No mark is made of quote marks and blanks.
theorem marker?_of_quotes {line : List Char} (h : ∀ c ∈ line, c = '>' ∨ isBlank c = true) :
    marker? line = none := by
  cases hmarker : marker? line with
  | none => rfl
  | some marker =>
      obtain ⟨lead, gap, trailing, hon⟩ := marker?_on hmarker
      have hbang : '!' ∈ line := by
        rw [hon.line_eq]
        simp [marker.keyword.mem_word]
      rcases h '!' hbang with h | h
      · exact absurd h (by decide)
      · rw [isBlank_bang] at h
        cases h

theorem exists_prose_before_block {text : List Char} {ss back : List Segment} {range : ByteRange}
    {info content : List Char} (hown : OwnLines text)
    (hss : segments text ⟨0, byteCount text⟩ = ss ++ .fenced range info content :: back)
    (hquotes : ∀ c ∈ lineLead text range.start, c = '>' ∨ isBlank c = true)
    (hne : lineLead text range.start ≠ []) :
    ∃ init place stem, ss = init ++ [.prose place (stem ++ lineLead text range.start)] := by
  have hslice : slice text 0 (byteCount text) = text := by
    simpa using slice_append [] text []
  have hregions := map_range_regions text ⟨0, byteCount text⟩
  rw [hslice] at hregions
  exact @exists_prose_before_fence text [] [] text _ _ _ rfl (Markdown.laid_codeRanges text) hregions
    hown (.inl rfl) (fun _ => rfl) List.not_mem_nil ss back range info content hss hne
    (marker?_of_quotes hquotes)

end LiveDoc
