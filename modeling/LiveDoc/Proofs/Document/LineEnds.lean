import LiveDoc.Proofs.Document.Segments

namespace LiveDoc

open Text

-- Only prose can stop within a line.
def Segment.endsLine : Segment → Bool
  | .prose _ piece => piece.getLast? == some '\n'
  | _ => true

-- Marks start a line of the text, and so do code blocks that nothing stands before.
def Segment.startsLine (text : List Char) : Segment → Bool
  | .prose _ _ => false
  | .mark _ _ _ => true
  | .fenced range _ _ => (lineLead text range.start).isEmpty

-- Segments of which none starts a line within another line, and no prose is empty. The first flag
-- says whether a line has ended before them, the last one whether one has ended with them.
inductive Parted (text : List Char) : Bool → List Segment → Bool → Prop
  | nil (ended : Bool) : Parted text ended [] ended
  | cons {ended last : Bool} {segment : Segment} {more : List Segment} :
      (segment.startsLine text = true → ended = true) → (∀ start, segment ≠ .prose start []) →
      Parted text segment.endsLine more last → Parted text ended (segment :: more) last

theorem ne_prose_of_mark (position : Nat) (line : List Char) (marker : Marker) (start : Nat) :
    Segment.mark position line marker ≠ .prose start [] := by
  intro h
  cases h

-- Segments that part lines between two places of a text, which are given by what is before them.
def Parts (text front : List Char) (ss : List Segment) (back : List Char) : Prop :=
  ∀ ended, (atLineStart front = true → ended = true) →
    ∃ last, Parted text ended ss last ∧ (atLineStart back = true → last = true)

section Parted

variable {text : List Char} {ended middle last : Bool}

-- Prose can stand behind anything.
theorem Parted.prose {start : Nat} {piece : List Char} {more : List Segment} (hne : piece ≠ [])
    (h : Parted text (Segment.prose start piece).endsLine more last) :
    Parted text ended (.prose start piece :: more) last :=
  .cons (fun hstart => absurd hstart Bool.false_ne_true)
    (fun _ hsame => hne (Segment.prose.inj hsame).2) h

theorem Parted.append {ss ts : List Segment} (h : Parted text ended ss middle)
    (h' : Parted text middle ts last) : Parted text ended (ss ++ ts) last := by
  induction h with
  | nil => exact h'
  | cons hstart hfull _ ih => exact .cons hstart hfull (ih h')

theorem Parted.split {ss ts : List Segment} (h : Parted text ended (ss ++ ts) last) :
    ∃ middle, Parted text ended ss middle ∧ Parted text middle ts last := by
  induction ss generalizing ended with
  | nil => exact ⟨ended, .nil ended, h⟩
  | cons segment more ih =>
      cases h with
      | cons hstart hfull hmore =>
          obtain ⟨middle, hss, hts⟩ := ih hmore
          exact ⟨middle, .cons hstart hfull hss, hts⟩

theorem Parts.append {front place back : List Char} {ss ts : List Segment}
    (h : Parts text front ss place) (h' : Parts text place ts back) :
    Parts text front (ss ++ ts) back := by
  intro ended hended
  obtain ⟨middle, hss, hmiddle⟩ := h ended hended
  obtain ⟨last, hts, hlast⟩ := h' middle hmiddle
  exact ⟨last, hss.append hts, hlast⟩

theorem atLineStart_of_getLast? {before : List Char} (h : before.getLast? = some '\n') :
    atLineStart before = true := by
  rw [atLineStart, h]
  rfl

theorem getLast?_of_atLineStart {before : List Char} (h : atLineStart before = true)
    (hne : before ≠ []) : before.getLast? = some '\n' := by
  rw [atLineStart, List.getLast?_eq_some_getLast hne] at h
  rw [List.getLast?_eq_some_getLast hne]
  simpa using h

-- A text that stops within a line does so behind any other.
theorem atLineStart_append_open {before after : List Char} (h : atLineStart after = false) :
    atLineStart (before ++ after) = false := by
  have hne : after ≠ [] := by
    rintro rfl
    cases h
  rw [atLineStart, List.getLast?_append_of_ne_nil _ hne]
  exact h

theorem lineLead_isEmpty (before after : List Char) :
    (lineLead (before ++ after) (byteCount before)).isEmpty = atLineStart before := by
  rw [lineLead, takeBytes_byteCount]
  rcases List.eq_nil_or_concat before with rfl | ⟨init, c, rfl⟩
  · rfl
  · by_cases hc : c = '\n'
    · simp [atLineStart, hc]
    · simp [atLineStart, hc, beq_eq_false_iff_ne.mpr hc]

-- Prose that is put together from lines is not empty.
theorem ne_nil_of_splitProse {start next : Nat} {whole : Bool} {ls : List (List Char)}
    {piece : List Char} {tail : List Segment} (hls : LineList ls)
    (h : splitProse start whole ls = .prose next piece :: tail) : piece ≠ [] := by
  cases hls with
  | nil => cases h
  | open_ hne _ =>
      simp only [splitProse] at h
      split at h
      · cases h
      · cases h
        exact hne
  | ended _ _ =>
      simp only [splitProse] at h
      split at h
      · cases h
      · split at h <;>
        · cases h
          simp

-- The lines between code blocks. Where they end is seen from the last of them.
theorem parted_splitProse {start : Nat} {whole : Bool} {ls : List (List Char)}
    (hls : LineList ls) (hwhole : whole = true → ended = true) :
    ∃ last, Parted text ended (splitProse start whole ls) last ∧
      (ls.flatten.getLast? = some '\n' → last = true) ∧ (ls = [] → last = ended) := by
  induction hls generalizing start whole ended with
  | nil => exact ⟨ended, .nil ended, fun h => absurd h (by simp), fun _ => rfl⟩
  | @open_ line hne hn =>
      have hlast : line.getLast? ≠ some '\n' := fun h => hn (List.mem_of_getLast? h)
      simp only [splitProse, List.flatten_singleton]
      cases hmark : (if whole then marker? line else none) with
      | none =>
          exact ⟨_, .prose hne (.nil _), fun h => (hlast h).elim,
            fun h => absurd h (List.cons_ne_nil _ _)⟩
      | some marker =>
          have hstart := hwhole (Option.ite_none_right_eq_some.mp hmark).1
          exact ⟨true, .cons (fun _ => hstart) (ne_prose_of_mark _ _ _) (.nil true), fun _ => rfl,
            fun h => absurd h (List.cons_ne_nil _ _)⟩
  | @ended front more hn hmore ih =>
      obtain ⟨last, hparted, hend, hnone⟩ := @ih
        true (start + byteCount (front ++ ['\n'])) true fun _ => rfl
      have hnonempty : (front ++ ['\n']) :: more = [] → last = ended :=
        fun h => absurd h (List.cons_ne_nil _ _)
      have hend' : (front ++ ['\n'] ++ more.flatten).getLast? = some '\n' → last = true := by
        by_cases hempty : more = []
        · exact fun _ => hnone hempty
        · have hne : more.flatten ≠ [] := by
            cases hmore <;> simp_all
          rw [List.getLast?_append_of_ne_nil _ hne]
          exact hend
      simp only [splitProse, List.flatten_cons]
      cases hmark : (if whole then marker? (front ++ ['\n']) else none) with
      | some marker =>
          have hstart := hwhole (Option.ite_none_right_eq_some.mp hmark).1
          exact ⟨last, .cons (fun _ => hstart) (ne_prose_of_mark _ _ _) hparted, hend', hnonempty⟩
      | none =>
          dsimp only
          split
          · -- The line joins prose, which ends where it did before.
            rename_i next piece tail htail
            have hpiece := ne_nil_of_splitProse hmore htail
            rw [htail] at hparted
            cases hparted with
            | cons _ _ hparted =>
                refine ⟨last, .prose (by simp) ?_, hend', hnonempty⟩
                rw [Segment.endsLine, List.getLast?_append_of_ne_nil _ hpiece]
                exact hparted
          · refine ⟨last, .prose (by simp) ?_, hend', hnonempty⟩
            rw [Segment.endsLine, List.getLast?_concat]
            exact hparted

theorem parts_proseBetween {before gap after : List Char} (htext : text = before ++ gap ++ after) :
    Parts text before (proseBetween text (byteCount before) (byteCount (before ++ gap)))
      (before ++ gap) := by
  intro ended hended
  rw [proseBetween, byteCount_append, htext, slice_append, List.append_assoc, startsLine_append]
  obtain ⟨last, hparted, hend, hnone⟩ := parted_splitProse (lineList_lines gap) hended
  refine ⟨last, hparted, fun hstart => ?_⟩
  by_cases hgap : gap = []
  · subst hgap
    rw [List.append_nil] at hstart
    rw [hnone rfl]
    exact hended hstart
  · apply hend
    rw [flatten_lines, ← List.getLast?_append_of_ne_nil before hgap]
    exact getLast?_of_atLineStart hstart (by simp [hgap])

theorem parts_codeSegments {before code after : List Char} {region : Region}
    (htext : text = before ++ code ++ after) (hne : code ≠ [])
    (hrange : region.range = ⟨byteCount before, byteCount (before ++ code)⟩) :
    Parts text before (codeSegments text region) (before ++ code) := by
  intro ended hended
  cases region with
  | fenced range info content =>
      refine ⟨true, .cons (fun hstart => hended ?_) nofun (.nil true), fun _ => rfl⟩
      have hstartRange : range.start = byteCount before := congrArg ByteRange.start hrange
      rw [Segment.startsLine, hstartRange, htext, List.append_assoc, lineLead_isEmpty] at hstart
      exact hstart
  | indented range =>
      have hpos := byteCount_pos hne
      have hslice := slice_append before code after
      change range = _ at hrange
      rw [byteCount_append] at hrange
      have hlt : byteCount before < byteCount before + byteCount code := by omega
      simp only [codeSegments, hrange, hlt, if_true, htext, hslice]
      refine ⟨_, .prose hne (.nil _), fun hstart => ?_⟩
      have hlast := getLast?_of_atLineStart hstart (by simp [hne])
      rw [List.getLast?_append_of_ne_nil _ hne] at hlast
      simpa [Segment.endsLine] using hlast

-- A line that is still open where code starts on it holds the whole gap before the code. Then the
-- code does not start a line.
theorem parts_gap {before front line tail gap rest after : List Char}
    (htext : text = before ++ (front ++ (gap ++ rest)) ++ after) (hrest : line ++ tail = gap ++ rest)
    (hline : atLineStart front = true → line = []) (hplain : '\n' ∉ line.dropLast) :
    Parts text (before ++ front ++ line) (proseBetween text (byteCount (before ++ front ++ line))
      (byteCount (before ++ front ++ gap))) (before ++ front ++ gap) := by
  by_cases hlong : byteCount gap < byteCount line
  · obtain ⟨open_, hne, rfl⟩ := exists_append_of_byteCount_lt ⟨rest, hrest.symm⟩
      (List.prefix_append line tail) hlong
    have hempty : proseBetween text (byteCount (before ++ front ++ (gap ++ open_)))
        (byteCount (before ++ front ++ gap)) = [] := by
      have hzero : byteCount (before ++ front ++ gap) -
          byteCount (before ++ front ++ (gap ++ open_)) = 0 := by
        simp only [byteCount_append]
        omega
      rw [proseBetween, slice, hzero, takeBytes_zero]
      rfl
    rw [hempty]
    refine fun ended _ => ⟨ended, .nil ended, fun hstart => ?_⟩
    rw [List.dropLast_append_of_ne_nil hne] at hplain
    by_cases hgap : gap = []
    · subst hgap
      rw [List.append_nil] at hstart
      by_cases hfront : front = []
      · exact absurd (hline (by rw [hfront]; rfl)) (by simp [hne])
      · have hlast := getLast?_of_atLineStart hstart (by simp [hfront])
        rw [List.getLast?_append_of_ne_nil _ hfront] at hlast
        exact absurd (hline (atLineStart_of_getLast? hlast)) (by simp [hne])
    · have hlast := getLast?_of_atLineStart hstart (by simp [hgap])
      rw [List.getLast?_append_of_ne_nil _ hgap] at hlast
      exact absurd (List.mem_append_left _ (List.mem_of_getLast? hlast)) hplain
  · obtain ⟨own, rfl⟩ := prefix_of_byteCount_le (List.prefix_append line tail)
      ⟨rest, hrest.symm⟩ (Nat.le_of_not_lt hlong)
    rw [← List.append_assoc (before ++ front)]
    refine @parts_proseBetween text (before ++ front ++ line) own (rest ++ after) ?_
    simp only [htext, List.append_assoc]

end Parted

-- The induction is on the code blocks. `front` is what has been passed of the window up to the end
-- of the last block, and `line` is the rest of the line that this block closes on.
theorem parts_segmentsFrom {text before after front line tail : List Char} {window : ByteRange}
    {ranges : List ByteRange} {regions : List Region}
    (htext : text = before ++ (front ++ (line ++ tail)) ++ after)
    (hwindow : window = ⟨byteCount before, byteCount before + byteCount (front ++ (line ++ tail))⟩)
    (hlaid : ByteRange.Laid (byteCount front) (line ++ tail) ranges)
    (hregions : regions.map Region.range = ranges.map (closedRange text window))
    (hline : atLineStart front = true → line = []) (hplain : '\n' ∉ line.dropLast) :
    Parts text (before ++ front ++ line)
      (segmentsFrom text window.stop (byteCount (before ++ front ++ line)) regions)
      (before ++ (front ++ (line ++ tail))) := by
  generalize hposition : byteCount front = position at hlaid
  generalize hrest : line ++ tail = rest at hlaid
  induction hlaid generalizing front line tail regions with
  | nil position rest =>
      subst hrest
      cases List.map_eq_nil_iff.mp hregions
      have hassoc : before ++ (front ++ (line ++ tail)) = before ++ front ++ line ++ tail := by
        simp only [List.append_assoc]
      have hstop : window.stop = byteCount (before ++ front ++ line ++ tail) := by
        rw [hwindow]
        simp only [byteCount_append, Nat.add_assoc]
      rw [hassoc] at htext ⊢
      rw [segmentsFrom, hstop]
      exact parts_proseBetween htext
  | @cons position gap body later more hne hmore ih =>
      subst hposition
      rw [hrest] at htext hwindow
      obtain ⟨passed, hpassed⟩ : ∃ passed, passed = front ++ (gap ++ body) := ⟨_, rfl⟩
      have hassoc : front ++ (gap ++ (body ++ later)) = passed ++ later := by
        simp only [hpassed, List.append_assoc]
      have hcount : byteCount front + byteCount gap + byteCount body = byteCount passed := by
        simp only [hpassed, byteCount_append, Nat.add_assoc]
      have hfull : passed ≠ [] := by simp [hpassed, hne]
      have hgap := parts_gap htext hrest hline hplain
      rw [hassoc] at htext hwindow ⊢
      obtain ⟨line', tail', rfl, hclosed, hline', hplain'⟩ :=
        exists_closedRange htext hwindow (byteCount front + byteCount gap)
      cases regions with
      | nil => cases hregions
      | cons region others =>
          rw [List.map_cons, List.map_cons, hcount, hclosed, List.cons.injEq] at hregions
          have hcode : before ++ front ++ gap ++ (body ++ line') = before ++ passed ++ line' := by
            simp only [hpassed, List.append_assoc]
          have hrange : region.range = ⟨byteCount (before ++ front ++ gap),
              byteCount (before ++ front ++ gap ++ (body ++ line'))⟩ := by
            rw [hregions.1, hcode]
            simp only [byteCount_append, Nat.add_assoc]
          have hsplit : text = before ++ front ++ gap ++ (body ++ line') ++ (tail' ++ after) := by
            rw [htext, hcode]
            simp only [List.append_assoc]
          have hregion := parts_codeSegments hsplit (by simp [hne]) hrange
          have hothers := ih htext hwindow hregions.2
            (fun hstart => hline' (getLast?_of_atLineStart hstart hfull)) hplain' hcount.symm rfl
          rw [segmentsFrom, hrange]
          rw [hcode] at hregion ⊢
          exact (hgap.append hregion).append hothers

theorem segments_of_empty {text : List Char} {window : ByteRange}
    (hslice : slice text window.start window.stop = []) : segments text window = [] := by
  have hregions := map_range_regions text window
  rw [hslice, show Markdown.codeRanges [] = [] by cbv] at hregions
  rw [segments, List.map_eq_nil_iff.mp hregions, segmentsFrom, proseBetween, hslice]
  rfl

theorem parted_segments {text before inside after : List Char} {window : ByteRange}
    (htext : text = before ++ inside ++ after)
    (hwindow : window = ⟨byteCount before, byteCount (before ++ inside)⟩) :
    ∃ last, Parted text true (segments text window) last ∧
      (atLineStart inside = true → last = true) := by
  rw [byteCount_append] at hwindow
  have hslice : slice text window.start window.stop = inside := by
    rw [htext, hwindow, slice_append]
  have hstart : window.start = byteCount (before ++ [] ++ []) := by
    rw [hwindow, List.append_nil, List.append_nil]
  have hregions := map_range_regions text window
  rw [hslice] at hregions
  obtain ⟨last, hparted, hlast⟩ := @parts_segmentsFrom text before after [] [] inside window _ _
    htext hwindow (Markdown.laid_codeRanges inside) hregions (fun _ => rfl) List.not_mem_nil true
    fun _ => rfl
  rw [← hstart] at hparted
  refine ⟨last, hparted, fun hend => ?_⟩
  by_cases hne : inside = []
  · rw [hne] at hslice
    rw [show segmentsFrom text window.stop window.start (regions text window) = [] from
      segments_of_empty hslice] at hparted
    cases hparted
    rfl
  · refine hlast (atLineStart_of_getLast? ?_)
    rw [List.nil_append, List.nil_append, List.getLast?_append_of_ne_nil _ hne]
    exact getLast?_of_atLineStart hend hne

end LiveDoc
