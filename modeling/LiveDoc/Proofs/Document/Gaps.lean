import LiveDoc.Proofs.Document.Contents
import LiveDoc.Proofs.Document.Lossless

namespace LiveDoc

open Text

section Order

-- The blocks of a window in order, each with the end of the line that it closes on. Two of them can
-- close on one line. The induction is on the blocks; `front` is what has been passed of the window.
theorem ordered_closed {text before front rest after : List Char} {window : ByteRange}
    {ranges : List ByteRange} (htext : text = before ++ (front ++ rest) ++ after)
    (hwindow : window = ⟨byteCount before, byteCount before + byteCount (front ++ rest)⟩)
    (hlaid : ByteRange.Laid (byteCount front) rest ranges) :
    (ranges.map (closedRange text window)).Pairwise
        (fun a b => a.start < b.start ∧ a.stop ≤ b.stop) ∧
      ∀ r ∈ ranges.map (closedRange text window),
        byteCount (before ++ front) ≤ r.start ∧ r.start < r.stop ∧ r.stop ≤ window.stop := by
  generalize hposition : byteCount front = position at hlaid
  induction hlaid generalizing front with
  | nil => exact ⟨.nil, List.forall_mem_nil _⟩
  | @cons position gap body tail more hne hmore ih =>
      subst hposition
      obtain ⟨passed, hpassed⟩ : ∃ passed, passed = front ++ (gap ++ body) := ⟨_, rfl⟩
      have hassoc : front ++ (gap ++ (body ++ tail)) = passed ++ tail := by
        simp only [hpassed, List.append_assoc]
      have hcount : byteCount front + byteCount gap + byteCount body = byteCount passed := by
        simp only [hpassed, byteCount_append, Nat.add_assoc]
      rw [hassoc] at htext hwindow
      rw [hcount] at hmore
      obtain ⟨hpairs, hbounds⟩ := ih htext hwindow hcount.symm
      have hpos := byteCount_pos hne
      have hfront : byteCount (before ++ front) + byteCount gap + byteCount body =
          byteCount (before ++ passed) := by
        rw [byteCount_append, byteCount_append before passed, ← hcount]
        omega
      obtain ⟨line, hline⟩ := closing_prefix (before ++ passed) tail
      have hstop : byteCount (before ++ passed) + byteCount (closing (before ++ passed) tail) +
          byteCount line = window.stop := by
        rw [hwindow]
        dsimp only
        conv_rhs => rw [← hline]
        simp only [byteCount_append, Nat.add_assoc]
      rw [List.map_cons, hcount, closedRange_eq htext hwindow, ← Nat.add_assoc, ← byteCount_append]
      refine ⟨.cons (fun r hr => ?_) hpairs, List.forall_mem_cons.mpr ⟨?_, fun r hr => ?_⟩⟩
      · obtain ⟨hstart, -, -⟩ := hbounds r hr
        obtain ⟨range, hrange, rfl⟩ := List.mem_map.mp hr
        obtain ⟨inside, ahead, back, rfl, rfl⟩ := hmore.holds range hrange
        have hsplit : passed ++ (ahead ++ inside ++ back) = passed ++ (ahead ++ inside) ++ back := by
          rw [← List.append_assoc]
        rw [hsplit] at htext hwindow
        have hlater := closedRange_eq htext hwindow (byteCount passed + byteCount ahead)
        rw [byteCount_append passed, byteCount_append ahead, ← Nat.add_assoc] at hlater
        have hle := byteCount_closing_append_le (before ++ passed) back (ahead ++ inside)
        rw [hlater] at hstart ⊢
        dsimp only at hstart ⊢
        rw [List.append_assoc before] at hle
        exact ⟨by omega, hle⟩
      · dsimp only
        omega
      · have := hbounds r hr
        omega

theorem ordered_codeRegions {text : List Char} {window : ByteRange} (hwindow : window.Windows text) :
    (codeRegions text window).Pairwise (fun a b => a.start < b.start ∧ a.stop ≤ b.stop) ∧
      ∀ r ∈ codeRegions text window,
        window.start ≤ r.start ∧ r.start < r.stop ∧ r.stop ≤ window.stop := by
  obtain ⟨before, inside, after, htext, hwhole⟩ := hwindow
  have hslice : slice text window.start window.stop = inside := by
    rw [htext, hwhole, byteCount_append]
    exact slice_append before inside after
  rw [byteCount_append] at hwhole
  have hordered := @ordered_closed text before [] inside after window _ htext hwhole
    (Markdown.laid_codeRanges inside)
  rw [List.append_nil] at hordered
  rw [codeRegions, map_range_regions, hslice]
  rwa [show window.start = byteCount before from congrArg ByteRange.start hwhole]

end Order

-- A place in the reading of a window: `front` is what has been passed of the text, with the blocks
-- `passed` in it, and the blocks `ahead` are to come.
structure Partway (text : List Char) (window : ByteRange) (passed : List Region) (front : List Char)
    (ahead : List Region) : Prop where
  split : regions text window = passed ++ ahead
  ofText : front <+: text
  inside : window.start ≤ byteCount front ∧ byteCount front ≤ window.stop
  first : byteCount front = window.start ∨
    ∃ r ∈ codeRegions text window, r.stop = byteCount front
  behind : ∀ region ∈ passed, region.range.stop ≤ byteCount front
  reach : ∀ region ∈ ahead, byteCount front ≤ region.range.stop

section Gaps

variable {text front : List Char} {window : ByteRange} {passed ahead : List Region}

theorem partway_start {before inside after : List Char} (htext : text = before ++ inside ++ after)
    (hwhole : window = ⟨byteCount before, byteCount (before ++ inside)⟩) :
    Partway text window [] before (regions text window) := by
  have hstart : window.start = byteCount before := congrArg ByteRange.start hwhole
  have hstop : window.stop = byteCount (before ++ inside) := congrArg ByteRange.stop hwhole
  obtain ⟨-, hbounds⟩ := ordered_codeRegions ⟨before, inside, after, htext, hwhole⟩
  refine ⟨rfl, ⟨inside ++ after, by simp [htext]⟩, ⟨Nat.le_of_eq hstart, ?_⟩, .inl hstart.symm,
    List.forall_mem_nil _, fun region hmem => ?_⟩
  · rw [hstop, byteCount_append]
    exact Nat.le_add_right ..
  · have := hbounds _ (List.mem_map_of_mem hmem)
    omega

theorem Partway.head_mem {region : Region} {more : List Region}
    (h : Partway text window passed front (region :: more)) : region ∈ regions text window := by
  simp [h.split]

-- The blocks behind the next one start behind it and stop no earlier.
theorem Partway.later {region : Region} {more : List Region} (hwindow : window.Windows text)
    (h : Partway text window passed front (region :: more)) :
    ∀ other ∈ more, region.range.start < other.range.start ∧ region.range.stop ≤ other.range.stop := by
  obtain ⟨hpairs, -⟩ := ordered_codeRegions hwindow
  rw [codeRegions, h.split, List.map_append, List.map_cons] at hpairs
  obtain ⟨hlater, -⟩ := List.pairwise_cons.mp (List.pairwise_append.mp hpairs).2.1
  exact fun other hother => hlater _ (List.mem_map_of_mem hother)

theorem Partway.next {region : Region} {more : List Region} (hwindow : window.Windows text)
    (h : Partway text window passed front (region :: more)) :
    ∃ next, byteCount next = region.range.stop ∧
      Partway text window (passed ++ [region]) next more := by
  have hcode : region.range ∈ codeRegions text window := List.mem_map_of_mem h.head_mem
  obtain ⟨before, inside, after, htext, hrange⟩ := windows_of_mem_regions hwindow region h.head_mem
  have hstop : byteCount (before ++ inside) = region.range.stop :=
    (congrArg ByteRange.stop hrange).symm
  have hown := (ordered_codeRegions hwindow).2 _ hcode
  have hreach := h.reach region (List.mem_cons_self ..)
  refine ⟨before ++ inside, hstop, by simp [h.split], ⟨after, htext.symm⟩, by omega,
    .inr ⟨_, hcode, hstop.symm⟩, fun other hother => ?_, fun other hother => ?_⟩
  · rcases List.mem_append.mp hother with hother | hother
    · have := h.behind other hother
      omega
    · cases List.mem_singleton.mp hother
      exact Nat.le_of_eq hstop.symm
  · have := h.later hwindow other hother
    omega

-- Where the next block starts behind what has been passed, or the window stops, there is a gap.
theorem Partway.exists_gap (h : Partway text window passed front ahead) {back : List Char}
    (hback : back <+: text) (hle : byteCount front ≤ byteCount back)
    (hstop : byteCount back ≤ window.stop)
    (hlast : byteCount back = window.stop ∨
      ∃ r ∈ codeRegions text window, r.start = byteCount back)
    (hahead : ∀ region ∈ ahead, byteCount back ≤ region.range.start) :
    ∃ gap, back = front ++ gap ∧ IsGap text window (codeRegions text window) front gap := by
  obtain ⟨gap, rfl⟩ := prefix_of_byteCount_le h.ofText hback hle
  refine ⟨gap, rfl, ⟨hback, ⟨h.inside.1, hstop⟩, h.first.imp_right .inr, fun r hr => ?_⟩, hlast⟩
  obtain ⟨region, hregion, rfl⟩ := List.mem_map.mp hr
  rw [h.split] at hregion
  rcases List.mem_append.mp hregion with hregion | hregion
  · exact .inr (h.behind region hregion)
  · exact .inl (hahead region hregion)

theorem Partway.last_gap (hwindow : window.Windows text) (h : Partway text window passed front []) :
    ∃ gap, window.stop = byteCount (front ++ gap) ∧
      IsGap text window (codeRegions text window) front gap := by
  obtain ⟨before, inside, after, htext, hwhole⟩ := hwindow
  have hstop : window.stop = byteCount (before ++ inside) := congrArg ByteRange.stop hwhole
  have hback : before ++ inside <+: text := ⟨after, htext.symm⟩
  obtain ⟨gap, hgap, hisGap⟩ := h.exists_gap hback (hstop ▸ h.inside.2) (Nat.le_of_eq hstop.symm)
    (.inl hstop.symm) (List.forall_mem_nil _)
  exact ⟨gap, hgap ▸ hstop, hisGap⟩

theorem Partway.next_gap {region : Region} {more : List Region} (hwindow : window.Windows text)
    (h : Partway text window passed front (region :: more))
    (hle : byteCount front ≤ region.range.start) :
    ∃ gap, region.range.start = byteCount (front ++ gap) ∧
      IsGap text window (codeRegions text window) front gap := by
  have hcode : region.range ∈ codeRegions text window := List.mem_map_of_mem h.head_mem
  obtain ⟨before, inside, after, htext, hrange⟩ := windows_of_mem_regions hwindow region h.head_mem
  have hstart : region.range.start = byteCount before := congrArg ByteRange.start hrange
  have hown := (ordered_codeRegions hwindow).2 _ hcode
  have hback : before <+: text := ⟨inside ++ after, by simp [htext]⟩
  have hahead : ∀ other ∈ region :: more, byteCount before ≤ other.range.start := by
    refine List.forall_mem_cons.mpr ⟨Nat.le_of_eq hstart.symm, fun other hother => ?_⟩
    have := h.later hwindow other hother
    omega
  obtain ⟨gap, hgap, hisGap⟩ := h.exists_gap hback (hstart ▸ hle) (by omega)
    (.inr ⟨_, hcode, hstart⟩) hahead
  exact ⟨gap, hgap ▸ hstart, hisGap⟩

-- A block that starts in what an earlier one takes has no text before it.
theorem proseBetween_of_le (text : List Char) {start stop : Nat} (h : stop ≤ start) :
    proseBetween text start stop = [] := by
  rw [proseBetween, slice, Nat.sub_eq_zero_of_le h, takeBytes_zero]
  rfl

-- Every segment is read from a gap or from a block.
theorem Partway.gap_of_mem (hwindow : window.Windows text)
    (h : Partway text window passed front ahead) {segment : Segment}
    (hmem : segment ∈ segmentsFrom text window.stop (byteCount front) ahead) :
    (∃ before gap, IsGap text window (codeRegions text window) before gap ∧
      segment ∈ proseBetween text (byteCount before) (byteCount (before ++ gap))) ∨
      ∃ region ∈ regions text window, segment ∈ codeSegments text region := by
  induction ahead generalizing passed front with
  | nil =>
      obtain ⟨gap, hgap, hisGap⟩ := h.last_gap hwindow
      rw [segmentsFrom, hgap] at hmem
      exact .inl ⟨front, gap, hisGap, hmem⟩
  | cons region more ih =>
      rw [segmentsFrom] at hmem
      rcases List.mem_append.mp hmem with hmem | hmem
      · rcases List.mem_append.mp hmem with hmem | hmem
        · by_cases hle : byteCount front ≤ region.range.start
          · obtain ⟨gap, hgap, hisGap⟩ := h.next_gap hwindow hle
            rw [hgap] at hmem
            exact .inl ⟨front, gap, hisGap, hmem⟩
          · rw [proseBetween_of_le text (Nat.le_of_not_le hle)] at hmem
            cases hmem
        · exact .inr ⟨region, by simp [h.split], hmem⟩
      · obtain ⟨next, hnext, hpartway⟩ := h.next hwindow
        rw [← hnext] at hmem
        exact ih hpartway hmem

-- Every line outside code lies in a gap that is read.
theorem Partway.gap_of_isLine (hwindow : window.Windows text)
    (h : Partway text window passed front ahead) {before line : List Char}
    (hline : IsLine text window (codeRegions text window) before line) (hne : line ≠ [])
    (hle : byteCount front ≤ byteCount before) :
    ∃ start gap, IsGap text window (codeRegions text window) start gap ∧
      byteCount start ≤ byteCount before ∧
      byteCount (before ++ line) ≤ byteCount (start ++ gap) ∧
      ∀ segment ∈ proseBetween text (byteCount start) (byteCount (start ++ gap)),
        segment ∈ segmentsFrom text window.stop (byteCount front) ahead := by
  have hpos := byteCount_pos hne
  induction ahead generalizing passed front with
  | nil =>
      obtain ⟨gap, hgap, hisGap⟩ := h.last_gap hwindow
      refine ⟨front, gap, hisGap, hle, hgap ▸ hline.inside.2, fun segment hmem => ?_⟩
      rwa [segmentsFrom, hgap]
  | cons region more ih =>
      have hcode : region.range ∈ codeRegions text window := by
        simp [codeRegions, h.split]
      simp only [segmentsFrom, List.mem_append]
      rcases hline.clear _ hcode with hclear | hclear
      · have hlt : byteCount front ≤ region.range.start := by
          rw [byteCount_append] at hclear
          omega
        obtain ⟨gap, hgap, hisGap⟩ := h.next_gap hwindow hlt
        refine ⟨front, gap, hisGap, hle, hgap ▸ hclear, fun segment hmem => ?_⟩
        rw [hgap]
        exact .inl (.inl hmem)
      · obtain ⟨next, hnext, hpartway⟩ := h.next hwindow
        obtain ⟨start, gap, hisGap, hstart, hstop, hsegments⟩ := ih hpartway (by omega)
        rw [hnext] at hsegments
        exact ⟨start, gap, hisGap, hstart, hstop, fun segment hmem => .inr (hsegments segment hmem)⟩

end Gaps

section Gathered

variable {ps : List Piece} {ss : List Segment} {before stretch : List Char}

theorem Gathers.mark_mem (h : Gathers ps ss) {marker : Marker}
    (hmem : ⟨before, stretch, .mark marker⟩ ∈ ps) :
    .mark (byteCount before) stretch marker ∈ ss := by
  induction h with
  | nil => cases hmem
  | mark _ _ _ _ ih =>
      rcases List.mem_cons.mp hmem with heq | hmem
      · cases heq
        exact List.mem_cons_self ..
      · exact List.mem_cons_of_mem _ (ih hmem)
  | join _ _ _ ih =>
      rcases List.mem_cons.mp hmem with heq | hmem
      · cases heq
      · exact List.mem_cons_of_mem _ ((List.mem_cons.mp (ih hmem)).resolve_left nofun)
  | kept _ _ _ ih | fenced _ _ _ _ _ _ ih | indented _ _ _ _ ih =>
      rcases List.mem_cons.mp hmem with heq | hmem
      · cases heq
      · exact List.mem_cons_of_mem _ (ih hmem)

-- A line that is kept is part of a segment of prose.
theorem Gathers.prose_of_kept (h : Gathers ps ss) (hmem : ⟨before, stretch, .kept⟩ ∈ ps) :
    ∃ start piece, .prose start piece ∈ ss ∧ start ≤ byteCount before ∧
      byteCount (before ++ stretch) ≤ start + byteCount piece := by
  induction h with
  | nil => cases hmem
  | kept own piece _ ih =>
      rcases List.mem_cons.mp hmem with heq | hmem
      · cases heq
        exact ⟨_, _, List.mem_cons_self .., Nat.le_refl _, Nat.le_of_eq (byteCount_append ..)⟩
      · obtain ⟨start, piece, hprose, hbounds⟩ := ih hmem
        exact ⟨start, piece, List.mem_cons_of_mem _ hprose, hbounds⟩
  | @join _ _ more own piece _ ih =>
      -- The prose that the line joins is longer by the line.
      have hgrown : byteCount (own ++ piece) + byteCount more =
          byteCount own + byteCount (piece ++ more) := by
        simp only [byteCount_append, Nat.add_assoc]
      rcases List.mem_cons.mp hmem with heq | hmem
      · cases heq
        refine ⟨_, _, List.mem_cons_self .., Nat.le_refl _, ?_⟩
        rw [← hgrown]
        exact Nat.le_add_right ..
      · obtain ⟨start, found, hprose, hstart, hstop⟩ := ih hmem
        rcases List.mem_cons.mp hprose with heq | hprose
        · cases heq
          refine ⟨_, _, List.mem_cons_self .., ?_, by rwa [← hgrown]⟩
          rw [byteCount_append] at hstart
          omega
        · exact ⟨start, found, List.mem_cons_of_mem _ hprose, hstart, hstop⟩
  | mark _ _ _ _ ih | fenced _ _ _ _ _ _ ih | indented _ _ _ _ ih =>
      rcases List.mem_cons.mp hmem with heq | hmem
      · cases heq
      · obtain ⟨start, piece, hprose, hbounds⟩ := ih hmem
        exact ⟨start, piece, List.mem_cons_of_mem _ hprose, hbounds⟩

end Gathered

section Lines

variable {text before line start gap : List Char} {window : ByteRange} {code : List ByteRange}

theorem IsGap.gathers (h : IsGap text window code start gap) :
    Gathers (linePieces start (lines gap))
      (proseBetween text (byteCount start) (byteCount (start ++ gap))) := by
  obtain ⟨after, hafter⟩ := h.ofText
  exact gathers_proseBetween hafter.symm

theorem IsGap.isLine_of_mem (h : IsGap text window code start gap) :
    ∀ piece ∈ linePieces start (lines gap), piece = linePiece piece.before piece.text ∧
      IsLine text window code piece.before piece.text := by
  refine isLine_of_mem_linePieces (lineList_lines gap) ?_
  rwa [flatten_lines]

-- A line that lies in a gap is one of the lines that the gap is read as.
theorem IsGap.mem_of_isLine (hcode : ∀ r ∈ code, r.start < r.stop)
    (h : IsGap text window code start gap) (hline : IsLine text window code before line)
    (hne : line ≠ []) (hstart : byteCount start ≤ byteCount before)
    (hstop : byteCount (before ++ line) ≤ byteCount (start ++ gap)) :
    linePiece before line ∈ linePieces start (lines gap) := by
  have hpos := byteCount_pos hne
  have hfollow := follow_linePieces (lineList_lines gap) start
  rw [byteCount_append] at hstop
  obtain ⟨piece, hpiece, hlo, hhi⟩ := exists_piece_has hfollow hstart (by
    rw [flatMap_text_linePieces, flatten_lines]
    omega)
  obtain ⟨heq, hown⟩ := h.isLine_of_mem piece hpiece
  simp only [Piece.range] at hlo hhi
  obtain ⟨hbefore, htext⟩ := hown.eq_of_shared hcode hline
    (by rw [byteCount_append]; omega) (by rw [byteCount_append]; omega)
  rwa [heq, hbefore, htext] at hpiece

theorem not_mark_of_codeSegments {region : Region} {position : Nat} {marker : Marker} :
    .mark position line marker ∉ codeSegments text region := by
  cases region with
  | fenced range info content => simp [codeSegments]
  | indented range =>
      rw [codeSegments]
      split <;> simp

theorem ne_nil_of_marker? {marker : Marker} (h : marker? line = some marker) : line ≠ [] := by
  rintro rfl
  cases h

section Window

variable (hwindow : window.Windows text)

include hwindow

theorem gap_of_mem_segments {segment : Segment} (hmem : segment ∈ segments text window) :
    (∃ start gap, IsGap text window (codeRegions text window) start gap ∧
      segment ∈ proseBetween text (byteCount start) (byteCount (start ++ gap))) ∨
      ∃ region ∈ regions text window, segment ∈ codeSegments text region := by
  have hown := hwindow
  obtain ⟨before, inside, after, htext, hwhole⟩ := hown
  rw [segments, show window.start = byteCount before from congrArg ByteRange.start hwhole] at hmem
  exact (partway_start htext hwhole).gap_of_mem hwindow hmem

-- What a line outside code is read as is found among the segments.
theorem gap_of_isLine (hline : IsLine text window (codeRegions text window) before line)
    (hne : line ≠ []) :
    ∃ start gap, IsGap text window (codeRegions text window) start gap ∧
      linePiece before line ∈ linePieces start (lines gap) ∧
      ∀ segment ∈ proseBetween text (byteCount start) (byteCount (start ++ gap)),
        segment ∈ segments text window := by
  have hcode : ∀ r ∈ codeRegions text window, r.start < r.stop :=
    fun r hr => ((ordered_codeRegions hwindow).2 r hr).2.1
  have hown := hwindow
  obtain ⟨front, inside, after, htext, hwhole⟩ := hown
  have hstart : window.start = byteCount front := congrArg ByteRange.start hwhole
  obtain ⟨start, gap, hgap, hlo, hhi, hsegments⟩ :=
    (partway_start htext hwhole).gap_of_isLine hwindow hline hne (hstart ▸ hline.inside.1)
  rw [← hstart] at hsegments
  exact ⟨start, gap, hgap, hgap.mem_of_isLine hcode hline hne hlo hhi, hsegments⟩

-- The marks are the lines outside code that start a line of the text and can be read as one.
theorem mark_mem_segments_iff {position : Nat} {marker : Marker} :
    .mark position line marker ∈ segments text window ↔
      ∃ before, position = byteCount before ∧
        IsLine text window (codeRegions text window) before line ∧ atLineStart before = true ∧
        marker? line = some marker := by
  constructor
  · intro hmem
    rcases gap_of_mem_segments hwindow hmem with ⟨start, gap, hgap, hmem⟩ | ⟨region, -, hmem⟩
    · obtain ⟨before, hposition, hpiece⟩ := hgap.gathers.mem_mark hmem
      obtain ⟨heq, hline⟩ := hgap.isLine_of_mem _ hpiece
      exact ⟨before, hposition, hline, marker?_of_linePiece heq⟩
    · exact (not_mark_of_codeSegments hmem).elim
  · rintro ⟨before, rfl, hline, hfresh, hmarker⟩
    obtain ⟨start, gap, hgap, hpiece, hsegments⟩ :=
      gap_of_isLine hwindow hline (ne_nil_of_marker? hmarker)
    simp only [linePiece, if_pos hfresh, hmarker] at hpiece
    exact hsegments _ (hgap.gathers.mark_mem hpiece)

-- All other lines outside code are kept.
theorem prose_of_isLine (hline : IsLine text window (codeRegions text window) before line)
    (hne : line ≠ []) (hkept : atLineStart before = true → marker? line = none) :
    ∃ position piece, .prose position piece ∈ segments text window ∧
      position ≤ byteCount before ∧
      byteCount (before ++ line) ≤ position + byteCount piece := by
  obtain ⟨start, gap, hgap, hpiece, hsegments⟩ := gap_of_isLine hwindow hline hne
  have hnone : (if atLineStart before = true then marker? line else none) = none := by
    split
    · rename_i hfresh
      exact hkept hfresh
    · rfl
  simp only [linePiece, hnone] at hpiece
  obtain ⟨position, piece, hprose, hbounds⟩ := hgap.gathers.prose_of_kept hpiece
  exact ⟨position, piece, hsegments _ hprose, hbounds⟩

end Window

theorem fenced_mem_segments_iff {range : ByteRange} {info content : List Char} :
    .fenced range info content ∈ segments text window ↔
      .fenced range info content ∈ regions text window := by
  refine ⟨region_of_segmentsFrom, fun hmem => ?_⟩
  rw [segments]
  generalize regions text window = all at hmem ⊢
  generalize window.start = position
  induction all generalizing position with
  | nil => cases hmem
  | cons region more ih =>
      rw [segmentsFrom]
      rcases List.mem_cons.mp hmem with rfl | hmem
      · exact List.mem_append_left _ (List.mem_append_right _ (List.mem_singleton.mpr rfl))
      · exact List.mem_append_right _ (ih hmem _)

end Lines

def Segment.start : Segment → Nat
  | .prose start _ => start
  | .mark start _ _ => start
  | .fenced range _ _ => range.start

section Starts

variable {text front : List Char} {window : ByteRange} {code : List ByteRange}

theorem starts_of_runs {before stretch : List Char} {ss : List Segment} (h : Runs before stretch ss) :
    ss.Pairwise (fun a b => a.start < b.start) ∧
      ∀ s ∈ ss, byteCount before ≤ s.start ∧ s.start < byteCount (before ++ stretch) := by
  induction h with
  | nil => exact ⟨.nil, List.forall_mem_nil _⟩
  | @cons before stretch rest segment more hne htakes _ ih =>
      obtain ⟨hpairs, hbounds⟩ := ih
      have hpos := byteCount_pos hne
      have hstart : segment.start = byteCount before := by
        cases segment with
        | prose | mark => exact htakes.1
        | fenced range info content => exact congrArg ByteRange.start htakes
      simp only [byteCount_append] at hbounds ⊢
      refine ⟨.cons (fun s hs => ?_) hpairs, List.forall_mem_cons.mpr ⟨?_, fun s hs => ?_⟩⟩
      · have := hbounds s hs
        omega
      · omega
      · have := hbounds s hs
        omega

theorem IsGap.starts {gap : List Char} {all : List Region}
    (h : IsGap text window (all.map Region.range) front gap) :
    (proseBetween text (byteCount front) (byteCount (front ++ gap))).Pairwise
        (fun a b => a.start < b.start) ∧
      ∀ s ∈ proseBetween text (byteCount front) (byteCount (front ++ gap)),
        byteCount front ≤ s.start ∧ s.start < byteCount (front ++ gap) := by
  have hruns := runs_of_gathers h.gathers (follow_linePieces (lineList_lines gap) front)
    fun piece hpiece => .inr (h.isLine_of_mem piece hpiece)
  rw [flatMap_text_linePieces, flatten_lines] at hruns
  exact starts_of_runs hruns

theorem start_of_codeSegments {region : Region} :
    (codeSegments text region).Pairwise (fun a b => a.start < b.start) ∧
      ∀ s ∈ codeSegments text region, s.start = region.range.start := by
  cases region with
  | fenced range info content =>
      exact ⟨List.pairwise_singleton _ _, fun s hs => by cases List.mem_singleton.mp hs; rfl⟩
  | indented range =>
      rw [codeSegments]
      split
      · exact ⟨List.pairwise_singleton _ _, fun s hs => by cases List.mem_singleton.mp hs; rfl⟩
      · exact ⟨.nil, List.forall_mem_nil _⟩

theorem Partway.starts_before {passed more : List Region} {region : Region}
    (hwindow : window.Windows text) (h : Partway text window passed front (region :: more)) :
    (proseBetween text (byteCount front) region.range.start).Pairwise
        (fun a b => a.start < b.start) ∧
      ∀ s ∈ proseBetween text (byteCount front) region.range.start,
        byteCount front ≤ s.start ∧ s.start < region.range.start := by
  by_cases hle : byteCount front ≤ region.range.start
  · obtain ⟨gap, hgap, hisGap⟩ := h.next_gap hwindow hle
    rw [hgap]
    exact hisGap.starts
  · rw [proseBetween_of_le text (Nat.le_of_not_le hle)]
    exact ⟨.nil, List.forall_mem_nil _⟩

-- Segments come in the order of the text. A block that starts in what an earlier one takes starts
-- behind it all the same.
theorem Partway.starts {passed ahead : List Region} (hwindow : window.Windows text)
    (h : Partway text window passed front ahead) :
    (segmentsFrom text window.stop (byteCount front) ahead).Pairwise
        (fun a b => a.start < b.start) ∧
      ∀ s ∈ segmentsFrom text window.stop (byteCount front) ahead,
        byteCount front ≤ s.start ∨ ∃ region ∈ ahead, s.start = region.range.start := by
  induction ahead generalizing passed front with
  | nil =>
      obtain ⟨gap, hgap, hisGap⟩ := h.last_gap hwindow
      obtain ⟨hpairs, hbounds⟩ := hisGap.starts
      rw [segmentsFrom, hgap]
      exact ⟨hpairs, fun s hs => .inl (hbounds s hs).1⟩
  | cons region more ih =>
      have hown := (ordered_codeRegions hwindow).2 _ (List.mem_map_of_mem h.head_mem)
      obtain ⟨hprose, hbefore⟩ := h.starts_before hwindow
      obtain ⟨hblock, hstart⟩ := @start_of_codeSegments text region
      obtain ⟨next, hnext, hpartway⟩ := h.next hwindow
      obtain ⟨hpairs, hbounds⟩ := ih hpartway
      have hbehind : ∀ s ∈ segmentsFrom text window.stop (byteCount next) more,
          region.range.start < s.start := by
        intro s hs
        rcases hbounds s hs with hle | ⟨other, hother, heq⟩
        · omega
        · have := h.later hwindow other hother
          omega
      rw [segmentsFrom, ← hnext]
      refine ⟨List.pairwise_append.mpr ⟨List.pairwise_append.mpr ⟨hprose, hblock, ?_⟩, hpairs, ?_⟩, ?_⟩
      · intro a ha b hb
        rw [hstart b hb]
        exact (hbefore a ha).2
      · intro a ha b hb
        have hb := hbehind b hb
        rcases List.mem_append.mp ha with ha | ha
        · exact Nat.lt_trans (hbefore a ha).2 hb
        · rwa [hstart a ha]
      · intro s hs
        rcases List.mem_append.mp hs with hs | hs
        · rcases List.mem_append.mp hs with hs | hs
          · exact .inl (hbefore s hs).1
          · exact .inr ⟨region, List.mem_cons_self .., hstart s hs⟩
        · rcases hbounds s hs with hle | ⟨other, hother, heq⟩
          · have := h.reach region (List.mem_cons_self ..)
            exact .inl (by omega)
          · exact .inr ⟨other, List.mem_cons_of_mem _ hother, heq⟩

theorem starts_segments (hwindow : window.Windows text) :
    (segments text window).Pairwise (fun a b => a.start < b.start) := by
  have hown := hwindow
  obtain ⟨before, inside, after, htext, hwhole⟩ := hown
  rw [segments, show window.start = byteCount before from congrArg ByteRange.start hwhole]
  exact ((partway_start htext hwhole).starts hwindow).1

end Starts

end LiveDoc
