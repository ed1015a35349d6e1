import LiveDoc.Document.Section
import LiveDoc.Proofs.Document.Segments
import LiveDoc.Proofs.Source.Validity

namespace LiveDoc

open Text

theorem ByteRange.windows_iff {range : ByteRange} {text : List Char} :
    range.Windows text ↔ ∃ inside, range.Holds 0 text inside := by
  constructor
  · rintro ⟨before, inside, after, htext, hrange⟩
    exact ⟨inside, before, after, htext, by simp [hrange]⟩
  · rintro ⟨inside, before, after, htext, hrange⟩
    exact ⟨before, inside, after, htext, by simp [hrange]⟩

theorem ByteRange.Laid.holds {position : Nat} {text : List Char} {ranges : List ByteRange}
    (h : ByteRange.Laid position text ranges) :
    ∀ range ∈ ranges, ∃ inside, range.Holds position text inside := by
  induction h with
  | nil => exact fun _ hmem => nomatch hmem
  | @cons position gap body rest _ _ _ ih =>
      refine List.forall_mem_cons.mpr ⟨⟨body, gap, rest, by simp, rfl⟩, fun range hmem => ?_⟩
      obtain ⟨inside, hinside⟩ := ih range hmem
      refine ⟨inside, ?_⟩
      rw [← List.append_assoc]
      exact ByteRange.Holds.behind (gap ++ body) (by simpa [Nat.add_assoc] using hinside)

section Regions

variable {text : List Char} {window : ByteRange}

-- With the end of its last line a code block still cuts no character.
theorem windows_of_mem_regions (hwindow : window.Windows text) :
    ∀ region ∈ regions text window, region.range.Windows text := by
  obtain ⟨before, inside, after, htext, hwhole⟩ := hwindow
  intro region hregion
  have hslice : slice text window.start window.stop = inside := by
    rw [htext, hwhole, byteCount_append]
    exact slice_append before inside after
  have hmem : region.range ∈ (regions text window).map Region.range := List.mem_map_of_mem hregion
  rw [map_range_regions, hslice] at hmem
  obtain ⟨range, hrange, hclosed⟩ := List.mem_map.mp hmem
  obtain ⟨body, front, back, rfl, rfl⟩ := (Markdown.laid_codeRanges inside).holds range hrange
  rw [byteCount_append] at hwhole
  obtain ⟨line, rest, rfl, heq, -, -⟩ := exists_closedRange htext hwhole (byteCount front)
  refine ⟨before ++ front, body ++ line, rest ++ after, by simp [htext], ?_⟩
  rw [← hclosed, Nat.zero_add, ← byteCount_append, heq]
  simp [Nat.add_assoc]

end Regions

-- A segment is a stretch of the text, and a mark is a line of it.
def Segment.Placed (text : List Char) (segment : Segment) : Prop :=
  ∃ before stretch after, text = before ++ stretch ++ after ∧ segment.Takes before stretch ∧
    ∀ start line marker, segment = .mark start line marker → '\n' ∉ line.dropLast

section Segments

variable {text : List Char} {window : ByteRange}

theorem placed_prose {before piece after : List Char} (htext : text = before ++ piece ++ after) :
    (Segment.prose (byteCount before) piece).Placed text :=
  ⟨before, piece, after, htext, ⟨rfl, rfl⟩, nofun⟩

theorem placed_splitProse {ls : List (List Char)} (hls : ∀ line ∈ ls, '\n' ∉ line.dropLast)
    {before after : List Char} (htext : text = before ++ ls.flatten ++ after) (whole : Bool) :
    ∀ segment ∈ splitProse (byteCount before) whole ls, segment.Placed text := by
  induction ls generalizing before whole with
  | nil => exact fun _ hmem => nomatch hmem
  | cons line rest ih =>
      have hline : text = before ++ line ++ (rest.flatten ++ after) := by
        simp [htext]
      have hmore := ih (fun l hl => hls l (List.mem_cons_of_mem _ hl))
        (show text = before ++ line ++ rest.flatten ++ after by simp [htext]) true
      rw [byteCount_append] at hmore
      simp only [splitProse]
      split
      · rename_i marker hmarker
        have hmark : marker? line = some marker := by
          cases whole with
          | true => exact hmarker
          | false => cases hmarker
        refine List.forall_mem_cons.mpr ⟨⟨before, line, _, hline, ⟨rfl, rfl, hmark⟩, ?_⟩, hmore⟩
        rintro start own other ⟨⟩
        exact hls _ (List.mem_cons_self ..)
      · split
        · rename_i next piece tail hsplit
          rw [hsplit] at hmore
          obtain ⟨hfirst, htail⟩ := List.forall_mem_cons.mp hmore
          obtain ⟨front, _, back, hfront, ⟨hnext, rfl⟩, -⟩ := hfirst
          -- the lines that follow are kept too, so the stretch starts where this line stops
          have hstart := splitProse_head hsplit
          have heq : front = before ++ line := by
            refine eq_of_byteCount_eq ⟨piece ++ back, ?_⟩ ⟨rest.flatten ++ after, hline.symm⟩ ?_
            · rw [hfront, List.append_assoc]
            · rw [← hnext, hstart, byteCount_append]
          refine List.forall_mem_cons.mpr ⟨@placed_prose text before (line ++ piece) back ?_, htail⟩
          rw [hfront, heq]
          simp
        · exact List.forall_mem_cons.mpr ⟨placed_prose hline, hmore⟩

theorem placed_proseBetween {before rest : List Char} (htext : text = before ++ rest) (stop : Nat) :
    ∀ segment ∈ proseBetween text (byteCount before) stop, segment.Placed text := by
  have hslice : text = before ++ slice text (byteCount before) stop ++
      dropBytes (stop - byteCount before) rest := by
    rw [slice, htext, dropBytes_byteCount, List.append_assoc, takeBytes_append_dropBytes]
  have hlines := (lineList_lines (slice text (byteCount before) stop)).newline_not_mem_dropLast
  rw [← flatten_lines (slice text (byteCount before) stop)] at hslice
  exact placed_splitProse hlines hslice _

theorem placed_codeSegments {region : Region} (hregion : region.range.Windows text) :
    ∀ segment ∈ codeSegments text region, segment.Placed text := by
  obtain ⟨before, inside, after, htext, hrange⟩ := hregion
  cases region with
  | fenced range info content =>
      intro segment hmem
      cases List.mem_singleton.mp hmem
      exact ⟨before, inside, after, htext, hrange, nofun⟩
  | indented range =>
      intro segment hmem
      simp only [codeSegments] at hmem
      split at hmem
      · cases List.mem_singleton.mp hmem
        have hslice : slice text range.start range.stop = inside := by
          rw [show range = _ from hrange, htext, byteCount_append]
          exact slice_append before inside after
        rw [hslice, show range.start = byteCount before from congrArg ByteRange.start hrange]
        exact placed_prose htext
      · cases hmem

-- The text between code blocks is read from where the last one stops, also where the next one
-- starts before that.
theorem placed_segmentsFrom {regions : List Region}
    (hregions : ∀ region ∈ regions, region.range.Windows text) (stop : Nat) {before rest : List Char}
    (htext : text = before ++ rest) :
    ∀ segment ∈ segmentsFrom text stop (byteCount before) regions, segment.Placed text := by
  induction regions generalizing before rest with
  | nil => exact placed_proseBetween htext stop
  | cons region more ih =>
      obtain ⟨hregion, hmore⟩ := List.forall_mem_cons.mp hregions
      have hprose := placed_proseBetween htext region.range.start
      have hcode := placed_codeSegments hregion
      obtain ⟨front, inside, after, hfront, hrange⟩ := hregion
      have hrest := ih hmore hfront
      intro segment hmem
      rw [segmentsFrom, show region.range.stop = _ from congrArg ByteRange.stop hrange] at hmem
      rcases List.mem_append.mp hmem with hmem | hmem
      · rcases List.mem_append.mp hmem with hmem | hmem
        · exact hprose segment hmem
        · exact hcode segment hmem
      · exact hrest segment hmem

theorem placed_segments (hwindow : window.Windows text) :
    ∀ segment ∈ segments text window, segment.Placed text := by
  have hregions := windows_of_mem_regions hwindow
  obtain ⟨before, inside, after, htext, hwhole⟩ := hwindow
  have hstart : window.start = byteCount before := congrArg ByteRange.start hwhole
  rw [segments, hstart]
  refine placed_segmentsFrom hregions _ (show text = before ++ (inside ++ after) from ?_)
  rw [htext, List.append_assoc]

end Segments

section Sections

theorem map_start_headings (text : List Char) : (headings text).map Heading.start =
    (Markdown.blocks text).1.filterMap Markdown.Leaf.headingStart? := by
  rw [headings]
  dsimp only
  rw [List.map_filterMap]
  congr 1
  funext leaf
  cases leaf <;> rfl

theorem marked_headings (text : List Char) :
    ByteRange.Marked 0 text ((headings text).map Heading.start) := by
  rw [map_start_headings]
  exact (Markdown.lays_blocks text).headings

-- A section is cut where its heading and a later one start, or where the text stops.
theorem holds_of_mem_sectionsOf {position : Nat} {text : List Char} {hs : List Heading}
    (h : ByteRange.Marked position text (hs.map Heading.start)) :
    ∀ s ∈ sectionsOf (position + byteCount text) hs, ∃ inside, s.range.Holds position text inside := by
  induction hs generalizing position text with
  | nil => exact fun _ hmem => nomatch hmem
  | cons heading rest ih =>
      obtain ⟨gap, tail, rfl, hstart, hmore⟩ := h.exists_of_cons
      have hstop : position + byteCount (gap ++ tail) = heading.start + byteCount tail := by
        rw [byteCount_append, hstart, Nat.add_assoc]
      have hrest := ih hmore
      rw [hstart] at hrest
      rw [hstop, sectionsOf, hstart]
      refine List.forall_mem_cons.mpr ⟨?_, fun s hmem => ?_⟩
      · split
        · rename_i later hfind
          have hlater := List.mem_map_of_mem (f := Heading.start) (List.mem_of_find?_eq_some hfind)
          obtain ⟨inside, after, rfl, hfinish⟩ := hmore.exists_of_mem _ hlater
          exact ⟨inside, gap, after, by simp, by rw [hfinish, hstart]⟩
        · exact ⟨tail, gap, [], by simp, rfl⟩
      · obtain ⟨inside, hinside⟩ := hrest s hmem
        exact ⟨inside, hinside.behind gap⟩

theorem windows_of_mem_sections {text : List Char} :
    ∀ s ∈ sections text, s.range.Windows text := by
  intro s hmem
  rw [sections, ← Nat.zero_add (byteCount text)] at hmem
  exact ByteRange.windows_iff.mpr (holds_of_mem_sectionsOf (marked_headings text) s hmem)

theorem windows_whole (text : List Char) : ByteRange.Windows ⟨0, byteCount text⟩ text :=
  ⟨[], text, [], by simp, by simp⟩

end Sections

end LiveDoc
