import LiveDoc.Proofs.Document.Leads
import LiveDoc.Proofs.Document.Places
import LiveDoc.Proofs.Document.Visits
import LiveDoc.Proofs.Markdown.CodeLines

namespace LiveDoc

open Text Markdown

section Segments

variable {text : List Char} {window : ByteRange} {range : ByteRange} {info content : List Char}

-- Fenced code comes from a fenced region.
theorem region_of_segmentsFrom {stop position : Nat} {regions : List Region}
    (h : .fenced range info content ∈ segmentsFrom text stop position regions) :
    .fenced range info content ∈ regions := by
  induction regions generalizing position with
  | nil => exact (not_fenced_of_splitProse h).elim
  | cons region rest ih =>
      rw [segmentsFrom] at h
      rcases List.mem_append.mp h with h | h
      · rcases List.mem_append.mp h with h | h
        · exact (not_fenced_of_splitProse h).elim
        · cases region with
          | fenced own ownInfo ownContent =>
              cases List.mem_singleton.mp h
              exact List.mem_cons_self ..
          | indented own =>
              rw [codeSegments] at h
              split at h
              · cases List.mem_singleton.mp h
              · cases h
      · exact List.mem_cons_of_mem _ (ih h)

-- Fenced code of a window is fenced code of the text that Markdown is given.
theorem exists_leaf_of_fenced_mem_segments {before inside after : List Char}
    (htext : text = before ++ inside ++ after)
    (hwindow : window = ⟨byteCount before, byteCount (before ++ inside)⟩)
    (h : .fenced range info content ∈ segments text window) :
    ∃ own, .fenced own info content ∈ (blocks inside).1 ∧
      range.start = byteCount before + own.start := by
  subst hwindow
  obtain ⟨leaf, hleaf, hregion⟩ := List.mem_filterMap.mp (region_of_segmentsFrom h)
  have hslice : slice text (byteCount before) (byteCount (before ++ inside)) = inside := by
    rw [htext, byteCount_append, slice_append]
  dsimp only at hleaf
  rw [hslice] at hleaf
  cases leaf with
  | indented | heading => cases hregion
  | fenced own _ _ =>
      cases hregion
      exact ⟨own, hleaf, Nat.add_comm _ _⟩

-- The content of fenced code is read from the lines below the one its fence stands on. What is
-- behind the window may go on with the last of them.
theorem exists_of_fenced_mem_segments (hwindow : window.Windows text)
    (h : .fenced range info content ∈ segments text window) :
    ∃ before code, text = before ++ code ∧ range.start = byteCount before ∧
      AllCarried (lines code).tail (lines content) := by
  obtain ⟨before, inside, after, htext, hwindow⟩ := hwindow
  obtain ⟨own, hleaf, hstart⟩ := exists_leaf_of_fenced_mem_segments htext hwindow h
  cases stands_of_mem_blocks hleaf with
  | @fenced front code _ stop _ hinside hcontent =>
      refine ⟨before ++ front, code ++ after, by simp [htext, hinside], ?_, fun k line hline => ?_⟩
      · simpa using hstart
      · obtain ⟨own, hown, hcarries⟩ := hcontent k line hline
        rw [List.getElem?_tail] at hown
        obtain ⟨tail, htail⟩ := exists_getElem?_lines_append after hown
        exact ⟨own ++ tail, by rw [List.getElem?_tail]; exact htail, hcarries.extend tail⟩

end Segments

-- Where a block stands in the text of its source: on the line that its span names, and its content
-- is read from the lines below.
def CodeBlock.Stands (block : CodeBlock) (text : List Char) : Prop :=
  ∃ before code, text = before ++ code ∧
    block.span.range.start = byteCount before ∧ block.span.line = before.count '\n' + 1 ∧
    AllCarried (lines code).tail (lines block.content.toList)

section Blocks

variable {text : List Char} {source : Nat} {window : ByteRange} {block : CodeBlock}

theorem content_of_codeBlock {info content : List Char} {range : ByteRange}
    (h : codeBlock text source range info content = .ok block) :
    block.content = String.ofList content := by
  unfold codeBlock at h
  dsimp only at h
  split at h
  · cases h
  · cases h
    rfl

theorem exists_segment {segments : List Segment} {vs : List Visit}
    (h : List.Forall₂ (Shows text source) segments vs) {visit : Visit} (hvisit : visit ∈ vs) :
    ∃ segment ∈ segments, Shows text source segment visit := by
  induction h with
  | nil => cases hvisit
  | cons hshows _ ih =>
      rcases List.mem_cons.mp hvisit with rfl | hvisit
      · exact ⟨_, List.mem_cons_self .., hshows⟩
      · obtain ⟨segment, hsegment, hshows⟩ := ih hvisit
        exact ⟨segment, List.mem_cons_of_mem _ hsegment, hshows⟩

theorem stands_of_parseWindow {document : Document} (hwindow : window.Windows text)
    (h : parseWindow text source window = .ok document)
    (hblock : .code block ∈ visits document.nodes) :
    block.span.source = source ∧ block.Stands text := by
  obtain ⟨segment, hsegment, hshows⟩ := exists_segment (shows_parseWindow h) hblock
  cases hshows with
  | @fenced range info content _ hbuilt =>
      obtain ⟨before, code, htext, hstart, hcontent⟩ :=
        exists_of_fenced_mem_segments hwindow hsegment
      have hspan := span_of_codeBlock hbuilt
      refine ⟨by rw [hspan, Span.of], before, code, htext, by rw [hspan]; exact hstart, ?_, ?_⟩
      · rw [hspan, Span.of, hstart, htext]
        dsimp only [lineAt]
        rw [takeBytes_byteCount]
      · rw [content_of_codeBlock hbuilt, String.toList_ofList]
        exact hcontent

-- The line of a block's content that has this number is read from that line of the source.
theorem CodeBlock.Stands.exists_line (h : block.Stands text) {number : Nat} {line : List Char}
    (hline : HasLine block.content.toList number line) :
    ∃ own, HasLine text (block.span.line + number) own ∧ Carries own line := by
  obtain ⟨before, code, htext, -, hnumber, hcarried⟩ := h
  obtain ⟨k, rfl⟩ : ∃ k, number = k + 1 := by
    obtain ⟨front, back, -, h⟩ := hline
    exact ⟨front.length, h⟩
  obtain ⟨own, hown, hcarries⟩ := hcarried k line (hasLine_iff.mp hline)
  refine ⟨own, ?_, hcarries⟩
  rw [List.getElem?_tail, ← getElem?_lines_append before, ← htext] at hown
  have hindex : block.span.line + (k + 1) = before.count '\n' + k + 1 + 1 := by omega
  rw [hindex]
  exact hasLine_iff.mpr hown

end Blocks

end LiveDoc
