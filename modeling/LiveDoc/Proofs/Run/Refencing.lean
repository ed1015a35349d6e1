import LiveDoc.Proofs.Document.FencedText
import LiveDoc.Proofs.Run.OutputFence
import Mathlib

namespace LiveDoc

open Text Markdown

-- The code of a block as it stands between its fences: the last line is ended.
def endedContent (content : String) : String := if content.isEmpty then "" else endLine content

-- The code that is read back from there.
def rereadContent (content : String) : String :=
  String.ofList ((lines (endedContent content).toList).map codeLine).flatten

section Content

variable {content : String}

theorem ended_lines (content : String) :
    lines (endedContent content).toList = [] ∨
      (lines (endedContent content).toList).flatten.getLast? = some '\n' := by
  rw [endedContent]
  split
  · exact .inl rfl
  · rw [flatten_lines]
    exact .inr (getLast?_endLine content)

theorem not_closesFence_of_mem_ended {mark : Char} {marks : Nat} (hmark : IsFenceMark mark)
    (h : ∀ line ∈ lines content.toList, ¬ClosesFence mark marks line) :
    ∀ line ∈ lines (endedContent content).toList, ¬ClosesFence mark marks line := by
  intro line hline
  rw [endedContent] at hline
  split at hline
  · cases hline
  · rename_i hempty
    rw [toList_endLine] at hline
    split at hline
    · rw [List.append_nil] at hline
      exact h line hline
    · rename_i hopen
      have hne : lines content.toList ≠ [] := by
        intro hnil
        have hflat := flatten_lines content.toList
        rw [hnil] at hflat
        exact hempty (String.isEmpty_iff.mpr (String.toList_eq_nil_iff.mp hflat.symm))
      have hlines := lineList_lines content.toList
      rw [← flatten_lines content.toList] at hopen hline
      rcases hlines.mem_lines_concat hne hopen hline with hline | ⟨last, hlast, rfl⟩
      · exact h line hline
      · rw [closesFence_append_lineEnd hmark rfl]
        exact h last hlast

-- Code without carriage returns is read back as it is, with its last line ended.
theorem rereadContent_of_not_mem (h : '\r' ∉ content.toList) :
    rereadContent content = endedContent content := by
  have hended : '\r' ∉ (endedContent content).toList := by
    rw [endedContent]
    split
    · exact List.not_mem_nil
    · rw [toList_endLine, List.mem_append, not_or]
      refine ⟨h, ?_⟩
      split <;> decide
  have hlines : (lines (endedContent content).toList).map codeLine =
      lines (endedContent content).toList := by
    conv_rhs => rw [← List.map_id (lines (endedContent content).toList)]
    refine List.map_congr_left fun line hline => codeLine_of_not_mem fun hmem => hended ?_
    rw [← flatten_lines (endedContent content).toList]
    exact List.mem_flatten.mpr ⟨line, hline, hmem⟩
  rw [rereadContent, hlines, flatten_lines, String.ofList_toList]

end Content

section Blocks

variable {block : CodeBlock} {mark : Char} {marks : Nat} {info content : List Char}

theorem toList_codeFence (h : block.Describes (List.replicate marks mark) info content) :
    (codeFence block).toList =
      written mark marks info (lines (endedContent block.content).toList) ++ ['\n'] := by
  have hcode : codeFence block =
      block.fence ++ block.info ++ "\n" ++ endedContent block.content ++ block.fence ++ "\n" := rfl
  have hnewline : "\n".toList = ['\n'] := rfl
  rw [hcode, h.fence_eq, h.info_eq, written, flatten_lines]
  simp only [String.toList_append, String.toList_ofList, hnewline, List.append_assoc]

-- Code written between fences is a document of one block.
theorem parseDocument_codeFence (h : block.Describes (List.replicate marks mark) info content)
    (hwritten : Written mark marks info (lines (endedContent block.content).toList))
    (hplain : '{' ∉ info) :
    let emitted := (codeFence block).toList
    blocks emitted = ([.fenced ⟨0, byteCount emitted - 1⟩ info
      (rereadContent block.content).toList], []) ∧
    parseDocument emitted 0 = .ok ⟨0, [.code { block with
      tags := []
      modifiers := .empty
      index := 0
      content := rereadContent block.content
      lead := ""
      span := Span.of emitted 0 ⟨0, byteCount emitted⟩ }]⟩ := by
  intro emitted
  have hemitted : emitted =
      written mark marks info (lines (endedContent block.content).toList) ++ ['\n'] :=
    toList_codeFence h
  have hblocks := blocks_written hwritten
  have hsize : byteCount emitted - 1 =
      byteCount (written mark marks info (lines (endedContent block.content).toList)) := by
    rw [hemitted, byteCount_append]
    rfl
  have hmark : mark ≠ '\n' := by
    rintro rfl
    cases hwritten.isMark.not_isLineEnd
  have hlone := parseDocument_of_lone_block (getLast?_written hwritten) hmark
    (congrArg Prod.fst hblocks) (codeBlock_written hwritten hplain _ rfl _)
  refine ⟨?_, ?_⟩
  · rw [hsize, rereadContent, String.toList_ofList, hemitted]
    exact hblocks
  · rw [hemitted, hlone, ← h.language_eq, ← h.info_eq, ← h.fence_eq]
    rfl

-- What a block whose fence starts a line is read from. None of its lines of code closes its fence,
-- unless the last loses a carriage return before a mark of the fence.
theorem exists_describes {text : List Char} {source : Nat} {window : ByteRange}
    {document : Document} (hwindow : window.Windows text)
    (h : parseWindow text source window = .ok document)
    (hblock : .code block ∈ visits document.nodes)
    (hfresh : ∀ c, (takeBytes block.span.range.start text).getLast? = some c →
      Markdown.isLineEnd c = true) :
    ∃ mark marks info content, block.Describes (List.replicate marks mark) info content ∧
      IsFenceMark mark ∧ 3 ≤ marks ∧ IsTrimmed info ∧ '{' ∉ info ∧
      (¬['\r', mark] <:+ slice text window.start window.stop →
        ∀ line ∈ lines content, ¬ClosesFence mark marks line) := by
  obtain ⟨before, inside, after, htext, hw⟩ := hwindow
  obtain ⟨segment, hsegment, hshows⟩ := exists_segment (shows_parseWindow h) hblock
  cases hshows with
  | @fenced range words content _ hbuilt =>
      obtain ⟨own, hleaf, hstart⟩ := exists_leaf_of_fenced_mem_segments htext hw hsegment
      have hspan : block.span.range.start = range.start := by rw [span_of_codeBlock hbuilt, Span.of]
      have hinside : slice text window.start window.stop = inside := by
        rw [hw, htext, byteCount_append, slice_append]
      rw [hspan, hstart] at hfresh
      obtain ⟨front, code, least, mark, rfl, hfront, hfence, hcontent⟩ :=
        exists_fence_of_mem_blocks hleaf fun front code hsplit hfront c hc => hfresh c (by
          rw [htext, hsplit, hfront, ← byteCount_append, List.append_assoc, List.append_assoc,
            ← List.append_assoc before, takeBytes_byteCount]
          rw [List.getLast?_append, hc]
          rfl)
      obtain ⟨hmark, hleast, tail, rfl, hrun⟩ := fence?_eq_some hfence
      obtain ⟨info, tags, hsplit, hdescribes⟩ := describes_of_codeBlock hbuilt
      obtain ⟨htrimmed, hplain⟩ := info_of_splitInfo hsplit
      have hfenceAt : fenceAt text range.start =
          List.replicate (run mark (tail ++ after) + 1) mark := by
        have hsource : text = (before ++ front) ++ mark :: (tail ++ after) := by
          rw [htext]
          simp
        rw [hstart, hfront, ← byteCount_append, hsource]
        exact fenceAt_byteCount _ mark _
      rw [hfenceAt] at hdescribes
      have hle : least ≤ run mark (tail ++ after) + 1 := by
        rw [hrun]
        exact Nat.succ_le_succ (run_le_append mark tail after)
      refine ⟨mark, _, info, content, hdescribes, hmark, by omega, htrimmed, hplain,
        fun hreturn line hline hcloses => ?_⟩
      rw [hcontent] at hline
      refine not_closesFence_of_mem_fencedLines hmark (by omega) (fun hlast => hreturn ?_) line hline
        (hcloses.mono hle)
      rw [hinside]
      exact hlast.trans ((List.drop_suffix _ _).trans (List.suffix_append _ _))

-- A block whose fence starts a line is written so that its code keeps between its fences.
theorem exists_written {text : List Char} {source : Nat} {window : ByteRange} {document : Document}
    (hwindow : window.Windows text) (h : parseWindow text source window = .ok document)
    (hblock : .code block ∈ visits document.nodes)
    (hfresh : ∀ c, (takeBytes block.span.range.start text).getLast? = some c →
      Markdown.isLineEnd c = true)
    (hinfo : ∀ mark, block.fence.toList.head? = some mark → ReadsBack mark block.info.toList)
    (hreturn : ∀ mark, block.fence.toList.head? = some mark →
      ¬['\r', mark] <:+ slice text window.start window.stop) :
    ∃ mark marks info content, block.Describes (List.replicate marks mark) info content ∧
      Written mark marks info (lines (endedContent block.content).toList) ∧ '{' ∉ info := by
  obtain ⟨mark, marks, info, content, hdescribes, hmark, hmarks, htrimmed, hplain, hopen⟩ :=
    exists_describes hwindow h hblock hfresh
  have hhead : block.fence.toList.head? = some mark := by
    rw [hdescribes.fence_eq, String.toList_ofList, List.head?_replicate, if_neg (by omega)]
  refine ⟨mark, marks, info, content, hdescribes, ?_, hplain⟩
  constructor
  · exact hmark
  · exact hmarks
  · have hreads := hinfo mark hhead
    rwa [hdescribes.info_eq, String.toList_ofList] at hreads
  · exact htrimmed
  · exact lineList_lines _
  · exact ended_lines _
  · refine not_closesFence_of_mem_ended hmark fun line hline => ?_
    rw [hdescribes.content_eq, String.toList_ofList] at hline
    exact hopen (hreturn mark hhead) line hline

-- Code that is written again reads back: as one block that ends at the closing fence, with the
-- fence, the info and the language of the block, and with its content as the lines between the
-- fences are read.
theorem code_reads_back {text : List Char} {source : Nat} {window : ByteRange}
    {document : Document} (hwindow : window.Windows text)
    (h : parseWindow text source window = .ok document)
    (hblock : .code block ∈ visits document.nodes)
    (hfresh : ∀ c, (takeBytes block.span.range.start text).getLast? = some c →
      Markdown.isLineEnd c = true)
    (hinfo : ∀ mark, block.fence.toList.head? = some mark → ReadsBack mark block.info.toList)
    (hreturn : ∀ mark, block.fence.toList.head? = some mark →
      ¬['\r', mark] <:+ slice text window.start window.stop) :
    let emitted := (codeFence block).toList
    (∀ layout modifiers index result, modifiers.showsCode = true →
      ∃ others, blockPieces layout { block with modifiers, index } result =
        codeFence block :: others) ∧
    blocks emitted = ([.fenced ⟨0, byteCount emitted - 1⟩ block.info.toList
      (rereadContent block.content).toList], []) ∧
    parseDocument emitted 0 = .ok ⟨0, [.code { block with
      tags := []
      modifiers := .empty
      index := 0
      content := rereadContent block.content
      lead := ""
      span := Span.of emitted 0 ⟨0, byteCount emitted⟩ }]⟩ ∧
    ('\r' ∉ block.content.toList → rereadContent block.content = endedContent block.content) := by
  obtain ⟨mark, marks, info, content, hdescribes, hwritten, hplain⟩ :=
    exists_written hwindow h hblock hfresh hinfo hreturn
  obtain ⟨hblocks, hdocument⟩ := parseDocument_codeFence hdescribes hwritten hplain
  refine ⟨fun layout modifiers index result hshows => ?_, ?_, hdocument, rereadContent_of_not_mem⟩
  · simp only [blockPieces, hshows, if_true]
    exact ⟨_, rfl⟩
  · rw [hdescribes.info_eq, String.toList_ofList]
    exact hblocks

end Blocks

def tildeText : List Char := "~~~ calc {silent}\nx = true\n~~~\n".toList

def tildeBlock : CodeBlock :=
  ⟨some "calc", "calc", ["silent"], .empty, 0, "~~~", "x = true\n", "", ⟨0, ⟨0, 31⟩, 1⟩⟩

theorem parseWindow_tildeText :
    parseWindow tildeText 0 ⟨0, byteCount tildeText⟩ = .ok ⟨0, [.code tildeBlock]⟩ := by
  cbv

theorem tilde_block_reads_back :
    ByteRange.Windows ⟨0, byteCount tildeText⟩ tildeText ∧
      parseWindow tildeText 0 ⟨0, byteCount tildeText⟩ = .ok ⟨0, [.code tildeBlock]⟩ ∧
      ReadsBack '~' tildeBlock.info.toList ∧
      ¬['\r', '~'] <:+ slice tildeText 0 (byteCount tildeText) ∧
      blocks (codeFence tildeBlock).toList =
        ([.fenced ⟨0, byteCount (codeFence tildeBlock).toList - 1⟩ tildeBlock.info.toList
          (rereadContent tildeBlock.content).toList], []) := by
  have hwindow := windows_whole tildeText
  have hblock : .code tildeBlock ∈ visits [.code tildeBlock] := by
    simp [visits, Node.visits]
  have hfresh : ∀ c, (takeBytes tildeBlock.span.range.start tildeText).getLast? = some c →
      Markdown.isLineEnd c = true := by
    intro c hc
    cases (takeBytes_zero tildeText) ▸ hc
  have hreads : ReadsBack '~' tildeBlock.info.toList := by
    constructor
    · decide
    · decide
    · decide
    · cbv
  have hinfo : ∀ mark, tildeBlock.fence.toList.head? = some mark →
      ReadsBack mark tildeBlock.info.toList := by
    rintro mark ⟨⟩
    exact hreads
  have hend : ¬['\r', '~'] <:+ slice tildeText 0 (byteCount tildeText) := by
    decide +kernel
  have hreturn : ∀ mark, tildeBlock.fence.toList.head? = some mark →
      ¬['\r', mark] <:+ slice tildeText 0 (byteCount tildeText) := by
    rintro mark ⟨⟩
    exact hend
  exact ⟨hwindow, parseWindow_tildeText, hreads, hend,
    (code_reads_back hwindow parseWindow_tildeText hblock hfresh hinfo hreturn).2.1⟩

-- The block that is all of a text of so many bytes.
def blockOf (fence info content : String) (size : Nat) : CodeBlock :=
  ⟨(words info.toList).head?.map String.ofList, info, [], .empty, 0, fence, content, "",
    ⟨0, ⟨0, size⟩, 1⟩⟩

-- Code whose last line is open, code with a carriage return at the end of a line, an info that
-- starts with a mark of its fence, and a last line that only becomes a fence as it is read: each is
-- read back otherwise.
theorem code_reads_back_otherwise :
    (parseDocument "~~~x\nabc".toList 0 = .ok ⟨0, [.code (blockOf "~~~" "x" "abc" 8)]⟩ ∧
      parseDocument (codeFence (blockOf "~~~" "x" "abc" 8)).toList 0 =
        .ok ⟨0, [.code (blockOf "~~~" "x" "abc\n" 13)]⟩) ∧
    (parseDocument "~~~x\na\r\r\n~~~\n".toList 0 =
        .ok ⟨0, [.code (blockOf "~~~" "x" "a\r\n" 13)]⟩ ∧
      parseDocument (codeFence (blockOf "~~~" "x" "a\r\n" 13)).toList 0 =
        .ok ⟨0, [.code (blockOf "~~~" "x" "a\n" 12)]⟩) ∧
    (parseDocument "~~~ ~x\nabc\n~~~\n".toList 0 =
        .ok ⟨0, [.code (blockOf "~~~" "~x" "abc\n" 15)]⟩ ∧
      parseDocument (codeFence (blockOf "~~~" "~x" "abc\n" 15)).toList 0 =
        .ok ⟨0, [.code (blockOf "~~~~" "x" "abc\n~~~\n" 14)]⟩) ∧
    (parseDocument "~~~x\n~~\r~".toList 0 = .ok ⟨0, [.code (blockOf "~~~" "x" "~~~" 9)]⟩ ∧
      blocks (codeFence (blockOf "~~~" "x" "~~~" 9)).toList =
        ([.fenced ⟨0, 8⟩ ['x'] [], .fenced ⟨9, 13⟩ [] []], [])) := by
  refine ⟨⟨?_, ?_⟩, ⟨?_, ?_⟩, ⟨?_, ?_⟩, ?_, ?_⟩ <;> cbv

end LiveDoc
