import LiveDoc.Proofs.Document.Contents
import LiveDoc.Proofs.Markdown.FencedBlocks
import Mathlib.Data.List.Infix

namespace LiveDoc

open Text Markdown

section Info

variable {c : Char} {text front back : List Char}

theorem cutAt?_of_not_mem (h : c ∉ text) : cutAt? [c] text = none :=
  cutAt?_eq_none_iff.mpr (mt (List.singleton_infix_iff c text).mp h)

theorem not_mem_of_cutAt?_eq_none (h : cutAt? [c] text = none) : c ∉ text :=
  mt (List.singleton_infix_iff c text).mpr (cutAt?_eq_none_iff.mp h)

theorem not_mem_of_cutAt?_eq_some (h : cutAt? [c] text = some (front, back)) : c ∉ front := by
  obtain ⟨rfl, hfirst⟩ := cutAt?_eq_some_iff.mp h
  intro hc
  obtain ⟨before, behind, rfl⟩ := List.append_of_mem hc
  have hle := hfirst before (behind ++ ([c] ++ back)) (by simp)
  rw [List.length_append, List.length_cons] at hle
  omega

theorem isTrimmed_trimBlanks (text : List Char) : IsTrimmed (trimBlanks text) := by
  constructor
  · intro c hc
    obtain ⟨trailing, hsplit, -⟩ := exists_trimEnd isBlank (text.dropWhile isBlank)
    have hhead : (text.dropWhile isBlank).head? = some c := by
      change (trimEnd isBlank (text.dropWhile isBlank)).head? = some c at hc
      rw [hsplit, List.head?_append, hc]
      rfl
    have hnot := List.head?_dropWhile_not isBlank text
    rw [hhead] at hnot
    exact hnot
  · exact fun c hc => trimEnd_getLast_not hc

theorem trimBlanks_of_isTrimmed (h : IsTrimmed text) : trimBlanks text = text := by
  have hend := @trimEnd_append isBlank text [] h.2 (List.forall_mem_nil _)
  rw [List.append_nil] at hend
  rw [trimBlanks, trim, trimStart, dropWhile_eq_self h.1, hend]

theorem mem_of_mem_trimBlanks (h : c ∈ trimBlanks text) : c ∈ text := by
  obtain ⟨trailing, hsplit, -⟩ := exists_trimEnd isBlank (text.dropWhile isBlank)
  have hmem : c ∈ text.dropWhile isBlank := by
    rw [hsplit]
    exact List.mem_append_left _ h
  exact (List.dropWhile_sublist isBlank).mem hmem

-- An info text without its tags has no blanks at its ends and opens no list of tags.
theorem info_of_splitInfo {info own : List Char} {tags : List (List Char)}
    (h : splitInfo info = .ok (own, tags)) : IsTrimmed own ∧ '{' ∉ own := by
  unfold splitInfo at h
  split at h
  · rename_i hcut
    cases h
    exact ⟨isTrimmed_trimBlanks info,
      fun hmem => not_mem_of_cutAt?_eq_none hcut (mem_of_mem_trimBlanks hmem)⟩
  · rename_i front rest hcut
    split at h
    · cases h
    · split at h
      · cases h
      · cases h
        exact ⟨isTrimmed_trimBlanks front,
          fun hmem => not_mem_of_cutAt?_eq_some hcut (mem_of_mem_trimBlanks hmem)⟩

theorem splitInfo_of_isTrimmed {info : List Char} (h : IsTrimmed info) (hplain : '{' ∉ info) :
    splitInfo info = .ok (info, []) := by
  rw [splitInfo, cutAt?_of_not_mem hplain]
  dsimp only
  rw [trimBlanks_of_isTrimmed h]

end Info

section Fence

variable {text : List Char} {source : Nat} {range : ByteRange} {info content : List Char}
  {block : CodeBlock}

-- What a block says of its fenced code.
structure CodeBlock.Describes (block : CodeBlock) (fence info content : List Char) : Prop where
  fence_eq : block.fence = String.ofList fence
  info_eq : block.info = String.ofList info
  language_eq : block.language = (words info).head?.map String.ofList
  content_eq : block.content = String.ofList content

theorem describes_of_codeBlock (h : codeBlock text source range info content = .ok block) :
    ∃ own tags, splitInfo info = .ok (own, tags) ∧
      block.Describes (fenceAt text range.start) own content := by
  unfold codeBlock at h
  cases hsplit : splitInfo info with
  | error problem =>
      rw [hsplit] at h
      cases h
  | ok parts =>
      rw [hsplit] at h
      cases h
      exact ⟨parts.1, parts.2, rfl, rfl, rfl, rfl, rfl⟩

theorem run_le_append (c : Char) (front back : List Char) : run c front ≤ run c (front ++ back) := by
  rw [run, run, count, count, List.takeWhile_append]
  split
  · rename_i hall
    rw [List.length_append, hall]
    exact Nat.le_add_right _ _
  · exact Nat.le_refl _

-- The fence of a block is all of the run that its first character starts.
theorem fenceAt_byteCount (before : List Char) (mark : Char) (tail : List Char) :
    fenceAt (before ++ mark :: tail) (byteCount before) =
      List.replicate (run mark tail + 1) mark := by
  have hrun : tail.takeWhile (· == mark) = List.replicate (run mark tail) mark :=
    List.eq_replicate_iff.mpr ⟨rfl, fun d hd => by simpa using List.mem_takeWhile_imp hd⟩
  rw [fenceAt, dropBytes_byteCount]
  dsimp only
  rw [hrun, List.replicate_succ]

end Fence

section Lone

variable {whole info content : List Char}

theorem slice_self (text : List Char) (position : Nat) : slice text position position = [] := by
  rw [slice, Nat.sub_self, takeBytes_zero]

theorem proseBetween_self (text : List Char) (position : Nat) :
    proseBetween text position position = [] := by
  rw [proseBetween, slice_self, lines, splitProse]

-- The end of the line that a block closes on belongs to the block.
theorem closingLine_newline {last : Char} (hwhole : whole.getLast? = some last)
    (hlast : last ≠ '\n') :
    closingLine (whole ++ ['\n']) (byteCount whole) (byteCount (whole ++ ['\n'])) =
      byteCount (whole ++ ['\n']) := by
  have hpos : 0 < byteCount whole := byteCount_pos fun hnil => by rw [hnil] at hwhole; cases hwhole
  have hsize : byteCount (whole ++ ['\n']) = byteCount whole + 1 := by
    rw [byteCount_append]
    rfl
  have hslice : slice (whole ++ ['\n']) (byteCount whole) (byteCount (whole ++ ['\n'])) = ['\n'] := by
    have h := slice_append whole ['\n'] []
    rwa [List.append_nil, ← byteCount_append] at h
  have htake : takeBytes (byteCount whole) (whole ++ ['\n']) = whole := takeBytes_byteCount whole _
  unfold closingLine
  rw [hslice, htake]
  dsimp only
  rw [if_neg (by
    rw [hsize]
    rintro (h | h | h)
    · omega
    · omega
    · rw [hwhole] at h
      exact hlast (Option.some.inj h))]
  simp [hsize]

-- A document that is one fenced block.
theorem segments_of_lone_block {last : Char} (hwhole : whole.getLast? = some last)
    (hlast : last ≠ '\n')
    (h : (blocks (whole ++ ['\n'])).1 = [.fenced ⟨0, byteCount whole⟩ info content]) :
    segments (whole ++ ['\n']) ⟨0, byteCount (whole ++ ['\n'])⟩ =
      [.fenced ⟨0, byteCount (whole ++ ['\n'])⟩ info content] := by
  have hslice : slice (whole ++ ['\n']) 0 (byteCount (whole ++ ['\n'])) = whole ++ ['\n'] := by
    have hall := slice_append [] (whole ++ ['\n']) []
    simpa using hall
  have hregions : regions (whole ++ ['\n']) ⟨0, byteCount (whole ++ ['\n'])⟩ =
      [.fenced ⟨0, byteCount (whole ++ ['\n'])⟩ info content] := by
    rw [regions]
    dsimp only
    rw [hslice, h]
    simp only [List.filterMap_cons, List.filterMap_nil, regionOf, ByteRange.shift, Nat.add_zero,
      closingLine_newline hwhole hlast]
  rw [segments, hregions, segmentsFrom, segmentsFrom]
  dsimp only [Region.range]
  rw [proseBetween_self, proseBetween_self, codeSegments]
  rfl

theorem parseDocument_of_lone_block {block : CodeBlock} {last : Char}
    (hwhole : whole.getLast? = some last) (hlast : last ≠ '\n')
    (h : (blocks (whole ++ ['\n'])).1 = [.fenced ⟨0, byteCount whole⟩ info content])
    (hblock : codeBlock (whole ++ ['\n']) 0 ⟨0, byteCount (whole ++ ['\n'])⟩ info content =
      .ok block) :
    parseDocument (whole ++ ['\n']) 0 = .ok ⟨0, [.code block]⟩ := by
  rw [parseDocument, parseWindow, segments_of_lone_block hwhole hlast h, buildNodes,
    List.foldlM_cons, applySegment, hblock]
  rfl

-- A fenced block that is written alone says what it is written from.
theorem codeBlock_written {mark : Char} {marks : Nat} {ls : List (List Char)}
    (hwritten : Written mark marks info ls) (hplain : '{' ∉ info) (range : ByteRange)
    (hstart : range.start = 0) (content : List Char) :
    codeBlock (written mark marks info ls ++ ['\n']) 0 range info content = .ok
      { language := (words info).head?.map String.ofList
        info := String.ofList info
        tags := []
        modifiers := .empty
        index := 0
        fence := String.ofList (List.replicate marks mark)
        content := String.ofList content
        lead := ""
        span := Span.of (written mark marks info ls ++ ['\n']) 0 range } := by
  have hfence : fenceAt (written mark marks info ls ++ ['\n']) 0 = List.replicate marks mark := by
    obtain ⟨-, -, tail, htail, hmarks⟩ := fence?_eq_some (fence?_of_written hwritten)
    rw [htail, hmarks]
    exact fenceAt_byteCount [] mark tail
  have hlead : lineLead (written mark marks info ls ++ ['\n']) 0 = [] := by
    rw [lineLead, takeBytes_zero]
    rfl
  rw [codeBlock, splitInfo_of_isTrimmed hwritten.trimmed hplain, hstart, hfence, hlead]
  rfl

end Lone

end LiveDoc
