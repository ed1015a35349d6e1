import LiveDoc.Proofs.Calc.Shifting
import LiveDoc.Proofs.Document.Brackets
import LiveDoc.Proofs.Document.FencedText
import LiveDoc.Proofs.Document.Positions

namespace LiveDoc

open Text Markdown

-- A line with a keyword and an argument: blanks before, between and behind them, and nothing else.
def Writes (keyword : Keyword) (front argument line : List Char) : Prop :=
  ∃ lead gap trailing, line = front ++ argument ++ trailing ∧ front = lead ++ keyword.word ++ gap ∧
    gap ≠ [] ∧ (∀ c ∈ lead, isBlank c) ∧ (∀ c ∈ gap, isBlank c) ∧ ∀ c ∈ trailing, isBlank c

-- What a path, a section or a condition can be: something, without blanks at its ends.
structure IsWritten (name : List Char) : Prop where
  ne_nil : name ≠ []
  trimmed : IsTrimmed name

theorem isWritten_of_trimBlanks {name : List Char} (hne : name ≠ []) (h : trimBlanks name = name) :
    IsWritten name := ⟨hne, h ▸ isTrimmed_trimBlanks name⟩

-- A line is read as the mark that is written on it.
theorem marker?_of_writes {keyword : Keyword} {front argument line : List Char}
    (hargument : IsWritten argument) (h : Writes keyword front argument line) :
    marker? line = some ⟨keyword, front, argument⟩ := by
  obtain ⟨lead, gap, trailing, rfl, rfl, hgap, hlead, hblank, htrailing⟩ := h
  exact marker?_eq_some_iff.mpr ⟨lead, gap, trailing, rfl, rfl, hlead, hblank, htrailing,
    fun _ => hgap, hargument.trimmed.1, hargument.trimmed.2, fun hnil => (hargument.ne_nil hnil).elim⟩

section Targets

variable {path part : List Char}

-- The section is what follows the last `#`, also where the path has one.
theorem includeTarget_append (hpath : IsWritten path) (hpart : IsWritten part) (hplain : '#' ∉ part) :
    includeTarget (path ++ '#' :: part) = .ok (path, some part) := by
  have hback : ((path ++ '#' :: part).reverse.takeWhile (· != '#')).reverse = part := by
    have hkept : ∀ c ∈ part.reverse, (c != '#') = true := fun c hc =>
      bne_iff_ne.mpr fun heq => hplain (heq ▸ List.mem_reverse.mp hc)
    rw [List.reverse_append, List.reverse_cons, List.append_assoc,
      List.takeWhile_append_of_pos hkept]
    simp
  have hshort : part.length ≠ (path ++ '#' :: part).length := by
    simp only [List.length_append, List.length_cons]
    omega
  have hfront : (path ++ '#' :: part).take
      ((path ++ '#' :: part).length - part.length - 1) = path := by
    refine List.take_left' ?_
    simp only [List.length_append, List.length_cons]
    omega
  rw [includeTarget, if_neg (by simp)]
  dsimp only
  rw [hback, if_neg hshort, hfront, trimBlanks_of_isTrimmed hpart.trimmed,
    trimBlanks_of_isTrimmed hpath.trimmed, if_neg hpart.ne_nil, if_neg hpath.ne_nil]

theorem includeTarget_of_not_mem (hpath : IsWritten path) (hplain : '#' ∉ path) :
    includeTarget path = .ok (path, none) := by
  have hback : (path.reverse.takeWhile (· != '#')).reverse = path := by
    rw [List.takeWhile_eq_self_iff.mpr, List.reverse_reverse]
    exact fun c hc => bne_iff_ne.mpr fun heq => hplain (heq ▸ List.mem_reverse.mp hc)
  rw [includeTarget, if_neg hpath.ne_nil]
  dsimp only
  rw [hback, if_pos rfl]

theorem IsWritten.append (hpath : IsWritten path) (hpart : IsWritten part) :
    IsWritten (path ++ '#' :: part) := by
  refine ⟨by simp, fun c hc => ?_, fun c hc => ?_⟩
  · rw [List.head?_append_of_ne_nil _ hpath.ne_nil] at hc
    exact hpath.trimmed.1 c hc
  · rw [List.getLast?_append_of_ne_nil _ (List.cons_ne_nil _ _),
      List.getLast?_cons_of_ne_nil hpart.ne_nil] at hc
    exact hpart.trimmed.2 c hc

end Targets

section Readings

variable {text front before line : List Char} {window : ByteRange} {visit : Visit}

theorem parseGuard_shift {words : List Char} {guard : Calc.Guard} (amount : Nat)
    (h : Calc.parseGuard words 0 = .ok guard) :
    Calc.parseGuard words amount = .ok (guard.shift amount) := by
  have hshift := @Calc.shifts_parseGuard amount 0 words
  rw [h, Nat.zero_add] at hshift
  generalize Calc.parseGuard words amount = later at hshift
  cases hshift with
  | ok hlater => rw [hlater]

variable (text line) (source start : Nat)

theorem reading_insert {argument path : List Char} {part : Option (List Char)}
    (h : includeTarget argument = .ok (path, part)) :
    Marker.reading ⟨.insert, front, argument⟩ text source start line =
      .ok (.directive ⟨String.ofList path, part.map String.ofList, markSpan text source start line⟩) := by
  rw [Marker.reading]
  dsimp only
  rw [h]

theorem reading_startIf {words : List Char} {guard : Calc.Guard} (hne : words ≠ [])
    (h : Calc.parseGuard words 0 = .ok guard) :
    Marker.reading ⟨.startIf, front, words⟩ text source start line =
      .ok (.enter (guard.shift (start + byteCount front)) (String.ofList words)
        (markSpan text source start line)) := by
  rw [Marker.reading]
  dsimp only
  rw [if_neg hne, parseGuard_shift _ h]

end Readings

-- What a tree has of a segment that can be read.
theorem mem_visits_of_reading {text : List Char} {source : Nat} {window : ByteRange}
    {segment : Segment} {visit : Visit} (hmem : segment ∈ segments text window)
    (hreading : segment.reading text source = .ok visit) {document : Document}
    (hparse : parseWindow text source window = .ok document) : visit ∈ visits document.nodes := by
  have hall := readings_of_parseWindow hparse
  have hread : .ok visit ∈ (visits document.nodes).map (Except.ok (ε := DocumentError)) := by
    rw [← hall, ← hreading]
    exact List.mem_map_of_mem hmem
  obtain ⟨own, hown, heq⟩ := List.mem_map.mp hread
  cases heq
  exact hown

-- A line that is a mark and says what a visit has, in every tree that has the line.
def DecodesAs (text : List Char) (source : Nat) (window : ByteRange) (before line : List Char)
    (visit : Visit) : Prop :=
  (∃ marker, .mark (byteCount before) line marker ∈ segments text window ∧
    marker.reading text source (byteCount before) line = .ok visit) ∧
  ∀ document, parseWindow text source window = .ok document → visit ∈ visits document.nodes

-- A line that is kept as it stands, in prose that is part of every tree.
def KeptIn (text : List Char) (source : Nat) (window : ByteRange) (before line : List Char) : Prop :=
  ∃ position front back, .prose position (front ++ line ++ back) ∈ segments text window ∧
    position + byteCount front = byteCount before ∧
    ∀ document, parseWindow text source window = .ok document →
      .prose ⟨String.ofList (front ++ line ++ back), Span.of text source
        ⟨position, position + byteCount (front ++ line ++ back)⟩⟩ ∈ visits document.nodes

-- What is read of a line outside code.
structure Decodes (text : List Char) (source : Nat) (window : ByteRange) (before line : List Char) :
    Prop where
  withSection : ∀ front path part, IsWritten path → IsWritten part → '#' ∉ part →
    Writes .insert front (path ++ '#' :: part) line → atLineStart before = true →
    DecodesAs text source window before line (.directive ⟨String.ofList path,
      some (String.ofList part), markSpan text source (byteCount before) line⟩)
  whole : ∀ front path, IsWritten path → '#' ∉ path → Writes .insert front path line →
    atLineStart before = true →
    DecodesAs text source window before line
      (.directive ⟨String.ofList path, none, markSpan text source (byteCount before) line⟩)
  condition : ∀ front words guard, IsWritten words → Calc.parseGuard words 0 = .ok guard →
    Writes .startIf front words line → atLineStart before = true →
    DecodesAs text source window before line
      (.enter (guard.shift (byteCount (before ++ front))) (String.ofList words)
        (markSpan text source (byteCount before) line))
  onlyMarked : ∀ marker, .mark (byteCount before) line marker ∈ segments text window →
    atLineStart before = true ∧ IsMarked line
  argument : ∀ marker, .mark (byteCount before) line marker ∈ segments text window →
    ∃ trailing, line = marker.front ++ marker.argument ++ trailing ∧
      (∀ c ∈ trailing, isBlank c) ∧ '\n' ∉ marker.argument
  others : ¬ (atLineStart before = true ∧ IsMarked line) → KeptIn text source window before line

section Lines

variable {text before line : List Char} {window : ByteRange} (hwindow : window.Windows text)
  (hline : IsLine text window (codeRegions text window) before line)

include hwindow hline

theorem decodesAs_of_marker {source : Nat} {marker : Marker} {visit : Visit}
    (hstart : atLineStart before = true) (hmarker : marker? line = some marker)
    (hreading : marker.reading text source (byteCount before) line = .ok visit) :
    DecodesAs text source window before line visit := by
  have hmem := (mark_mem_segments_iff hwindow).mpr ⟨before, rfl, hline, hstart, hmarker⟩
  exact ⟨⟨marker, hmem, hreading⟩, fun document => mem_visits_of_reading hmem hreading⟩

-- Prose that reaches over a line holds it.
theorem keptIn_of_not_marked (source : Nat) (hne : line ≠ [])
    (hkept : ¬ (atLineStart before = true ∧ IsMarked line)) :
    KeptIn text source window before line := by
  have hnone : atLineStart before = true → marker? line = none := by
    intro hstart
    rw [← Option.not_isSome_iff_eq_none]
    exact fun hsome => hkept ⟨hstart, isSome_marker?_iff.mp hsome⟩
  obtain ⟨position, piece, hprose, hlo, hhi⟩ := prose_of_isLine hwindow hline hne hnone
  obtain ⟨ahead, stretch, after, htext, ⟨rfl, rfl⟩, -⟩ := placed_segments hwindow _ hprose
  rw [← byteCount_append] at hhi
  have hpiece : ahead ++ piece <+: text := ⟨after, htext.symm⟩
  obtain ⟨front, rfl⟩ := prefix_of_byteCount_le ((List.prefix_append _ _).trans hpiece)
    ((List.prefix_append before line).trans hline.ofText) hlo
  obtain ⟨back, hback⟩ := prefix_of_byteCount_le hline.ofText hpiece hhi
  have hsplit : piece = front ++ line ++ back := by
    rw [List.append_assoc, List.append_assoc] at hback
    rw [← List.append_cancel_left hback, List.append_assoc]
  subst hsplit
  exact ⟨_, front, back, hprose, (byteCount_append ..).symm,
    fun document => mem_visits_of_reading hprose rfl⟩

theorem marker_lines_decode (hne : line ≠ []) (source : Nat) :
    Decodes text source window before line where
  withSection := fun front path part hpath hpart hplain hwrites hstart =>
    decodesAs_of_marker hwindow hline hstart (marker?_of_writes (hpath.append hpart) hwrites)
      (reading_insert text line source _ (includeTarget_append hpath hpart hplain))
  whole := fun front path hpath hplain hwrites hstart =>
    decodesAs_of_marker hwindow hline hstart (marker?_of_writes hpath hwrites)
      (reading_insert text line source _ (includeTarget_of_not_mem hpath hplain))
  condition := fun front words guard hwords hguard hwrites hstart => by
    rw [byteCount_append]
    exact decodesAs_of_marker hwindow hline hstart (marker?_of_writes hwords hwrites)
      (reading_startIf text line source _ hwords.ne_nil hguard)
  onlyMarked := fun marker hmem => by
    obtain ⟨own, hposition, hown, hstart, hmarker⟩ := (mark_mem_segments_iff hwindow).mp hmem
    have hsame : before = own := eq_of_byteCount_eq
      ((List.prefix_append before line).trans hline.ofText)
      ((List.prefix_append own line).trans hown.ofText) hposition
    exact ⟨hsame ▸ hstart, isSome_marker?_iff.mp (by rw [hmarker]; rfl)⟩
  argument := fun marker hmem => by
    obtain ⟨own, -, -, -, hmarker⟩ := (mark_mem_segments_iff hwindow).mp hmem
    obtain ⟨lead, gap, trailing, hon⟩ := marker?_on hmarker
    refine ⟨trailing, ?_, hon.trailing_blank, fun hnewline => ?_⟩
    · rw [hon.front_eq]
      exact hon.line_eq
    · exact hon.newline_not_mem (List.ne_nil_of_mem hnewline) hline.unbroken
        (List.mem_append_right _ hnewline)
  others := keptIn_of_not_marked hwindow hline source hne

end Lines

-- A wide indentation, a path with a `#` and a line end of two characters; and a word that only starts
-- as a keyword does.
def textWithSection : List Char :=
  "x\n\u2003!include \ta#b.md#One two\u00a0\r\n!ifdef y\n".toList

theorem codeRegions_textWithSection : codeRegions textWithSection ⟨0, 42⟩ = [] := by
  have hblocks : Markdown.blocks (slice textWithSection 0 42) = ([], []) := by
    cbv
  rw [codeRegions, regions, hblocks]
  rfl

theorem isLine_textWithSection {before line after : List Char}
    (htext : textWithSection = before ++ line ++ after) (hfirst : before.getLast? = some '\n')
    (hlast : line.getLast? = some '\n') (hunbroken : '\n' ∉ line.dropLast) :
    IsLine textWithSection ⟨0, 42⟩ (codeRegions textWithSection ⟨0, 42⟩) before line where
  ofText := ⟨after, htext.symm⟩
  inside := by
    have hcount : byteCount textWithSection = 42 := by decide +kernel
    rw [htext, byteCount_append] at hcount
    exact ⟨Nat.zero_le _, Nat.le.intro hcount⟩
  first := .inr (.inl hfirst)
  clear := by
    rw [codeRegions_textWithSection]
    exact List.forall_mem_nil _
  last := .inr (.inl hlast)
  unbroken := hunbroken

theorem decode_textWithSection :
    DecodesAs textWithSection 0 ⟨0, 42⟩ "x\n".toList
        "\u2003!include \ta#b.md#One two\u00a0\r\n".toList
        (.directive ⟨"a#b.md", some "One two", ⟨0, ⟨2, 29⟩, 2⟩⟩) ∧
      KeptIn textWithSection 0 ⟨0, 42⟩
        "x\n\u2003!include \ta#b.md#One two\u00a0\r\n".toList "!ifdef y\n".toList := by
  have hwindow : ByteRange.Windows ⟨0, 42⟩ textWithSection := by
    have hcount : byteCount textWithSection = 42 := by decide +kernel
    exact hcount ▸ windows_whole textWithSection
  have hinclude := marker_lines_decode hwindow
    (@isLine_textWithSection "x\n".toList "\u2003!include \ta#b.md#One two\u00a0\r\n".toList
      "!ifdef y\n".toList (by decide +kernel) (by decide +kernel) (by decide +kernel)
      (by decide +kernel)) (by decide) 0
  have hother := marker_lines_decode hwindow
    (@isLine_textWithSection "x\n\u2003!include \ta#b.md#One two\u00a0\r\n".toList
      "!ifdef y\n".toList [] (by decide +kernel) (by decide +kernel) (by decide +kernel)
      (by decide +kernel)) (by decide) 0
  refine ⟨?_, hother.others ?_⟩
  · have hdecodes := hinclude.withSection "\u2003!include \t".toList "a#b.md".toList "One two".toList
      (isWritten_of_trimBlanks (by decide) (by decide +kernel))
      (isWritten_of_trimBlanks (by decide) (by decide +kernel)) (by decide)
      ⟨['\u2003'], " \t".toList, "\u00a0\r\n".toList, by decide +kernel, by decide +kernel, by decide,
        List.all_eq_true.mp (by decide +kernel), List.all_eq_true.mp (by decide +kernel),
        List.all_eq_true.mp (by decide +kernel)⟩ (by decide)
    exact hdecodes
  · rw [← isSome_marker?_iff]
    decide +kernel

end LiveDoc
