import LiveDoc.Proofs.Document.Contents
import LiveDoc.Run.Layout

namespace LiveDoc

open Text

-- The blanks that end a lead. A blank line gets the lead without them.
def blankEnd (lead : List Char) : List Char := (lead.reverse.takeWhile isBlank).reverse

-- A line without the lead that it repeats: the whole lead where the line starts with it, else the
-- lead without the blanks at its end.
def withoutLead (lead line : List Char) : List Char :=
  match after? lead line with
  | some rest => rest
  | none => (after? (trimEnd isBlank lead) line).getD line

section Line

variable {lead line : List Char}

theorem trimEnd_append_blankEnd (lead : List Char) :
    trimEnd isBlank lead ++ blankEnd lead = lead := by
  rw [trimEnd, blankEnd, ← List.reverse_append, List.takeWhile_append_dropWhile,
    List.reverse_reverse]

theorem withoutLead_append (lead line : List Char) : withoutLead lead (lead ++ line) = line := by
  rw [withoutLead, after?_eq_some_iff.mpr rfl]

-- A line with text in it gets the whole lead.
theorem withoutLead_leadLine_of_text (h : isAllBlank line = false) :
    withoutLead lead (leadLine lead line) = line := by
  rw [leadLine, h]
  exact withoutLead_append lead line

theorem withoutLead_leadLine_of_not_prefix (hblank : isAllBlank line = true)
    (h : ¬blankEnd lead <+: line) : withoutLead lead (leadLine lead line) = line := by
  have hwhole : after? lead (trimEnd isBlank lead ++ line) = none := by
    rw [Option.eq_none_iff_forall_ne_some]
    intro rest hrest
    rw [after?_eq_some_iff] at hrest
    conv_rhs at hrest => rw [← trimEnd_append_blankEnd lead]
    rw [List.append_assoc, List.append_cancel_left_eq] at hrest
    exact h ⟨rest, hrest.symm⟩
  rw [leadLine, hblank, if_pos rfl, withoutLead, hwhole]
  dsimp only
  rw [after?_eq_some_iff.mpr rfl, Option.getD_some]

-- A blank line that goes on as the lead ends is taken for more of the lead.
theorem append_withoutLead_leadLine (hblank : isAllBlank line = true)
    (h : blankEnd lead <+: line) :
    blankEnd lead ++ withoutLead lead (leadLine lead line) = line := by
  obtain ⟨rest, rfl⟩ := h
  rw [leadLine, hblank, if_pos rfl, ← List.append_assoc, trimEnd_append_blankEnd,
    withoutLead_append]

theorem exists_leadLine (hlead : '\n' ∉ lead) (line : List Char) :
    ∃ own, leadLine lead line = own ++ line ∧ '\n' ∉ own := by
  refine ⟨_, rfl, ?_⟩
  split
  · intro h
    rw [← trimEnd_append_blankEnd lead] at hlead
    exact hlead (List.mem_append_left _ h)
  · exact hlead

end Line

-- How lines that repeat a lead stand to the lines they are made of: without the lead each is its
-- line again, but for a blank line that starts with the blanks of the lead's end. That one is
-- without these.
def LeadComesOff (lead : List Char) (owns ls : List (List Char)) : Prop :=
  List.Forall₂ (fun own line =>
    (¬(isAllBlank line = true ∧ blankEnd lead <+: line) → withoutLead lead own = line) ∧
    (isAllBlank line = true ∧ blankEnd lead <+: line →
      blankEnd lead ++ withoutLead lead own = line)) owns ls

theorem leadComesOff_map (lead : List Char) (ls : List (List Char)) :
    LeadComesOff lead (ls.map (leadLine lead)) ls := by
  rw [LeadComesOff, List.forall₂_map_left_iff, List.forall₂_same]
  intro line _
  refine ⟨fun h => ?_, fun h => append_withoutLead_leadLine h.1 h.2⟩
  cases hblank : isAllBlank line with
  | false => exact withoutLead_leadLine_of_text hblank
  | true => exact withoutLead_leadLine_of_not_prefix hblank fun hprefix => h ⟨hblank, hprefix⟩

-- A text and one that repeats a lead on its later lines: the first line is the same.
def ComesOff (lead own whole : List Char) : Prop :=
  (lines own).head? = (lines whole).head? ∧ LeadComesOff lead (lines own).tail (lines whole).tail

section Lines

variable {lead : List Char}

theorem lineList_map_leadLine (hlead : '\n' ∉ lead) {ls : List (List Char)} (h : LineList ls) :
    LineList (ls.map (leadLine lead)) := by
  induction h with
  | nil => exact .nil
  | @open_ line hne hplain =>
      obtain ⟨own, hline, hown⟩ := exists_leadLine hlead line
      rw [List.map_singleton, hline]
      exact .open_ (List.append_ne_nil_of_right_ne_nil own hne) (by simp [hown, hplain])
  | @ended front more hplain _ ih =>
      obtain ⟨own, hline, hown⟩ := exists_leadLine hlead (front ++ ['\n'])
      rw [List.map_cons, hline, ← List.append_assoc]
      exact .ended (by simp [hown, hplain]) ih

-- A lead changes no line break: the first line stays, and each later one becomes a line.
theorem lines_leadLines (hlead : '\n' ∉ lead) (text : List Char) :
    lines (leadLines lead text) =
      (lines text).take 1 ++ (lines text).tail.map (leadLine lead) := by
  have hlines := lineList_lines text
  unfold leadLines
  generalize lines text = ls at hlines
  cases hlines with
  | nil => rfl
  | open_ hne hplain =>
      simpa using lines_of_newline_not_mem hplain hne
  | ended hplain hmore =>
      exact (LineList.ended hplain (lineList_map_leadLine hlead hmore)).lines_flatten

theorem head?_lines_leadLines (hlead : '\n' ∉ lead) (text : List Char) :
    (lines (leadLines lead text)).head? = (lines text).head? := by
  rw [lines_leadLines hlead]
  cases lines text <;> rfl

theorem tail_lines_leadLines (hlead : '\n' ∉ lead) (text : List Char) :
    (lines (leadLines lead text)).tail = (lines text).tail.map (leadLine lead) := by
  rw [lines_leadLines hlead]
  cases lines text <;> rfl

-- Of a text that repeats a lead on its later lines the lead comes off again.
theorem comesOff_leadLines (hlead : '\n' ∉ lead) (text : List Char) :
    ComesOff lead (leadLines lead text) text := by
  rw [ComesOff, head?_lines_leadLines hlead, tail_lines_leadLines hlead]
  exact ⟨rfl, leadComesOff_map lead _⟩

end Lines

section Blocks

variable {text : List Char} {source : Nat} {block : CodeBlock}

-- What stands before a fence is part of a line.
theorem newline_not_mem_lead {range : ByteRange} {info content : List Char}
    (h : codeBlock text source range info content = .ok block) : '\n' ∉ block.lead.toList := by
  have hlead : block.lead = String.ofList (containerLead (lineLead text range.start)) := by
    unfold codeBlock at h
    dsimp only at h
    split at h
    · cases h
    · cases h
      rfl
  rw [hlead, String.toList_ofList, containerLead, List.mem_map]
  rintro ⟨c, hc, hnewline⟩
  have hplain : c ≠ '\n' := by
    have hmem := List.mem_takeWhile_imp (List.mem_reverse.mp hc)
    simpa using hmem
  split at hnewline
  · exact hplain hnewline
  · cases hnewline

-- What a block leaves is its pieces with the block's lead.
theorem toList_assembleBlock (layout : Layout) (block : CodeBlock) (result : Option BlockResult) :
    (assembleBlock layout block result).toList =
      leadLines block.lead.toList (joined "\n" (blockPieces layout block result)).toList := by
  unfold assembleBlock
  split
  · rename_i hnone
    rw [hnone]
    rfl
  · rw [String.toList_ofList]

theorem comesOff_assembleBlock {window : ByteRange} {document : Document}
    (h : parseWindow text source window = .ok document)
    (hblock : .code block ∈ visits document.nodes) (layout : Layout)
    (result : Option BlockResult) :
    ComesOff block.lead.toList (assembleBlock layout block result).toList
      (joined "\n" (blockPieces layout block result)).toList := by
  obtain ⟨segment, -, hshows⟩ := exists_segment (shows_parseWindow h) hblock
  cases hshows with
  | fenced hbuilt =>
      rw [toList_assembleBlock]
      exact comesOff_leadLines (newline_not_mem_lead hbuilt) _

end Blocks

-- The lead that a text repeats on its later lines comes off again. What a block of a document leaves is
-- its pieces, so that the containers of the block change none of their lines.
theorem lead_comes_off {lead : List Char} (hlead : '\n' ∉ lead) (text : List Char) :
    ComesOff lead (leadLines lead text) text ∧
      ∀ page source window document block, parseWindow page source window = .ok document →
        .code block ∈ visits document.nodes → ∀ layout result,
          ComesOff block.lead.toList (assembleBlock layout block result).toList
            (joined "\n" (blockPieces layout block result)).toList :=
  ⟨comesOff_leadLines hlead text, fun _ _ _ _ _ h hblock => comesOff_assembleBlock h hblock⟩

theorem quote_marks_come_off :
    '\n' ∉ "> ".toList ∧ leadLines "> ".toList "a\n\nb".toList = "a\n>\n> b".toList ∧
      LeadComesOff "> ".toList [">\n".toList, "> b".toList] ["\n".toList, "b".toList] := by
  have hplain : '\n' ∉ "> ".toList := by decide
  have hlines : leadLines "> ".toList "a\n\nb".toList = "a\n>\n> b".toList := by decide +kernel
  have hoff := (lead_comes_off hplain "a\n\nb".toList).1.2
  rw [hlines] at hoff
  exact ⟨hplain, hlines, hoff⟩

-- Of two blanks behind a quote mark, one is taken for the mark's own.
theorem blank_line_gets_shorter :
    (∀ c ∈ "> ".toList, c = '>' ∨ isBlank c = true) ∧ '\n' ∉ "> ".toList ∧
      lines "a\n  \n".toList = ["a\n".toList, "  \n".toList] ∧
      lines (leadLines "> ".toList "a\n  \n".toList) = ["a\n".toList, ">  \n".toList] ∧
      withoutLead "> ".toList ">  \n".toList = " \n".toList ∧ " \n".toList ≠ "  \n".toList := by
  refine ⟨by simp [isBlank], ?_⟩
  decide +kernel

end LiveDoc
