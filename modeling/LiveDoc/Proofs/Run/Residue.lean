import LiveDoc.Proofs.Document.Leads
import LiveDoc.Proofs.Document.Lossless
import LiveDoc.Proofs.Run.Prints

namespace LiveDoc

open Text

variable {σ : Type} {executor : Executor σ} {layout : Layout}

-- A walk that has got through its first steps goes on from there, under the conditions that are
-- open there.
theorem exists_walk_behind {front back : List Visit} {branches : List Bool}
    {progress after : Progress σ} {prints : List Print}
    (h : (printVisits executor layout (front ++ back) branches).run progress = (.ok prints, after)) :
    ∃ own rest middle opened, prints = own ++ rest ∧ own.length = front.length ∧
      (printVisits executor layout back opened).run middle = (.ok rest, after) := by
  induction front generalizing branches progress prints with
  | nil => exact ⟨[], prints, progress, branches, rfl, rfl, h⟩
  | cons visit more ih =>
      have hstep : ∃ first others start under, prints = first :: others ∧
          (printVisits executor layout (more ++ back) under).run start = (.ok others, after) := by
        cases visit with
        | prose piece | directive directive | leave =>
            obtain ⟨out, middle, hout, hpure⟩ := Action.run_bind_eq_ok h
            cases hpure
            exact ⟨_, out, _, _, rfl, hout⟩
        | code block | enter guard source span =>
            obtain ⟨own, start, -, h⟩ := Action.run_bind_eq_ok h
            obtain ⟨out, middle, hout, hpure⟩ := Action.run_bind_eq_ok h
            cases hpure
            exact ⟨_, out, _, _, rfl, hout⟩
      obtain ⟨first, others, start, under, rfl, hothers⟩ := hstep
      obtain ⟨own, rest, middle, opened, rfl, hlength, hrest⟩ := ih hothers
      exact ⟨first :: own, rest, middle, opened, rfl, congrArg (· + 1) hlength, hrest⟩

-- Prose before a block that is reached is put out.
theorem prose_of_reached {piece : Prose} {block : CodeBlock} {rest : List Visit}
    {branches : List Bool} {progress after : Progress σ} {own : Option String} {text : String}
    {prints : List Print}
    (h : (printVisits executor layout (.prose piece :: .code block :: rest) branches).run progress =
      (.ok ((.prose piece, own) :: (.code block, some text) :: prints), after)) :
    own = some piece.text := by
  obtain ⟨out, middle, hout, hpure⟩ := Action.run_bind_eq_ok h
  cases hpure
  obtain ⟨shown, start, hshown, hout⟩ := Action.run_bind_eq_ok hout
  obtain ⟨out, middle, -, hpure⟩ := Action.run_bind_eq_ok hout
  cases hpure
  cases hlive : branches.all id with
  | true => rfl
  | false =>
      rw [whereLive, hlive] at hshown
      cases hshown

theorem append_ofList_append_eq_iff {kept rest : String} {lead : List Char} :
    kept ++ String.ofList lead ++ rest = kept ++ rest ↔ lead = [] := by
  rw [← String.toList_inj]
  simp only [String.toList_append, String.toList_ofList, List.append_assoc,
    List.append_cancel_left_eq, List.append_left_eq_self]

-- What stands before the fence of a block on its line, in the prose before the block.
theorem exists_lead_of_visits {text : List Char} {source : Nat} {document : Document}
    {before behind : List Visit} {block : CodeBlock} (hown : OwnLines text)
    (hparse : parseDocument text source = .ok document)
    (hvisits : visits document.nodes = before ++ .code block :: behind)
    (hquotes : ∀ c ∈ lineLead text block.span.range.start, c = '>' ∨ isBlank c = true)
    (hne : lineLead text block.span.range.start ≠ []) :
    ∃ front piece stem, before = front ++ [.prose piece] ∧
      piece.text = String.ofList (stem ++ lineLead text block.span.range.start) := by
  have hshows := shows_parseWindow hparse
  rw [hvisits] at hshows
  obtain ⟨ss, rest, hsegments, hbefore, hrest⟩ := exists_split_of_forall₂ hshows.flip
  cases hrest with
  | cons hfirst _ =>
      cases hfirst with
      | @fenced range info content _ hblock =>
          rw [codeBlock_span hblock] at hquotes hne ⊢
          obtain ⟨init, place, stem, rfl⟩ := exists_prose_before_block hown hsegments hquotes hne
          obtain ⟨front, tail, rfl, -, htail⟩ := exists_split_of_forall₂ hbefore.flip
          cases htail with
          | cons hlast hnil =>
              cases hnil
              cases hlast
              exact ⟨front, _, stem, rfl, rfl⟩

-- A block that leaves nothing, where only quote marks and blanks stand before its fence: those are
-- put out before it all the same. So the document is what it would be without the lines of the
-- block just where the fence starts its line.
theorem residue_of_runDocument {registry : Registry} {text : List Char} {source : Nat}
    {document : Document} {classified : Classified} {progress after : Progress σ}
    {executed : List Executed} (hown : OwnLines text)
    (hparse : parseDocument text source = .ok document)
    (hclassify : classify registry executor.language document = .ok classified)
    (hrun : (runDocument executor classified).run progress = (.ok executed, after)) :
    ∃ prints, (printVisits executor layout (visits classified.document.nodes) []).run
        (progress.pending classified) = (.ok prints, after) ∧
      printed prints = assemble layout executed ∧
      ∀ before block behind front own back,
        visits document.nodes = before ++ .code block :: behind →
        prints = front ++ (.code own, some "") :: back → front.length = before.length →
        (∀ c ∈ lineLead text block.span.range.start, c = '>' ∨ isBlank c = true) →
        ∃ kept, printed front = kept ++ String.ofList (lineLead text block.span.range.start) ∧
          (assemble layout executed = kept ++ printed back ↔
            lineLead text block.span.range.start = []) := by
  obtain ⟨prints, last, hprints, hprinted, halike, -⟩ :=
    exists_prints_of_runDocument layout hclassify hrun
  refine ⟨prints, hprints, hprinted, ?_⟩
  rintro before block behind front own back hvisits rfl hlength hquotes
  have hkept : ∃ kept,
      printed front = kept ++ String.ofList (lineLead text block.span.range.start) := by
    by_cases hne : lineLead text block.span.range.start = []
    · exact ⟨printed front, by simp [hne]⟩
    obtain ⟨start, piece, stem, rfl, hpiece⟩ :=
      exists_lead_of_visits hown hparse hvisits hquotes hne
    rw [hvisits] at halike
    obtain ⟨passed, rest, hsplit, hpassed, -⟩ := exists_split_of_forall₂ halike
    obtain ⟨rfl, -⟩ := List.append_inj hsplit (hlength.trans hpassed.length_eq)
    obtain ⟨shown, tail, rfl, -, htail⟩ := exists_split_of_forall₂ hpassed
    cases htail with
    | cons hlast hnil =>
        cases hnil
        cases hlast with
        | prose _ print =>
            have hwalk := (printing_of_run hprints).1
            rw [List.append_assoc, List.map_append] at hwalk
            rw [← hwalk, List.append_assoc] at hprints
            obtain ⟨passed, rest, middle, opened, hsplit, hpassed, hrest⟩ :=
              exists_walk_behind hprints
            obtain ⟨-, rfl⟩ := List.append_inj hsplit (by rw [hpassed, List.length_map])
            cases prose_of_reached hrest
            refine ⟨printed shown ++ String.ofList stem, ?_⟩
            rw [printed_append, printed, printed, Option.getD_some, hpiece, String.ofList_append,
              String.append_empty, String.append_assoc]
  obtain ⟨kept, hkept⟩ := hkept
  refine ⟨kept, hkept, ?_⟩
  rw [← hprinted, printed_append, printed, Option.getD_some, String.empty_append, hkept]
  exact append_ofList_append_eq_iff

-- A setup block in a quote, and a line of the quote behind it.
def quoted : List Char := "> ```calc {silent}\n> x = true\n> ```\n> next\n".toList

def quotedBlock : CodeBlock :=
  ⟨some "calc", "calc", ["silent"], .ofList [.silent], 0, "```", "x = true\n", "> ",
    ⟨0, ⟨2, 36⟩, 1⟩⟩

def quotedMark : Prose := ⟨"> ", ⟨0, ⟨0, 2⟩, 1⟩⟩

def quotedLine : Prose := ⟨"> next\n", ⟨0, ⟨36, 43⟩, 4⟩⟩

def quotedDocument (modifiers : ModifierSet) : Document :=
  ⟨0, [.prose quotedMark, .code { quotedBlock with modifiers }, .prose quotedLine]⟩

def quotedExecuted : List Executed :=
  [.prose "> ", .block quotedBlock (some ⟨"", []⟩), .prose "> next\n"]

theorem blocks_quoted : Markdown.blocks (slice quoted 0 (byteCount quoted)) =
    ([.fenced ⟨2, 35⟩ "calc {silent}".toList "x = true\n".toList], []) := by
  cbv

theorem ownLines_quoted : OwnLines quoted := by
  have hslice : slice quoted 0 (byteCount quoted) = quoted := by decide +kernel
  have hblocks := blocks_quoted
  rw [hslice] at hblocks
  rw [OwnLines, Markdown.codeRanges, hblocks]
  exact List.pairwise_singleton _ _

theorem parseDocument_quoted : parseDocument quoted 0 = .ok (quotedDocument .empty) := by
  have hsegments : segments quoted ⟨0, byteCount quoted⟩ =
      [.prose 0 "> ".toList, .fenced ⟨2, 36⟩ "calc {silent}".toList "x = true\n".toList,
        .prose 36 "> next\n".toList] := by
    rw [segments, regions, blocks_quoted]
    decide +kernel
  rw [parseDocument, parseWindow, hsegments]
  cbv

theorem classify_quoted : classify .standard "calc" (quotedDocument .empty) =
    .ok ⟨quotedDocument (.ofList [.silent]), "calc"⟩ := by
  cbv

theorem runDocument_quoted :
    (runDocument Executor.calc ⟨quotedDocument (.ofList [.silent]), "calc"⟩).run
        (.start () "block") =
      (.ok quotedExecuted, ⟨(), (Calc.Session.empty.enter 0).bind "x" (.bool true), .empty "block",
        [.succeeded]⟩) := by
  cbv

theorem prints_quoted :
    ((printVisits Executor.calc ⟨"artifacts", "text"⟩
        (visits (quotedDocument (.ofList [.silent])).nodes) []).run
        ((Progress.start () "block").pending ⟨quotedDocument (.ofList [.silent]), "calc"⟩)).1 =
      .ok [(.prose quotedMark, some "> "), (.code quotedBlock, some ""),
        (.prose quotedLine, some "> next\n")] := by
  cbv

theorem lead_quoted : lineLead quoted 2 = "> ".toList := by decide +kernel

theorem quotes_quoted : ∀ c ∈ lineLead quoted 2, c = '>' ∨ isBlank c = true := by
  rw [lead_quoted]
  simp [isBlank]

theorem residue_quoted :
    OwnLines quoted ∧ (∀ c ∈ lineLead quoted 2, c = '>' ∨ isBlank c = true) ∧
    ∃ kept, "> " = kept ++ String.ofList (lineLead quoted 2) ∧
      (assemble ⟨"artifacts", "text"⟩ quotedExecuted = kept ++ "> next\n" ↔
        lineLead quoted 2 = []) := by
  obtain ⟨prints, hprints, -, hresidue⟩ := @residue_of_runDocument _ _ ⟨"artifacts", "text"⟩ _ _ _ _
    _ _ _ _ ownLines_quoted parseDocument_quoted classify_quoted runDocument_quoted
  have hall := prints_quoted
  rw [hprints] at hall
  obtain ⟨kept, hkept, hcut⟩ := hresidue [.prose quotedMark] { quotedBlock with modifiers := .empty }
    [.prose quotedLine] [(.prose quotedMark, some "> ")] quotedBlock
    [(.prose quotedLine, some "> next\n")] rfl (Except.ok.inj hall) rfl quotes_quoted
  exact ⟨ownLines_quoted, quotes_quoted, kept, hkept, hcut⟩

-- The mark of the quoted block stays, so that the line behind the block is quoted twice.
theorem quote_mark_stays :
    quoted = "> ```calc {silent}\n> x = true\n> ```\n".toList ++ "> next\n".toList ∧
    parseDocument quoted 0 = .ok (quotedDocument .empty) ∧
    classify .standard "calc" (quotedDocument .empty) =
      .ok ⟨quotedDocument (.ofList [.silent]), "calc"⟩ ∧
    ((runDocument Executor.calc ⟨quotedDocument (.ofList [.silent]), "calc"⟩).run
      (.start () "block")).1 = .ok quotedExecuted ∧
    assembleBlock ⟨"artifacts", "text"⟩ quotedBlock (some ⟨"", []⟩) = "" ∧
    (∀ c ∈ lineLead quoted 2, c = '>' ∨ isBlank c = true) ∧
    assemble ⟨"artifacts", "text"⟩ quotedExecuted = "> > next\n" ∧
    assemble ⟨"artifacts", "text"⟩ quotedExecuted ≠ "> next\n" := by
  have hout : assemble ⟨"artifacts", "text"⟩ quotedExecuted = "> > next\n" := by cbv
  refine ⟨rfl, parseDocument_quoted, classify_quoted, ?_, by cbv, quotes_quoted, hout, ?_⟩
  · rw [runDocument_quoted]
  · rw [hout]
    decide

end LiveDoc
