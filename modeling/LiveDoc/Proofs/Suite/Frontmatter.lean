import LiveDoc.Suite.Case
import LiveDoc.Proofs.Document.Marks
import LiveDoc.Proofs.Text.Lines
import Mathlib

namespace LiveDoc.Suite

open Text

-- How a line ends.
inductive LineEnd where
  | feed
  | returnFeed

-- What stands before the newline of a line end.
def LineEnd.lead : LineEnd → List Char
  | .feed => []
  | .returnFeed => ['\r']

def LineEnd.chars (stop : LineEnd) : List Char := stop.lead ++ ['\n']

structure Row where
  content : List Char
  stop : LineEnd
  plain : '\n' ∉ content := by decide

def Row.chars (row : Row) : List Char := row.content ++ row.stop.chars

def written (rows : List Row) : List Char := rows.flatMap Row.chars

-- The rows as a text of their own, in which the end of the last one is left out.
def unended (rows : List Row) : List Char :=
  written rows.dropLast ++ (rows.getLast?.map Row.content).getD []

def dashes : List Char := "---".toList

-- A test as it is written: marks of the byte order, a line of dashes, the rows of the settings, another
-- line of dashes and the document. There is no document if the second line of dashes does not end.
structure Layout where
  marks : Nat
  opening : LineEnd
  rows : List Row
  closing : Option LineEnd
  document : List Char
  ended : closing = none → document = [] := by nofun

-- What stands behind the second dashes.
def Layout.after (layout : Layout) : List Char :=
  layout.closing.elim [] LineEnd.chars ++ layout.document

def Layout.chars (layout : Layout) : List Char :=
  List.replicate layout.marks Toml.byteOrderMark ++
    (dashes ++ (layout.opening.chars ++ (written layout.rows ++ (dashes ++ layout.after))))

-- A text that starts as a test does, and what stands behind its first dashes.
def Opens (text rest : List Char) : Prop :=
  ∃ marks, text = List.replicate marks Toml.byteOrderMark ++ (dashes ++ rest)

section Rows

variable {rows more : List Row}

@[simp] theorem written_append (rows more : List Row) :
    written (rows ++ more) = written rows ++ written more := List.flatMap_append

theorem written_cons (row : Row) (more : List Row) :
    written (row :: more) = row.chars ++ written more := rfl

theorem unended_concat (rows : List Row) (last : Row) :
    unended (rows ++ [last]) = written rows ++ last.content := by
  simp [unended]

theorem unended_append (rows : List Row) (hmore : more ≠ []) :
    unended (rows ++ more) = written rows ++ unended more := by
  obtain ⟨front, last, rfl⟩ := (List.eq_nil_or_concat' more).resolve_left hmore
  rw [← List.append_assoc, unended_concat, unended_concat, written_append, List.append_assoc]

theorem length_trimEnd_le (drop : Char → Bool) (text : List Char) :
    (trimEnd drop text).length ≤ text.length := by
  obtain ⟨trailing, htext, -⟩ := exists_trimEnd drop text
  rw [htext, List.length_append, ← htext]
  exact Nat.le_add_right _ _

theorem Row.chars_eq (row : Row) : row.chars = row.content ++ row.stop.lead ++ ['\n'] := by
  rw [Row.chars, LineEnd.chars, List.append_assoc]

theorem exists_written_eq (hrows : rows ≠ []) : ∃ init, written rows = init ++ ['\n'] := by
  obtain ⟨front, last, rfl⟩ := (List.eq_nil_or_concat' rows).resolve_left hrows
  exact ⟨written front ++ (last.content ++ last.stop.lead), by simp [written, Row.chars_eq]⟩

-- A row that does not start with the mark does not do so by what follows it.
theorem Row.not_prefix {row : Row} (h : ¬dashes <+: row.content) (rest : List Char) :
    ¬dashes <+: row.chars ++ rest := by
  have hplain : '\r' ∉ dashes ∧ '\n' ∉ dashes := by decide
  intro hprefix
  rw [Row.chars, LineEnd.chars] at hprefix
  cases hstop : row.stop with
  | feed =>
      simp only [hstop, LineEnd.lead, List.nil_append, List.append_assoc, List.cons_append] at hprefix
      exact h (prefix_of_prefix_append_cons hplain.2 hprefix)
  | returnFeed =>
      simp only [hstop, LineEnd.lead, List.append_assoc, List.cons_append] at hprefix
      exact h (prefix_of_prefix_append_cons hplain.1 hprefix)

theorem Row.newline_not_mem (row : Row) : '\n' ∉ row.content ++ row.stop.lead := by
  have hlead : '\n' ∉ row.stop.lead := by cases row.stop <;> decide
  exact fun h => (List.mem_append.mp h).elim row.plain hlead

-- Rows of which only the first may start with dashes are cut off where the next dashes stand.
theorem cutAt?_written (rows : List Row) (last : Row) (after : List Char)
    (h : ∀ r ∈ (rows ++ [last]).tail, ¬dashes <+: r.content) :
    cutAt? ('\n' :: dashes) (written (rows ++ [last]) ++ (dashes ++ after)) =
      some (unended (rows ++ [last]) ++ last.stop.lead, after) := by
  induction rows with
  | nil =>
      have htext : written ([] ++ [last]) ++ (dashes ++ after) =
          (last.content ++ last.stop.lead) ++ '\n' :: (dashes ++ after) := by
        simp [written, Row.chars_eq]
      rw [htext, cutAt?_append_newline last.newline_not_mem, after?_eq_some_iff.mpr rfl,
        unended_concat]
      rfl
  | cons row more ih =>
      have htext : written (row :: more ++ [last]) ++ (dashes ++ after) =
          (row.content ++ row.stop.lead) ++
            '\n' :: (written (more ++ [last]) ++ (dashes ++ after)) := by
        simp [written, Row.chars_eq]
      have hnext : after? dashes (written (more ++ [last]) ++ (dashes ++ after)) = none := by
        rw [after?_eq_none_iff]
        obtain ⟨next, back, hback⟩ := List.exists_cons_of_ne_nil (l := more ++ [last]) (by simp)
        rw [hback, written_cons, List.append_assoc]
        exact Row.not_prefix (h next (by simp [hback])) _
      have hrows : unended (row :: more ++ [last]) = row.chars ++ unended (more ++ [last]) := by
        have hmore : more ++ [last] ≠ [] := by simp
        simpa [written] using unended_append [row] hmore
      rw [htext, cutAt?_append_newline row.newline_not_mem, hnext,
        ih fun r hr => h r (List.mem_of_mem_tail hr), hrows]
      simp [Row.chars_eq]

end Rows

section Cuts

variable {text rest : List Char}

theorem skipBreak_append (stop : LineEnd) (rest : List Char) :
    skipBreak (stop.chars ++ rest) = rest := by cases stop <;> rfl

theorem opens_iff : Opens text rest ↔
    after? dashes (trimStart (· == Toml.byteOrderMark) text) = some rest := by
  rw [after?_eq_some_iff, trimStart]
  constructor
  · rintro ⟨marks, rfl⟩
    rw [List.dropWhile_append_of_pos (by simp)]
    exact List.dropWhile_cons_of_neg (a := '-') (by decide)
  · intro h
    have hmarks : text.takeWhile (· == Toml.byteOrderMark) = List.replicate
        (text.takeWhile (· == Toml.byteOrderMark)).length Toml.byteOrderMark :=
      List.eq_replicate_iff.mpr ⟨rfl, fun c hc => by simpa using List.mem_takeWhile_imp hc⟩
    exact ⟨_, by rw [← h, ← hmarks, List.takeWhile_append_dropWhile]⟩

theorem splitCase_of_opens (h : Opens text rest) : splitCase text =
    match cutAt? ('\n' :: dashes) (skipBreak rest) with
    | none => .error .noClosing
    | some (settings, document) => .ok (trimEnd (· == '\r') settings, skipBreak document) := by
  have hfound : after? "---".toList (trimStart (· == Toml.byteOrderMark) text) = some rest :=
    opens_iff.mp h
  rw [splitCase, hfound]
  rfl

-- Behind its first line, a text has a line that starts with the mark where the mark follows a newline.
theorem infix_newline_iff {mark : List Char} (hne : mark ≠ []) (hplain : '\n' ∉ mark) :
    ('\n' :: mark) <:+: text ↔ ∃ line ∈ (lines text).tail, mark <+: line := by
  constructor
  · rintro ⟨front, back, rfl⟩
    obtain ⟨tail, more, hlines⟩ := exists_lines_append hne hplain back
    have hsplit : front ++ '\n' :: mark ++ back = (front ++ ['\n']) ++ (mark ++ back) := by simp
    have hfront : lines (front ++ ['\n']) ≠ [] := by
      intro hnil
      have hflat := flatten_lines (front ++ ['\n'])
      rw [hnil] at hflat
      simp at hflat
    rw [hsplit, lines_append (by simp), hlines, List.tail_append_of_ne_nil hfront]
    exact ⟨mark ++ tail, by simp, List.prefix_append mark tail⟩
  · have hlines : ∀ ls, LineList ls → (∃ line ∈ ls.tail, mark <+: line) →
        ('\n' :: mark) <:+: ls.flatten := by
      intro ls h
      induction h with
      | nil => exact fun ⟨_, hmem, _⟩ => nomatch hmem
      | open_ hne hplain => exact fun ⟨_, hmem, _⟩ => nomatch hmem
      | @ended front more hplain _ ih =>
          rintro ⟨line, hmem, tail, hline⟩
          cases more with
          | nil => cases hmem
          | cons next more =>
              rcases List.mem_cons.mp hmem with rfl | hmore
              · exact ⟨front, tail ++ more.flatten, by simp [← hline]⟩
              · exact (ih ⟨line, hmore, tail, hline⟩).trans (List.suffix_append ..).isInfix
    intro h
    have hflat := hlines (lines text) (lineList_lines text) h
    rwa [flatten_lines] at hflat

end Cuts

-- The cut of written rows in front of the dashes behind them, where what is cut off are the rows.
section Cut

variable {rows : List Row} {after : List Char} {cut : List Char × List Char}
  (hcut : cutAt? ('\n' :: dashes) (written rows ++ (dashes ++ after)) = some cut)
  (hfront : trimEnd (· == '\r') cut.1 = unended rows)

include hcut hfront

-- Without rows, the cut would be in front of the dashes at which the text starts.
theorem ne_nil_of_cut : rows ≠ [] := by
  rintro rfl
  obtain ⟨htext, -⟩ := cutAt?_eq_some_iff.mp hcut
  obtain ⟨trailing, hsplit, htrailing⟩ := exists_trimEnd (· == '\r') cut.1
  rw [hsplit, hfront] at htext
  cases trailing with
  | nil => cases htext
  | cons c trailing =>
      obtain rfl : '-' = c := (List.cons.inj htext).1
      exact absurd (htrailing '-' (List.mem_cons_self ..)) (by decide)

-- The cut is in front of a later row that starts with dashes, and the row is lost.
theorem not_prefix_of_cut : ∀ row ∈ rows.tail, ¬dashes <+: row.content := by
  rintro row hrow ⟨own, hown⟩
  obtain ⟨first, more, rfl⟩ :=
    List.exists_cons_of_ne_nil (List.ne_nil_of_mem (List.mem_of_mem_tail hrow))
  obtain ⟨before, behind, rfl⟩ := List.append_of_mem hrow
  rw [← List.cons_append] at hcut hfront
  obtain ⟨init, hinit⟩ := exists_written_eq (List.cons_ne_nil first before)
  obtain ⟨-, hfirst⟩ := cutAt?_eq_some_iff.mp hcut
  have hle := hfirst init (own ++ row.stop.chars ++ written behind ++ (dashes ++ after)) (by
    rw [written_append, hinit, written_cons, Row.chars, ← hown]
    simp)
  have htrim := length_trimEnd_le (· == '\r') cut.1
  rw [hfront, unended_append (first :: before) (List.cons_ne_nil row behind), hinit] at htrim
  simp only [List.length_append, List.length_singleton] at htrim
  omega

end Cut

-- What the settings must be for their rows to be found. Dashes at the start of any row but the first
-- are taken for the end of the settings, and so are those behind no row at all as their start.
structure Layout.Splits (layout : Layout) : Prop where
  filled : layout.rows ≠ []
  apart : ∀ row ∈ layout.rows.tail, ¬dashes <+: row.content
  trimmed : (unended layout.rows).getLast? ≠ some '\r'

section Layouts

variable {layout : Layout}

theorem Layout.opens (layout : Layout) : Opens layout.chars
    (layout.opening.chars ++ (written layout.rows ++ (dashes ++ layout.after))) :=
  ⟨layout.marks, rfl⟩

theorem Layout.skipBreak_after (layout : Layout) : skipBreak layout.after = layout.document := by
  rw [Layout.after]
  cases hclosing : layout.closing with
  | none =>
      rw [layout.ended hclosing]
      rfl
  | some stop => exact skipBreak_append stop layout.document

theorem Layout.Splits.splitCase_eq (h : layout.Splits) :
    splitCase layout.chars = .ok (unended layout.rows, layout.document) := by
  obtain ⟨rows, last, hrows⟩ := (List.eq_nil_or_concat' layout.rows).resolve_left h.filled
  have hlead : ∀ c ∈ last.stop.lead, (c == '\r') = true := by
    cases last.stop <;> simp [LineEnd.lead]
  have hlast : ∀ c, (unended layout.rows).getLast? = some c → (c == '\r') = false := by
    rintro c hc
    exact beq_false_of_ne fun hreturn => h.trimmed (hreturn ▸ hc)
  rw [splitCase_of_opens layout.opens, skipBreak_append, hrows,
    cutAt?_written rows last layout.after (hrows ▸ h.apart)]
  dsimp only
  rw [trimEnd_append (hrows ▸ hlast) hlead, layout.skipBreak_after]

theorem Layout.splits_of_splitCase
    (h : splitCase layout.chars = .ok (unended layout.rows, layout.document)) : layout.Splits := by
  rw [splitCase_of_opens layout.opens, skipBreak_append] at h
  cases hcut : cutAt? ('\n' :: dashes) (written layout.rows ++ (dashes ++ layout.after)) with
  | none =>
      rw [hcut] at h
      cases h
  | some cut =>
      rw [hcut] at h
      have hfront : trimEnd (· == '\r') cut.1 = unended layout.rows :=
        congrArg Prod.fst (Except.ok.inj h)
      refine ⟨ne_nil_of_cut hcut hfront, not_prefix_of_cut hcut hfront, fun hreturn => ?_⟩
      rw [← hfront] at hreturn
      exact absurd (trimEnd_getLast_not hreturn) (by decide)

theorem parse_eq (text : String) : Case.parse text =
    match splitCase text.toList with
    | .error error => .error error
    | .ok (settings, document) =>
        match Case.ofSettings? settings (String.ofList document) with
        | some case => .ok case
        | none => .error .badSettings := by
  rw [Case.parse]
  cases splitCase text.toList with
  | error error => rfl
  | ok split => rfl

theorem parse_eq_error_iff (text : String) {error : CaseError} (herror : error ≠ .badSettings) :
    Case.parse text = .error error ↔ splitCase text.toList = .error error := by
  rw [parse_eq]
  cases splitCase text.toList with
  | error other => simp
  | ok split =>
      dsimp only
      cases Case.ofSettings? split.1 (String.ofList split.2) with
      | some case => simp
      | none => simpa using herror.symm

theorem splitCase_eq_noOpening_iff (text : List Char) :
    splitCase text = .error .noOpening ↔ ¬∃ rest, Opens text rest := by
  constructor
  · rintro h ⟨rest, hrest⟩
    rw [splitCase_of_opens hrest] at h
    split at h <;> cases h
  · intro h
    have hnone : after? "---".toList (trimStart (· == Toml.byteOrderMark) text) = none :=
      Option.eq_none_iff_forall_ne_some.mpr fun rest hrest => h ⟨rest, opens_iff.mpr hrest⟩
    rw [splitCase, hnone]

theorem splitCase_eq_noClosing_iff (text : List Char) :
    splitCase text = .error .noClosing ↔ ∃ rest, Opens text rest ∧
      ∀ line ∈ (lines (skipBreak rest)).tail, ¬dashes <+: line := by
  have hcut : ∀ rest, cutAt? ('\n' :: dashes) (skipBreak rest) = none ↔
      ∀ line ∈ (lines (skipBreak rest)).tail, ¬dashes <+: line := by
    intro rest
    rw [cutAt?_eq_none_iff, infix_newline_iff (by decide) (by decide)]
    push Not
    exact Iff.rfl
  constructor
  · intro h
    by_cases hopens : ∃ rest, Opens text rest
    · obtain ⟨rest, hrest⟩ := hopens
      refine ⟨rest, hrest, (hcut rest).mp ?_⟩
      rw [splitCase_of_opens hrest] at h
      split at h
      · assumption
      · cases h
    · rw [(splitCase_eq_noOpening_iff text).mpr hopens] at h
      cases h
  · rintro ⟨rest, hrest, hlines⟩
    rw [splitCase_of_opens hrest, (hcut rest).mpr hlines]

end Layouts

-- The settings and the document of a test are read as they are written just where the settings have a
-- row and no row but the first starts with dashes. A text is refused just where it does not start with
-- dashes, or no line behind the first one does.
theorem settings_stand_between_dashes (layout : Layout) (text : String) :
    (splitCase layout.chars = .ok (unended layout.rows, layout.document) ↔ layout.Splits) ∧
    (layout.Splits → Case.parse (String.ofList layout.chars) =
      match Case.ofSettings? (unended layout.rows) (String.ofList layout.document) with
      | some case => .ok case
      | none => .error .badSettings) ∧
    (Case.parse text = .error .noOpening ↔ ¬∃ rest, Opens text.toList rest) ∧
    (Case.parse text = .error .noClosing ↔ ∃ rest, Opens text.toList rest ∧
      ∀ line ∈ (lines (skipBreak rest)).tail, ¬dashes <+: line) := by
  refine ⟨⟨Layout.splits_of_splitCase, Layout.Splits.splitCase_eq⟩, fun h => ?_, ?_, ?_⟩
  · rw [parse_eq, String.toList_ofList, h.splitCase_eq]
  · rw [parse_eq_error_iff text (by decide), splitCase_eq_noOpening_iff]
  · rw [parse_eq_error_iff text (by decide), splitCase_eq_noClosing_iff]

-- A first row that is empty, dashes inside of rows, and a document that starts with dashes itself.
def dashedTest : Layout where
  marks := 1
  opening := .returnFeed
  rows := [⟨[], .feed, by decide⟩, ⟨"[files]".toList, .returnFeed, by decide⟩,
    ⟨"\"---\" = \"--\"".toList, .returnFeed, by decide⟩]
  closing := some .returnFeed
  document := "---\n\nhi\n".toList

theorem dashed_test_is_read :
    dashedTest.Splits ∧ splitCase dashedTest.chars =
      .ok ("\n[files]\r\n\"---\" = \"--\"".toList, "---\n\nhi\n".toList) ∧
    Case.parse " ---\nx\n---\n" = .error .noOpening ∧
    Case.parse "---\nx\n ---\n" = .error .noClosing := by
  obtain ⟨hsplit, -, hopen, -⟩ := settings_stand_between_dashes dashedTest " ---\nx\n---\n"
  obtain ⟨-, -, -, hclose⟩ := settings_stand_between_dashes dashedTest "---\nx\n ---\n"
  have h : dashedTest.Splits := ⟨by decide, by decide, by decide⟩
  refine ⟨h, hsplit.mpr h, hopen.mpr ?_,
    hclose.mpr ⟨"\nx\n ---\n".toList, ⟨0, rfl⟩, by decide⟩⟩
  rintro ⟨rest, marks, hmarks⟩
  cases marks with
  | zero => exact absurd (List.cons.inj hmarks).1 (by decide)
  | succ marks => exact absurd (List.cons.inj hmarks).1 (by decide)

-- Settings without a row.
def emptySettings : Layout where
  marks := 0
  opening := .feed
  rows := []
  closing := some .feed
  document := "hi\n".toList

-- Settings with a row of which the start is taken for the second line of dashes.
def longDashes : Layout where
  marks := 0
  opening := .feed
  rows := [⟨"[files]".toList, .feed, by decide⟩, ⟨"---- = \"x\"".toList, .feed, by decide⟩]
  closing := some .feed
  document := "hi\n".toList

-- No row is a line of dashes here, but the settings are not found, or not all of them. The last text
-- has no line of dashes in front of its settings, and they are found.
theorem dashes_are_found_inside_lines :
    (∀ row ∈ emptySettings.rows ++ longDashes.rows, row.content ≠ dashes) ∧
    splitCase emptySettings.chars = .error .noClosing ∧
    splitCase longDashes.chars = .ok ("[files]".toList, "- = \"x\"\n---\nhi\n".toList) ∧
    splitCase "---x = 1\n---\nhi\n".toList = .ok ("x = 1".toList, "hi\n".toList) := by
  refine ⟨by decide, ?_, ?_, ?_⟩ <;> cbv

end LiveDoc.Suite
