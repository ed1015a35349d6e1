import LiveDoc.Document.Marker
import LiveDoc.Proofs.Text.Search
import Mathlib.Data.List.DropRight

namespace LiveDoc

open Text

theorem exists_trimEnd (drop : Char → Bool) (text : List Char) :
    ∃ trailing, text = trimEnd drop text ++ trailing ∧ ∀ c ∈ trailing, drop c := by
  refine ⟨text.rtakeWhile drop, ?_, fun c hc => List.mem_rtakeWhile_imp hc⟩
  rw [trimEnd, List.rtakeWhile, ← List.reverse_append, List.takeWhile_append_dropWhile,
    List.reverse_reverse]

theorem trimEnd_getLast_not {drop : Char → Bool} {text : List Char} {c : Char}
    (h : (trimEnd drop text).getLast? = some c) : drop c = false := by
  have hne : text.rdropWhile drop ≠ [] := by
    intro hnil
    change (text.rdropWhile drop).getLast? = some c at h
    rw [hnil] at h
    cases h
  have hlast := List.rdropWhile_last_not drop text hne
  change (text.rdropWhile drop).getLast? = some c at h
  rw [List.getLast?_eq_some_getLast hne, Option.some.injEq] at h
  rw [h] at hlast
  exact Bool.not_eq_true _ ▸ hlast

-- What is dropped from an end, when it is known what comes before it.
theorem trimEnd_append {drop : Char → Bool} {front trailing : List Char}
    (hfront : ∀ c, front.getLast? = some c → drop c = false) (htrailing : ∀ c ∈ trailing, drop c) :
    trimEnd drop (front ++ trailing) = front := by
  rw [trimEnd, List.reverse_append,
    List.dropWhile_append_of_pos fun c hc => htrailing c (List.mem_reverse.mp hc)]
  change front.rdropWhile drop = front
  rw [List.rdropWhile_eq_self_iff]
  intro hne hdrop
  rw [hfront _ (List.getLast?_eq_some_getLast hne)] at hdrop
  cases hdrop

theorem Keyword.mem_word (keyword : Keyword) : '!' ∈ keyword.word := by
  cases keyword <;> decide

theorem Keyword.head_word (keyword : Keyword) : ∃ rest, keyword.word = '!' :: rest := by
  cases keyword <;> exact ⟨_, rfl⟩

-- No keyword ends with a blank.
theorem Keyword.last_word (keyword : Keyword) {c : Char} (h : keyword.word.getLast? = some c) :
    isBlank c = false := by
  cases keyword <;> (cases h; decide)

theorem isBlank_bang : isBlank '!' = false := by decide

def isLineBreak (c : Char) : Bool := c == '\n' || c == '\r'

theorem isBlank_of_isLineBreak {c : Char} (h : isLineBreak c) : isBlank c := by
  simp only [isLineBreak, Bool.or_eq_true, beq_iff_eq] at h
  rcases h with rfl | rfl <;> decide

-- A line that marks something: blanks, a keyword, and then a blank or the end.
def IsMarked (line : List Char) : Prop :=
  ∃ (keyword : Keyword) (lead tail : List Char), line = lead ++ keyword.word ++ tail ∧
    (∀ c ∈ lead, isBlank c) ∧ ∀ c ∈ tail.head?, isBlank c

-- How a marker lies on its line. Without an argument the blanks up to the line's end are in front.
structure Marker.On (marker : Marker) (line lead gap trailing : List Char) : Prop where
  line_eq : line = lead ++ marker.keyword.word ++ gap ++ marker.argument ++ trailing
  front_eq : marker.front = lead ++ marker.keyword.word ++ gap
  lead_blank : ∀ c ∈ lead, isBlank c
  gap_blank : ∀ c ∈ gap, isBlank c
  trailing_blank : ∀ c ∈ trailing, isBlank c
  apart : marker.argument ≠ [] → gap ≠ []
  begins : ∀ c, marker.argument.head? = some c → isBlank c = false
  tight : ∀ c, marker.argument.getLast? = some c → isBlank c = false
  bare : marker.argument = [] →
    (∀ c, gap.getLast? = some c → isLineBreak c = false) ∧ ∀ c ∈ trailing, isLineBreak c

theorem takeWhile_blanks {lead : List Char} (hlead : ∀ c ∈ lead, isBlank c) (keyword : Keyword)
    (tail : List Char) :
    (lead ++ keyword.word ++ tail).takeWhile isBlank = lead ∧
      (lead ++ keyword.word ++ tail).dropWhile isBlank = keyword.word ++ tail := by
  obtain ⟨rest, hword⟩ := keyword.head_word
  rw [List.append_assoc, List.takeWhile_append_of_pos hlead, List.dropWhile_append_of_pos hlead,
    hword]
  simp [isBlank_bang]

-- The mark of a keyword on a line, in terms of what follows the word.
theorem Keyword.marker?_eq_some_iff {keyword : Keyword} {line : List Char} {marker : Marker} :
    keyword.marker? line = some marker ↔
      ∃ tail, after? keyword.word ((trimEnd isLineBreak line).dropWhile isBlank) = some tail ∧
        tail.head?.all isBlank = true ∧
        marker = ⟨keyword, (trimEnd isLineBreak line).takeWhile isBlank ++ keyword.word ++
          tail.takeWhile isBlank, trimBlanks tail⟩ := by
  have hbreak : (fun c => c == '\n' || c == '\r') = isLineBreak := rfl
  simp only [Keyword.marker?, hbreak]
  cases after? keyword.word ((trimEnd isLineBreak line).dropWhile isBlank) with
  | none => simp
  | some tail =>
      simp only [Option.ite_none_right_eq_some, Option.some.injEq, exists_eq_left']
      exact and_congr_right fun _ => eq_comm

theorem head_dropWhile_not {drop : Char → Bool} {text : List Char} {c : Char}
    (h : (text.dropWhile drop).head? = some c) : drop c = false := by
  have hnot := List.head?_dropWhile_not drop text
  rw [h] at hnot
  simpa using hnot

theorem Keyword.marker?_on {keyword : Keyword} {line : List Char} {marker : Marker}
    (h : keyword.marker? line = some marker) :
    marker.keyword = keyword ∧ ∃ lead gap trailing, marker.On line lead gap trailing := by
  obtain ⟨tail, htail, hhead, rfl⟩ := Keyword.marker?_eq_some_iff.mp h
  rw [after?_eq_some_iff] at htail
  obtain ⟨ends, hline, hends⟩ := exists_trimEnd isLineBreak line
  have hbody := List.takeWhile_append_dropWhile (p := isBlank) (l := trimEnd isLineBreak line)
  obtain ⟨trailing, hrest, htrailing⟩ := exists_trimEnd isBlank (tail.dropWhile isBlank)
  have htailSplit := List.takeWhile_append_dropWhile (p := isBlank) (l := tail)
  refine ⟨rfl, (trimEnd isLineBreak line).takeWhile isBlank, tail.takeWhile isBlank,
    trailing ++ ends, ?_, rfl, ?_, ?_, ?_, ?_, ?_, ?_, ?_⟩
  · change line = _ ++ keyword.word ++ _ ++ trimEnd isBlank (tail.dropWhile isBlank) ++ _
    rw [List.append_assoc _ _ (trailing ++ ends), ← List.append_assoc _ trailing, ← hrest,
      ← List.append_assoc, List.append_assoc _ _ (tail.dropWhile isBlank), htailSplit,
      List.append_assoc _ keyword.word, ← htail, hbody, ← hline]
  · exact fun c hc => List.mem_takeWhile_imp hc
  · exact fun c hc => List.mem_takeWhile_imp hc
  · intro c hc
    rcases List.mem_append.mp hc with hc | hc
    · exact htrailing c hc
    · exact isBlank_of_isLineBreak (hends c hc)
  · intro hargument hgap
    apply hargument
    cases tail with
    | nil => rfl
    | cons c rest =>
        change isBlank c = true at hhead
        rw [List.takeWhile_cons_of_pos hhead] at hgap
        cases hgap
  · intro c hc
    change (trimEnd isBlank (tail.dropWhile isBlank)).head? = some c at hc
    refine @head_dropWhile_not _ tail _ ?_
    rw [hrest, List.head?_append, hc]
    rfl
  · exact fun c hc => trimEnd_getLast_not hc
  · intro hargument
    have hblank : ∀ c ∈ tail.dropWhile isBlank, isBlank c := List.rdropWhile_eq_nil_iff.mp hargument
    have hnone : tail.dropWhile isBlank = [] := by
      by_contra hne
      obtain ⟨c, hc⟩ := Option.isSome_iff_exists.mp (List.isSome_head?.mpr hne)
      have hnot := head_dropWhile_not hc
      rw [hblank c (List.mem_of_head? hc)] at hnot
      cases hnot
    rw [hnone, List.append_nil] at htailSplit
    rw [hnone] at hrest
    constructor
    · intro c hc
      rw [htailSplit] at hc
      refine @trimEnd_getLast_not _ line _ ?_
      rw [← hbody, htail, List.getLast?_append, List.getLast?_append, hc]
      rfl
    · intro c hc
      rw [(List.append_eq_nil_iff.mp hrest.symm).2] at hc
      exact hends c hc

theorem marker?_on {line : List Char} {marker : Marker} (h : marker? line = some marker) :
    ∃ lead gap trailing, marker.On line lead gap trailing := by
  obtain ⟨keyword, -, hkeyword⟩ := List.exists_of_findSome?_eq_some h
  exact (Keyword.marker?_on hkeyword).2

theorem trimEnd_word (lead tail : List Char) (keyword : Keyword) :
    trimEnd isLineBreak (lead ++ keyword.word ++ tail) =
      lead ++ keyword.word ++ trimEnd isLineBreak tail := by
  obtain ⟨ends, hsplit, hends⟩ := exists_trimEnd isLineBreak tail
  obtain ⟨back, hback⟩ : ∃ back, trimEnd isLineBreak tail = back := ⟨_, rfl⟩
  rw [hback] at hsplit ⊢
  rw [hsplit, ← List.append_assoc]
  refine trimEnd_append (fun c hc => ?_) hends
  by_cases hnil : back = []
  · obtain ⟨rest, hword⟩ := keyword.head_word
    have hne : keyword.word ≠ [] := by
      rw [hword]
      exact List.cons_ne_nil _ _
    rw [hnil, List.append_nil, List.getLast?_append_of_ne_nil _ hne] at hc
    cases hb : isLineBreak c with
    | false => rfl
    | true =>
        have := keyword.last_word hc
        rw [isBlank_of_isLineBreak hb] at this
        cases this
  · rw [List.getLast?_append_of_ne_nil _ hnil, ← hback] at hc
    exact trimEnd_getLast_not hc

-- A line with blanks, a keyword and a proper end is read as a mark.
theorem Keyword.isSome_marker? {keyword : Keyword} {lead tail : List Char}
    (hlead : ∀ c ∈ lead, isBlank c) (htail : ∀ c ∈ tail.head?, isBlank c) :
    (keyword.marker? (lead ++ keyword.word ++ tail)).isSome := by
  have hafter : after? keyword.word
      ((trimEnd isLineBreak (lead ++ keyword.word ++ tail)).dropWhile isBlank) =
        some (trimEnd isLineBreak tail) := by
    rw [trimEnd_word, (takeWhile_blanks hlead keyword _).2]
    exact after?_eq_some_iff.mpr rfl
  have hhead : (trimEnd isLineBreak tail).head?.all isBlank = true := by
    obtain ⟨ends, hsplit, -⟩ := exists_trimEnd isLineBreak tail
    cases hback : trimEnd isLineBreak tail with
    | nil => rfl
    | cons c rest =>
        rw [hback] at hsplit
        rw [hsplit] at htail
        exact htail c rfl
  have hmark := Keyword.marker?_eq_some_iff.mpr ⟨_, hafter, hhead, rfl⟩
  rw [hmark]
  rfl

section Keywords

variable {line lead gap trailing : List Char} {marker : Marker}

-- A line does not go on with two keywords.
theorem Keyword.eq_of_word_append {keyword other : Keyword} {tail back : List Char}
    (h : keyword.word ++ tail = other.word ++ back) : keyword = other := by
  have hshort : ∀ (own : Keyword) (rest : List Char),
      (own.word ++ rest).take 3 = own.word.take 3 := fun own rest =>
    List.take_append_of_le_length (by cases own <;> decide)
  have hstart := congrArg (List.take 3) h
  rw [hshort, hshort] at hstart
  revert hstart
  cases keyword <;> cases other <;> decide

theorem Keyword.eq_of_marker? {keyword other : Keyword} {own : Marker}
    (h : keyword.marker? line = some marker) (h' : other.marker? line = some own) :
    keyword = other := by
  obtain ⟨tail, htail, -⟩ := Keyword.marker?_eq_some_iff.mp h
  obtain ⟨back, hback, -⟩ := Keyword.marker?_eq_some_iff.mp h'
  rw [after?_eq_some_iff] at htail hback
  exact Keyword.eq_of_word_append (htail.symm.trans hback)

theorem marker?_of_keyword {keyword : Keyword} (h : keyword.marker? line = some marker) :
    marker? line = some marker := by
  have hsome : (marker? line).isSome := by
    rw [marker?, List.isSome_findSome?, List.any_eq_true]
    exact ⟨keyword, by cases keyword <;> simp, by rw [h]; rfl⟩
  obtain ⟨own, hown⟩ := Option.isSome_iff_exists.mp hsome
  obtain ⟨other, -, hother⟩ := List.exists_of_findSome?_eq_some hown
  cases Keyword.eq_of_marker? h hother
  rw [hown, ← hother, h]

namespace Marker.On

-- The line without its end still has all of the mark.
theorem trimEnd_tail (h : marker.On line lead gap trailing) :
    trimEnd isLineBreak (gap ++ marker.argument ++ trailing) =
      gap ++ marker.argument ++ trimEnd isLineBreak trailing := by
  obtain ⟨ends, hends, hbreaks⟩ := exists_trimEnd isLineBreak trailing
  conv_lhs => rw [hends, ← List.append_assoc]
  refine trimEnd_append (fun c hc => ?_) hbreaks
  by_cases hback : trimEnd isLineBreak trailing = []
  · rw [hback, List.append_nil] at hc
    by_cases hargument : marker.argument = []
    · rw [hargument, List.append_nil] at hc
      exact (h.bare hargument).1 c hc
    · rw [List.getLast?_append_of_ne_nil _ hargument] at hc
      cases hbreak : isLineBreak c with
      | false => rfl
      | true => rw [← h.tight c hc, isBlank_of_isLineBreak hbreak]
  · rw [List.getLast?_append_of_ne_nil _ hback] at hc
    exact trimEnd_getLast_not hc

-- The argument goes from the first character behind the keyword that is no blank to the last one.
theorem trimBlanks_tail (h : marker.On line lead gap trailing) :
    (gap ++ marker.argument ++ trimEnd isLineBreak trailing).takeWhile isBlank = gap ∧
      trimBlanks (gap ++ marker.argument ++ trimEnd isLineBreak trailing) = marker.argument := by
  obtain ⟨ends, hends, -⟩ := exists_trimEnd isLineBreak trailing
  have hrest : ∀ c ∈ trimEnd isLineBreak trailing, isBlank c := fun c hc =>
    h.trailing_blank c (hends ▸ List.mem_append_left _ hc)
  have hstop : (marker.argument ++ trimEnd isLineBreak trailing).takeWhile isBlank = [] ∧
      (marker.argument ++ trimEnd isLineBreak trailing).dropWhile isBlank =
        marker.argument ++ trimEnd isLineBreak trailing := by
    cases hargument : marker.argument with
    | nil =>
        have hnone : trimEnd isLineBreak trailing = [] :=
          List.rdropWhile_eq_nil_iff.mpr (h.bare hargument).2
        simp [hnone]
    | cons c more =>
        have hc : isBlank c = false := h.begins c (by rw [hargument]; rfl)
        simp [hc]
  constructor
  · rw [List.append_assoc, List.takeWhile_append_of_pos h.gap_blank, hstop.1, List.append_nil]
  · rw [trimBlanks, trim, trimStart, List.append_assoc,
      List.dropWhile_append_of_pos h.gap_blank, hstop.2]
    exact trimEnd_append h.tight hrest

theorem head_tail_blank (h : marker.On line lead gap trailing) :
    ∀ c ∈ (gap ++ marker.argument ++ trailing).head?, isBlank c := by
  intro c hc
  cases hgap : gap with
  | cons d more =>
      rw [hgap] at hc
      cases hc
      exact h.gap_blank c (by simp [hgap])
  | nil =>
      have hargument : marker.argument = [] := by
        by_contra hne
        exact h.apart hne hgap
      rw [hgap, hargument] at hc
      exact h.trailing_blank c (List.mem_of_mem_head? hc)

-- A line is read as the mark that is written on it.
theorem marker?_eq (h : marker.On line lead gap trailing) : marker? line = some marker := by
  have hline : line = lead ++ marker.keyword.word ++ (gap ++ marker.argument ++ trailing) := by
    rw [h.line_eq]
    simp only [List.append_assoc]
  obtain ⟨htake, hdrop⟩ := takeWhile_blanks h.lead_blank marker.keyword
    (gap ++ marker.argument ++ trimEnd isLineBreak trailing)
  suffices hown : marker.keyword.marker? line = some marker from marker?_of_keyword hown
  refine Keyword.marker?_eq_some_iff.mpr
    ⟨gap ++ marker.argument ++ trimEnd isLineBreak trailing, ?_, ?_, ?_⟩
  · rw [hline, trimEnd_word, h.trimEnd_tail, hdrop]
    exact after?_eq_some_iff.mpr rfl
  · obtain ⟨ends, hends, -⟩ := exists_trimEnd isLineBreak (gap ++ marker.argument ++ trailing)
    have hhead := h.head_tail_blank
    rw [h.trimEnd_tail] at hends
    rw [hends] at hhead
    cases htail : gap ++ marker.argument ++ trimEnd isLineBreak trailing with
    | nil => rfl
    | cons c more => exact hhead c (by rw [htail]; rfl)
  · rw [hline, trimEnd_word, h.trimEnd_tail, htake, h.trimBlanks_tail.1, h.trimBlanks_tail.2,
      ← h.front_eq]

end Marker.On

theorem marker?_eq_some_iff :
    marker? line = some marker ↔ ∃ lead gap trailing, marker.On line lead gap trailing :=
  ⟨marker?_on, fun ⟨_, _, _, hon⟩ => hon.marker?_eq⟩

theorem isSome_marker?_iff : (marker? line).isSome ↔ IsMarked line := by
  constructor
  · intro h
    obtain ⟨marker, hmarker⟩ := Option.isSome_iff_exists.mp h
    obtain ⟨lead, gap, trailing, hon⟩ := marker?_on hmarker
    refine ⟨marker.keyword, lead, gap ++ marker.argument ++ trailing, ?_, hon.lead_blank,
      hon.head_tail_blank⟩
    rw [hon.line_eq]
    simp only [List.append_assoc]
  · rintro ⟨keyword, lead, tail, rfl, hlead, htail⟩
    rw [marker?, List.isSome_findSome?, List.any_eq_true]
    refine ⟨keyword, ?_, Keyword.isSome_marker? hlead htail⟩
    cases keyword <;> simp

end Keywords

end LiveDoc
