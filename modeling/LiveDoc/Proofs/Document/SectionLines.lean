import LiveDoc.Proofs.Document.Sections
import LiveDoc.Proofs.Markdown.WholeLines

namespace LiveDoc

open Text Markdown

-- A place where a line of a text starts.
def LineStart (text : List Char) (position : Nat) : Prop :=
  ∃ front back, text = front ++ back ∧ position = byteCount front ∧ StartsLine front back

-- A stretch of whole lines. The last line of a text may have no end.
def ByteRange.WholeLines (range : ByteRange) (text : List Char) : Prop :=
  LineStart text range.start ∧ (range.stop = byteCount text ∨ LineStart text range.stop)

-- How a section is cut out of a text. The line of its heading starts with `lead`, and the line of the
-- heading that ends it, if there is one, with `next`.
structure Section.Cuts (text : List Char) (own : Section)
    (before lead inside next after : List Char) : Prop where
  text_eq : text = before ++ (lead ++ (inside ++ (next ++ after)))
  range_eq : own.range =
    ⟨byteCount (before ++ lead), byteCount (before ++ (lead ++ (inside ++ next)))⟩
  starts : StartsLine before (lead ++ (inside ++ (next ++ after)))
  stops : next = [] ∧ after = [] ∨ after ≠ [] ∧ StartsLine (before ++ (lead ++ inside)) (next ++ after)
  leads : ∀ c ∈ lead ++ next, IsLead c

section Places

variable {text front back lead : List Char} {position : Nat}

-- No line starts inside of a lead.
theorem not_startsLine (hne : lead ≠ []) (hlead : ∀ c ∈ lead, IsLead c) (front back : List Char) :
    ¬StartsLine (front ++ lead) back := by
  obtain ⟨c, hc⟩ := Option.isSome_iff_exists.mp (List.getLast?_isSome.mpr hne)
  have hopen := (isSign_of_isLead (hlead c (List.mem_of_getLast? hc))).2
  have hlast : (front ++ lead).getLast? = some c := by
    rw [List.getLast?_append, hc]
    rfl
  rintro (hnil | hend | ⟨hend, -⟩)
  · exact hne (List.append_eq_nil_iff.mp hnil).2
  · cases hlast.symm.trans hend
    cases hopen
  · cases hlast.symm.trans hend
    cases hopen

theorem lineStart_iff (front back : List Char) :
    LineStart (front ++ back) (byteCount front) ↔ StartsLine front back := by
  constructor
  · rintro ⟨front', back', hsplit, hposition, hstarts⟩
    obtain rfl := eq_of_byteCount_eq (List.prefix_append front back) ⟨back', hsplit.symm⟩ hposition
    rwa [List.append_cancel_left hsplit]
  · exact fun hstarts => ⟨front, back, rfl, rfl, hstarts⟩

theorem lineStart_append_iff (hlead : ∀ c ∈ lead, IsLead c) (hstarts : StartsLine front (lead ++ back)) :
    LineStart (front ++ (lead ++ back)) (byteCount (front ++ lead)) ↔ lead = [] := by
  rw [← List.append_assoc, lineStart_iff]
  constructor
  · intro h
    by_contra hne
    exact not_startsLine hne hlead front back h
  · rintro rfl
    simpa using hstarts

end Places

namespace Section.Cuts

variable {text before lead inside next after : List Char} {own : Section}
  (h : own.Cuts text before lead inside next after)

include h

theorem slice_eq : slice text own.range.start own.range.stop = inside ++ next := by
  have hcut := slice_append (before ++ lead) (inside ++ next) after
  rw [← byteCount_append] at hcut
  rw [h.range_eq, h.text_eq]
  simpa using hcut

-- A section is made of whole lines just where nothing stands before its heading, nor before the
-- heading that ends it.
theorem wholeLines_iff : own.range.WholeLines text ↔ lead = [] ∧ next = [] := by
  have hlead : ∀ c ∈ lead, IsLead c := fun c hc => h.leads c (List.mem_append_left _ hc)
  have hnext : ∀ c ∈ next, IsLead c := fun c hc => h.leads c (List.mem_append_right _ hc)
  rw [ByteRange.WholeLines, h.range_eq, h.text_eq]
  refine and_congr (lineStart_append_iff hlead h.starts) ?_
  dsimp only
  rcases h.stops with ⟨rfl, rfl⟩ | ⟨hafter, hstarts⟩
  · simp
  · have hmore := byteCount_pos hafter
    have hstop : byteCount (before ++ (lead ++ (inside ++ next))) ≠
        byteCount (before ++ (lead ++ (inside ++ (next ++ after)))) := by
      simp only [byteCount_append]
      omega
    rw [or_iff_right hstop]
    have hiff := lineStart_append_iff hnext hstarts
    simpa only [List.append_assoc] using hiff

end Section.Cuts

section Headings

variable {stop level : Nat} {hs : List Heading}

-- A section runs to the end of the text, or some headings that are deeper are passed before the one
-- that ends it.
theorem sectionEnd_cases (stop level : Nat) (hs : List Heading) :
    sectionEnd stop level hs = stop ∨
      ∃ between heading later, hs = between ++ heading :: later ∧
        sectionEnd stop level hs = heading.start := by
  unfold sectionEnd
  split
  · rename_i heading hfind
    obtain ⟨between, later, hsplit⟩ := List.append_of_mem (List.mem_of_find?_eq_some hfind)
    exact .inr ⟨between, heading, later, hsplit, rfl⟩
  · exact .inl rfl

end Headings

theorem exists_cuts {text : List Char} {before later : List Heading} {heading : Heading}
    (h : headings text = before ++ heading :: later) :
    ∃ front lead inside next after,
      (heading.section (byteCount text) later).Cuts text front lead inside next after := by
  have hled := led_blocks text
  have hin := inOrder_headings text
  rw [← map_start_headings, h, List.map_append, List.map_cons] at hled
  obtain ⟨passed, rest, hrest, hmore⟩ := hled.exists_of_append
  obtain ⟨gap, lead, body, tail, rfl, hstarts, hlead, hstart, hlater⟩ := hmore.exists_of_cons
  rcases sectionEnd_cases (byteCount text) heading.level later with
    hend | ⟨between, other, last, rfl, hend⟩
  · refine ⟨passed ++ gap, lead, body ++ tail, [], [], ?_, ?_, ?_, .inl ⟨rfl, rfl⟩, ?_⟩
    · simp [hrest]
    · change ByteRange.mk heading.start (sectionEnd (byteCount text) heading.level later) = _
      rw [hend, hstart, hrest]
      simp
    · simpa using hstarts
    · simpa using hlead
  · rw [List.map_append, List.map_cons] at hlater
    obtain ⟨skipped, under, rfl, hunder⟩ := hlater.exists_of_append
    obtain ⟨gap', next, body', tail', rfl, hstarts', hnext, hstart', -⟩ := hunder.exists_of_cons
    have hinside : other.start < byteCount text :=
      hin.inside other (by rw [h]; simp)
    refine ⟨passed ++ gap, lead, body ++ (skipped ++ gap'), next, body' ++ tail', ?_, ?_, ?_,
      .inr ⟨?_, ?_⟩, ?_⟩
    · simp [hrest]
    · simp [Heading.section, hend, hstart, hstart']
    · simpa using hstarts
    · intro hnone
      rw [hstart', hrest, hnone] at hinside
      simp at hinside
    · simpa using hstarts'
    · intro c hc
      exact (List.mem_append.mp hc).elim (hlead c) (hnext c)

-- A section starts right at its heading, and stops right at the heading that ends it: what stands
-- before the one on its line is not in the section, and what stands before the other one is.
theorem sections_start_behind_leads (text : List Char) :
    ∀ own ∈ sections text, ∃ before lead inside next after,
      own.Cuts text before lead inside next after ∧
      slice text own.range.start own.range.stop = inside ++ next ∧
      (own.range.WholeLines text ↔ lead = [] ∧ next = []) := by
  intro own hown
  obtain ⟨passed, heading, later, hheadings, rfl⟩ := exists_of_mem_sectionsOf hown
  obtain ⟨before, lead, inside, next, after, hcuts⟩ := exists_cuts hheadings
  exact ⟨before, lead, inside, next, after, hcuts, hcuts.slice_eq, hcuts.wholeLines_iff⟩

theorem quoted_section_starts_behind_mark :
    ⟨"A", 1, ⟨2, 12⟩⟩ ∈ sections "> # A\n> x\n> # B\n".toList ∧
      ∃ before lead inside next after,
        Section.Cuts "> # A\n> x\n> # B\n".toList ⟨"A", 1, ⟨2, 12⟩⟩ before lead inside next after ∧
        slice "> # A\n> x\n> # B\n".toList 2 12 = inside ++ next ∧
        (ByteRange.WholeLines ⟨2, 12⟩ "> # A\n> x\n> # B\n".toList ↔ lead = [] ∧ next = []) := by
  have hsections : sections "> # A\n> x\n> # B\n".toList =
      [⟨"A", 1, ⟨2, 12⟩⟩, ⟨"B", 1, ⟨12, 16⟩⟩] := by decide +kernel
  have hmem : ⟨"A", 1, ⟨2, 12⟩⟩ ∈ sections "> # A\n> x\n> # B\n".toList := by
    rw [hsections]
    exact List.mem_cons_self ..
  exact ⟨hmem, sections_start_behind_leads _ _ hmem⟩

-- The blanks in front of the second heading are in the first section, and not in its own.
theorem indented_section_starts_inside_line :
    sections "# A\n  # B\n".toList = [⟨"A", 1, ⟨0, 6⟩⟩, ⟨"B", 1, ⟨6, 10⟩⟩] ∧
      ¬ByteRange.WholeLines ⟨0, 6⟩ "# A\n  # B\n".toList ∧
      ¬ByteRange.WholeLines ⟨6, 10⟩ "# A\n  # B\n".toList := by
  have hplace : ¬LineStart ("# A\n  ".toList ++ "# B\n".toList) 6 := by
    intro h
    have hstarts := (lineStart_iff "# A\n  ".toList "# B\n".toList).mp h
    exact not_startsLine (List.cons_ne_nil ' ' [' ']) (by simp [IsLead, IsMargin, IsPad])
      "# A\n".toList "# B\n".toList hstarts
  refine ⟨by decide +kernel, fun h => ?_, fun h => hplace h.1⟩
  rcases h.2 with hend | hstart
  · exact absurd hend (by decide)
  · exact hplace hstart

end LiveDoc
