import LiveDoc.Proofs.Markdown.CodeRanges
import LiveDoc.Proofs.Text.Lines

namespace LiveDoc.Markdown

open Text

-- A line of a source and the line of code that is read from it. The part of a tab that goes on
-- into the code becomes spaces, and a carriage return at the end goes. What is behind the text that
-- Markdown is given is not read.
def Carries (own code : List Char) : Prop :=
  ∃ lead body tail pad, own = lead ++ body ++ tail ∧ code = pad ++ codeLine body ∧
    (∀ c ∈ lead, IsMargin c) ∧ ∀ c ∈ pad, c = ' '

theorem Carries.extend {own code : List Char} (h : Carries own code) (more : List Char) :
    Carries (own ++ more) code := by
  obtain ⟨lead, body, tail, pad, rfl, rfl, hlead, hpad⟩ := h
  exact ⟨lead, body, tail ++ more, pad, by simp, rfl, hlead, hpad⟩

-- Lines of code are read from the lines of a source, one from each.
def AllCarried (owns codes : List (List Char)) : Prop :=
  ∀ (k : Nat) (code : List Char), codes[k]? = some code →
    ∃ own, owns[k]? = some own ∧ Carries own code

theorem allCarried_nil (owns : List (List Char)) : AllCarried owns [] := nofun

theorem AllCarried.cons {own code : List Char} {owns codes : List (List Char)}
    (hfirst : Carries own code) (h : AllCarried owns codes) :
    AllCarried (own :: owns) (code :: codes) := by
  intro k line hline
  cases k with
  | zero =>
      cases hline
      exact ⟨own, rfl, hfirst⟩
  | succ k => exact h k line hline

section Margins

variable {m next : Margin}

theorem ne_newline_of_isMargin {c : Char} (h : IsMargin c) : c ≠ '\n' := by
  rcases h with rfl | rfl | rfl <;> decide

theorem margin_within? {containers : List Container} {text : List Char}
    (h : within? containers text = some m) : Margin.Skips IsMargin (Margin.ofText text) m := by
  have hs := skips_enterAll containers (Margin.ofText text)
  unfold within? at h
  dsimp only at h
  split at h
  · cases h
    exact hs
  · cases h

end Margins

section Lines

-- A text as its first line and what is left, as Markdown cuts it.
theorem exists_lineLength (text : List Char) :
    ∃ line rest, text = line ++ rest ∧ lineLength text = line.length ∧
      ((∃ front, line = front ++ ['\n'] ∧ '\n' ∉ front) ∨ rest = [] ∧ '\n' ∉ line) := by
  have hsplit := List.takeWhile_append_dropWhile (p := (· != '\n')) (l := text)
  have hplain : '\n' ∉ text.takeWhile (· != '\n') := fun h => by
    simpa using List.mem_takeWhile_imp h
  cases hrest : text.dropWhile (· != '\n') with
  | nil =>
      rw [hrest, List.append_nil] at hsplit
      refine ⟨text, [], (List.append_nil text).symm, ?_, .inr ⟨rfl, hsplit ▸ hplain⟩⟩
      simp only [lineLength, count, hsplit, Nat.lt_irrefl, if_false]
  | cons c rest =>
      have hc : c = '\n' := by
        have hhead := List.head?_dropWhile_not (· != '\n') text
        simpa [hrest] using hhead
      subst hc
      rw [hrest] at hsplit
      refine ⟨text.takeWhile (· != '\n') ++ ['\n'], rest, by simpa using hsplit.symm, ?_,
        .inl ⟨_, rfl, hplain⟩⟩
      have hlt : (text.takeWhile (· != '\n')).length < text.length := by
        conv_rhs => rw [← hsplit]
        simp
      simp only [lineLength, count, hlt, if_true, List.length_append, List.length_singleton]

theorem mem_of_mem_codeLine {line : List Char} {c : Char} (h : c ∈ codeLine line) : c ∈ line := by
  unfold codeLine at h
  split at h
  · rename_i last front hline
    split at h
    · rw [← List.mem_reverse, hline]
      rcases List.mem_cons.mp (List.mem_reverse.mp h) with h | h <;> simp [h]
    · exact h
  · exact h

theorem codeLine_of_not_mem {line : List Char} (h : '\r' ∉ line) : codeLine line = line := by
  unfold codeLine
  split
  · rename_i last front hline
    refine (h ?_).elim
    rw [← List.mem_reverse, hline]
    simp
  · rfl

-- A line of code ends as the line that it is read from, but for a carriage return.
theorem exists_codeLine {front : List Char} (hplain : '\n' ∉ front) :
    ∃ kept, codeLine (front ++ ['\n']) = kept ++ ['\n'] ∧ '\n' ∉ kept ∧
      (front = kept ∨ front = kept ++ ['\r']) := by
  rcases List.eq_nil_or_concat front with rfl | ⟨init, c, rfl⟩
  · exact ⟨[], rfl, List.not_mem_nil, .inl rfl⟩
  · by_cases hc : c = '\r'
    · subst hc
      refine ⟨init, ?_, fun h => hplain (by simp [h]), .inr List.concat_eq_append⟩
      simp [codeLine, Char.utf8Size]
    · refine ⟨init ++ [c], ?_, by simpa using hplain, .inl List.concat_eq_append⟩
      simp [codeLine, hc]

theorem newline_not_mem_of_isMargin {front : List Char} (h : ∀ c ∈ front, IsMargin c) :
    '\n' ∉ front := fun hmem => ne_newline_of_isMargin (h _ hmem) rfl

-- What is behind the first line of a text that is not empty.
theorem drop_lineLength {c : Char} {rest front own after : List Char}
    (hsplit : c :: rest = front ++ (own ++ after))
    (hend : (∃ body, own = body ++ ['\n'] ∧ '\n' ∉ body) ∨ after = [] ∧ '\n' ∉ own) :
    rest.drop (front.length + own.length - 1) = after := by
  have hpos : 0 < front.length + own.length := by
    rcases hend with ⟨body, rfl, -⟩ | ⟨rfl, -⟩
    · simp only [List.length_append, List.length_singleton]
      omega
    · have := congrArg List.length hsplit
      simp only [List.length_cons, List.length_append, List.length_nil] at this
      omega
  obtain ⟨less, hless⟩ := Nat.exists_eq_add_of_lt hpos
  have hdrop : (c :: rest).drop (front ++ own).length = after := by
    rw [hsplit, ← List.append_assoc, List.drop_left]
  rw [List.length_append, hless] at hdrop
  rw [hless]
  simpa using hdrop

-- One more line of code, from one more line of the text. The last one may have no end.
theorem AllCarried.line {front own after pad content : List Char}
    (hfront : ∀ c ∈ front, IsMargin c) (hpad : ∀ c ∈ pad, c = ' ')
    (hne : front ++ (own ++ after) ≠ [])
    (hend : (∃ body, own = body ++ ['\n'] ∧ '\n' ∉ body) ∨
      after = [] ∧ content = [] ∧ '\n' ∉ own)
    (h : AllCarried (lines after) (lines content)) :
    AllCarried (lines (front ++ (own ++ after))) (lines (pad ++ codeLine own ++ content)) := by
  have hcarries : Carries (front ++ own) (pad ++ codeLine own) :=
    ⟨front, own, [], pad, by simp, rfl, hfront, hpad⟩
  have hplain := newline_not_mem_of_isMargin hfront
  have hpadPlain : '\n' ∉ pad := fun hmem => absurd (hpad _ hmem) (by decide)
  rcases hend with ⟨body, rfl, hbody⟩ | ⟨rfl, rfl, hown⟩
  · obtain ⟨kept, hcode, hkept, -⟩ := exists_codeLine hbody
    have howns : lines (front ++ (body ++ ['\n'] ++ after)) =
        (front ++ (body ++ ['\n'])) :: lines after := by
      have hline := @lines_append_newline (front ++ body) (by simp [hplain, hbody]) after
      simpa using hline
    have hcodes : lines (pad ++ codeLine (body ++ ['\n']) ++ content) =
        (pad ++ codeLine (body ++ ['\n'])) :: lines content := by
      have hline := @lines_append_newline (pad ++ kept) (by simp [hpadPlain, hkept]) content
      simpa [hcode] using hline
    rw [howns, hcodes]
    exact h.cons hcarries
  · rw [List.append_nil] at hne ⊢
    rw [List.append_nil]
    by_cases hcode : pad ++ codeLine own = []
    · rw [hcode]
      exact allCarried_nil _
    · have hcodePlain : '\n' ∉ codeLine own := fun hmem => hown (mem_of_mem_codeLine hmem)
      rw [lines_of_newline_not_mem (by simp [hplain, hown]) hne,
        lines_of_newline_not_mem (by simp [hpadPlain, hcodePlain]) hcode]
      exact (allCarried_nil []).cons hcarries

-- The lines of a fenced block are read from those of the text, one from each.
theorem allCarried_fencedLines (containers : List Container) (indent : Nat) (mark : Char)
    (least : Nat) (text : List Char) :
    AllCarried (lines text) (lines (fencedLines containers indent mark least text).2.1) := by
  fun_induction fencedLines containers indent mark least text with
  | case1 => exact allCarried_nil _
  | case2 => exact allCarried_nil _
  | case3 => exact allCarried_nil _
  | case4 c rest m hm inner missing close hclose hnone line size more content closed hmore pad ih =>
      obtain ⟨front, hfront, hread, hmargin⟩ :=
        (margin_within? hm).trans (skips_spaces indent m).margin
      obtain ⟨own, after, hsplit, hlength, hend⟩ := exists_lineLength inner.rest
      change c :: rest = front ++ inner.rest at hfront
      change inner.read = 0 + front.length at hread
      have hline : line = own := by
        change inner.rest.take (lineLength inner.rest) = own
        rw [hlength, hsplit, List.take_left]
      rw [hsplit] at hfront
      have hafter : rest.drop (size - 1) = after := by
        simp only [size, hread, hline, Nat.zero_add]
        exact drop_lineLength hfront hend
      -- Nothing is read behind a line without an end.
      have hstop : after = [] → content = [] := by
        rintro rfl
        rw [hafter, fencedLines] at hmore
        exact (congrArg (·.2.1) hmore).symm
      rw [hmore, hafter] at ih
      dsimp only at ih ⊢
      rw [hfront, hline]
      refine AllCarried.line hmargin (fun c hc => List.eq_of_mem_replicate hc)
        (hfront ▸ List.cons_ne_nil c rest) ?_ ih
      exact hend.imp_right fun hlast => ⟨hlast.1, hstop hlast.1, hlast.2⟩

theorem tail_lines (text : List Char) :
    (lines text).tail = lines (text.drop (lineLength text)) := by
  obtain ⟨line, rest, hsplit, hlength, ⟨front, rfl, hplain⟩ | ⟨rfl, hplain⟩⟩ :=
    exists_lineLength text
  · rw [hlength, hsplit, List.drop_left, List.append_assoc, List.singleton_append,
      lines_append_newline hplain, List.tail_cons]
  · rw [hlength, hsplit, List.drop_left, List.append_nil]
    by_cases hne : line = []
    · subst hne
      rfl
    · rw [lines_of_newline_not_mem hplain hne]
      rfl

end Lines

-- Where fenced code stands in a text whose first byte is at `offset`: its content is read from the
-- lines below the one that its fence opens.
inductive Leaf.Stands (offset : Nat) (text : List Char) : Leaf → Prop
  | fenced {before code content : List Char} (stop : Nat) (info : List Char) :
      text = before ++ code → AllCarried (lines code).tail (lines content) →
      Leaf.Stands offset text (.fenced ⟨offset + byteCount before, stop⟩ info content)
  | indented (range : ByteRange) : Leaf.Stands offset text (.indented range)
  | heading (start level : Nat) (content : List Char) :
      Leaf.Stands offset text (.heading start level content)

theorem Leaf.Stands.prepend {offset : Nat} {text : List Char} {leaf : Leaf} (front : List Char)
    (h : leaf.Stands (offset + byteCount front) text) : leaf.Stands offset (front ++ text) := by
  cases h with
  | @fenced before code content stop info htext hcontent =>
      have hstands := @Leaf.Stands.fenced offset (front ++ text) (front ++ before) code content stop
        info (by rw [htext, List.append_assoc]) hcontent
      rwa [byteCount_append, ← Nat.add_assoc] at hstands
  | indented range => exact .indented range
  | heading start level content => exact .heading start level content

-- What reading a block adds stands in the text from there on.
def Adds (s : Scanner) (offset : Nat) (text : List Char) (next : Scanner) : Prop :=
  ∃ new, next.leaves = new ++ s.leaves ∧ ∀ leaf ∈ new, leaf.Stands offset text

section Blocks

variable {s next : Scanner} {offset : Nat} {text : List Char}

theorem adds_of_leaves_eq (h : next.leaves = s.leaves) : Adds s offset text next :=
  ⟨[], h, nofun⟩

theorem adds_leaf {leaf : Leaf} (hleaf : leaf.Stands offset text)
    (h : next.leaves = leaf :: s.leaves) : Adds s offset text next :=
  ⟨[leaf], h, List.forall_mem_singleton.mpr hleaf⟩

theorem Adds.prepend (front : List Char) (h : Adds s (offset + byteCount front) text next) :
    Adds s offset (front ++ text) next := by
  obtain ⟨new, hnew, hstands⟩ := h
  exact ⟨new, hnew, fun leaf hleaf => (hstands leaf hleaf).prepend front⟩

variable (s offset text)

theorem adds_fencedBlock (indent marks : Nat) (mark : Char) :
    Adds s offset text (fencedBlock s offset indent marks mark text).2 := by
  refine adds_leaf ?_ rfl
  have hlines := allCarried_fencedLines s.frame.containers indent mark marks
    (text.drop (lineLength text))
  rw [← tail_lines] at hlines
  exact .fenced _ _ (List.nil_append text).symm hlines

theorem adds_paragraphBlock : Adds s offset text (paragraphBlock s offset text).2 := by
  unfold paragraphBlock
  dsimp only
  split
  · exact adds_of_leaves_eq rfl
  · split
    · exact adds_leaf (.heading ..) rfl
    · exact adds_of_leaves_eq rfl

theorem adds_leafBlock (indent : Nat) : Adds s offset text (leafBlock s offset indent text).2 := by
  unfold leafBlock
  split
  · exact adds_of_leaves_eq rfl
  · exact adds_of_leaves_eq rfl
  · exact adds_leaf (.heading ..) rfl
  · exact adds_fencedBlock s offset text indent _ _
  · exact adds_of_leaves_eq rfl
  · exact adds_paragraphBlock s offset text

-- A block is read behind the marks and pads that its line starts with, or adds nothing.
theorem block_cases : (block s offset text).2.leaves = s.leaves ∨
    ∃ lead rest frame, text = lead ++ rest ∧ (∀ c ∈ lead, IsLead c) ∧
      ((block s offset text).2 =
          (indentedBlock { s with frame } (offset + byteCount lead) rest).2 ∨
        ∃ columns, (block s offset text).2 =
          (leafBlock { s with frame } (offset + byteCount lead) columns rest).2) := by
  have henter := skips_enterAll s.frame.containers (Margin.ofText text)
  unfold block
  rcases he : enterAll s.frame.containers (Margin.ofText text) with ⟨count, entered⟩
  rw [he] at henter
  obtain ⟨hopen, -⟩ := skips_openNew (s.frame.keep count) entered
  dsimp only
  rcases ho : (s.frame.keep count).openNew entered with ⟨frame, m, done⟩
  rw [ho] at hopen
  dsimp only at henter hopen ⊢
  split
  · exact .inl rfl
  · cases blankLine? m.rest with
    | some size => exact .inl rfl
    | none =>
        have hpads := skips_indent 4 m
        dsimp only
        rcases hi : m.indent 4 with ⟨columns, inner⟩
        rw [hi] at hpads
        obtain ⟨front, hfront, hend, hlead⟩ := (henter.lead.trans hopen).trans hpads.margin.lead
        change text = front ++ inner.rest at hfront
        change inner.read = 0 + front.length at hend
        refine .inr ⟨front, inner.rest, frame.leaveList, hfront, hlead, ?_⟩
        dsimp only
        rw [hend, Nat.zero_add, ← byteCount_of_narrow fun c hc => (isSign_of_isLead (hlead c hc)).1]
        split
        · exact .inl rfl
        · exact .inr ⟨columns, rfl⟩

theorem adds_block : Adds s offset text (block s offset text).2 := by
  rcases block_cases s offset text with hnone | ⟨lead, rest, frame, rfl, -, hindented | hleaf⟩
  · exact adds_of_leaves_eq hnone
  · rw [hindented]
    exact .prepend lead (adds_leaf (.indented _) rfl)
  · obtain ⟨columns, hleaf⟩ := hleaf
    rw [hleaf]
    exact .prepend lead (adds_leafBlock _ _ _ columns)

end Blocks

-- Every fenced block that Markdown finds has its content from the lines below its fence.
theorem stands_of_mem_blocks {text : List Char} {leaf : Leaf} (h : leaf ∈ (blocks text).1) :
    leaf.Stands 0 text := by
  obtain ⟨before, rest, own, new, rfl, hnew, hleaf⟩ := exists_block_of_mem_blocks h
  obtain ⟨added, hadded, hstands⟩ := adds_block own (byteCount before) rest
  rw [hnew, List.append_cancel_right_eq] at hadded
  subst hadded
  refine Leaf.Stands.prepend before ?_
  rw [Nat.zero_add]
  exact hstands leaf hleaf

end LiveDoc.Markdown
