import LiveDoc.Proofs.Markdown.FencedCode

namespace LiveDoc.Markdown

open Text

section Mark

variable {mark : Char} (tail : List Char)

theorem not_isBullet_of_isFenceMark (h : IsFenceMark mark) : isBullet mark = false := by
  rcases h with rfl | rfl <;> decide

theorem not_isDigit_of_isFenceMark (h : IsFenceMark mark) : mark.isDigit = false := by
  rcases h with rfl | rfl <;> decide

-- A line that starts with a fence has no margin.
theorem spaces_at_mark (h : IsFenceMark mark) (want : Nat) :
    (Margin.ofText (mark :: tail)).spaces want = (want, Margin.ofText (mark :: tail)) := by
  rw [Margin.spaces_ofText]
  apply Margin.spacesAhead_stop
  · simpa [Margin.ofText] using h.ne_space
  · simpa [Margin.ofText] using h.ne_tab

theorem quoteMarker?_at_mark (h : IsFenceMark mark) :
    quoteMarker? (Margin.ofText (mark :: tail)) = none := by
  rcases h with rfl | rfl <;> rfl

theorem listMarker?_at_mark (h : IsFenceMark mark) (indent : Nat) :
    listMarker? indent (Margin.ofText (mark :: tail)) = none := by
  have hdigits : (mark :: tail).takeWhile Char.isDigit = [] :=
    List.takeWhile_cons_of_neg (by simp [not_isDigit_of_isFenceMark h])
  simp [listMarker?, Margin.ofText, not_isBullet_of_isFenceMark h, hdigits]

theorem blankLine?_at_mark (h : IsFenceMark mark) : blankLine? (mark :: tail) = none := by
  rcases h with rfl | rfl <;> simp [blankLine?, count, isInlineBlank, lineBreak?, backtick]

theorem openNew_at_mark (h : IsFenceMark mark) (f : Frame) :
    f.openNew (Margin.ofText (mark :: tail)) = (f, Margin.ofText (mark :: tail), false) := by
  rw [Frame.openNew, Margin.indent, spaces_at_mark tail h]
  dsimp only
  rw [if_neg (by decide), listMarker?_at_mark tail h, quoteMarker?_at_mark tail h]

-- The containers that such a line stays in take nothing.
theorem enterAll_at_mark (h : IsFenceMark mark) (containers : List Container) :
    ∃ count, enterAll containers (Margin.ofText (mark :: tail)) =
        (count, Margin.ofText (mark :: tail)) ∧
      ∀ container ∈ containers.take count, container.TakesNothing := by
  induction containers with
  | nil => exact ⟨0, rfl, List.forall_mem_nil _⟩
  | cons container inner ih =>
      have hstays : container.enter? (Margin.ofText (mark :: tail)) = none ∨
          container.TakesNothing := by
        cases container with
        | list _ _ => exact .inr trivial
        | quote =>
            rw [Container.enter?, spaces_at_mark tail h]
            exact .inl (quoteMarker?_at_mark tail h)
        | item indent =>
            rw [Container.enter?, spaces_at_mark tail h]
            by_cases hindent : indent = 0
            · exact .inr hindent
            · left
              have hend : (Margin.ofText (mark :: tail)).atLineEnd = false := h.not_isLineEnd
              simp [hindent, hend]
      rw [enterAll]
      rcases hstays with hnone | hnothing
      · rw [hnone]
        exact ⟨0, rfl, List.forall_mem_nil _⟩
      · obtain ⟨count, hinner, htake⟩ := ih
        rw [enter?_of_takesNothing hnothing]
        dsimp only
        rw [hinner]
        exact ⟨count + 1, rfl, List.forall_mem_cons.mpr ⟨hnothing, htake⟩⟩

end Mark

-- A line without any mark stays in all containers that are open.
def Frame.TakesNothing (f : Frame) : Prop := ∀ container ∈ f.stack, container.TakesNothing

section Frames

variable {f : Frame}

theorem pop_stack (f : Frame) : f.pop.stack = f.stack.drop 1 := by
  unfold Frame.pop
  split <;> simp_all

theorem popTimes_stack (n : Nat) (f : Frame) : (Frame.popTimes n f).stack = f.stack.drop n := by
  induction n generalizing f with
  | zero => rfl
  | succ n ih => rw [Frame.popTimes, ih, pop_stack, List.drop_drop, Nat.add_comm]

theorem keep_takesNothing {count : Nat}
    (h : ∀ container ∈ f.containers.take count, container.TakesNothing) :
    (f.keep count).TakesNothing := by
  intro container hcontainer
  rw [Frame.keep, popTimes_stack] at hcontainer
  apply h
  rw [Frame.containers, List.take_reverse]
  exact List.mem_reverse.mpr hcontainer

theorem Frame.TakesNothing.pop (h : f.TakesNothing) : f.pop.TakesNothing := by
  intro container hcontainer
  rw [pop_stack] at hcontainer
  exact h container (List.mem_of_mem_drop hcontainer)

theorem Frame.TakesNothing.closeUnfilled (h : f.TakesNothing) : f.closeUnfilled.TakesNothing := by
  unfold Frame.closeUnfilled
  dsimp only
  split
  · split
    · exact h.pop
    · exact h
  · exact h

theorem Frame.TakesNothing.loosen (h : f.TakesNothing) (blankBefore : Bool) :
    Frame.TakesNothing { f with stack := Frame.loosen f.stack, blankBefore } := by
  intro container hcontainer
  dsimp only [Frame.loosen] at hcontainer
  split at hcontainer
  · rename_i inner mark tight rest hstack
    have hall := h
    rw [Frame.TakesNothing, hstack] at hall
    simp only [List.mem_cons] at hcontainer hall
    rcases hcontainer with rfl | rfl | hcontainer
    · exact hall _ (.inl rfl)
    · trivial
    · exact hall _ (.inr (.inr hcontainer))
  · exact h container hcontainer

theorem Frame.TakesNothing.leaveList (h : f.TakesNothing) : f.leaveList.TakesNothing := by
  have hown := h.closeUnfilled
  unfold Frame.leaveList
  dsimp only
  split
  · split
    · exact hown.pop.loosen false
    · exact hown.pop
  · split
    · exact hown.loosen false
    · exact hown

end Frames

-- A line that starts with a fence is read as such from its first character on.
theorem block_at_mark {mark : Char} (tail : List Char) (h : IsFenceMark mark) (s : Scanner)
    (offset : Nat) :
    ∃ frame, frame.TakesNothing ∧
      block s offset (mark :: tail) = leafBlock { s with frame } offset 0 (mark :: tail) := by
  obtain ⟨count, henter, htake⟩ := enterAll_at_mark tail h s.frame.containers
  refine ⟨(s.frame.keep count).leaveList, (keep_takesNothing htake).leaveList, ?_⟩
  have hrest : (Margin.ofText (mark :: tail)).rest = mark :: tail := rfl
  have hread : (Margin.ofText (mark :: tail)).read = 0 := rfl
  simp only [block, henter, openNew_at_mark tail h, hrest, blankLine?_at_mark tail h,
    Margin.indent, spaces_at_mark tail h, hread]
  simp

theorem opening_at_mark {mark : Char} (tail : List Char) (h : IsFenceMark mark)
    (containers : List Container) :
    opening containers (mark :: tail) =
      match fence? (mark :: tail) with
      | some (marks, mark) => .fence marks mark
      | none => .paragraph := by
  have hhtml : htmlSize? containers (mark :: tail) = none := by
    rcases h with rfl | rfl <;> rfl
  have htheme : themeBreak? (mark :: tail) = none := by
    rcases h with rfl | rfl <;> rfl
  have hhash : hashLevel? (mark :: tail) = none := by
    rcases h with rfl | rfl <;> simp [hashLevel?, run, count, backtick]
  have hdefinition : definition? containers (mark :: tail) = none := by
    rcases h with rfl | rfl <;> rfl
  cases hfence : fence? (mark :: tail) with
  | none | some fence => simp only [opening, hhtml, htheme, hhash, hdefinition, hfence]

section Found

variable {s : Scanner} {offset : Nat} {text : List Char} {new : List Leaf} {range : ByteRange}
  {info content : List Char}

theorem fence?_eq_some {marks : Nat} {mark : Char} (h : fence? text = some (marks, mark)) :
    IsFenceMark mark ∧ 3 ≤ marks ∧ ∃ tail, text = mark :: tail ∧ marks = run mark tail + 1 := by
  unfold fence? at h
  split at h
  · cases h
  · rename_i c tail
    dsimp only at h
    split at h
    · rename_i hfence
      split at h
      · cases h
      · cases h
        exact ⟨hfence.1, hfence.2, tail, rfl, rfl⟩
    · cases h

theorem fence?_of_opening {containers : List Container} {marks : Nat} {mark : Char}
    (h : opening containers text = .fence marks mark) : fence? text = some (marks, mark) := by
  unfold opening at h
  split at h
  · cases h
  · split at h
    · cases h
    · split at h
      · cases h
      · split at h
        · rename_i marks mark hfence
          cases h
          exact hfence
        · split at h <;> cases h

theorem not_fenced_of_paragraphBlock (h : (paragraphBlock s offset text).2.leaves = new ++ s.leaves) :
    .fenced range info content ∉ new := by
  have hnone : ∀ {next : Scanner}, next.leaves = s.leaves → next.leaves = new ++ s.leaves →
      .fenced range info content ∉ new := by
    intro next hnext hnew
    rw [hnext, List.self_eq_append_left] at hnew
    rw [hnew]
    exact List.not_mem_nil
  unfold paragraphBlock at h
  dsimp only at h
  split at h
  · exact hnone rfl h
  · split at h
    · rename_i size ls level hlines
      have hnew : [.heading offset level (['\n'].intercalate ls)] = new :=
        List.append_cancel_right h
      rw [← hnew]
      simp
    · exact hnone rfl h

-- Fenced code is read behind its fence.
theorem exists_fence_of_mem_leafBlock {indent : Nat}
    (h : (leafBlock s offset indent text).2.leaves = new ++ s.leaves)
    (hleaf : .fenced range info content ∈ new) :
    ∃ marks mark, fence? text = some (marks, mark) ∧ range.start = offset ∧
      content = (fencedLines s.frame.containers indent mark marks
        (text.drop (lineLength text))).2.1 := by
  have hnone : s.leaves ≠ new ++ s.leaves := by
    rw [Ne, List.self_eq_append_left]
    rintro rfl
    cases hleaf
  unfold leafBlock at h
  cases hopening : opening s.frame.containers text with
  | html size => exact (hnone (by rw [hopening] at h; exact h)).elim
  | themeBreak size => exact (hnone (by rw [hopening] at h; exact h)).elim
  | definition size label => exact (hnone (by rw [hopening] at h; exact h)).elim
  | heading level =>
      rw [hopening] at h
      have hnew : [.heading _ _ _] = new := List.append_cancel_right h
      rw [← hnew] at hleaf
      cases List.mem_singleton.mp hleaf
  | fence marks mark =>
      rw [hopening] at h
      have hnew : [.fenced _ _ _] = new := List.append_cancel_right h
      rw [← hnew] at hleaf
      cases List.mem_singleton.mp hleaf
      exact ⟨marks, mark, fence?_of_opening hopening, rfl, rfl⟩
  | paragraph =>
      rw [hopening] at h
      exact (not_fenced_of_paragraphBlock h hleaf).elim

theorem exists_fence_of_mem_block (h : (block s offset text).2.leaves = new ++ s.leaves)
    (hleaf : .fenced range info content ∈ new) :
    ∃ lead rest marks mark, text = lead ++ rest ∧ (∀ c ∈ lead, IsLead c) ∧
      range.start = offset + byteCount lead ∧ fence? rest = some (marks, mark) ∧
      (lead = [] → content = (fencedLines [] 0 mark marks (rest.drop (lineLength rest))).2.1) := by
  rcases block_cases s offset text with hnone | ⟨lead, rest, frame, rfl, hlead, hindented | hleafs⟩
  · rw [hnone, List.self_eq_append_left] at h
    rw [h] at hleaf
    cases hleaf
  · rw [hindented] at h
    have hnew : [.indented _] = new := List.append_cancel_right h
    rw [← hnew] at hleaf
    cases List.mem_singleton.mp hleaf
  · obtain ⟨columns, hleafs⟩ := hleafs
    have hadded := h
    rw [hleafs] at hadded
    obtain ⟨marks, mark, hfence, hstart, -⟩ := exists_fence_of_mem_leafBlock hadded hleaf
    refine ⟨lead, rest, marks, mark, rfl, hlead, hstart, hfence, ?_⟩
    rintro rfl
    obtain ⟨hmark, -, tail, rfl, -⟩ := fence?_eq_some hfence
    obtain ⟨frame, hframe, hblock⟩ := block_at_mark tail hmark s offset
    rw [List.nil_append, hblock] at h
    obtain ⟨marks', mark', hfence', -, hcontent⟩ := exists_fence_of_mem_leafBlock h hleaf
    cases hfence.symm.trans hfence'
    rw [hcontent, fencedLines_of_takesNothing]
    exact fun container hcontainer => hframe container (List.mem_reverse.mp hcontainer)

-- Fenced code starts at the first mark of its fence.
theorem exists_mark_of_mem_blocks (h : .fenced range info content ∈ (blocks text).1) :
    ∃ before mark tail, text = before ++ mark :: tail ∧ range.start = byteCount before ∧
      IsFenceMark mark := by
  obtain ⟨before, rest, own, new, rfl, hnew, hleaf⟩ := exists_block_of_mem_blocks h
  obtain ⟨lead, code, marks, mark, rfl, -, hstart, hfence, -⟩ := exists_fence_of_mem_block hnew hleaf
  obtain ⟨hmark, -, tail, rfl, -⟩ := fence?_eq_some hfence
  exact ⟨before ++ lead, mark, tail, by simp, by simpa using hstart, hmark⟩

-- Fenced code whose fence starts a line is all that is found from there on up to its end.
theorem exists_fence_of_mem_blocks (h : .fenced range info content ∈ (blocks text).1)
    (hfresh : ∀ before code, text = before ++ code → range.start = byteCount before →
      ∀ c ∈ before.getLast?, isLineEnd c = true) :
    ∃ before code marks mark, text = before ++ code ∧ range.start = byteCount before ∧
      fence? code = some (marks, mark) ∧
      content = (fencedLines [] 0 mark marks (code.drop (lineLength code))).2.1 := by
  obtain ⟨before, rest, own, new, rfl, hnew, hleaf⟩ := exists_block_of_mem_blocks h
  obtain ⟨lead, code, marks, mark, rfl, hsigns, hstart, hfence, hcontent⟩ :=
    exists_fence_of_mem_block hnew hleaf
  -- What stands before the fence on its line ends in no line end.
  have hnone : lead = [] := by
    rcases List.eq_nil_or_concat lead with hnil | ⟨init, c, rfl⟩
    · exact hnil
    · have hend := hfresh (before ++ init.concat c) code (by simp) (by simpa using hstart) c (by simp)
      have hopen := (isSign_of_isLead (hsigns c (by simp))).2
      rw [hend] at hopen
      cases hopen
  subst hnone
  exact ⟨before, code, marks, mark, rfl, hstart, hfence, hcontent rfl⟩

end Found

-- The text of an info line, as it is read again where it stands right behind the fence.
structure ReadsBack (mark : Char) (info : List Char) : Prop where
  head?_ne : info.head? ≠ some mark
  newline_not_mem : '\n' ∉ info
  backtick_not_mem : mark = backtick → backtick ∉ info
  unescape_eq : unescape info = info

-- Neither end of a text is blank.
def IsTrimmed (text : List Char) : Prop :=
  (∀ c ∈ text.head?, isBlank c = false) ∧ ∀ c ∈ text.getLast?, isBlank c = false

theorem dropWhile_eq_self {p : Char → Bool} {text : List Char} (h : ∀ c ∈ text.head?, p c = false) :
    text.dropWhile p = text := by
  cases text with
  | nil => rfl
  | cons c rest => exact List.dropWhile_cons_of_neg (by simpa using h c rfl)

theorem isBlank_of_isAsciiBlank {c : Char} (h : isAsciiBlank c = true) : isBlank c = true := by
  simp only [isAsciiBlank, isInlineBlank, Bool.or_eq_true, beq_iff_eq] at h
  simp only [isBlank, Bool.or_eq_true, Bool.and_eq_true, decide_eq_true_eq, beq_iff_eq]
  have hspace : ' '.toNat = 32 := rfl
  have htab : '\t'.toNat = 9 := rfl
  have hfeed : '\n'.toNat = 10 := rfl
  have hreturn : '\r'.toNat = 13 := rfl
  rcases h with ((((rfl | rfl) | h) | h) | rfl) | rfl <;> omega

theorem isAsciiBlank_of_not_isBlank {c : Char} (h : isBlank c = false) : isAsciiBlank c = false := by
  rw [← Bool.not_eq_true] at h ⊢
  exact mt isBlank_of_isAsciiBlank h

theorem isInlineBlank_of_not_isBlank {c : Char} (h : isBlank c = false) :
    isInlineBlank c = false := by
  have hascii := isAsciiBlank_of_not_isBlank h
  simp only [isAsciiBlank, Bool.or_eq_false_iff] at hascii
  exact hascii.1.1

-- The end of an info line is trimmed away and nothing else.
theorem trim_info {info : List Char} (h : IsTrimmed info) :
    trimEnd isAsciiBlank ((info ++ ['\n']).dropWhile isInlineBlank) = info := by
  have hfirst : ∀ c ∈ (info ++ ['\n']).head?, isInlineBlank c = false := by
    intro c hc
    cases info with
    | nil =>
        cases hc
        rfl
    | cons d rest => exact isInlineBlank_of_not_isBlank (h.1 c hc)
  have hlast : ∀ c ∈ info.reverse.head?, isAsciiBlank c = false := by
    intro c hc
    rw [List.head?_reverse] at hc
    exact isAsciiBlank_of_not_isBlank (h.2 c hc)
  rw [dropWhile_eq_self hfirst, trimEnd, List.reverse_append, List.reverse_singleton,
    List.singleton_append, List.dropWhile_cons_of_pos rfl, dropWhile_eq_self hlast,
    List.reverse_reverse]

section Written

variable {mark : Char} {marks : Nat} {info : List Char}

theorem fence?_written (hmark : IsFenceMark mark) (hmarks : 3 ≤ marks) (h : ReadsBack mark info)
    (after : List Char) :
    fence? (List.replicate marks mark ++ (info ++ '\n' :: after)) = some (marks, mark) := by
  obtain ⟨more, rfl⟩ : ∃ more, marks = more + 1 := ⟨marks - 1, by omega⟩
  have hhead : (info ++ '\n' :: after).head? ≠ some mark := by
    cases hinfo : info with
    | nil =>
        rintro ⟨⟩
        cases hmark.not_isLineEnd
    | cons c rest =>
        have hne := h.head?_ne
        rwa [hinfo] at hne
  have hline : (info ++ '\n' :: after).takeWhile (· != '\n') = info := by
    have hinside : ∀ c ∈ info, (c != '\n') = true := fun c hc => by
      simpa using fun heq : c = '\n' => h.newline_not_mem (heq ▸ hc)
    rw [List.takeWhile_append_of_pos hinside, List.takeWhile_cons_of_neg (by decide),
      List.append_nil]
  have hdrop : (mark :: (List.replicate more mark ++ (info ++ '\n' :: after))).drop (more + 1) =
      info ++ '\n' :: after := by
    rw [List.drop_succ_cons]
    exact List.drop_left' List.length_replicate
  have hplain : ¬(mark = backtick ∧ info.contains backtick = true) := by
    rintro ⟨hback, hmem⟩
    exact h.backtick_not_mem hback (by simpa using hmem)
  rw [List.replicate_succ, List.cons_append, fence?, run_replicate_append hhead]
  dsimp only
  rw [if_pos ⟨hmark, hmarks⟩, hdrop, hline, if_neg hplain]

-- Code that is written between fences: the opening line, the code, and the closing fence.
structure Written (mark : Char) (marks : Nat) (info : List Char) (ls : List (List Char)) : Prop where
  isMark : IsFenceMark mark
  three_le : 3 ≤ marks
  readsBack : ReadsBack mark info
  trimmed : IsTrimmed info
  lineList : LineList ls
  ended : ls = [] ∨ ls.flatten.getLast? = some '\n'
  staysOpen : ∀ line ∈ ls, ¬ClosesFence mark marks line

def written (mark : Char) (marks : Nat) (info : List Char) (ls : List (List Char)) : List Char :=
  List.replicate marks mark ++ info ++ ['\n'] ++ (ls.flatten ++ List.replicate marks mark)

variable {ls : List (List Char)}

theorem fencedBlock_written (h : Written mark marks info ls) {s : Scanner}
    (hs : s.frame.TakesNothing) (offset : Nat) :
    fencedBlock s offset 0 marks mark (written mark marks info ls ++ ['\n']) =
      ((written mark marks info ls ++ ['\n']).length,
        s.emit (.fenced ⟨offset, offset + byteCount (written mark marks info ls)⟩ info
          (ls.map codeLine).flatten)) := by
  obtain ⟨first, hfirst⟩ : ∃ first, first = List.replicate marks mark ++ info := ⟨_, rfl⟩
  have hplain : '\n' ∉ first := by
    rw [hfirst, List.mem_append]
    rintro (hmem | hmem)
    · have hnot := h.isMark.not_isLineEnd
      rw [← List.eq_of_mem_replicate hmem] at hnot
      cases hnot
    · exact h.readsBack.newline_not_mem hmem
  have htext : written mark marks info ls ++ ['\n'] =
      first ++ ['\n'] ++ (ls.flatten ++ (List.replicate marks mark ++ ['\n'])) := by
    rw [written, hfirst]
    simp only [List.append_assoc]
  have hlength : lineLength (written mark marks info ls ++ ['\n']) = (first ++ ['\n']).length := by
    rw [htext, lineLength_ended hplain]
  have htake : (written mark marks info ls ++ ['\n']).take (first ++ ['\n']).length =
      first ++ ['\n'] := by
    rw [htext, List.take_left]
  have hdrop : (written mark marks info ls ++ ['\n']).drop (first ++ ['\n']).length =
      ls.flatten ++ (List.replicate marks mark ++ ['\n']) := by
    rw [htext, List.drop_left]
  have hinfo : (first ++ ['\n']).drop marks = info ++ ['\n'] := by
    rw [hfirst, List.append_assoc]
    exact List.drop_left' List.length_replicate
  have hlines := fencedLines_written h.isMark (by have := h.three_le; omega) h.lineList h.ended
    h.staysOpen
  have hstop : (first ++ ['\n']).length + (ls.flatten.length + marks) =
      (written mark marks info ls).length := by
    rw [written, ← hfirst]
    simp only [List.length_append, List.length_replicate, Nat.add_assoc]
  have hcontainers : ∀ container ∈ s.frame.containers, container.TakesNothing :=
    fun container hcontainer => hs container (List.mem_reverse.mp hcontainer)
  simp only [fencedBlock, hlength, htake, hdrop, hinfo, trim_info h.trimmed, h.readsBack.unescape_eq,
    fencedLines_of_takesNothing hcontainers, hlines, hstop, withBlankTail, List.take_left,
    List.drop_left, if_true]
  rw [List.length_append]
  rfl

theorem getLast?_written (h : Written mark marks info ls) :
    (written mark marks info ls).getLast? = some mark := by
  obtain ⟨more, rfl⟩ : ∃ more, marks = more + 1 := ⟨marks - 1, by have := h.three_le; omega⟩
  rw [written, List.replicate_succ' (n := more), ← List.append_assoc, ← List.append_assoc,
    List.getLast?_concat]

theorem fence?_of_written (h : Written mark marks info ls) :
    fence? (written mark marks info ls ++ ['\n']) = some (marks, mark) := by
  have hwritten := fence?_written h.isMark h.three_le h.readsBack
    (ls.flatten ++ (List.replicate marks mark ++ ['\n']))
  simpa [written] using hwritten

-- It is read as one block, and the content is the code as it is read.
theorem blocks_written (h : Written mark marks info ls) :
    blocks (written mark marks info ls ++ ['\n']) =
      ([.fenced ⟨0, byteCount (written mark marks info ls)⟩ info (ls.map codeLine).flatten],
        []) := by
  have hfence := fence?_of_written h
  obtain ⟨-, -, tail, htail, -⟩ := fence?_eq_some hfence
  rw [htail] at hfence
  obtain ⟨frame, hframe, hblock⟩ := block_at_mark tail h.isMark .start 0
  have hsize : block .start 0 (mark :: tail) =
      ((mark :: tail).length, Scanner.emit { Scanner.start with frame }
        (.fenced ⟨0, byteCount (written mark marks info ls)⟩ info (ls.map codeLine).flatten)) := by
    rw [hblock, leafBlock, opening_at_mark tail h.isMark, hfence]
    dsimp only
    rw [← htail, fencedBlock_written h hframe, Nat.zero_add]
  rw [blocks, htail, blocksFrom, hsize]
  simp only [List.length_cons, Nat.add_sub_cancel, List.drop_length]
  rw [blocksFrom]
  rfl

end Written

end LiveDoc.Markdown
