import LiveDoc.Proofs.Markdown.Fences

namespace LiveDoc.Markdown

open Text

-- A line ends between the two parts of a text. A carriage return ends one together with the line feed
-- behind it.
def EndsLine (front back : List Char) : Prop :=
  front.getLast? = some '\n' ∨ front.getLast? = some '\r' ∧ back.head? ≠ some '\n'

-- This many characters of a text are whole lines. The last line of the text may have no end.
def Lands (text : List Char) (size : Nat) : Prop :=
  text.drop size = [] ∨ EndsLine (text.take size) (text.drop size)

theorem EndsLine.prepend {front back : List Char} (lead : List Char) (h : EndsLine front back) :
    EndsLine (lead ++ front) back := by
  rcases h with h | ⟨h, hback⟩
  · exact .inl (by rw [List.getLast?_append, h]; rfl)
  · exact .inr ⟨by rw [List.getLast?_append, h]; rfl, hback⟩

section Lands

variable {text : List Char} {size more : Nat}

-- Lines behind others.
theorem Lands.after (h : Lands (text.drop size) more) : Lands text (size + more) := by
  rw [Lands, List.drop_drop] at h
  refine h.imp_right fun h => ?_
  rw [List.take_add]
  exact h.prepend _

theorem Lands.below {c : Char} {rest : List Char} {lead : Nat} (hpos : 0 < size)
    (h : Lands ((rest.drop (size - 1)).drop lead) more) : Lands (c :: rest) (size + lead + more) := by
  rw [drop_sub_one (c := c) hpos, List.drop_drop] at h
  exact h.after

theorem lands_lineBreak? (h : lineBreak? text = some size) : Lands text size := by
  unfold lineBreak? at h
  split at h
  · cases h
    exact .inl rfl
  · cases h
    exact .inr (.inl rfl)
  · cases h
    exact .inr (.inl rfl)
  · rename_i rest hrest
    cases h
    refine .inr (.inr ⟨rfl, fun hhead => ?_⟩)
    obtain ⟨more, hmore⟩ := List.head?_eq_some_iff.mp hhead
    exact hrest more hmore
  · cases h

theorem lands_blankLine? (h : blankLine? text = some size) : Lands text size := by
  obtain ⟨width, hwidth, rfl⟩ := Option.map_eq_some_iff.mp h
  exact (lands_lineBreak? hwidth).after

theorem isSome_blankLine? (h : (lineBreak? text).isSome) : (blankLine? text).isSome := by
  have hnone : count isInlineBlank text = 0 := by
    cases text with
    | nil => rfl
    | cons c rest =>
        have hc : isInlineBlank c = false := by
          have hend := isSome_lineBreak?_iff.mp h c rfl
          simp only [isLineEnd, Bool.or_eq_true, beq_iff_eq] at hend
          rcases hend with rfl | rfl <;> decide
        rw [count, List.takeWhile_cons_of_neg (by simp [hc]), List.length_nil]
  rw [blankLine?, hnone, List.drop_zero, Option.isSome_map]
  exact h

theorem lands_withBlankTail (h : Lands text size ∨ (blankLine? (text.drop size)).isSome) :
    Lands text (withBlankTail text size) := by
  unfold withBlankTail
  cases hblank : blankLine? (text.drop size) with
  | some width => exact (lands_blankLine? hblank).after
  | none =>
      refine h.resolve_right fun h => ?_
      rw [hblank] at h
      cases h

-- Behind the characters of its first line a text has a line break.
theorem lands_lineOf (text : List Char) :
    Lands text ((lineOf text).length + breakLength (text.drop (lineOf text).length)) := by
  have hend : ∀ c ∈ (text.drop (lineOf text).length).head?, isLineEnd c = true := by
    have hdrop : text.drop (lineOf text).length = text.dropWhile fun c => !isLineEnd c := by
      have hdrop := @List.drop_left _ (lineOf text) (text.dropWhile fun c => !isLineEnd c)
      rwa [lineOf, List.takeWhile_append_dropWhile] at hdrop
    intro c hc
    rw [hdrop] at hc
    have hhead := List.head?_dropWhile_not (fun c => !isLineEnd c) text
    rw [Option.mem_def.mp hc] at hhead
    simpa using hhead
  obtain ⟨width, hwidth⟩ := Option.isSome_iff_exists.mp (isSome_lineBreak?_iff.mpr hend)
  rw [breakLength, hwidth]
  exact (lands_lineBreak? hwidth).after

theorem lands_lineLength (text : List Char) : Lands text (lineLength text) := by
  obtain ⟨line, rest, hsplit, hlength, ⟨front, rfl, -⟩ | ⟨rfl, -⟩⟩ := exists_lineLength text
  · refine .inr (.inl ?_)
    rw [hlength, hsplit, List.take_left]
    simp
  · exact .inl (by rw [hlength, hsplit, List.drop_left])

end Lands

section Margins

variable {kind : Char → Prop} {text : List Char} {m : Margin}

theorem rest_eq_drop (h : Margin.Skips kind (Margin.ofText text) m) : m.rest = text.drop m.read := by
  obtain ⟨lead, hrest, hread, -⟩ := h
  change text = lead ++ m.rest at hrest
  rw [hread, hrest]
  simp [Margin.ofText]

theorem rest_skipSpaces (h : m.rest = text.drop m.read) :
    m.skipSpaces.rest = text.drop m.skipSpaces.read := by
  simp only [Margin.skipSpaces, Margin.advance, h, List.drop_drop]

end Margins

-- How far the lines of fenced code go: up to the end of a line, or up to where only blanks are left on
-- the line of the closing fence.
def FenceStops (text : List Char) (size : Nat) : Bool → Prop
  | true => (blankLine? (text.drop size)).isSome = true
  | false => size = 0 ∨ Lands text size

theorem blankLine?_of_closingFence? {mark : Char} {least tail : Nat} {text : List Char}
    (h : closingFence? mark least text = some tail) : (blankLine? (text.drop tail)).isSome := by
  unfold closingFence? at h
  split at h
  · rename_i hempty
    cases h
    rw [List.isEmpty_iff.mp hempty]
    rfl
  · dsimp only at h
    split at h
    · cases h
    · obtain ⟨width, hwidth, rfl⟩ := Option.map_eq_some_iff.mp h
      exact isSome_blankLine? (Option.isSome_iff_exists.mpr ⟨width, hwidth⟩)

section Blocks

variable (containers : List Container)

theorem fenceStops_fencedLines (indent : Nat) (mark : Char) (least : Nat) (text : List Char) :
    FenceStops text (fencedLines containers indent mark least text).1
      (fencedLines containers indent mark least text).2.2 := by
  fun_induction fencedLines containers indent mark least text with
  | case1 => exact .inl rfl
  | case2 => exact .inl rfl
  | case3 c rest m hm inner missing close hclose tail hsome =>
      have hskips := (margin_within? hm).trans (skips_spaces indent m).margin
      have hlast := skips_spaces (4 - indent) inner
      rw [hclose] at hlast
      have hrest := rest_eq_drop (hskips.trans hlast.margin)
      split at hsome
      · cases hsome
      · have hblank := blankLine?_of_closingFence? hsome
        dsimp only at hrest hblank ⊢
        rw [hrest, List.drop_drop] at hblank
        exact hblank
  | case4 c rest m hm inner missing close hclose hnone line size more content closed hmore pad ih =>
      have hskips := (margin_within? hm).trans (skips_spaces indent m).margin
      have hrest : inner.rest = (c :: rest).drop inner.read := rest_eq_drop hskips
      have hlength : line.length = lineLength inner.rest := by
        obtain ⟨own, after, hsplit, hown, -⟩ := exists_lineLength inner.rest
        change (inner.rest.take (lineLength inner.rest)).length = _
        rw [hown, hsplit, List.take_left]
      have hpos : 0 < size := by
        change 0 < inner.read + line.length
        by_cases hne : inner.rest = []
        · rw [hne, eq_comm, List.drop_eq_nil_iff] at hrest
          simp only [List.length_cons] at hrest
          omega
        · have := lineLength_pos hne
          omega
      have hsize : Lands (c :: rest) size := by
        refine Lands.after ?_
        rw [← hrest, hlength]
        exact lands_lineLength inner.rest
      rw [hmore, drop_sub_one (c := c) hpos] at ih
      dsimp only at ih ⊢
      cases closed with
      | true =>
          change (blankLine? (((c :: rest).drop size).drop more)).isSome at ih
          rw [List.drop_drop] at ih
          exact ih
      | false =>
          rcases ih with rfl | hlands
          · exact .inr hsize
          · exact .inr hlands.after

theorem lands_indentedLines (isBlank : Bool) (text : List Char) :
    Lands text (indentedLines containers isBlank text).2.1 := by
  fun_induction indentedLines containers isBlank text with
  | case1 => exact .inl rfl
  | case2 | case3 => exact lands_lineLength _
  | case4 isBlank c rest size own after m hm missing next hnext body hbody stop read blank hmore lead
      ih =>
      rw [hmore] at ih
      exact ih.below (lineLength_pos (List.cons_ne_nil c rest))

theorem lands_htmlUntil (mark text : List Char) : Lands text (htmlUntil containers mark text) := by
  fun_induction htmlUntil containers mark text with
  | case1 => exact .inl rfl
  | case2 | case3 => exact lands_lineLength _
  | case4 c rest size after m hm body hbody ih =>
      exact ih.below (lineLength_pos (List.cons_ne_nil c rest))

theorem lands_htmlParagraph (text : List Char) : Lands text (htmlParagraph containers text) := by
  fun_induction htmlParagraph containers text with
  | case1 => exact .inl rfl
  | case2 | case3 => exact lands_lineLength _
  | case4 c rest size after m hm body hbody ih =>
      exact ih.below (lineLength_pos (List.cons_ne_nil c rest))

theorem lands_htmlSize? {text : List Char} {size : Nat} (h : htmlSize? containers text = some size) :
    Lands text size := by
  unfold htmlSize? at h
  split at h
  · split at h
    · cases h
      exact lands_htmlUntil containers _ _
    · split at h
      · cases h
        exact lands_htmlParagraph containers _
      · cases h
  · cases h

theorem lands_themeBreakFrom {mark : Char} {marks read size : Nat} {text : List Char}
    (h : themeBreakFrom mark marks read text = some size) :
    ∃ width, size = read + width ∧ Lands text width := by
  induction text generalizing marks read with
  | nil =>
      simp only [themeBreakFrom, Option.ite_none_right_eq_some, Option.some.injEq] at h
      exact ⟨0, h.2.symm, .inl rfl⟩
  | cons c rest ih =>
      have hmore : ∀ {marks : Nat}, themeBreakFrom mark marks (read + 1) rest = some size →
          ∃ width, size = read + width ∧ Lands (c :: rest) width := by
        intro marks hmore
        obtain ⟨width, rfl, hwidth⟩ := ih hmore
        exact ⟨1 + width, Nat.add_assoc .., @Lands.after (c :: rest) _ _ hwidth⟩
      unfold themeBreakFrom at h
      split at h
      · split at h
        · obtain ⟨width, hwidth, rfl⟩ := Option.map_eq_some_iff.mp h
          exact ⟨width, rfl, lands_lineBreak? hwidth⟩
        · cases h
      · split at h
        · exact hmore h
        · split at h
          · exact hmore h
          · cases h

theorem lands_themeBreak? {text : List Char} {size : Nat} (h : themeBreak? text = some size) :
    Lands text size := by
  unfold themeBreak? at h
  split at h
  · cases h
  · split at h
    · obtain ⟨width, rfl, hwidth⟩ := lands_themeBreakFrom h
      rwa [Nat.zero_add]
    · cases h

theorem lands_underline? {text : List Char} {width level : Nat}
    (h : underline? text = some (width, level)) : Lands text width := by
  unfold underline? at h
  split at h
  · cases h
  · dsimp only at h
    split at h
    · obtain ⟨tail, htail, heq⟩ := Option.map_eq_some_iff.mp h
      cases heq
      exact (lands_blankLine? htail).after
    · cases h

theorem lands_paragraphLines (text : List Char) : Lands text (paragraphLines containers text).1 := by
  fun_induction paragraphLines containers text with
  | case1 => exact .inl rfl
  | case2 c rest line size after count m henter inside missing next hnext own width level hlevel =>
      have hlead := skips_enterAll containers (Margin.ofText after)
      have hpads := skips_spaces 4 m
      rw [henter] at hlead
      rw [hnext] at hpads
      have hrest : next.rest = after.drop next.read := rest_eq_drop (hlead.trans hpads.margin)
      have hrule : Lands next.rest width := by
        dsimp only [own] at hlevel
        split at hlevel
        · exact lands_underline? hlevel
        · cases hlevel
      rw [hrest] at hrule
      exact hrule.below (lineOf_length_add_break_pos (List.cons_ne_nil c rest))
  | case3 c rest => exact lands_lineOf (c :: rest)
  | case4 c rest line size after count m henter inside missing next hnext own hlevel body hgoes more ls
      level hmore ih =>
      rw [hmore] at ih
      exact ih.below (lineOf_length_add_break_pos (List.cons_ne_nil c rest))

theorem lands_tableRule? {text : List Char} {rule : Nat}
    (h : tableRule? containers text = some rule) :
    Lands text ((lineOf text).length + breakLength (text.drop (lineOf text).length) + rule) := by
  unfold tableRule? at h
  dsimp only at h
  split at h
  · cases h
  · split at h
    · cases h
    · rename_i m hm
      split at h
      · cases h
        have hrule := lands_lineOf m.rest
        rw [rest_eq_drop (margin_within? hm)] at hrule
        have hwhole := hrule.after.after
        rw [← rest_eq_drop (margin_within? hm), ← Nat.add_assoc m.read] at hwhole
        exact hwhole
      · cases h

theorem lands_tableRows (text : List Char) :
    tableRows containers text = 0 ∨ Lands text (tableRows containers text) := by
  fun_induction tableRows containers text with
  | case1 | case2 | case3 => exact .inl rfl
  | case4 c rest m hm next line hrow size ih =>
      have hrest : next.rest = (c :: rest).drop next.read :=
        rest_skipSpaces (rest_eq_drop (margin_within? hm))
      have hsize : Lands (c :: rest) size := by
        have hline := lands_lineOf next.rest
        rw [hrest] at hline
        have hwhole := hline.after
        rw [← hrest, ← Nat.add_assoc] at hwhole
        exact hwhole
      have hpos : 0 < size := by
        by_cases hne : next.rest = []
        · rw [hne, eq_comm, List.drop_eq_nil_iff, List.length_cons] at hrest
          dsimp only [size]
          omega
        · have := lineOf_length_add_break_pos hne
          dsimp only [size, line]
          omega
      right
      rw [drop_sub_one (c := c) hpos] at ih ⊢
      rcases ih with hnone | hlands
      · rwa [hnone]
      · exact hlands.after

section Definitions

variable {text : List Char}

-- A gap that breaks off stands at the end of a line, and so does one with a line break in it.
theorem blankLine?_of_definitionGap (h : ∀ gap, definitionGap containers text ≠ some (gap, false)) :
    (blankLine? text).isSome := by
  unfold definitionGap at h
  dsimp only at h
  cases hbreak : lineBreak? (text.drop (count isInlineBlank text)) with
  | none =>
      rw [hbreak] at h
      exact absurd rfl (h _)
  | some width => rw [blankLine?, hbreak]; rfl

-- The target and title of a definition go up to the end of a line, or only blanks follow them there.
theorem lands_definitionBody {size : Nat} (h : definitionBody containers text = some size) :
    Lands text size ∨ (blankLine? (text.drop size)).isSome := by
  unfold definitionBody at h
  split at h
  · cases h
  · split at h
    · cases h
    · dsimp only at h
      split at h
      · cases h
      · split at h
        · rename_i hgap
          cases h
          exact .inr (blankLine?_of_definitionGap containers fun gap => by simp [hgap])
        · rename_i gap broken hgap
          split at h
          · cases h
          · split at h
            · rename_i whole hwhole
              cases h
              obtain ⟨width, -, hline⟩ := Option.bind_eq_some_iff.mp hwhole
              obtain ⟨tail, htail, rfl⟩ := Option.map_eq_some_iff.mp hline
              rw [List.drop_drop] at htail
              exact .inl (lands_blankLine? htail).after
            · split at h
              · rename_i hbroken
                cases h
                rw [hbroken] at hgap
                exact .inr (blankLine?_of_definitionGap containers fun more => by simp [hgap])
              · cases h

theorem lands_definition? {label : List Char} {size : Nat}
    (h : definition? containers text = some (size, label)) :
    Lands text size ∨ (blankLine? (text.drop size)).isSome := by
  unfold definition? at h
  split at h
  · rename_i rest
    split at h
    · cases h
    · rename_i own width hlabel
      split at h
      · rename_i body hbody
        obtain ⟨more, hmore, heq⟩ := Option.map_eq_some_iff.mp h
        cases heq
        have hdrop : ('[' :: rest).drop (width + 2) = body := by
          rw [List.drop_succ_cons, ← List.drop_drop, hbody]
          rfl
        have hbodyLands := lands_definitionBody containers hmore
        rw [← hdrop, List.drop_drop] at hbodyLands
        exact hbodyLands.imp_left Lands.after
      · cases h
  · cases h

end Definitions

end Blocks

section Block

variable (s : Scanner) (offset : Nat) {text : List Char}

theorem lands_fencedBlock (indent marks : Nat) (mark : Char) (text : List Char) :
    Lands text (fencedBlock s offset indent marks mark text).1 := by
  have hhead := lands_lineLength text
  have hstops := fenceStops_fencedLines s.frame.containers indent mark marks
    (text.drop (lineLength text))
  unfold fencedBlock
  rcases hlines : fencedLines s.frame.containers indent mark marks (text.drop (lineLength text))
    with ⟨size, content, closed⟩
  dsimp only
  rw [hlines] at hstops ⊢
  dsimp only at hstops ⊢
  cases closed with
  | true =>
      rw [FenceStops, List.drop_drop] at hstops
      exact lands_withBlankTail (.inr hstops)
  | false =>
      rcases hstops with rfl | hlands
      · exact hhead
      · exact hlands.after

theorem lands_paragraphBlock (text : List Char) : Lands text (paragraphBlock s offset text).1 := by
  have hlines := lands_paragraphLines s.frame.containers text
  unfold paragraphBlock
  dsimp only
  split
  · rename_i rule hrule
    have hhead : Lands text
        ((lineOf text).length + breakLength (text.drop (lineOf text).length) + rule) := by
      split at hrule
      · cases hrule
      · exact lands_tableRule? _ hrule
    rcases lands_tableRows s.frame.containers (text.drop ((lineOf text).length +
      breakLength (text.drop (lineOf text).length) + rule)) with hnone | hrows
    · rw [hnone]
      exact hhead
    · exact hrows.after
  · split
    · rename_i heq
      rwa [heq] at hlines
    · rename_i heq
      rwa [heq] at hlines

theorem lands_leafBlock (indent : Nat) (text : List Char) :
    Lands text (leafBlock s offset indent text).1 := by
  unfold leafBlock opening
  cases hhtml : htmlSize? s.frame.containers text with
  | some size => exact lands_htmlSize? _ hhtml
  | none =>
    cases htheme : themeBreak? text with
    | some size => exact lands_themeBreak? htheme
    | none =>
      cases hhash : hashLevel? text with
      | some level =>
          have hline := (lands_lineOf (text.drop level)).after
          rw [← Nat.add_assoc, List.drop_drop] at hline
          exact hline
      | none =>
        cases hfence : fence? text with
        | some fence => exact lands_fencedBlock s offset indent fence.1 fence.2 text
        | none =>
          cases hdef : definition? s.frame.containers text with
          | some definition => exact lands_withBlankTail (lands_definition? _ hdef)
          | none => exact lands_paragraphBlock s offset text

-- An item that ends the reading of its line has nothing but blanks behind it there.
theorem isSome_blankLine?_of_openNew (f : Frame) (m : Margin) :
    (f.openNew m).2.2 = true → (blankLine? (f.openNew m).2.1.rest).isSome := by
  induction hn : m.rest.length using Nat.strongRecOn generalizing f m with
  | _ n ih =>
      rw [Frame.openNew]
      rcases m.indent 4 with ⟨columns, inner⟩
      dsimp only
      split
      · exact fun h => absurd h Bool.false_ne_true
      · split
        · rename_i marker next hmarker
          split
          · rename_i hblank
            exact fun _ => hblank
          · split
            · rename_i hshort
              exact ih _ (hn ▸ hshort) _ next rfl
            · exact fun h => absurd h Bool.false_ne_true
        · split
          · split
            · rename_i next _ hshort
              exact ih _ (hn ▸ hshort) _ next rfl
            · exact fun h => absurd h Bool.false_ne_true
          · exact fun h => absurd h Bool.false_ne_true

-- Every block is made of whole lines.
theorem lands_block (text : List Char) : Lands text (block s offset text).1 := by
  have henter := skips_enterAll s.frame.containers (Margin.ofText text)
  unfold block
  rcases he : enterAll s.frame.containers (Margin.ofText text) with ⟨count, entered⟩
  rw [he] at henter
  obtain ⟨hopen, -⟩ := skips_openNew (s.frame.keep count) entered
  have hdone := isSome_blankLine?_of_openNew (s.frame.keep count) entered
  dsimp only
  rcases ho : (s.frame.keep count).openNew entered with ⟨frame, m, done⟩
  rw [ho] at hopen hdone
  dsimp only at henter hopen hdone ⊢
  have hskips := henter.lead.trans hopen
  have hrest := rest_eq_drop hskips
  split
  · rename_i hd
    obtain ⟨width, hwidth⟩ := Option.isSome_iff_exists.mp (hdone hd)
    rw [hwidth]
    rw [hrest] at hwidth
    exact (lands_blankLine? hwidth).after
  · cases hb : blankLine? m.rest with
    | some size =>
        rw [hrest] at hb
        exact (lands_blankLine? hb).after
    | none =>
        have hpads := skips_indent 4 m
        dsimp only
        rcases hi : m.indent 4 with ⟨columns, inner⟩
        rw [hi] at hpads
        have hinner := rest_eq_drop (hskips.trans hpads.margin.lead)
        dsimp only
        rw [hinner]
        split
        · exact Lands.after (lands_indentedLines _ false _)
        · exact Lands.after (lands_leafBlock _ _ _ _)

end Block

-- Where a line starts.
def StartsLine (front back : List Char) : Prop := front = [] ∨ EndsLine front back

-- Places of a text that stands behind `front`, each on a line of its own, where nothing is before it
-- but blanks and the marks of containers.
inductive Led : List Char → List Char → List Nat → Prop
  | nil (front text : List Char) : Led front text []
  | cons {front gap lead body rest : List Char} {starts : List Nat} :
      StartsLine (front ++ gap) (lead ++ (body ++ rest)) → (∀ c ∈ lead, IsLead c) →
      Led (front ++ (gap ++ (lead ++ body))) rest starts →
      Led front (gap ++ (lead ++ (body ++ rest))) (byteCount (front ++ (gap ++ lead)) :: starts)

theorem Led.prepend {front gap text : List Char} {starts : List Nat} (h : Led (front ++ gap) text starts) :
    Led front (gap ++ text) starts := by
  cases h with
  | nil => exact .nil front _
  | @cons _ more lead body rest starts hstarts hlead hmore =>
      have hled := @Led.cons front (gap ++ more) lead body rest starts (by simpa using hstarts) hlead
        (by simpa using hmore)
      simpa using hled

theorem Led.exists_of_cons {front text : List Char} {start : Nat} {starts : List Nat}
    (h : Led front text (start :: starts)) :
    ∃ gap lead body rest, text = gap ++ (lead ++ (body ++ rest)) ∧
      StartsLine (front ++ gap) (lead ++ (body ++ rest)) ∧ (∀ c ∈ lead, IsLead c) ∧
      start = byteCount (front ++ (gap ++ lead)) ∧ Led (front ++ (gap ++ (lead ++ body))) rest starts := by
  cases h with
  | @cons _ gap lead body rest _ hstarts hlead hmore =>
      exact ⟨gap, lead, body, rest, rfl, hstarts, hlead, rfl, hmore⟩

-- The places behind some others are in the text behind the last of these.
theorem Led.exists_of_append {front text : List Char} {first starts : List Nat}
    (h : Led front text (first ++ starts)) :
    ∃ gap rest, text = gap ++ rest ∧ Led (front ++ gap) rest starts := by
  induction first generalizing front text with
  | nil => exact ⟨[], text, rfl, by simpa using h⟩
  | cons start more ih =>
      obtain ⟨gap, lead, body, rest, rfl, -, -, -, hmore⟩ := h.exists_of_cons
      obtain ⟨later, last, rfl, hlast⟩ := ih hmore
      exact ⟨gap ++ (lead ++ (body ++ later)), last, by simp, by simpa using hlast⟩

section Starts

variable {s : Scanner} {offset : Nat} {text : List Char} {new : List Leaf}

-- A block is one leaf at most. A heading starts where the block does.
theorem leaves_leafBlock (s : Scanner) (offset indent : Nat) (text : List Char) :
    (leafBlock s offset indent text).2.leaves = s.leaves ∨
      ∃ leaf, (leafBlock s offset indent text).2.leaves = leaf :: s.leaves ∧
        (leaf.headingStart? = none ∨ leaf.headingStart? = some offset) := by
  unfold leafBlock
  split
  · exact .inl rfl
  · exact .inl rfl
  · exact .inr ⟨_, rfl, .inr rfl⟩
  · exact .inr ⟨_, rfl, .inl rfl⟩
  · exact .inl rfl
  · unfold paragraphBlock
    dsimp only
    split
    · exact .inl rfl
    · split
      · exact .inr ⟨_, rfl, .inr rfl⟩
      · exact .inl rfl

theorem headingStart?_of_block (h : (block s offset text).2.leaves = new ++ s.leaves) :
    new.filterMap Leaf.headingStart? = [] ∨ ∃ lead rest, text = lead ++ rest ∧
      (∀ c ∈ lead, IsLead c) ∧ new.filterMap Leaf.headingStart? = [offset + byteCount lead] := by
  rcases block_cases s offset text with hnone | ⟨lead, rest, frame, rfl, hlead, hindented | hleafs⟩
  · rw [hnone, List.self_eq_append_left] at h
    exact .inl (by rw [h]; rfl)
  · rw [hindented] at h
    have hnew : [.indented _] = new := List.append_cancel_right h
    exact .inl (by rw [← hnew]; rfl)
  · obtain ⟨columns, hleafs⟩ := hleafs
    rw [hleafs] at h
    rcases leaves_leafBlock { s with frame } (offset + byteCount lead) columns rest with
      hnone | ⟨leaf, hone, hstart⟩
    · rw [hnone, List.self_eq_append_left] at h
      exact .inl (by rw [h]; rfl)
    · have hnew : [leaf] = new := List.append_cancel_right (hone.symm.trans h)
      rw [← hnew]
      rcases hstart with hstart | hstart
      · exact .inl (by simp [hstart])
      · exact .inr ⟨lead, rest, rfl, hlead, by simp [hstart]⟩

-- What reading a block adds stands behind the lead of its first line.
theorem led_block {front : List Char} (hne : text ≠ []) (hstarts : StartsLine front text)
    (hnew : (block s (byteCount front) text).2.leaves = new ++ s.leaves) {starts : List Nat}
    (hmore : Led (front ++ text.take (block s (byteCount front) text).1)
      (text.drop (block s (byteCount front) text).1) starts) :
    Led front text (new.reverse.filterMap Leaf.headingStart? ++ starts) := by
  obtain ⟨-, added, hadded, -, -, -, hinside⟩ := takes_block s (byteCount front) hne
  rw [hnew, List.append_cancel_right_eq] at hadded
  subst hadded
  generalize (block s (byteCount front) text).1 = size at hmore hinside
  rw [List.filterMap_reverse] at hinside ⊢
  rcases headingStart?_of_block hnew with hnone | ⟨lead, rest, rfl, hlead, hone⟩
  · rw [hnone]
    have hled := hmore.prepend
    rwa [List.take_append_drop] at hled
  · rw [hone] at hinside ⊢
    -- A heading stands inside of its block, so that the block takes the lead too.
    have hlt := hinside _ (List.mem_singleton_self _)
    obtain ⟨body, hbody⟩ : lead <+: (lead ++ rest).take size :=
      prefix_of_byteCount_le (List.prefix_append lead rest) (List.take_prefix size _) (by omega)
    have hsplit : lead ++ rest = lead ++ (body ++ (lead ++ rest).drop size) := by
      rw [← List.append_assoc, hbody, List.take_append_drop]
    rw [← hbody] at hmore
    rw [hsplit] at hstarts ⊢
    have hled := @Led.cons front [] lead body ((lead ++ rest).drop size) starts (by simpa using hstarts)
      hlead (by simpa using hmore)
    simpa using hled

theorem led_blocksFrom (s : Scanner) (front : List Char) (text : List Char)
    (hstarts : text = [] ∨ StartsLine front text) :
    ∃ new, (blocksFrom s (byteCount front) text).leaves = new ++ s.leaves ∧
      Led front text (new.reverse.filterMap Leaf.headingStart?) := by
  induction hn : text.length using Nat.strongRecOn generalizing s front text with
  | _ n ih =>
      cases text with
      | nil =>
          rw [blocksFrom]
          exact ⟨[], rfl, .nil front []⟩
      | cons c rest =>
          obtain ⟨hpos, new, hnew, -⟩ := takes_block s (byteCount front) (List.cons_ne_nil c rest)
          have hblock := lands_block s (byteCount front) (c :: rest)
          have hled := @led_block s (c :: rest) new front (List.cons_ne_nil c rest)
            (hstarts.resolve_left (List.cons_ne_nil c rest)) hnew
          rw [blocksFrom]
          rcases hb : block s (byteCount front) (c :: rest) with ⟨size, next⟩
          rw [hb] at hpos hnew hblock hled
          dsimp only at hpos hnew hblock hled ⊢
          have hlen : ((c :: rest).drop size).length < n := by
            rw [← hn, List.length_drop, List.length_cons]
            omega
          obtain ⟨more, hmore, hlater⟩ := ih _ hlen next (front ++ (c :: rest).take size) _
            (hblock.imp_right fun hends => .inr (hends.prepend front)) rfl
          rw [byteCount_append] at hmore
          refine ⟨more ++ new, ?_, ?_⟩
          · rw [drop_sub_one (c := c) hpos, hmore, hnew, List.append_assoc]
          · rw [List.reverse_append, List.filterMap_append]
            exact hled hlater

-- Every heading has a line of its own, on which it stands behind the marks of its containers and
-- blanks.
theorem led_blocks (text : List Char) :
    Led [] text ((blocks text).1.filterMap Leaf.headingStart?) := by
  obtain ⟨new, hnew, hled⟩ := led_blocksFrom .start [] text (.inr (.inl rfl))
  have hleaves : (blocksFrom .start 0 text).leaves = new := by
    rw [byteCount_nil] at hnew
    rw [hnew]
    exact List.append_nil new
  rw [blocks]
  dsimp only
  rw [hleaves]
  exact hled

end Starts

end LiveDoc.Markdown
