import Mathlib.Data.List.TakeWhile
import LiveDoc.Markdown.Block
import LiveDoc.Proofs.Markdown.Margin
import LiveDoc.Proofs.Source.Ranges

namespace LiveDoc.Markdown

open Text

theorem lineBreak?_pos {text : List Char} {size : Nat} (hne : text ≠ [])
    (h : lineBreak? text = some size) : 0 < size := by
  unfold lineBreak? at h
  split at h <;> simp_all <;> omega

theorem breakLength_pos {c : Char} (rest : List Char) (h : isLineEnd c) :
    0 < breakLength (c :: rest) := by
  simp only [isLineEnd, Bool.or_eq_true, beq_iff_eq] at h
  rcases h with rfl | rfl
  · exact Nat.one_pos
  · cases rest with
    | nil => exact Nat.one_pos
    | cons d more =>
        by_cases hd : d = '\n'
        · subst hd
          exact Nat.two_pos
        · simp [breakLength, lineBreak?, hd]

-- A text that is not empty has a line, or the break that ends an empty one.
theorem lineOf_length_add_break_pos {text : List Char} (h : text ≠ []) :
    0 < (lineOf text).length + breakLength (text.drop (lineOf text).length) := by
  cases text with
  | nil => exact (h rfl).elim
  | cons c rest =>
      by_cases hc : isLineEnd c
      · have hb := breakLength_pos rest hc
        simpa [lineOf, hc] using hb
      · simp only [lineOf, List.takeWhile_cons, hc, Bool.not_false, if_true, List.length_cons]
        omega

theorem lineLength_pos {text : List Char} (h : text ≠ []) : 0 < lineLength text := by
  have hlen := List.length_pos_iff.mpr h
  simp only [lineLength]
  split <;> omega

theorem blankLine?_pos {text : List Char} {size : Nat} (hne : text ≠ [])
    (h : blankLine? text = some size) : 0 < size := by
  obtain ⟨tail, ht, rfl⟩ := Option.map_eq_some_iff.mp h
  by_cases hb : count isInlineBlank text = 0
  · rw [hb, List.drop_zero] at ht
    have := lineBreak?_pos hne ht
    omega
  · omega

theorem drop_sub_one {c : Char} {rest : List Char} {size : Nat} (h : 0 < size) :
    rest.drop (size - 1) = (c :: rest).drop size := by
  obtain ⟨less, rfl⟩ := Nat.exists_eq_add_of_lt h
  simp

-- Pads in front do not keep a line from being blank.
theorem ne_nil_of_blankLine?_eq_none {m next : Margin} (hs : Margin.Skips IsPad m next)
    (h : blankLine? m.rest = none) : next.rest ≠ [] := by
  obtain ⟨lead, hrest, -, hpad⟩ := hs
  intro hnil
  rw [hnil, List.append_nil] at hrest
  have hblank : ∀ c ∈ m.rest, isInlineBlank c = true := by
    rw [hrest]
    intro c hc
    rcases hpad c hc with rfl | rfl <;> rfl
  have hcount : count isInlineBlank m.rest = m.rest.length := by
    rw [count, List.takeWhile_eq_self_iff.mpr hblank]
  rw [blankLine?, hcount, List.drop_length] at h
  cases h

theorem themeBreakFrom_ge {mark : Char} {text : List Char} {marks read size : Nat}
    (hm : marks ≤ read) (h : themeBreakFrom mark marks read text = some size) : 3 ≤ size := by
  induction text generalizing marks read with
  | nil =>
      simp only [themeBreakFrom, Option.ite_none_right_eq_some, Option.some.injEq] at h
      omega
  | cons c rest ih =>
      unfold themeBreakFrom at h
      split at h
      · split at h
        · obtain ⟨tail, -, rfl⟩ := Option.map_eq_some_iff.mp h
          omega
        · cases h
      · split at h
        · exact ih (by omega) h
        · split at h
          · exact ih (by omega) h
          · cases h

theorem themeBreak?_pos {text : List Char} {size : Nat} (h : themeBreak? text = some size) :
    0 < size := by
  unfold themeBreak? at h
  split at h
  · cases h
  · split at h
    · have := themeBreakFrom_ge (Nat.le_refl 0) h
      omega
    · cases h

theorem hashLevel?_pos {text : List Char} {level : Nat} (h : hashLevel? text = some level) :
    0 < level := by
  simp only [hashLevel?, Option.ite_none_right_eq_some, Option.some.injEq, Bool.and_eq_true,
    decide_eq_true_eq] at h
  omega

theorem definition?_pos {containers : List Container} {text label : List Char} {size : Nat}
    (h : definition? containers text = some (size, label)) : 0 < size := by
  unfold definition? at h
  split at h
  · split at h
    · cases h
    · split at h
      · obtain ⟨width, -, heq⟩ := Option.map_eq_some_iff.mp h
        cases heq
        omega
      · cases h
  · cases h

theorem htmlUntil_pos (containers : List Container) (mark : List Char) {text : List Char}
    (h : text ≠ []) : 0 < htmlUntil containers mark text := by
  cases text with
  | nil => exact (h rfl).elim
  | cons c rest =>
      have hl := lineLength_pos h
      unfold htmlUntil
      dsimp only
      split
      · exact hl
      · split <;> omega

theorem htmlParagraph_pos (containers : List Container) {text : List Char} (h : text ≠ []) :
    0 < htmlParagraph containers text := by
  cases text with
  | nil => exact (h rfl).elim
  | cons c rest =>
      have hl := lineLength_pos h
      unfold htmlParagraph
      dsimp only
      split
      · exact hl
      · split <;> omega

theorem htmlSize?_pos {containers : List Container} {text : List Char} {size : Nat}
    (h : htmlSize? containers text = some size) : 0 < size := by
  unfold htmlSize? at h
  split at h
  · split at h
    · cases h
      exact htmlUntil_pos _ _ (List.cons_ne_nil _ _)
    · split at h
      · cases h
        exact htmlParagraph_pos _ (List.cons_ne_nil _ _)
      · cases h
  · cases h

theorem paragraphLines_pos (containers : List Container) {text : List Char} (h : text ≠ []) :
    0 < (paragraphLines containers text).1 := by
  cases text with
  | nil => exact (h rfl).elim
  | cons c rest =>
      have hl := lineOf_length_add_break_pos h
      unfold paragraphLines
      dsimp only
      split
      · dsimp only
        omega
      · split
        · exact hl
        · dsimp only
          omega

-- An indented block ends where its last line with text does, which is not beyond what is read.
-- One that starts with text is not empty.
theorem indentedLines_bounds (containers : List Container) (isBlank : Bool) (text : List Char) :
    (indentedLines containers isBlank text).1 ≤ (indentedLines containers isBlank text).2.1 ∧
      (isBlank = false → text ≠ [] → 0 < (indentedLines containers isBlank text).1) := by
  induction hn : text.length using Nat.strongRecOn generalizing isBlank text with
  | _ n ih =>
      cases text with
      | nil =>
          unfold indentedLines
          exact ⟨Nat.le_refl 0, fun _ h => (h rfl).elim⟩
      | cons c rest =>
          have hl := lineLength_pos (List.cons_ne_nil c rest)
          have hown : (if isBlank then 0 else lineLength (c :: rest)) ≤ lineLength (c :: rest) := by
            split <;> omega
          have hfull : isBlank = false →
              0 < (if isBlank then 0 else lineLength (c :: rest)) := by
            rintro rfl
            exact hl
          unfold indentedLines
          dsimp only
          split
          · exact ⟨hown, fun hb _ => hfull hb⟩
          · rename_i m hm
            rcases hs : m.spaces 4 with ⟨missing, next⟩
            dsimp only
            split
            · exact ⟨hown, fun hb _ => hfull hb⟩
            · generalize hbody : (rest.drop (lineLength (c :: rest) - 1)).drop next.read = body
              have hlen : body.length < n := by
                rw [← hn, ← hbody, List.length_drop, List.length_drop, List.length_cons]
                omega
              have hle := (ih body.length hlen (blankLine? body).isSome body rfl).1
              rcases hmore : indentedLines containers (blankLine? body).isSome body
                with ⟨stop, read, blank⟩
              rw [hmore] at hle
              dsimp only at hle ⊢
              refine ⟨?_, fun hb _ => ?_⟩
              · split <;> omega
              · have := hfull hb
                split <;> omega

def Leaf.codeRange? : Leaf → Option ByteRange
  | .fenced range _ _ => some range
  | .indented range => some range
  | .heading _ _ _ => none

def Leaf.headingStart? : Leaf → Option Nat
  | .heading start _ _ => some start
  | _ => none

-- How leaves lie in a text that starts at `offset`: code takes up whole characters, one block after
-- the other, and headings start in order, no two at one place and each with something behind it.
structure Lays (offset : Nat) (text : List Char) (leaves : List Leaf) : Prop where
  code : ByteRange.Laid offset text (leaves.filterMap Leaf.codeRange?)
  headings : ByteRange.Marked offset text (leaves.filterMap Leaf.headingStart?)
  apart : (leaves.filterMap Leaf.headingStart?).Pairwise (· < ·)
  inside : ∀ start ∈ leaves.filterMap Leaf.headingStart?, start < offset + byteCount text

theorem Lays.nil (offset : Nat) (text : List Char) : Lays offset text [] :=
  ⟨.nil offset text, .nil offset text, .nil, nofun⟩

theorem Lays.prepend {offset : Nat} {text : List Char} {leaves : List Leaf} (front : List Char)
    (h : Lays (offset + byteCount front) text leaves) : Lays offset (front ++ text) leaves := by
  refine ⟨h.code.prepend front, h.headings.prepend front, h.apart, ?_⟩
  rw [byteCount_append, ← Nat.add_assoc]
  exact h.inside

theorem Lays.append {offset : Nat} {front back : List Char} {leaves more : List Leaf}
    (hfront : Lays offset front leaves) (hback : Lays (offset + byteCount front) back more) :
    Lays offset (front ++ back) (leaves ++ more) := by
  have hlater : ∀ start ∈ more.filterMap Leaf.headingStart?, offset + byteCount front ≤ start := by
    intro start hstart
    obtain ⟨before, -, -, rfl⟩ := hback.headings.exists_of_mem start hstart
    exact Nat.le_add_right _ _
  constructor <;> rw [List.filterMap_append]
  · exact hfront.code.append hback.code
  · exact hfront.headings.append hback.headings
  · exact List.pairwise_append.mpr ⟨hfront.apart, hback.apart, fun start hstart later hmore =>
      Nat.lt_of_lt_of_le (hfront.inside start hstart) (hlater later hmore)⟩
  · rw [byteCount_append, ← Nat.add_assoc]
    refine List.forall_mem_append.mpr ⟨fun start hstart => ?_, hback.inside⟩
    exact Nat.lt_add_right _ (hfront.inside start hstart)

-- Where Markdown finds code in a text, in the order in which it finds it.
def codeRanges (text : List Char) : List ByteRange := (blocks text).1.filterMap Leaf.codeRange?

-- What reading a block does: it takes something, and what it adds lies in there.
def Takes (s : Scanner) (offset : Nat) (text : List Char) (result : Nat × Scanner) : Prop :=
  0 < result.1 ∧ ∃ new, result.2.leaves = new ++ s.leaves ∧
    Lays offset (text.take result.1) new.reverse

theorem takes_of_leaves_eq {s next : Scanner} {size : Nat} (offset : Nat) (text : List Char)
    (hs : 0 < size) (h : next.leaves = s.leaves) : Takes s offset text (size, next) :=
  ⟨hs, [], h, .nil offset _⟩

theorem takes_heading {s : Scanner} {size : Nat} (offset : Nat) {text : List Char} (hne : text ≠ [])
    (hs : 0 < size) (level : Nat) (content : List Char) :
    Takes s offset text (size, s.emit (.heading offset level content)) := by
  have hpos : 0 < byteCount (text.take size) := byteCount_pos fun hnil =>
    (List.take_eq_nil_iff.mp hnil).elim (Nat.ne_of_gt hs) hne
  refine ⟨hs, [.heading offset level content], rfl, .nil offset _, ByteRange.marked_start offset _,
    List.pairwise_singleton _ _, fun start hstart => ?_⟩
  cases List.mem_singleton.mp hstart
  exact Nat.lt_add_of_pos_right hpos

theorem takes_code {s next : Scanner} {leaf : Leaf} {offset stop size : Nat} {text : List Char}
    (hne : text ≠ []) (hpos : 0 < stop) (hle : stop ≤ size)
    (hleaf : leaf.codeRange? = some ⟨offset, offset + byteCount (text.take stop)⟩)
    (hnext : next.leaves = leaf :: s.leaves) : Takes s offset text (size, next) := by
  have hbody : text.take stop ≠ [] := by
    rw [Ne, List.take_eq_nil_iff]
    rintro (h | h)
    · omega
    · exact hne h
  have hsplit : text.take size = text.take stop ++ (text.drop stop).take (size - stop) := by
    rw [← List.take_add, Nat.add_sub_cancel' hle]
  have hstart : leaf.headingStart? = none := by
    cases leaf with
    | heading => cases hleaf
    | fenced | indented => rfl
  have hnone : [leaf].reverse.filterMap Leaf.headingStart? = [] := by
    simp only [List.reverse_singleton, List.filterMap_cons, hstart, List.filterMap_nil]
  refine ⟨by dsimp only; omega, [leaf], hnext, ?_, ?_, ?_, ?_⟩
  · simp only [List.reverse_singleton, List.filterMap_cons, hleaf, List.filterMap_nil, hsplit]
    exact ByteRange.Laid.head hbody (.nil _ _)
  · rw [hnone]
    exact .nil _ _
  · rw [hnone]
    exact .nil
  · rw [hnone]
    exact nofun

theorem takes_headingBlock (s : Scanner) (offset : Nat) {level : Nat} {text : List Char}
    (hne : text ≠ []) (hl : 0 < level) : Takes s offset text (headingBlock s offset level text) :=
  takes_heading offset hne (by omega) level _

theorem takes_fencedBlock (s : Scanner) (offset indent marks : Nat) (mark : Char)
    {text : List Char} (hne : text ≠ []) :
    Takes s offset text (fencedBlock s offset indent marks mark text) := by
  have hl := lineLength_pos hne
  unfold fencedBlock
  rcases hlines : fencedLines s.frame.containers indent mark marks (text.drop (lineLength text))
    with ⟨size, content, closed⟩
  dsimp only
  rw [hlines]
  have hpos : 0 < lineLength text + size := by omega
  refine takes_code hne hpos ?_ rfl rfl
  dsimp only
  split
  · simp only [withBlankTail]
    omega
  · exact Nat.le_refl _

theorem takes_paragraphBlock (s : Scanner) (offset : Nat) {text : List Char} (hne : text ≠ []) :
    Takes s offset text (paragraphBlock s offset text) := by
  have hl := lineOf_length_add_break_pos hne
  have hp := paragraphLines_pos s.frame.containers hne
  unfold paragraphBlock
  dsimp only
  split
  · exact takes_of_leaves_eq offset text (by omega) rfl
  · split
    · rename_i size lines level hlines
      rw [hlines] at hp
      exact takes_heading offset hne hp level _
    · rename_i size lines hlines
      rw [hlines] at hp
      exact takes_of_leaves_eq offset text hp rfl

theorem takes_leafBlock (s : Scanner) (offset indent : Nat) {text : List Char} (hne : text ≠ []) :
    Takes s offset text (leafBlock s offset indent text) := by
  unfold leafBlock opening
  cases hhtml : htmlSize? s.frame.containers text with
  | some size => exact takes_of_leaves_eq offset text (htmlSize?_pos hhtml) rfl
  | none =>
    cases htheme : themeBreak? text with
    | some size => exact takes_of_leaves_eq offset text (themeBreak?_pos htheme) rfl
    | none =>
      cases hhash : hashLevel? text with
      | some level => exact takes_headingBlock s offset hne (hashLevel?_pos hhash)
      | none =>
        cases hfence : fence? text with
        | some fence => exact takes_fencedBlock s offset indent fence.1 fence.2 hne
        | none =>
          cases hdef : definition? s.frame.containers text with
          | some definition =>
              have hpos := definition?_pos hdef
              refine takes_of_leaves_eq offset text ?_ rfl
              simp only [withBlankTail]
              omega
          | none => exact takes_paragraphBlock s offset hne

theorem takes_indentedBlock (s : Scanner) (offset : Nat) {text : List Char} (hne : text ≠ []) :
    Takes s offset text (indentedBlock s offset text) := by
  have hb := indentedLines_bounds s.frame.containers false text
  unfold indentedBlock
  rcases hlines : indentedLines s.frame.containers false text with ⟨stop, size, blank⟩
  rw [hlines] at hb
  exact takes_code hne (hb.2 rfl hne) hb.1 rfl rfl

-- A block that starts further on in the text takes what stands before it too.
theorem Takes.after {s next : Scanner} {offset size : Nat} {lead rest : List Char}
    (hlead : ∀ c ∈ lead, IsNarrow c) (h : Takes s (offset + lead.length) rest (size, next)) :
    Takes s offset (lead ++ rest) (lead.length + size, next) := by
  obtain ⟨hpos, new, hnew, hlaid⟩ := h
  refine ⟨Nat.add_pos_right _ hpos, new, hnew, ?_⟩
  dsimp only at hlaid ⊢
  rw [List.take_length_add_append]
  rw [← byteCount_of_narrow hlead] at hlaid
  exact hlaid.prepend lead

theorem takes_block (s : Scanner) (offset : Nat) {text : List Char} (hne : text ≠ []) :
    Takes s offset text (block s offset text) := by
  have henter := skips_enterAll s.frame.containers (Margin.ofText text)
  unfold block
  rcases he : enterAll s.frame.containers (Margin.ofText text) with ⟨count, entered⟩
  rw [he] at henter
  obtain ⟨hopen, hdone⟩ := skips_openNew (s.frame.keep count) entered
  dsimp only
  rcases ho : (s.frame.keep count).openNew entered with ⟨frame, m, done⟩
  rw [ho] at hopen hdone
  dsimp only at henter hopen hdone ⊢
  have hread := henter.read_le
  split
  · rename_i hd
    have := hdone hd
    exact takes_of_leaves_eq offset text (by omega) rfl
  · obtain ⟨lead, hrest, hlead, -⟩ := henter.lead.trans hopen
    change text = lead ++ m.rest at hrest
    change m.read = 0 + lead.length at hlead
    cases hb : blankLine? m.rest with
    | some size =>
        refine takes_of_leaves_eq offset text ?_ rfl
        by_cases hl : lead = []
        · rw [hrest, hl, List.nil_append] at hne
          have := blankLine?_pos hne hb
          omega
        · have := List.length_pos_iff.mpr hl
          omega
    | none =>
        have hpads := skips_indent 4 m
        dsimp only
        rcases hi : m.indent 4 with ⟨columns, inner⟩
        rw [hi] at hpads
        have hinner := ne_nil_of_blankLine?_eq_none hpads hb
        obtain ⟨front, hfront, hend, hsign⟩ := ((henter.lead.trans hopen).trans hpads.margin.lead).sign
        change text = front ++ inner.rest at hfront
        change inner.read = 0 + front.length at hend
        rw [Nat.zero_add] at hend
        dsimp only
        rw [hend, hfront]
        refine Takes.after (fun c hc => (hsign c hc).1) ?_
        split
        · exact takes_indentedBlock _ _ hinner
        · exact takes_leafBlock _ _ _ hinner

-- What reading on adds lies in the text that is left.
theorem lays_blocksFrom (s : Scanner) (offset : Nat) (text : List Char) :
    ∃ new, (blocksFrom s offset text).leaves = new ++ s.leaves ∧ Lays offset text new.reverse := by
  induction hn : text.length using Nat.strongRecOn generalizing s offset text with
  | _ n ih =>
      cases text with
      | nil =>
          refine ⟨[], ?_, .nil offset []⟩
          unfold blocksFrom
          rfl
      | cons c rest =>
          unfold blocksFrom
          obtain ⟨hpos, new, hnew, hlaid⟩ := takes_block s offset (List.cons_ne_nil c rest)
          rcases hb : block s offset (c :: rest) with ⟨size, next⟩
          rw [hb] at hpos hnew hlaid
          dsimp only at hpos hnew hlaid ⊢
          have hdrop : rest.drop (size - 1) = (c :: rest).drop size := drop_sub_one hpos
          have hlen : (rest.drop (size - 1)).length < n := by
            rw [← hn, List.length_drop, List.length_cons]
            omega
          obtain ⟨more, hmore, hlater⟩ :=
            ih _ hlen next (offset + byteCount ((c :: rest).take size)) _ rfl
          refine ⟨more ++ new, ?_, ?_⟩
          · rw [hmore, hnew, List.append_assoc]
          · have happ := hlaid.append hlater
            rwa [hdrop, List.take_append_drop, ← List.reverse_append] at happ

-- Every leaf that reading on adds is added where one of the blocks is read.
theorem exists_block_of_mem_blocksFrom {s : Scanner} {offset : Nat} {text : List Char} {leaf : Leaf}
    (h : leaf ∈ (blocksFrom s offset text).leaves) :
    leaf ∈ s.leaves ∨ ∃ before rest own new, text = before ++ rest ∧
      (block own (offset + byteCount before) rest).2.leaves = new ++ own.leaves ∧ leaf ∈ new := by
  induction hn : text.length using Nat.strongRecOn generalizing s offset text with
  | _ n ih =>
      cases text with
      | nil =>
          rw [blocksFrom] at h
          exact .inl h
      | cons c rest =>
          rw [blocksFrom] at h
          obtain ⟨hpos, new, hnew, -⟩ := takes_block s offset (List.cons_ne_nil c rest)
          rcases hb : block s offset (c :: rest) with ⟨size, next⟩
          rw [hb] at h hpos hnew
          dsimp only at h hpos hnew
          have hdrop : rest.drop (size - 1) = (c :: rest).drop size := drop_sub_one hpos
          have hlen : ((c :: rest).drop size).length < n := by
            rw [← hn, List.length_drop, List.length_cons]
            omega
          rw [hdrop] at h
          rcases ih _ hlen h rfl with h | ⟨before, later, own, more, hsplit, hmore, hleaf⟩
          · rw [hnew] at h
            refine (List.mem_append.mp h).symm.imp_right fun h => ?_
            exact ⟨[], c :: rest, s, new, rfl, by simpa [hb] using hnew, h⟩
          · refine .inr ⟨(c :: rest).take size ++ before, later, own, more, ?_, ?_, hleaf⟩
            · rw [List.append_assoc, ← hsplit, List.take_append_drop]
            · rwa [byteCount_append, ← Nat.add_assoc]

theorem exists_block_of_mem_blocks {text : List Char} {leaf : Leaf} (h : leaf ∈ (blocks text).1) :
    ∃ before rest own new, text = before ++ rest ∧
      (block own (byteCount before) rest).2.leaves = new ++ own.leaves ∧ leaf ∈ new := by
  rw [blocks] at h
  have hfound := exists_block_of_mem_blocksFrom (List.mem_reverse.mp h)
  simpa [Scanner.start] using hfound

theorem lays_blocks (text : List Char) : Lays 0 text (blocks text).1 := by
  obtain ⟨new, hnew, hlays⟩ := lays_blocksFrom .start 0 text
  have hleaves : (blocksFrom .start 0 text).leaves = new := by
    rw [hnew]
    exact List.append_nil new
  rw [blocks]
  dsimp only
  rw [hleaves]
  exact hlays

-- Code lies in the text, in order, on whole characters, and no code is empty.
theorem laid_codeRanges (text : List Char) : ByteRange.Laid 0 text (codeRanges text) :=
  (lays_blocks text).code

end LiveDoc.Markdown
