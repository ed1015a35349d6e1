import LiveDoc.Proofs.Markdown.CodeLines

namespace LiveDoc.Markdown

open Text

section Runs

variable {c : Char} {rest : List Char}

-- A text as its first run of a character and what is behind.
theorem replicate_run_append (c : Char) (text : List Char) :
    List.replicate (run c text) c ++ text.drop (run c text) = text := by
  have hrun : text.takeWhile (· == c) = List.replicate (run c text) c :=
    List.eq_replicate_iff.mpr ⟨rfl, fun d hd => by simpa using List.mem_takeWhile_imp hd⟩
  rw [← hrun]
  exact List.prefix_iff_eq_append.mp (List.takeWhile_prefix (l := text) (· == c))

theorem head?_drop_run (c : Char) (text : List Char) :
    (text.drop (run c text)).head? ≠ some c := by
  have hdrop : text.drop (run c text) = text.dropWhile (· == c) := by
    have hdrop := @List.drop_left _ (text.takeWhile (· == c)) (text.dropWhile (· == c))
    rwa [List.takeWhile_append_dropWhile] at hdrop
  rw [hdrop]
  intro h
  have hhead := List.head?_dropWhile_not (· == c) text
  rw [h] at hhead
  simp at hhead

theorem run_replicate_append (h : rest.head? ≠ some c) (count : Nat) :
    run c (List.replicate count c ++ rest) = count := by
  have hnone : rest.takeWhile (· == c) = [] := by
    cases rest with
    | nil => rfl
    | cons d more => exact List.takeWhile_cons_of_neg (by simpa using fun hd => h (by rw [hd]; rfl))
  simp [run, Markdown.count, List.takeWhile_append_of_pos, hnone]

end Runs

namespace Margin

variable {m : Margin} {rest : List Char}

theorem advance_advance (m : Margin) (a b : Nat) : (m.advance a).advance b = m.advance (a + b) := by
  simp [advance, Nat.add_assoc, Nat.add_comm a b]

theorem spacesAhead_space {tail : List Char} (hrest : m.rest = ' ' :: tail) (missing : Nat) :
    m.spacesAhead (missing + 1) = (m.advance 1).spacesAhead missing := by
  rw [spacesAhead]
  split
  · rfl
  · rename_i h
    rw [h] at hrest
    cases hrest
  · rename_i h _
    exact (h tail hrest).elim

-- Spaces are read one by one.
theorem spacesAhead_replicate {count : Nat} (hrest : m.rest = List.replicate count ' ' ++ rest)
    (more : Nat) : m.spacesAhead (count + more) = (m.advance count).spacesAhead more := by
  induction count generalizing m with
  | zero => rw [Nat.zero_add]; rfl
  | succ count ih =>
      rw [List.replicate_succ, List.cons_append] at hrest
      have hnext : (m.advance 1).rest = List.replicate count ' ' ++ rest := by
        rw [advance, hrest]
        rfl
      rw [Nat.add_right_comm, spacesAhead_space hrest, ih hnext, advance_advance,
        Nat.add_comm 1 count]

theorem spacesAhead_stop (hspace : m.rest.head? ≠ some ' ') (htab : m.rest.head? ≠ some '\t')
    (want : Nat) : m.spacesAhead want = (want, m) := by
  cases want with
  | zero => rw [spacesAhead]
  | succ missing =>
      rw [spacesAhead]
      split
      · rename_i h
        rw [h] at hspace
        exact (hspace rfl).elim
      · rename_i h
        rw [h] at htab
        exact (htab rfl).elim
      · rfl

-- A tab behind fewer than four spaces fills them up.
theorem spacesAhead_tab {tail : List Char} (hrest : m.rest = '\t' :: tail) (hstart : m.tabStart = 0)
    (hread : m.read < 4) : (m.spacesAhead (4 - m.read)).1 = 0 := by
  obtain ⟨missing, hmissing⟩ : ∃ missing, 4 - m.read = missing + 1 := ⟨3 - m.read, by omega⟩
  have hused : missing + 1 - min (4 - (m.read - m.tabStart) % 4) (missing + 1) = 0 := by
    rw [hstart, Nat.sub_zero, Nat.mod_eq_of_lt hread]
    omega
  rw [hmissing, spacesAhead]
  split
  · rename_i h
    rw [h] at hrest
    cases hrest
  · dsimp only
    rw [hused, spacesAhead]
  · rename_i _ h
    exact (h tail hrest).elim

theorem spaces_zero (m : Margin) : m.spaces 0 = (0, m) := by
  rw [spaces, Nat.min_zero, spacesAhead]
  rfl

theorem spaces_ofText (want : Nat) (text : List Char) :
    (ofText text).spaces want = (ofText text).spacesAhead want := by
  rw [spaces]
  rfl

end Margin

-- The character that a fence is made of.
def IsFenceMark (c : Char) : Prop := c = backtick ∨ c = '~'

section Mark

variable {mark : Char}

theorem IsFenceMark.ne_space (h : IsFenceMark mark) : mark ≠ ' ' := by
  rcases h with rfl | rfl <;> decide

theorem IsFenceMark.ne_tab (h : IsFenceMark mark) : mark ≠ '\t' := by
  rcases h with rfl | rfl <;> decide

theorem IsFenceMark.not_isLineEnd (h : IsFenceMark mark) : isLineEnd mark = false := by
  rcases h with rfl | rfl <;> decide

end Mark

theorem isSome_lineBreak?_iff {text : List Char} :
    (lineBreak? text).isSome ↔ ∀ c ∈ text.head?, isLineEnd c = true := by
  unfold lineBreak?
  split
  · simp
  · simp [isLineEnd]
  · simp [isLineEnd]
  · simp [isLineEnd]
  · rename_i hnil hfeed _ hreturn
    cases text with
    | nil => exact (hnil rfl).elim
    | cons c rest =>
        simp only [Option.isSome_none, List.head?_cons, Option.mem_some_iff, forall_eq', isLineEnd,
          Bool.or_eq_true, beq_iff_eq]
        refine iff_of_false Bool.false_ne_true fun h => ?_
        rcases h with rfl | rfl
        · exact hfeed rest rfl
        · exact hreturn rest rfl

-- A text that starts with a line that closes a fence: up to three spaces, enough of its marks, and
-- only spaces up to the end of the line.
def ClosesFence (mark : Char) (least : Nat) (text : List Char) : Prop :=
  ∃ indent marks blanks rest,
    text = List.replicate indent ' ' ++
      (List.replicate marks mark ++ (List.replicate blanks ' ' ++ rest)) ∧
    indent ≤ 3 ∧ least ≤ marks ∧ ∀ c ∈ rest.head?, isLineEnd c = true

-- The characters up to the end of the line that closes a fence without indentation.
def closing? (mark : Char) (least : Nat) (text : List Char) : Option Nat :=
  let (missing, close) := (Margin.ofText text).spaces 4
  (if missing = 0 then none else closingFence? mark least close.rest).map (close.read + ·)

section Closing

variable {mark : Char} {least : Nat} {text : List Char}

theorem ClosesFence.mono {more : Nat} (h : ClosesFence mark more text) (hle : least ≤ more) :
    ClosesFence mark least text := by
  obtain ⟨indent, marks, blanks, rest, htext, hindent, hmarks, hend⟩ := h
  exact ⟨indent, marks, blanks, rest, htext, hindent, hle.trans hmarks, hend⟩

-- What stands behind the end of the line plays no part.
theorem closesFence_append_lineEnd (hmark : IsFenceMark mark) {c : Char} (hc : isLineEnd c = true)
    (front back : List Char) :
    ClosesFence mark least (front ++ c :: back) ↔ ClosesFence mark least front := by
  constructor
  · rintro ⟨indent, marks, blanks, rest, htext, hindent, hmarks, hend⟩
    have hplain : c ∉ List.replicate indent ' ' ++
        (List.replicate marks mark ++ List.replicate blanks ' ') := by
      intro hmem
      simp only [List.mem_append, List.mem_replicate] at hmem
      rcases hmem with ⟨-, rfl⟩ | ⟨-, rfl⟩ | ⟨-, rfl⟩
      · cases hc
      · rw [hmark.not_isLineEnd] at hc
        cases hc
      · cases hc
    obtain ⟨more, rfl, rfl⟩ := append_eq_append_cons (by simpa using htext.symm) hplain
    refine ⟨indent, marks, blanks, more, by simp, hindent, hmarks, fun d hd => hend d ?_⟩
    cases more with
    | nil => cases hd
    | cons e others => exact hd
  · rintro ⟨indent, marks, blanks, rest, rfl, hindent, hmarks, hend⟩
    refine ⟨indent, marks, blanks, rest ++ c :: back, by simp, hindent, hmarks, fun d hd => ?_⟩
    cases rest with
    | nil =>
        cases hd
        exact hc
    | cons e others => exact hend d hd

-- A line that closes a fence still does without its last character, unless that is a mark.
theorem ClosesFence.of_concat {front : List Char} {last : Char} (hleast : 0 < least)
    (hlast : last ≠ mark) (h : ClosesFence mark least (front ++ [last])) :
    ClosesFence mark least front := by
  obtain ⟨indent, marks, blanks, rest, htext, hindent, hmarks, hend⟩ := h
  obtain ⟨more, rfl⟩ : ∃ more, marks = more + 1 := ⟨marks - 1, by omega⟩
  rcases List.eq_nil_or_concat rest with rfl | ⟨init, c, rfl⟩
  · cases blanks with
    | zero =>
        rw [List.replicate_succ' (n := more), List.replicate_zero, List.append_nil, List.append_nil,
          ← List.append_assoc] at htext
        exact (hlast (List.singleton_inj.mp (List.append_inj' htext rfl).2)).elim
    | succ blanks =>
        rw [List.replicate_succ' (n := blanks), List.append_nil, ← List.append_assoc,
          ← List.append_assoc] at htext
        refine ⟨indent, more + 1, blanks, [], ?_, hindent, hmarks, by simp⟩
        simpa using (List.append_inj' htext rfl).1
  · refine ⟨indent, more + 1, blanks, init, ?_, hindent, hmarks, fun d hd => hend d ?_⟩
    · rw [List.concat_eq_append, ← List.append_assoc, ← List.append_assoc, ← List.append_assoc]
        at htext
      simpa using (List.append_inj' htext rfl).1
    · cases init with
      | nil => cases hd
      | cons e others => simpa using hd

theorem closingFence?_eq_some (hmark : IsFenceMark mark) (hleast : 0 < least) {marks : Nat}
    (hmarks : least ≤ marks) (blanks : Nat) {rest : List Char}
    (hend : ∀ c ∈ rest.head?, isLineEnd c = true) :
    closingFence? mark least (List.replicate marks mark ++ (List.replicate blanks ' ' ++ rest)) =
      some (marks + blanks) := by
  have hspace : rest.head? ≠ some ' ' := fun h => absurd (hend ' ' h) (by decide)
  have hmarkEnd : (List.replicate blanks ' ' ++ rest).head? ≠ some mark := by
    cases blanks with
    | zero =>
        intro h
        have := hend mark h
        rw [hmark.not_isLineEnd] at this
        cases this
    | succ blanks => simpa [List.replicate_succ] using hmark.ne_space.symm
  have hne : (List.replicate marks mark ++ (List.replicate blanks ' ' ++ rest)).isEmpty = false := by
    cases marks with
    | zero => omega
    | succ marks => rfl
  obtain ⟨size, hsize⟩ := Option.isSome_iff_exists.mp (isSome_lineBreak?_iff.mpr hend)
  have hdrop : (List.replicate marks mark ++ (List.replicate blanks ' ' ++ rest)).drop marks =
      List.replicate blanks ' ' ++ rest := List.drop_left' List.length_replicate
  have hlast : (List.replicate marks mark ++ (List.replicate blanks ' ' ++ rest)).drop
      (marks + blanks) = rest := by
    rw [← List.drop_drop, hdrop]
    exact List.drop_left' List.length_replicate
  rw [closingFence?, hne, if_neg Bool.false_ne_true, run_replicate_append hmarkEnd,
    if_neg (Nat.not_lt.mpr hmarks), hdrop, run_replicate_append hspace]
  dsimp only
  rw [hlast, hsize]
  rfl

theorem closing?_eq_some (hmark : IsFenceMark mark) (hleast : 0 < least) {indent marks : Nat}
    (hindent : indent ≤ 3) (hmarks : least ≤ marks) (blanks : Nat) {rest : List Char}
    (hend : ∀ c ∈ rest.head?, isLineEnd c = true) :
    closing? mark least (List.replicate indent ' ' ++
      (List.replicate marks mark ++ (List.replicate blanks ' ' ++ rest))) =
      some (indent + (marks + blanks)) := by
  generalize htail : List.replicate marks mark ++ (List.replicate blanks ' ' ++ rest) = tail
  have hhead : tail.head? = some mark := by
    rw [← htail]
    cases marks with
    | zero => omega
    | succ marks => rfl
  obtain ⟨more, hmore⟩ : ∃ more, 4 = indent + (more + 1) := ⟨3 - indent, by omega⟩
  have hrest : ((Margin.ofText (List.replicate indent ' ' ++ tail)).advance indent).rest = tail :=
    List.drop_left' List.length_replicate
  have hspaces : (Margin.ofText (List.replicate indent ' ' ++ tail)).spaces 4 =
      (more + 1, (Margin.ofText (List.replicate indent ' ' ++ tail)).advance indent) := by
    rw [Margin.spaces_ofText, hmore, Margin.spacesAhead_replicate rfl, Margin.spacesAhead_stop]
    · rw [hrest, hhead]
      simpa using hmark.ne_space
    · rw [hrest, hhead]
      simpa using hmark.ne_tab
  have hfence := closingFence?_eq_some hmark hleast hmarks blanks hend
  rw [htail] at hfence
  rw [closing?, hspaces]
  dsimp only
  rw [if_neg (Nat.succ_ne_zero more), hrest, hfence]
  simp [Margin.advance, Margin.ofText]

theorem closing?_isSome (hmark : IsFenceMark mark) (hleast : 0 < least)
    (h : ClosesFence mark least text) : (closing? mark least text).isSome := by
  obtain ⟨indent, marks, blanks, rest, rfl, hindent, hmarks, hend⟩ := h
  rw [closing?_eq_some hmark hleast hindent hmarks blanks hend]
  rfl

-- What a closing fence is made of.
theorem exists_of_closingFence? {size : Nat} (hne : text ≠ [])
    (h : closingFence? mark least text = some size) :
    ∃ marks blanks rest,
      text = List.replicate marks mark ++ (List.replicate blanks ' ' ++ rest) ∧
      least ≤ marks ∧ ∀ c ∈ rest.head?, isLineEnd c = true := by
  rw [closingFence?, List.isEmpty_eq_false_iff.mpr hne, if_neg Bool.false_ne_true] at h
  dsimp only at h
  split at h
  · cases h
  · rename_i hmarks
    obtain ⟨width, hwidth, -⟩ := Option.map_eq_some_iff.mp h
    rw [← List.drop_drop] at hwidth
    have hend := isSome_lineBreak?_iff.mp (Option.isSome_iff_exists.mpr ⟨width, hwidth⟩)
    refine ⟨run mark text, run ' ' (text.drop (run mark text)), _, ?_, Nat.not_lt.mp hmarks, hend⟩
    rw [replicate_run_append, replicate_run_append]

-- A fence is closed by its closing line, or by the end of the text behind nothing but spaces.
theorem closesFence_of_closing? {tail : Nat} (h : closing? mark least text = some tail) :
    ClosesFence mark least text ∨ ∀ c ∈ text, c = ' ' := by
  have htext := replicate_run_append ' ' text
  have hspace := head?_drop_run ' ' text
  generalize text.drop (run ' ' text) = rest at htext hspace
  generalize run ' ' text = indent at htext
  subst htext
  rw [closing?, Margin.spaces_ofText] at h
  by_cases hindent : indent ≤ 3
  · obtain ⟨more, hmore⟩ : ∃ more, 4 = indent + (more + 1) := ⟨3 - indent, by omega⟩
    have hrest : ((Margin.ofText (List.replicate indent ' ' ++ rest)).advance indent).rest = rest :=
      List.drop_left' List.length_replicate
    by_cases htab : rest.head? = some '\t'
    · obtain ⟨tail, rfl⟩ := List.head?_eq_some_iff.mp htab
      have hread : 4 - ((Margin.ofText (List.replicate indent ' ' ++ '\t' :: tail)).advance
          indent).read = more + 1 := by
        simp only [Margin.advance, Margin.ofText]
        omega
      have hnone := Margin.spacesAhead_tab hrest rfl (by
        simp only [Margin.advance, Margin.ofText]
        omega)
      rw [hmore, Margin.spacesAhead_replicate rfl] at h
      rw [hread] at hnone
      dsimp only at h
      rw [if_pos hnone] at h
      cases h
    · rw [hmore, Margin.spacesAhead_replicate rfl,
        Margin.spacesAhead_stop (by rwa [hrest]) (by rwa [hrest])] at h
      dsimp only at h
      rw [if_neg (Nat.succ_ne_zero more), hrest] at h
      by_cases hnil : rest = []
      · subst hnil
        exact .inr fun c hc => List.eq_of_mem_replicate (by simpa using hc)
      · obtain ⟨width, hwidth, -⟩ := Option.map_eq_some_iff.mp h
        obtain ⟨marks, blanks, last, rfl, hmarks, hend⟩ := exists_of_closingFence? hnil hwidth
        exact .inl ⟨indent, marks, blanks, last, rfl, hindent, hmarks, hend⟩
  · obtain ⟨extra, rfl⟩ : ∃ extra, indent = 4 + extra := ⟨indent - 4, by omega⟩
    have hfour : (Margin.ofText (List.replicate (4 + extra) ' ' ++ rest)).rest =
        List.replicate 4 ' ' ++ (List.replicate extra ' ' ++ rest) := by
      rw [← List.append_assoc, ← List.replicate_add]
      rfl
    have hnone := Margin.spacesAhead_replicate hfour 0
    rw [Nat.add_zero, Margin.spacesAhead.eq_1] at hnone
    rw [hnone] at h
    cases h

end Closing

end LiveDoc.Markdown
