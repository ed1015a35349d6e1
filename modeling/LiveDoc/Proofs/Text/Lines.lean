import LiveDoc.Proofs.Text.Cut

namespace LiveDoc.Text

theorem lines_of_newline_not_mem {text : List Char} (hplain : '\n' ∉ text) (hne : text ≠ []) :
    lines text = [text] := by
  induction text with
  | nil => exact (hne rfl).elim
  | cons c rest ih =>
      have hc : c ≠ '\n' := fun h => hplain (h ▸ List.mem_cons_self ..)
      rw [lines, if_neg hc]
      cases rest with
      | nil => rfl
      | cons d more =>
          rw [ih (fun h => hplain (List.mem_cons_of_mem _ h)) (List.cons_ne_nil d more)]

theorem lines_append_newline {line : List Char} (hplain : '\n' ∉ line) (rest : List Char) :
    lines (line ++ '\n' :: rest) = (line ++ ['\n']) :: lines rest := by
  induction line with
  | nil => rfl
  | cons c more ih =>
      have hc : c ≠ '\n' := fun h => hplain (h ▸ List.mem_cons_self ..)
      rw [List.cons_append, lines, if_neg hc, ih fun h => hplain (List.mem_cons_of_mem _ h)]
      rfl

theorem LineList.lines_flatten {ls : List (List Char)} (h : LineList ls) : lines ls.flatten = ls := by
  induction h with
  | nil => rfl
  | open_ hne hplain => rw [List.flatten_singleton, lines_of_newline_not_mem hplain hne]
  | ended hplain _ ih =>
      rw [List.flatten_cons, List.append_assoc, List.singleton_append,
        lines_append_newline hplain, ih]

-- A text that ends its last line keeps its lines when more follows.
theorem lines_append {front : List Char} (h : front.getLast? = some '\n') (back : List Char) :
    lines (front ++ back) = lines front ++ lines back := by
  obtain ⟨init, rfl⟩ := List.getLast?_eq_some_iff.mp h
  clear h
  induction init with
  | nil => rfl
  | cons c rest ih =>
      simp only [List.cons_append, lines]
      by_cases hc : c = '\n'
      · simp only [if_pos hc, ih, List.cons_append]
      · simp only [if_neg hc, ih]
        cases hlines : lines (rest ++ ['\n']) with
        | nil =>
            have hflat := flatten_lines (rest ++ ['\n'])
            rw [hlines] at hflat
            simp at hflat
        | cons line more => rfl

theorem LineList.nil_or_getLast? {more : List (List Char)} (h : LineList more) {line : List Char}
    (hlast : (line ++ more.flatten).getLast? = some '\n') :
    more = [] ∨ more.flatten.getLast? = some '\n' := by
  by_cases hnone : more.flatten = []
  · left
    rw [← h.lines_flatten, hnone, lines]
  · right
    rwa [List.getLast?_append_of_ne_nil _ hnone] at hlast

-- A text that ends its last line has as many lines as line ends.
theorem LineList.length_eq {ls : List (List Char)} (h : LineList ls)
    (hended : ls = [] ∨ ls.flatten.getLast? = some '\n') : ls.length = ls.flatten.count '\n' := by
  induction h with
  | nil => rfl
  | open_ hne hplain =>
      have hlast := hended.resolve_left (List.cons_ne_nil _ _)
      rw [List.flatten_singleton] at hlast
      exact (hplain (List.mem_of_getLast? hlast)).elim
  | @ended front more hplain hmore ih =>
      have hlast := hended.resolve_left (List.cons_ne_nil _ _)
      rw [List.flatten_cons] at hlast
      rw [List.length_cons, ih (hmore.nil_or_getLast? hlast), List.flatten_cons, List.count_append,
        List.count_append, List.count_eq_zero_of_not_mem hplain, List.count_singleton_self,
        Nat.zero_add, Nat.add_comm]

theorem length_lines {text : List Char} (h : text.getLast? = some '\n') :
    (lines text).length = text.count '\n' := by
  have hlength := (lineList_lines text).length_eq (.inr (by rwa [flatten_lines]))
  rwa [flatten_lines] at hlength

section Ended

variable {front : List Char} (h : front = [] ∨ front.getLast? = some '\n')

include h

theorem lines_append_of_ended (back : List Char) : lines (front ++ back) = lines front ++ lines back := by
  rcases h with rfl | h
  · rfl
  · exact lines_append h back

theorem length_lines_of_ended : (lines front).length = front.count '\n' := by
  rcases h with rfl | h
  · rfl
  · exact length_lines h

end Ended

-- A newline that ends the last line of a text leaves the others as they are.
theorem LineList.mem_lines_concat {ls : List (List Char)} (h : LineList ls) (hne : ls ≠ [])
    (hopen : ls.flatten.getLast? ≠ some '\n') {line : List Char}
    (hline : line ∈ lines (ls.flatten ++ ['\n'])) :
    line ∈ ls ∨ ∃ last ∈ ls, line = last ++ ['\n'] := by
  induction h with
  | nil => exact (hne rfl).elim
  | @open_ own _ hplain =>
      rw [List.flatten_singleton, lines_append_newline hplain] at hline
      cases List.mem_singleton.mp hline
      exact .inr ⟨own, List.mem_singleton_self _, rfl⟩
  | @ended front more hplain hmore ih =>
      rw [List.flatten_cons] at hopen hline
      have hmoreNe : more ≠ [] := by
        rintro rfl
        simp at hopen
      have hflat : more.flatten ≠ [] := by
        intro hnil
        rw [← hmore.lines_flatten, hnil] at hmoreNe
        exact hmoreNe rfl
      rw [List.getLast?_append_of_ne_nil _ hflat] at hopen
      rw [List.append_assoc, List.append_assoc, List.singleton_append, lines_append_newline hplain]
        at hline
      rcases List.mem_cons.mp hline with rfl | hline
      · exact .inl (List.mem_cons_self ..)
      · rcases ih hmoreNe hopen hline with hline | ⟨last, hlast, rfl⟩
        · exact .inl (List.mem_cons_of_mem _ hline)
        · exact .inr ⟨last, List.mem_cons_of_mem _ hlast, rfl⟩

-- Behind the line on which a cut falls, the lines of what follows the cut are the lines of the
-- whole.
theorem getElem?_lines_append (front back : List Char) (k : Nat) :
    (lines (front ++ back))[front.count '\n' + k + 1]? = (lines back)[k + 1]? := by
  induction front with
  | nil => simp
  | cons c rest ih =>
      rw [List.cons_append, lines]
      by_cases hc : c = '\n'
      · subst hc
        rw [if_pos rfl, List.count_cons_self, Nat.add_right_comm (rest.count '\n') 1 k,
          List.getElem?_cons_succ, ih]
      · rw [if_neg hc, List.count_cons_of_ne hc]
        rw [← ih]
        cases hlines : lines (rest ++ back) with
        | nil => simp
        | cons line more => simp

theorem exists_lines_append {line : List Char} (hne : line ≠ []) (hplain : '\n' ∉ line)
    (back : List Char) : ∃ tail more, lines (line ++ back) = (line ++ tail) :: more := by
  induction line with
  | nil => exact (hne rfl).elim
  | cons c rest ih =>
      have hc : c ≠ '\n' := fun h => hplain (h ▸ List.mem_cons_self ..)
      rw [List.cons_append, lines, if_neg hc]
      cases rest with
      | nil =>
          rw [List.nil_append]
          cases lines back with
          | nil => exact ⟨[], [], rfl⟩
          | cons first more => exact ⟨first, more, rfl⟩
      | cons d rest =>
          obtain ⟨tail, more, hlines⟩ :=
            ih (List.cons_ne_nil d rest) fun h => hplain (List.mem_cons_of_mem _ h)
          rw [hlines]
          exact ⟨tail, more, rfl⟩

-- More text goes on with the last line.
theorem LineList.exists_getElem?_append {ls : List (List Char)} (h : LineList ls)
    (back : List Char) {k : Nat} {line : List Char} (hline : ls[k]? = some line) :
    ∃ tail, (lines (ls.flatten ++ back))[k]? = some (line ++ tail) := by
  induction h generalizing k with
  | nil => cases hline
  | @open_ own hne hplain =>
      cases k with
      | succ k => cases hline
      | zero =>
          cases hline
          obtain ⟨tail, more, hlines⟩ := exists_lines_append hne hplain back
          refine ⟨tail, ?_⟩
          rw [List.flatten_singleton, hlines]
          rfl
  | @ended front more hplain _ ih =>
      rw [List.flatten_cons, List.append_assoc, List.append_assoc, List.singleton_append,
        lines_append_newline hplain]
      cases k with
      | zero =>
          cases hline
          exact ⟨[], by simp⟩
      | succ k => exact ih hline

theorem exists_getElem?_lines_append {front line : List Char} {k : Nat} (back : List Char)
    (h : (lines front)[k]? = some line) :
    ∃ tail, (lines (front ++ back))[k]? = some (line ++ tail) := by
  have hlater := (lineList_lines front).exists_getElem?_append back h
  rwa [flatten_lines] at hlater

-- A line of a text and its number, counted from one.
def HasLine (text : List Char) (number : Nat) (line : List Char) : Prop :=
  ∃ front back, lines text = front ++ line :: back ∧ number = front.length + 1

theorem hasLine_iff {text line : List Char} {k : Nat} :
    HasLine text (k + 1) line ↔ (lines text)[k]? = some line := by
  constructor
  · rintro ⟨front, back, hlines, hk⟩
    rw [hlines, Nat.succ.inj hk, List.getElem?_append_right (Nat.le_refl _), Nat.sub_self]
    rfl
  · intro h
    obtain ⟨hk, hline⟩ := List.getElem?_eq_some_iff.mp h
    refine ⟨(lines text).take k, (lines text).drop (k + 1), ?_, ?_⟩
    · rw [← hline, List.getElem_cons_drop, List.take_append_drop]
    · rw [List.length_take, Nat.min_eq_left (Nat.le_of_lt hk)]

end LiveDoc.Text
