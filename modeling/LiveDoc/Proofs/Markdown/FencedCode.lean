import LiveDoc.Proofs.Markdown.Fences

namespace LiveDoc.Markdown

open Text

-- A container that a line needs no mark for.
def Container.TakesNothing : Container → Prop
  | .list _ _ => True
  | .item indent => indent = 0
  | .quote => False

section Containers

variable {containers : List Container}

theorem enter?_of_takesNothing {container : Container} (h : container.TakesNothing) (m : Margin) :
    container.enter? m = some m := by
  cases container with
  | quote => cases h
  | list mark tight => rfl
  | item indent =>
      cases h
      simp only [Container.enter?, Margin.spaces_zero, true_or, if_true]

theorem enterAll_of_takesNothing (h : ∀ container ∈ containers, container.TakesNothing)
    (m : Margin) : enterAll containers m = (containers.length, m) := by
  induction containers with
  | nil => rfl
  | cons container inner ih =>
      obtain ⟨hfirst, hinner⟩ := List.forall_mem_cons.mp h
      rw [enterAll, enter?_of_takesNothing hfirst]
      dsimp only
      rw [ih hinner]
      rfl

theorem within?_of_takesNothing (h : ∀ container ∈ containers, container.TakesNothing)
    (text : List Char) : within? containers text = some (Margin.ofText text) := by
  rw [within?, enterAll_of_takesNothing h]
  exact if_pos rfl

end Containers

section Lines

variable {containers : List Container} {mark : Char} {least : Nat}

-- How a fence without indentation reads a line: it ends there, or the line is code.
theorem fencedLines_cons (h : ∀ container ∈ containers, container.TakesNothing) (mark : Char)
    (least : Nat) (c : Char) (rest : List Char) :
    fencedLines containers 0 mark least (c :: rest) =
      match closing? mark least (c :: rest) with
      | some tail => (tail, [], true)
      | none =>
          let line := (c :: rest).take (lineLength (c :: rest))
          let (more, content, closed) :=
            fencedLines containers 0 mark least (rest.drop (line.length - 1))
          (line.length + more, codeLine line ++ content, closed) := by
  rw [fencedLines, within?_of_takesNothing h, closing?]
  simp only [Margin.spaces_zero, Nat.sub_zero]
  generalize (Margin.ofText (c :: rest)).spaces 4 = close
  cases (if close.1 = 0 then none else closingFence? mark least close.2.rest) with
  | none => simp [Margin.ofText]
  | some tail => rfl

-- Containers that a line needs no mark for do not matter for the lines of code.
theorem fencedLines_of_takesNothing (h : ∀ container ∈ containers, container.TakesNothing)
    (mark : Char) (least : Nat) (text : List Char) :
    fencedLines containers 0 mark least text = fencedLines [] 0 mark least text := by
  induction hn : text.length using Nat.strongRecOn generalizing text with
  | _ n ih =>
      cases text with
      | nil => rw [fencedLines, fencedLines]
      | cons c rest =>
          rw [fencedLines_cons h, fencedLines_cons (List.forall_mem_nil _)]
          split
          · rfl
          · dsimp only
            rw [ih _ (by simp only [← hn, List.length_cons, List.length_drop]; omega) _ rfl]

theorem fencedLines_close {text : List Char} {tail : Nat} (hne : text ≠ [])
    (h : closing? mark least text = some tail) :
    fencedLines [] 0 mark least text = (tail, [], true) := by
  cases text with
  | nil => exact (hne rfl).elim
  | cons c rest => rw [fencedLines_cons (List.forall_mem_nil _), h]

theorem fencedLines_line {own after : List Char} (hown : own ≠ [])
    (hlength : lineLength (own ++ after) = own.length)
    (hopen : closing? mark least (own ++ after) = none) :
    fencedLines [] 0 mark least (own ++ after) =
      let (more, content, closed) := fencedLines [] 0 mark least after
      (own.length + more, codeLine own ++ content, closed) := by
  obtain ⟨c, rest, hsplit⟩ := List.exists_cons_of_ne_nil hown
  have htake : (own ++ after).take (lineLength (own ++ after)) = own := by
    rw [hlength, List.take_left]
  have hdrop : (rest ++ after).drop (own.length - 1) = after := by
    rw [hsplit, List.length_cons, Nat.add_sub_cancel]
    exact List.drop_left
  have hcons : own ++ after = c :: (rest ++ after) := by rw [hsplit, List.cons_append]
  rw [hcons] at hopen htake ⊢
  rw [fencedLines_cons (List.forall_mem_nil _), hopen]
  dsimp only
  rw [htake, hdrop]

end Lines

section Ended

variable {mark : Char} {least : Nat} {front : List Char}

theorem lineLength_ended (hplain : '\n' ∉ front) (after : List Char) :
    lineLength (front ++ ['\n'] ++ after) = (front ++ ['\n']).length := by
  have hcount : count (· != '\n') (front ++ ['\n'] ++ after) = front.length := by
    have hinside : ∀ c ∈ front, (c != '\n') = true := fun c hc => by
      simpa using fun h : c = '\n' => hplain (h ▸ hc)
    rw [count, List.append_assoc, List.takeWhile_append_of_pos hinside, List.singleton_append,
      List.takeWhile_cons_of_neg (by decide), List.append_nil]
  rw [lineLength, hcount, if_pos (by simp), List.length_append, List.length_singleton]

-- A line that does not close a fence as it stands does not with more text behind it.
theorem closing?_ended (hmark : IsFenceMark mark) (hopen : ¬ClosesFence mark least front)
    (after : List Char) : closing? mark least (front ++ ['\n'] ++ after) = none := by
  rw [Option.eq_none_iff_forall_ne_some]
  intro tail htail
  rw [List.append_assoc, List.singleton_append] at htail
  rcases closesFence_of_closing? htail with hcloses | hblank
  · exact hopen ((closesFence_append_lineEnd hmark rfl front after).mp hcloses)
  · exact absurd (hblank '\n' (by simp)) (by decide)

theorem fencedLines_fence (hmark : IsFenceMark mark) (hleast : 0 < least) :
    fencedLines [] 0 mark least (List.replicate least mark ++ ['\n']) = (least, [], true) := by
  have hclose : closing? mark least (List.replicate least mark ++ ['\n']) = some least := by
    have hend : ∀ c ∈ ['\n'].head?, isLineEnd c = true := by simp [isLineEnd]
    simpa using closing?_eq_some hmark hleast (Nat.zero_le 3) (Nat.le_refl least) 0 hend
  exact fencedLines_close (by simp) hclose

-- What is written between fences and read again: all lines come back as code, up to the closing
-- fence.
theorem fencedLines_written (hmark : IsFenceMark mark) (hleast : 0 < least) {ls : List (List Char)}
    (hls : LineList ls) (hended : ls = [] ∨ ls.flatten.getLast? = some '\n')
    (hopen : ∀ line ∈ ls, ¬ClosesFence mark least line) :
    fencedLines [] 0 mark least (ls.flatten ++ (List.replicate least mark ++ ['\n'])) =
      (ls.flatten.length + least, (ls.map codeLine).flatten, true) := by
  induction hls with
  | nil => simpa using fencedLines_fence hmark hleast
  | open_ hne hplain =>
      have hlast := hended.resolve_left (List.cons_ne_nil _ _)
      rw [List.flatten_singleton] at hlast
      exact (hplain (List.mem_of_getLast? hlast)).elim
  | @ended front more hplain hmore ih =>
      have hlast := hended.resolve_left (List.cons_ne_nil _ _)
      rw [List.flatten_cons] at hlast
      obtain ⟨hfirst, hothers⟩ := List.forall_mem_cons.mp hopen
      rw [closesFence_append_lineEnd hmark rfl] at hfirst
      have hmoreLines := ih (hmore.nil_or_getLast? hlast) hothers
      rw [List.flatten_cons, List.append_assoc (front ++ ['\n']), fencedLines_line (by simp)
        (lineLength_ended hplain _) (closing?_ended hmark hfirst _), hmoreLines]
      simp only [List.map_cons, List.flatten_cons, List.length_append, Nat.add_assoc]

end Ended

section Collected

variable {mark : Char} {least : Nat}

-- The last line of a text loses a carriage return before its last character, also where that is no
-- line feed. It then closes a fence only where that character is the fence's own.
theorem not_closesFence_codeLine (hmark : IsFenceMark mark) (hleast : 0 < least) {line : List Char}
    (hreturn : ¬['\r', mark] <:+ line) (hopen : ¬ClosesFence mark least line) :
    ¬ClosesFence mark least (codeLine line) := by
  unfold codeLine
  split
  · rename_i last front hline
    have hsplit : line = front.reverse ++ ['\r', last] := by
      rw [← List.reverse_reverse line, hline]
      simp
    subst hsplit
    split
    · rw [List.reverse_cons]
      intro h
      have hlast : last ≠ mark := by
        rintro rfl
        exact hreturn (List.suffix_append _ _)
      exact hopen ((closesFence_append_lineEnd hmark rfl _ _).mpr (h.of_concat hleast hlast))
    · exact hopen
  · exact hopen

-- No line of the code that is found between fences closes a fence.
theorem not_closesFence_of_mem_fencedLines (hmark : IsFenceMark mark) (hleast : 0 < least)
    {text : List Char} (hreturn : ¬['\r', mark] <:+ text) :
    ∀ line ∈ lines (fencedLines [] 0 mark least text).2.1, ¬ClosesFence mark least line := by
  induction hn : text.length using Nat.strongRecOn generalizing text with
  | _ n ih =>
      by_cases hne : text = []
      · subst hne
        rw [fencedLines]
        exact List.forall_mem_nil _
      · cases hclose : closing? mark least text with
        | some tail =>
            rw [fencedLines_close hne hclose]
            exact List.forall_mem_nil _
        | none =>
            have hopen : ¬ClosesFence mark least text := fun h => by
              have := closing?_isSome hmark hleast h
              rw [hclose] at this
              cases this
            obtain ⟨own, after, rfl, hlength, ⟨front, rfl, hplain⟩ | ⟨rfl, hplain⟩⟩ :=
              exists_lineLength text
            · obtain ⟨kept, hcode, hkeptPlain, hkept⟩ := exists_codeLine hplain
              have hkeptOpen : ¬ClosesFence mark least kept := by
                rw [List.append_assoc, List.singleton_append,
                  closesFence_append_lineEnd hmark rfl] at hopen
                rcases hkept with rfl | rfl
                · exact hopen
                · rwa [closesFence_append_lineEnd hmark rfl] at hopen
              have hlater := ih after.length (by simp [← hn]; omega)
                (fun hlast => hreturn (hlast.trans (List.suffix_append _ _))) rfl
              rw [fencedLines_line (by simp) hlength hclose]
              dsimp only
              rw [hcode, List.append_assoc, List.singleton_append,
                lines_append_newline hkeptPlain]
              refine List.forall_mem_cons.mpr ⟨?_, hlater⟩
              rwa [closesFence_append_lineEnd hmark rfl]
            · rw [List.append_nil] at hne hreturn hopen
              rw [fencedLines_line hne hlength hclose]
              dsimp only
              rw [fencedLines, List.append_nil]
              intro line hline
              by_cases hcode : codeLine own = []
              · rw [hcode] at hline
                cases hline
              · rw [lines_of_newline_not_mem (fun hmem => hplain (mem_of_mem_codeLine hmem)) hcode]
                  at hline
                rw [List.mem_singleton.mp hline]
                exact not_closesFence_codeLine hmark hleast hreturn hopen

end Collected

end LiveDoc.Markdown
