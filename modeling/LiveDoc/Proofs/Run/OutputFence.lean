import LiveDoc.Proofs.Markdown.Fences
import LiveDoc.Run.Layout
import Mathlib.Data.List.Infix

namespace LiveDoc

open Text Markdown

-- A text whose last line is ended where it was open.
theorem toList_endLine (text : String) :
    (endLine text).toList =
      text.toList ++ (if text.toList.getLast? = some '\n' then [] else ['\n']) := by
  have hends : text.endsWith "\n" = true ↔ text.toList.getLast? = some '\n' := by
    rw [String.endsWith_eq_endsWith_toSlice, String.Slice.endsWith_string_iff,
      String.copy_toSlice, List.getLast?_eq_some_iff]
    exact exists_congr fun _ => eq_comm
  unfold endLine
  by_cases h : text.toList.getLast? = some '\n'
  · rw [if_pos (hends.mpr h), if_pos h, List.append_nil]
  · rw [if_neg (mt hends.mp h), if_neg h, String.toList_append]
    rfl

theorem getLast?_endLine (text : String) : (endLine text).toList.getLast? = some '\n' := by
  rw [toList_endLine]
  split
  · rwa [List.append_nil]
  · rw [List.getLast?_concat]

section Runs

theorem le_longestRun (current : Nat) (text : List Char) : current ≤ longestRun current text := by
  fun_induction longestRun current text with
  | case1 => exact Nat.le_refl _
  | case2 current rest ih => omega
  | case3 current c rest hc ih => exact Nat.le_max_left ..

theorem longestRun_le {less more : Nat} (h : less ≤ more) (text : List Char) :
    longestRun less text ≤ longestRun more text := by
  induction text generalizing less more with
  | nil => exact h
  | cons c rest ih =>
      unfold longestRun
      split
      · exact ih (Nat.succ_le_succ h)
      · omega

theorem longestRun_append (current : Nat) (front back : List Char) :
    longestRun 0 back ≤ longestRun current (front ++ back) := by
  induction front generalizing current with
  | nil => exact longestRun_le (Nat.zero_le current) back
  | cons c rest ih =>
      rw [List.cons_append, longestRun]
      split
      · exact ih _
      · exact (ih 0).trans (Nat.le_max_right ..)

theorem longestRun_concat (current : Nat) (text : List Char) {c : Char} (hc : c ≠ backtick) :
    longestRun current (text ++ [c]) = longestRun current text := by
  fun_induction longestRun current text with
  | case1 current => rw [List.nil_append, longestRun, if_neg hc, longestRun, Nat.max_zero]
  | case2 current rest ih => rw [List.cons_append, longestRun, if_pos rfl, ih]
  | case3 current d rest hd ih => rw [List.cons_append, longestRun, if_neg hd, ih]

theorem longestRun_replicate (current count : Nat) (back : List Char) :
    longestRun current (List.replicate count backtick ++ back) =
      longestRun (current + count) back := by
  induction count generalizing current with
  | zero => rfl
  | succ count ih =>
      rw [List.replicate_succ, List.cons_append, longestRun, if_pos rfl, ih, Nat.add_right_comm,
        Nat.add_assoc]

theorem longestRun_endLine (text : String) :
    longestRun 0 (endLine text).toList = longestRun 0 text.toList := by
  rw [toList_endLine]
  split
  · rw [List.append_nil]
  · exact longestRun_concat 0 text.toList (by decide)

-- No run of backticks is longer than the longest.
theorem le_longestRun_of_isInfix {text : List Char} {count : Nat}
    (h : List.replicate count backtick <:+: text) : count ≤ longestRun 0 text := by
  obtain ⟨front, back, rfl⟩ := h
  have hrun := le_longestRun (0 + count) back
  rw [← longestRun_replicate, Nat.zero_add] at hrun
  rw [List.append_assoc]
  exact hrun.trans (longestRun_append 0 front _)

end Runs

-- A line that could close a fence of so many backticks: up to three spaces, at least as many
-- backticks, and blanks behind them.
def CouldClose (count : Nat) (line : List Char) : Prop :=
  ∃ indent marks tail, line = List.replicate indent ' ' ++ (List.replicate marks backtick ++ tail) ∧
    indent ≤ 3 ∧ count ≤ marks ∧ ∀ c ∈ tail, isBlank c = true

theorem CouldClose.isInfix {count : Nat} {line : List Char} (h : CouldClose count line) :
    List.replicate count backtick <:+: line := by
  obtain ⟨indent, marks, tail, rfl, -, hmarks, -⟩ := h
  obtain ⟨more, rfl⟩ := Nat.exists_eq_add_of_le hmarks
  refine ⟨List.replicate indent ' ', List.replicate more backtick ++ tail, ?_⟩
  simp only [List.replicate_add, List.append_assoc]

-- No line of a text can close a fence that is longer than any run in it.
theorem not_couldClose_of_mem_lines {text line : List Char} {count : Nat} (hline : line ∈ lines text)
    (h : longestRun 0 text < count) : ¬CouldClose count line := by
  intro hclose
  have hinfix := List.infix_of_mem_flatten hline
  rw [flatten_lines] at hinfix
  exact absurd (le_longestRun_of_isInfix (hclose.isInfix.trans hinfix)) (Nat.not_le.mpr h)

-- Captured output in its fence, line by line: the opening line, the output with its last line ended,
-- and the closing line, which is the first that can close the fence.
theorem output_stays_fenced {language : String}
    (hlanguage : ∀ c ∈ language.toList, c ≠ backtick ∧ c ≠ '\n') (output : String) :
    let text := (outputFence language output).toList
    let count := run backtick text
    3 ≤ count ∧ ∃ body,
      lines text = (List.replicate count backtick ++ language.toList ++ ['\n']) ::
        (body ++ [List.replicate count backtick ++ ['\n']]) ∧
      body.flatten =
        output.toList ++ (if output.toList.getLast? = some '\n' then [] else ['\n']) ∧
      (∀ line ∈ body, ¬CouldClose count line) ∧
      CouldClose count (List.replicate count backtick ++ ['\n']) := by
  intro text count
  obtain ⟨marks, hmarks⟩ : ∃ marks, marks = max (longestRun 0 output.toList + 1) 3 := ⟨_, rfl⟩
  obtain ⟨fence, hfence⟩ : ∃ fence, fence = List.replicate marks backtick := ⟨_, rfl⟩
  have htext : text = fence ++ (language.toList ++
      ('\n' :: ((endLine output).toList ++ (fence ++ ['\n'])))) := by
    simp only [text, outputFence, String.toList_append, toList_pushn, ← hmarks, hfence]
    simp
  have hcount : count = marks := by
    change run backtick text = marks
    rw [htext, hfence, run_replicate_append]
    cases hwords : language.toList with
    | nil => simp [backtick]
    | cons c more => simpa using (hlanguage c (hwords ▸ List.mem_cons_self ..)).1
  have hplain : '\n' ∉ fence := by
    rw [hfence]
    exact fun h => absurd (List.eq_of_mem_replicate h) (by decide)
  rw [hcount, ← hfence]
  refine ⟨by omega, lines (endLine output).toList, ?_, ?_, ?_, ?_⟩
  · have hhead : '\n' ∉ fence ++ language.toList := by
      intro h
      rcases List.mem_append.mp h with h | h
      · exact hplain h
      · exact (hlanguage _ h).2 rfl
    rw [htext, ← List.append_assoc, lines_append_newline hhead,
      lines_append (getLast?_endLine output), lines_append_newline hplain, lines]
  · rw [flatten_lines, toList_endLine]
  · intro line hline
    refine not_couldClose_of_mem_lines hline ?_
    rw [longestRun_endLine]
    omega
  · exact ⟨0, marks, ['\n'], by rw [hfence]; rfl, Nat.zero_le 3, Nat.le_refl _,
      List.forall_mem_singleton.mpr (by decide)⟩

theorem backticks_stay_fenced :
    (∀ c ∈ "text".toList, c ≠ backtick ∧ c ≠ '\n') ∧
    outputFence "text" "a\n````\n   ``` \nb" = "`````text\na\n````\n   ``` \nb\n`````\n" ∧
    ∃ body : List (List Char), body.flatten = "a\n````\n   ``` \nb\n".toList ∧
      ∀ line ∈ body, ¬CouldClose 5 line := by
  have hlanguage : ∀ c ∈ "text".toList, c ≠ backtick ∧ c ≠ '\n' := by simp [backtick]
  have hfence : outputFence "text" "a\n````\n   ``` \nb" =
      "`````text\na\n````\n   ``` \nb\n`````\n" := by decide +kernel
  have hcount : run backtick "`````text\na\n````\n   ``` \nb\n`````\n".toList = 5 := by
    decide +kernel
  obtain ⟨-, body, -, hbody, hopen, -⟩ := output_stays_fenced hlanguage "a\n````\n   ``` \nb"
  rw [hfence, hcount] at hopen
  exact ⟨hlanguage, hfence, body, hbody, hopen⟩

end LiveDoc
