import LiveDoc.Text.Basic
import Mathlib.Data.List.Basic

namespace LiveDoc.Text

theorem toList_pushn (c : Char) (n : Nat) (text : String) :
    (text.pushn c n).toList = text.toList ++ List.replicate n c := by
  unfold String.pushn
  induction n with
  | zero => exact (List.append_nil _).symm
  | succ n ih =>
      rw [Nat.repeat, String.toList_push, ih, List.replicate_succ', List.append_assoc]

theorem byteCount_pos {text : List Char} (h : text ≠ []) : 0 < byteCount text := by
  cases text with
  | nil => exact (h rfl).elim
  | cons c rest =>
      have hc := c.utf8Size_pos
      simp only [byteCount_cons]
      omega

theorem eq_nil_of_byteCount_le_zero {text : List Char} (h : byteCount text ≤ 0) : text = [] := by
  by_cases he : text = []
  · exact he
  · have := byteCount_pos he
    omega

theorem slice_append (before middle after : List Char) :
    slice (before ++ middle ++ after) (byteCount before) (byteCount before + byteCount middle) =
      middle := by
  rw [slice, List.append_assoc, dropBytes_byteCount, Nat.add_sub_cancel_left, takeBytes_byteCount]

theorem takeBytes_append (front back : List Char) (count : Nat) :
    takeBytes (byteCount front + count) (front ++ back) = front ++ takeBytes count back := by
  induction front with
  | nil => simp
  | cons c rest ih =>
      have hle : c.utf8Size ≤ c.utf8Size + byteCount rest + count := by omega
      have hsub : c.utf8Size + byteCount rest + count - c.utf8Size = byteCount rest + count := by
        omega
      simp only [byteCount_cons, List.cons_append, takeBytes, hle, if_true, hsub, ih]

theorem takeBytes_zero (text : List Char) : takeBytes 0 text = [] := takeBytes_byteCount [] text

theorem dropBytes_append (front back : List Char) (count : Nat) :
    dropBytes (byteCount front + count) (front ++ back) = dropBytes count back := by
  have hwhole := takeBytes_append_dropBytes (byteCount front + count) (front ++ back)
  rw [takeBytes_append, List.append_assoc] at hwhole
  have hback := takeBytes_append_dropBytes count back
  exact List.append_cancel_left ((List.append_cancel_left hwhole).trans hback.symm)

-- A cut that falls in a text or at its end does not see what follows the text.
theorem takeBytes_append_of_le {front : List Char} {count : Nat} (h : count ≤ byteCount front)
    (back : List Char) : takeBytes count (front ++ back) = takeBytes count front := by
  induction front generalizing count with
  | nil => rw [Nat.le_zero.mp h, takeBytes_zero, takeBytes_zero]
  | cons c rest ih =>
      rw [byteCount_cons] at h
      rw [List.cons_append, takeBytes, takeBytes, ih (by omega)]

theorem dropBytes_append_of_le {front : List Char} {count : Nat} (h : count ≤ byteCount front)
    (back : List Char) : dropBytes count (front ++ back) = dropBytes count front ++ back := by
  have hwhole := takeBytes_append_dropBytes count (front ++ back)
  rw [takeBytes_append_of_le h] at hwhole
  refine List.append_cancel_left (hwhole.trans ?_)
  rw [← List.append_assoc, takeBytes_append_dropBytes]

theorem byteCount_takeBytes_le (count : Nat) (text : List Char) :
    byteCount (takeBytes count text) ≤ count := by
  induction text generalizing count with
  | nil => exact Nat.zero_le count
  | cons c rest ih =>
      rw [takeBytes]
      split
      · have := ih (count - c.utf8Size)
        rw [byteCount_cons]
        omega
      · exact Nat.zero_le count

-- What is cut out of a part of a text is cut out of the whole text further on.
theorem slice_inside (before after : List Char) {inside : List Char} {start stop : Nat}
    (hstart : start ≤ byteCount inside) (hstop : stop ≤ byteCount inside) :
    slice (before ++ inside ++ after) (start + byteCount before) (stop + byteCount before) =
      slice inside start stop := by
  have hrest := congrArg byteCount (takeBytes_append_dropBytes start inside)
  have htaken := byteCount_takeBytes_le start inside
  rw [byteCount_append] at hrest
  rw [slice, slice, Nat.add_sub_add_right, List.append_assoc, Nat.add_comm start, dropBytes_append,
    dropBytes_append_of_le hstart, takeBytes_append_of_le (by omega)]

-- One byte less than a text has leaves its last character out.
theorem takeBytes_pred {front : List Char} (back : List Char) (h : front ≠ []) :
    takeBytes (byteCount front - 1) (front ++ back) = front.dropLast := by
  obtain ⟨init, c, rfl⟩ : ∃ init c, front = init ++ [c] :=
    ⟨front.dropLast, front.getLast h, (List.dropLast_concat_getLast h).symm⟩
  have hc := c.utf8Size_pos
  have hcount : byteCount (init ++ [c]) - 1 = byteCount init + (c.utf8Size - 1) := by
    simp only [byteCount_append, byteCount_cons, byteCount_nil]
    omega
  have hlast : takeBytes (c.utf8Size - 1) (c :: back) = [] := by
    have hle : ¬ c.utf8Size ≤ c.utf8Size - 1 := by omega
    simp only [takeBytes, hle, if_false]
  rw [hcount, List.append_assoc, List.singleton_append, takeBytes_append, hlast, List.append_nil,
    List.dropLast_concat]

-- Two starts of one text: the one that has fewer bytes is a start of the other.
theorem prefix_of_byteCount_le {front back text : List Char} (hf : front <+: text)
    (hb : back <+: text) (h : byteCount front ≤ byteCount back) : front <+: back := by
  rcases List.prefix_or_prefix_of_prefix hf hb with hp | hp
  · exact hp
  · obtain ⟨rest, rfl⟩ := hp
    rw [byteCount_append] at h
    have hr : rest = [] := eq_nil_of_byteCount_le_zero (by omega)
    simp [hr]

theorem exists_append_of_byteCount_lt {front back text : List Char} (hf : front <+: text)
    (hb : back <+: text) (h : byteCount front < byteCount back) :
    ∃ rest, rest ≠ [] ∧ back = front ++ rest := by
  obtain ⟨rest, rfl⟩ := prefix_of_byteCount_le hf hb (Nat.le_of_lt h)
  refine ⟨rest, ?_, rfl⟩
  rintro rfl
  simp at h

theorem eq_of_byteCount_eq {front back text : List Char} (hf : front <+: text)
    (hb : back <+: text) (h : byteCount front = byteCount back) : front = back := by
  obtain ⟨rest, rfl⟩ := prefix_of_byteCount_le hf hb (Nat.le_of_eq h)
  rw [byteCount_append] at h
  have hr : rest = [] := eq_nil_of_byteCount_le_zero (by omega)
  simp [hr]

theorem append_eq_append_cons {α : Type} {xs ys zs back : List α} {a : α}
    (h : xs ++ ys = zs ++ a :: back) (ha : a ∉ xs) :
    ∃ more, zs = xs ++ more ∧ ys = more ++ a :: back := by
  rcases List.append_eq_append_iff.mp h with ⟨more, hzs, hys⟩ | ⟨more, hxs, hback⟩
  · exact ⟨more, hzs, hys⟩
  · cases more with
    | nil => exact ⟨[], by simpa using hxs.symm, by simpa using hback.symm⟩
    | cons b others =>
        obtain ⟨rfl, -⟩ := List.cons_eq_cons.mp hback
        exact (ha (by simp [hxs])).elim

-- The pieces of a text that is cut after every newline: only the last can lack one.
inductive LineList : List (List Char) → Prop
  | nil : LineList []
  | open_ {line : List Char} : line ≠ [] → '\n' ∉ line → LineList [line]
  | ended {front : List Char} {more : List (List Char)} :
      '\n' ∉ front → LineList more → LineList ((front ++ ['\n']) :: more)

theorem lineList_lines (text : List Char) : LineList (lines text) := by
  induction text with
  | nil => exact .nil
  | cons c rest ih =>
      unfold lines
      by_cases hc : c = '\n'
      · subst hc
        simpa using LineList.ended (List.not_mem_nil) ih
      · have hne : '\n' ≠ c := fun h => hc h.symm
        simp only [hc, if_false]
        cases hl : lines rest with
        | nil => exact .open_ (by simp) (by simp [hne])
        | cons line more =>
            rw [hl] at ih
            cases ih with
            | open_ _ hn => exact LineList.open_ (List.cons_ne_nil c line) (by simp [hne, hn])
            | @ended front _ hn hm =>
                exact LineList.ended (List.not_mem_cons_of_ne_of_not_mem hne hn) hm

-- Only the last character of a line can be a newline.
theorem LineList.newline_not_mem_dropLast {ls : List (List Char)} (h : LineList ls) :
    ∀ line ∈ ls, '\n' ∉ line.dropLast := by
  induction h with
  | nil => exact fun _ hmem => nomatch hmem
  | open_ _ hplain =>
      intro line hmem hnewline
      cases List.mem_singleton.mp hmem
      exact hplain (List.dropLast_subset _ hnewline)
  | ended hplain _ ih =>
      refine List.forall_mem_cons.mpr ⟨?_, ih⟩
      rwa [List.dropLast_concat]

end LiveDoc.Text
