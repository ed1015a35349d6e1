import LiveDoc.Text.Basic
import Mathlib.Data.List.Basic

namespace LiveDoc.Text

variable {mark text front back : List Char}

theorem after?_eq_some_iff {lead text tail : List Char} :
    after? lead text = some tail ↔ text = lead ++ tail := by
  induction lead generalizing text with
  | nil => simp [after?, eq_comm]
  | cons c lead ih =>
      cases text with
      | nil => simp [after?]
      | cons d text =>
          by_cases hc : c = d
          · subst hc
            simp [after?, ih]
          · simp [after?, hc, Ne.symm hc]

theorem after?_eq_none_iff {lead text : List Char} : after? lead text = none ↔ ¬lead <+: text := by
  have hsome : lead <+: text ↔ ∃ tail, after? lead text = some tail :=
    exists_congr fun tail => by rw [after?_eq_some_iff, eq_comm]
  rw [hsome, ← Option.isSome_iff_exists, Option.not_isSome_iff_eq_none]

-- A text is cut where the mark stands first.
theorem cutAt?_eq_some_iff : cutAt? mark text = some (front, back) ↔
    text = front ++ (mark ++ back) ∧
      ∀ f b, text = f ++ (mark ++ b) → front.length ≤ f.length := by
  induction text generalizing front with
  | nil =>
      rw [cutAt?]
      constructor
      · intro h
        split at h
        · rename_i hmark
          subst hmark
          cases h
          exact ⟨rfl, fun _ _ _ => Nat.zero_le _⟩
        · cases h
      · rintro ⟨h, -⟩
        obtain ⟨rfl, hrest⟩ := List.append_eq_nil_iff.mp h.symm
        obtain ⟨rfl, rfl⟩ := List.append_eq_nil_iff.mp hrest
        rw [if_pos rfl]
  | cons c rest ih =>
      rw [cutAt?]
      cases hafter : after? mark (c :: rest) with
      | some own =>
          rw [after?_eq_some_iff] at hafter
          constructor
          · intro h
            cases h
            exact ⟨hafter, fun _ _ _ => Nat.zero_le _⟩
          · rintro ⟨htext, hfirst⟩
            obtain rfl := List.length_eq_zero_iff.mp (Nat.le_zero.mp (hfirst [] own hafter))
            rw [List.nil_append, hafter, List.append_cancel_left_eq] at htext
            rw [htext]
      | none =>
          have hhere : ∀ f b, c :: rest = f ++ (mark ++ b) → ∃ more, f = c :: more := by
            intro f b h
            cases f with
            | nil => exact (after?_eq_none_iff.mp hafter ⟨b, h.symm⟩).elim
            | cons d more => exact ⟨more, by rw [(List.cons.inj h).1]⟩
          dsimp only
          rw [Option.map_eq_some_iff]
          constructor
          · rintro ⟨⟨own, tail⟩, hcut, hwhole⟩
            cases hwhole
            obtain ⟨hrest, hfirst⟩ := ih.mp hcut
            refine ⟨congrArg (c :: ·) hrest, fun f b h => ?_⟩
            obtain ⟨more, rfl⟩ := hhere f b h
            exact Nat.succ_le_succ (hfirst more b (List.cons.inj h).2)
          · rintro ⟨htext, hfirst⟩
            obtain ⟨more, rfl⟩ := hhere front back htext
            refine ⟨(more, back), ih.mpr ⟨(List.cons.inj htext).2, fun f b h => ?_⟩, rfl⟩
            exact Nat.le_of_succ_le_succ (hfirst (c :: f) b (congrArg (c :: ·) h))

theorem cutAt?_eq_none_iff : cutAt? mark text = none ↔ ¬mark <:+: text := by
  induction text with
  | nil => by_cases h : mark = [] <;> simp [cutAt?, h]
  | cons c rest ih =>
      rw [cutAt?, List.infix_cons_iff]
      cases hafter : after? mark (c :: rest) with
      | some own => simp [(after?_eq_some_iff.mp hafter) ▸ List.prefix_append mark own]
      | none =>
          rw [after?_eq_none_iff] at hafter
          simp only [Option.map_eq_none_iff, ih, hafter, false_or]

-- Of a text and one that goes on behind it, a mark without the next character starts both or none.
theorem prefix_of_prefix_append_cons {c : Char} {rest : List Char} (hc : c ∉ mark)
    (h : mark <+: front ++ c :: rest) : mark <+: front := by
  rcases List.prefix_or_prefix_of_prefix h (List.prefix_append front (c :: rest)) with
    hfront | ⟨own, rfl⟩
  · exact hfront
  · cases own with
    | nil => exact (List.append_nil front).symm ▸ List.prefix_refl front
    | cons d own =>
        obtain ⟨rfl, -⟩ := List.cons_prefix_cons.mp ((List.prefix_append_right_inj front).mp h)
        exact (hc (by simp)).elim

theorem cutAt?_append_newline {line : List Char} (hplain : '\n' ∉ line) (mark rest : List Char) :
    cutAt? ('\n' :: mark) (line ++ '\n' :: rest) =
      match after? mark rest with
      | some back => some (line, back)
      | none => (cutAt? ('\n' :: mark) rest).map fun cut => (line ++ '\n' :: cut.1, cut.2) := by
  induction line with
  | nil =>
      rw [List.nil_append, cutAt?, after?, if_pos rfl]
      rfl
  | cons c line ih =>
      obtain ⟨hc, hline⟩ := not_or.mp (mt List.mem_cons.mpr hplain)
      rw [List.cons_append, cutAt?, after?, if_neg hc]
      dsimp only
      rw [ih hline]
      cases after? mark rest with
      | some back => rfl
      | none =>
          dsimp only
          rw [Option.map_map]
          rfl

end LiveDoc.Text
