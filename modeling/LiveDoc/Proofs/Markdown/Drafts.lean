import LiveDoc.Proofs.Text.Words
import Mathlib.Tactic.ByContra

namespace LiveDoc.Markdown

-- A text in which the ends of lines are left open.
abbrev Draft := List (Option Char)

namespace Draft

def fill (mark : List Char) (draft : Draft) : List Char :=
  draft.flatMap fun
    | some c => [c]
    | none => mark

def ofText (text : List Char) : Draft := text.map some

-- The lines of a draft may be joined without a blank: no two words meet.
def Apart (draft : Draft) : Prop :=
  ∀ front back, draft = front ++ none :: back → Text.Apart (fill [] front) (fill [] back)

@[simp] theorem fill_nil (mark : List Char) : fill mark [] = [] := rfl

@[simp] theorem fill_append (mark : List Char) (front back : Draft) :
    fill mark (front ++ back) = fill mark front ++ fill mark back := List.flatMap_append

@[simp] theorem fill_some (mark : List Char) (c : Char) (rest : Draft) :
    fill mark (some c :: rest) = c :: fill mark rest := rfl

@[simp] theorem fill_none (mark : List Char) (rest : Draft) :
    fill mark (none :: rest) = mark ++ fill mark rest := rfl

@[simp] theorem fill_ofText (mark text : List Char) : fill mark (ofText text) = text := by
  induction text with
  | nil => rfl
  | cons c rest ih =>
      change c :: fill mark (ofText rest) = c :: rest
      rw [ih]

section Words

open Text

variable {draft : Draft}

-- Joining lines can only lose words.
theorem length_words_fill_le (text : List Char) (draft : Draft) :
    (words (text ++ fill [] draft)).length ≤ (words (text ++ fill [' '] draft)).length := by
  induction draft generalizing text with
  | nil => exact Nat.le_refl _
  | cons piece rest ih =>
      cases piece with
      | some c => simpa using ih (text ++ [c])
      | none =>
          rw [fill_none, fill_none, List.nil_append, List.singleton_append, words_append_blank,
            List.length_append]
          exact Nat.le_trans (length_words_append_le text _) (Nat.add_le_add_left (ih []) _)

theorem apart_some {c : Char} {rest : Draft} {text : List Char} :
    (∀ front back, some c :: rest = front ++ none :: back →
      Text.Apart (text ++ fill [] front) (fill [] back)) ↔
    ∀ front back, rest = front ++ none :: back →
      Text.Apart (text ++ [c] ++ fill [] front) (fill [] back) := by
  constructor
  · rintro h front back rfl
    simpa using h (some c :: front) back rfl
  · intro h front back hsplit
    cases front with
    | nil => cases hsplit
    | cons piece front =>
        obtain ⟨rfl, hrest⟩ := List.cons.inj hsplit
        simpa using h front back hrest

theorem apart_none {rest : Draft} {text : List Char} :
    (∀ front back, none :: rest = front ++ none :: back →
      Text.Apart (text ++ fill [] front) (fill [] back)) ↔
    Text.Apart text (fill [] rest) ∧ Apart rest := by
  constructor
  · refine fun h => ⟨by simpa using h [] rest rfl, fun front back hsplit => ?_⟩
    have hwhole := h (none :: front) back (by rw [hsplit, List.cons_append])
    rcases hfront : fill [] front with _ | ⟨c, more⟩
    · exact .inl (by simp)
    · simpa [hfront, Text.Apart, List.getLast?_append] using hwhole
  · rintro ⟨htext, hrest⟩ front back hsplit
    cases front with
    | nil =>
        obtain rfl := (List.cons.inj hsplit).2
        simpa using htext
    | cons piece front =>
        obtain ⟨rfl, rfl⟩ := List.cons.inj hsplit
        have hwhole := hrest front back rfl
        rcases hfront : fill [] front with _ | ⟨c, more⟩
        · simpa [hfront] using htext
        · simpa [hfront, Text.Apart, List.getLast?_append] using hwhole

theorem words_append_fill_iff (text : List Char) :
    words (text ++ fill [] draft) = words (text ++ fill [' '] draft) ↔
      ∀ front back, draft = front ++ none :: back →
        Text.Apart (text ++ fill [] front) (fill [] back) := by
  induction draft generalizing text with
  | nil => simp
  | cons piece rest ih =>
      cases piece with
      | some c => simpa [apart_some] using ih (text ++ [c])
      | none =>
          have hrest := ih []
          simp only [List.nil_append] at hrest
          rw [apart_none, fill_none, fill_none, List.nil_append, List.singleton_append,
            words_append_blank]
          constructor
          · intro h
            have htext : Text.Apart text (fill [] rest) := by
              by_contra hjoined
              have hlt := length_words_append_lt hjoined
              have hle := length_words_fill_le [] rest
              rw [List.nil_append, List.nil_append] at hle
              rw [h, List.length_append] at hlt
              omega
            rw [words_append_of_apart htext] at h
            exact ⟨htext, hrest.mp (List.append_cancel_left h)⟩
          · rintro ⟨htext, hapart⟩
            rw [words_append_of_apart htext, hrest.mpr hapart]

-- A draft reads the same with its lines joined and with blanks between them, just where no two words
-- meet.
theorem words_fill_iff (draft : Draft) :
    words (fill [] draft) = words (fill [' '] draft) ↔ draft.Apart := words_append_fill_iff []

end Words

end Draft

end LiveDoc.Markdown
