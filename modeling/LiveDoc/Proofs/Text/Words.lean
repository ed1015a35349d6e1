import LiveDoc.Text.CharClass
import Mathlib.Tactic.ByContra

namespace LiveDoc.Text

section Fields

variable {separator : Char → Bool} {c : Char} {front back rest field : List Char}
  {pieces : List (List Char)}

theorem fields_cons_separator (h : separator c = true) :
    fields separator (c :: rest) = fields separator rest := by
  rw [fields.eq_def]
  exact if_pos h

-- A stretch without separators is one field, if it ends where the text does or at a separator.
theorem fields_append (hne : field ≠ []) (hfield : ∀ c ∈ field, separator c = false)
    (hrest : ∀ c ∈ rest.head?, separator c = true) :
    fields separator (field ++ rest) = field :: fields separator rest := by
  induction field with
  | nil => exact (hne rfl).elim
  | cons c more ih =>
      obtain ⟨hc, hmore⟩ := List.forall_mem_cons.mp hfield
      rw [List.cons_append, fields.eq_def]
      dsimp only
      rw [if_neg (by simp [hc])]
      cases more with
      | nil =>
          cases rest with
          | nil => rfl
          | cons d tail => exact if_pos (hrest d rfl)
      | cons d tail =>
          have hwhole := ih (List.cons_ne_nil d tail) hmore
          rw [List.cons_append] at hwhole
          dsimp only [List.cons_append]
          rw [if_neg (by simp [hmore d (List.mem_cons_self ..)]), hwhole]

-- What does not start with a separator starts with a field.
theorem exists_field (hc : separator c = false) (rest : List Char) :
    ∃ field back, c :: rest = field ++ back ∧ field ≠ [] ∧ (∀ c ∈ field, separator c = false) ∧
      ∀ c ∈ back.head?, separator c = true := by
  induction rest generalizing c with
  | nil => exact ⟨[c], [], rfl, List.cons_ne_nil c [], by simpa using hc, by simp⟩
  | cons d more ih =>
      cases hd : separator d with
      | true => exact ⟨[c], d :: more, rfl, List.cons_ne_nil c [], by simpa using hc, by simpa using hd⟩
      | false =>
          obtain ⟨field, back, hsplit, -, hfield, hback⟩ := ih hd
          refine ⟨c :: field, back, ?_, List.cons_ne_nil c field,
            List.forall_mem_cons.mpr ⟨hc, hfield⟩, hback⟩
          rw [hsplit, List.cons_append]

-- A text is read field by field, with separators between.
theorem fieldwise (separator : Char → Bool) {motive : List Char → Prop} (nil : motive [])
    (separators : ∀ c rest, separator c = true → motive rest → motive (c :: rest))
    (fields : ∀ field rest, field ≠ [] → (∀ c ∈ field, separator c = false) →
      (∀ c ∈ rest.head?, separator c = true) → motive rest → motive (field ++ rest))
    (text : List Char) : motive text := by
  induction hn : text.length using Nat.strongRecOn generalizing text with
  | _ n ih =>
      cases text with
      | nil => exact nil
      | cons c rest =>
          cases hc : separator c with
          | true => exact separators c rest hc (ih _ (by simp [← hn]) rest rfl)
          | false =>
              obtain ⟨field, back, hsplit, hne, hfield, hback⟩ := exists_field hc rest
              have hlen : back.length < n := by
                rw [← hn, hsplit, List.length_append]
                exact Nat.lt_add_of_pos_left (List.length_pos_iff.mpr hne)
              rw [hsplit]
              exact fields field back hne hfield hback (ih _ hlen back rfl)

-- A separator keeps what is before it apart from what is behind.
theorem fields_append_cons (h : separator c = true) (front back : List Char) :
    fields separator (front ++ c :: back) = fields separator front ++ fields separator back := by
  induction front using fieldwise separator with
  | nil => exact fields_cons_separator h
  | separators d rest hd ih =>
      rw [List.cons_append, fields_cons_separator hd, fields_cons_separator hd, ih]
  | fields field rest hne hfield hrest ih =>
      have hbehind : ∀ d ∈ (rest ++ c :: back).head?, separator d = true := by
        cases rest with
        | nil => simpa using h
        | cons e more => simpa using hrest
      rw [List.append_assoc, fields_append hne hfield hbehind, fields_append hne hfield hrest, ih,
        List.cons_append]

theorem fields_append_of_apart
    (h : (∀ c ∈ front.getLast?, separator c = true) ∨ ∀ c ∈ back.head?, separator c = true) :
    fields separator (front ++ back) = fields separator front ++ fields separator back := by
  rcases h with hlast | hhead
  · rcases List.eq_nil_or_concat front with rfl | ⟨init, c, rfl⟩
    · rfl
    · have hc := hlast c (by simp)
      have hinit := fields_append_cons hc init []
      rw [List.concat_eq_append, List.append_assoc, List.singleton_append, fields_append_cons hc,
        hinit]
      simp [fields]
  · cases back with
    | nil => simp [fields]
    | cons c rest =>
        have hc := hhead c rfl
        rw [fields_append_cons hc, fields_cons_separator hc]

-- Without one, the last field before and the first one behind are a single field.
theorem length_fields_append {c d : Char} (hc : separator c = false) (hlast : front.getLast? = some c)
    (hd : separator d = false) (rest : List Char) :
    (fields separator (front ++ d :: rest)).length + 1 =
      (fields separator front).length + (fields separator (d :: rest)).length := by
  induction front using fieldwise separator with
  | nil => cases hlast
  | separators e more he ih =>
      have hmore : more.getLast? = some c := by
        cases more with
        | nil =>
            cases hlast
            cases hc.symm.trans he
        | cons => simpa using hlast
      rw [List.cons_append, fields_cons_separator he, fields_cons_separator he, ih hmore]
  | fields field more hne hfield hmore ih =>
      cases more with
      | nil =>
          obtain ⟨own, back, hsplit, howne, hown, hback⟩ := exists_field hd rest
          have hjoined : ∀ b ∈ field ++ own, separator b = false :=
            List.forall_mem_append.mpr ⟨hfield, hown⟩
          have hjoin := fields_append (List.append_ne_nil_of_left_ne_nil hne own) hjoined hback
          rw [fields_append hne hfield hmore, List.append_nil, hsplit, fields_append howne hown hback,
            ← List.append_assoc, hjoin]
          simp only [fields, List.length_cons, List.length_nil]
          omega
      | cons e tail =>
          have hbehind : ∀ b ∈ (e :: tail ++ d :: rest).head?, separator b = true := by
            simpa using hmore
          have htail : (e :: tail).getLast? = some c := by
            rw [List.getLast?_append] at hlast
            simpa using hlast
          rw [List.append_assoc, fields_append hne hfield hbehind, fields_append hne hfield hmore,
            List.length_cons, List.length_cons, ih htail]
          omega

-- Every field holds something, and none holds a separator.
theorem of_mem_fields {text : List Char} (h : field ∈ fields separator text) :
    field ≠ [] ∧ ∀ c ∈ field, separator c = false := by
  induction text using fieldwise separator with
  | nil => cases h
  | separators c rest hc ih => exact ih (fields_cons_separator hc ▸ h)
  | fields own rest hne hown hrest ih =>
      rw [fields_append hne hown hrest] at h
      rcases List.mem_cons.mp h with rfl | h
      · exact ⟨hne, hown⟩
      · exact ih h

-- Fields with one separator between any two are read back.
theorem fields_intercalate {mark : Char} (hmark : separator mark = true)
    (h : ∀ piece ∈ pieces, piece ≠ [] ∧ ∀ c ∈ piece, separator c = false) :
    fields separator ([mark].intercalate pieces) = pieces := by
  induction pieces with
  | nil => rfl
  | cons piece more ih =>
      obtain ⟨⟨hne, hpiece⟩, hmore⟩ := List.forall_mem_cons.mp h
      cases more with
      | nil =>
          have hone : fields separator (piece ++ []) = _ := fields_append hne hpiece (by simp)
          simpa [List.intercalate, fields] using hone
      | cons next others =>
          have hsplit : [mark].intercalate (piece :: next :: others) =
              piece ++ mark :: [mark].intercalate (next :: others) := by
            simp [List.intercalate]
          rw [hsplit, fields_append hne hpiece (by simpa using hmark), fields_cons_separator hmark,
            ih hmore]

end Fields

-- Texts of which the last word of one and the first word of the other stay two words.
def Apart (front back : List Char) : Prop :=
  (∀ c ∈ front.getLast?, isBlank c = true) ∨ ∀ c ∈ back.head?, isBlank c = true

section Words

variable {text other front back : List Char}

theorem words_append_blank (front back : List Char) :
    words (front ++ ' ' :: back) = words front ++ words back :=
  fields_append_cons (by decide) front back

theorem words_append_of_apart (h : Apart front back) :
    words (front ++ back) = words front ++ words back := fields_append_of_apart h

theorem length_words_append_lt (h : ¬Apart front back) :
    (words (front ++ back)).length < (words front).length + (words back).length := by
  obtain ⟨hlast, hhead⟩ := not_or.mp h
  push Not at hlast hhead
  obtain ⟨c, hmem, hc⟩ := hlast
  obtain ⟨d, hd, hopen⟩ := hhead
  cases back with
  | nil => cases hd
  | cons e rest =>
      cases hd
      have hlen := length_fields_append (by simpa using hc) hmem (by simpa using hopen) rest
      exact Nat.lt_of_succ_le (Nat.le_of_eq hlen)

theorem length_words_append_le (front back : List Char) :
    (words (front ++ back)).length ≤ (words front).length + (words back).length := by
  by_cases h : Apart front back
  · exact Nat.le_of_eq (by rw [words_append_of_apart h, List.length_append])
  · exact Nat.le_of_lt (length_words_append_lt h)

@[simp] theorem words_squeezeBlanks (text : List Char) : words (squeezeBlanks text) = words text :=
  fields_intercalate (by decide) fun _ hword => of_mem_fields hword

theorem squeezeBlanks_idem (text : List Char) :
    squeezeBlanks (squeezeBlanks text) = squeezeBlanks text := by
  rw [squeezeBlanks, words_squeezeBlanks, squeezeBlanks]

-- What is left is the words.
theorem squeezeBlanks_eq_iff : squeezeBlanks text = squeezeBlanks other ↔ words text = words other := by
  constructor
  · intro h
    rw [← words_squeezeBlanks text, h, words_squeezeBlanks]
  · intro h
    rw [squeezeBlanks, h, squeezeBlanks]

end Words

end LiveDoc.Text
