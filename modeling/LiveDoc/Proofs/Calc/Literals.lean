import LiveDoc.Proofs.Calc.Relocation

namespace LiveDoc.Calc

open Text

-- How a character is written in a literal.
def spell : Char → List Char
  | '\\' => ['\\', '\\']
  | '\x22' => ['\\', '\x22']
  | '\n' => ['\\', 'n']
  | '\t' => ['\\', 't']
  | c => [c]

def literal (value : List Char) : List Char := '\x22' :: (value.flatMap spell ++ ['\x22'])

-- `Spells body value`: between quotes, `body` stands for `value`. A quote is not part of it unless a
-- backslash stands before it.
inductive Spells : List Char → List Char → Prop
  | nil : Spells [] []
  | plain {c : Char} {body value : List Char} :
      c ≠ '\x22' → c ≠ '\\' → Spells body value → Spells (c :: body) (c :: value)
  | escape (c : Char) {body value : List Char} :
      Spells body value → Spells ('\\' :: c :: body) (escaped c :: value)

-- What follows an opening quote and holds no closing one.
def Unclosed (rest : List Char) : Prop :=
  ∀ body value back, Spells body value → rest ≠ body ++ '\x22' :: back

section Bodies

variable {body value rest back : List Char} {count : Nat}

theorem spells_spell (c : Char) (h : Spells body value) : Spells (spell c ++ body) (c :: value) := by
  unfold spell
  split
  · exact .escape '\\' h
  · exact .escape '\x22' h
  · exact .escape 'n' h
  · exact .escape 't' h
  · rename_i hslash hquote _ _
    exact .plain hquote hslash h

theorem spells_flatMap_spell (value : List Char) : Spells (value.flatMap spell) value := by
  induction value with
  | nil => exact .nil
  | cons c rest ih => exact spells_spell c ih

theorem textBody?_of_spells (h : Spells body value) (back : List Char) :
    textBody? (body ++ '\x22' :: back) = some (value, body.length + 1) := by
  induction h with
  | nil => rfl
  | @plain c body value hquote hslash _ ih =>
      rw [List.cons_append, textBody?.eq_4 _ _ hquote fun _ _ hc _ => hslash hc, ih]
      rfl
  | escape c _ ih =>
      rw [List.cons_append, List.cons_append, textBody?, ih]
      rfl

theorem spells_of_textBody? (h : textBody? rest = some (value, count)) :
    ∃ body back, rest = body ++ '\x22' :: back ∧ Spells body value ∧ count = body.length + 1 := by
  fun_induction textBody? rest generalizing value count with
  | case1 => cases h
  | case2 rest =>
      cases h
      exact ⟨[], rest, rfl, .nil, rfl⟩
  | case3 c rest ih =>
      obtain ⟨⟨inner, width⟩, hinner, hwhole⟩ := Option.map_eq_some_iff.mp h
      obtain ⟨body, back, rfl, hbody, rfl⟩ := ih hinner
      cases hwhole
      exact ⟨'\\' :: c :: body, back, rfl, .escape c hbody, rfl⟩
  | case4 c rest hquote hescape ih =>
      obtain ⟨⟨inner, width⟩, hinner, hwhole⟩ := Option.map_eq_some_iff.mp h
      obtain ⟨body, back, rfl, hbody, rfl⟩ := ih hinner
      cases hwhole
      refine ⟨c :: body, back, rfl, .plain hquote (fun hslash => ?_) hbody, rfl⟩
      cases body with
      | nil => exact hescape _ _ hslash rfl
      | cons d body => exact hescape _ _ hslash rfl

theorem textBody?_eq_none_iff : textBody? rest = none ↔ Unclosed rest := by
  constructor
  · rintro hnone body value back hbody rfl
    rw [textBody?_of_spells hbody] at hnone
    cases hnone
  · intro hopen
    cases hbody : textBody? rest with
    | none => rfl
    | some read =>
        obtain ⟨body, back, hrest, hspells, -⟩ := spells_of_textBody? hbody
        exact (hopen body read.1 back hspells hrest).elim

-- A text that closes no literal is the inside of one, or its last character is a backslash that has
-- nothing to escape.
theorem unclosed_iff :
    Unclosed rest ↔ ∃ body value, Spells body value ∧ (rest = body ∨ rest = body ++ ['\\']) := by
  rw [← textBody?_eq_none_iff]
  constructor
  · intro hnone
    fun_induction textBody? rest with
    | case1 => exact ⟨[], [], .nil, .inl rfl⟩
    | case2 rest => cases hnone
    | case3 c rest ih =>
        obtain ⟨body, value, hbody, hrest⟩ := ih (Option.map_eq_none_iff.mp hnone)
        refine ⟨'\\' :: c :: body, escaped c :: value, .escape c hbody, ?_⟩
        rcases hrest with rfl | rfl
        · exact .inl rfl
        · exact .inr rfl
    | case4 c rest hquote hescape ih =>
        obtain ⟨body, value, hbody, hrest⟩ := ih (Option.map_eq_none_iff.mp hnone)
        by_cases hslash : c = '\\'
        · -- Nothing follows a backslash that escapes nothing.
          have hnil : rest = [] := by
            cases rest with
            | nil => rfl
            | cons d more => exact (hescape d more hslash rfl).elim
          subst hslash hnil
          exact ⟨[], [], .nil, .inr rfl⟩
        · refine ⟨c :: body, c :: value, .plain hquote hslash hbody, ?_⟩
          rcases hrest with rfl | rfl
          · exact .inl rfl
          · exact .inr rfl
  · rintro ⟨body, value, hbody, hrest⟩
    have hclosed : ∀ tail, tail = [] ∨ tail = ['\\'] → textBody? (body ++ tail) = none := by
      intro tail htail
      clear hrest
      induction hbody with
      | nil => rcases htail with rfl | rfl <;> rfl
      | @plain c body value hquote hslash _ ih =>
          rw [List.cons_append, textBody?.eq_4 _ _ hquote fun _ _ hc _ => hslash hc, ih,
            Option.map_none]
      | escape c _ ih =>
          rw [List.cons_append, List.cons_append, textBody?, ih, Option.map_none]
    rcases hrest with rfl | rfl
    · simpa using hclosed [] (.inl rfl)
    · exact hclosed ['\\'] (.inr rfl)

-- What stands before a part of an open literal is open too.
theorem Unclosed.of_append (h : Unclosed (rest ++ back)) : Unclosed rest := by
  rintro body value more hbody rfl
  exact h body value (more ++ back) hbody (by simp)

end Bodies

-- What stands before a place that is in no literal and in no comment.
inductive Outside : List Char → Prop
  | nil : Outside []
  | char {c : Char} {rest : List Char} : c ≠ '\x22' → c ≠ '#' → Outside rest → Outside (c :: rest)
  | literal {body value rest : List Char} :
      Spells body value → Outside rest → Outside ('\x22' :: (body ++ '\x22' :: rest))

-- Characters that a token can hold outside of literals.
def IsBare (c : Char) : Prop := c ≠ '\x22' ∧ c ≠ '#'

section Outside

variable {front rest back : List Char} {c : Char} {line offset count : Nat}

theorem Outside.of_isBare (h : ∀ c ∈ front, IsBare c) : Outside front := by
  induction front with
  | nil => exact .nil
  | cons c more ih =>
      obtain ⟨hc, hmore⟩ := List.forall_mem_cons.mp h
      exact .char hc.1 hc.2 (ih hmore)

theorem Outside.tail (hc : IsBare c) (h : Outside (c :: rest)) : Outside rest := by
  cases h with
  | char _ _ h => exact h
  | literal => exact (hc.1 rfl).elim

theorem Outside.of_append (hbare : ∀ c ∈ front, IsBare c) (h : Outside (front ++ rest)) :
    Outside rest := by
  induction front with
  | nil => exact h
  | cons c more ih =>
      obtain ⟨hc, hmore⟩ := List.forall_mem_cons.mp hbare
      exact ih hmore (h.tail hc)

theorem isBare_of_isNumberChar (h : isNumberChar c = true) : IsBare c := by
  constructor <;> rintro rfl <;> exact absurd h (by decide)

theorem isBare_of_isNameChar (h : isNameChar c = true) : IsBare c := by
  have hquote : isNameChar '\x22' = false := by decide +kernel
  have hmark : isNameChar '#' = false := by decide +kernel
  constructor <;> rintro rfl
  · cases h.symm.trans hquote
  · cases h.symm.trans hmark

theorem isBare_take_takeWhile {p : Char → Bool} (hp : ∀ c, p c = true → IsBare c)
    (rest : List Char) : ∀ c ∈ rest.take (rest.takeWhile p).length, IsBare c := by
  intro c hc
  rw [← List.prefix_iff_eq_take.mp (List.takeWhile_prefix p)] at hc
  exact hp c (List.mem_takeWhile_imp hc)

-- A quote ends every token before it.
theorem lexeme_quote (hc : c ≠ '\x22') (rest back : List Char) :
    lexeme c (rest ++ '\x22' :: back) = lexeme c rest := by
  have hquote : isNumberChar '\x22' = false ∧ isNameChar '\x22' = false := by decide +kernel
  refine lexeme_append_of_breaks (fun d hd => ?_) hc rest
  cases hd
  exact ⟨hquote.1, hquote.2, by decide, by decide, by decide⟩

theorem isBare_of_symbolLexeme {token : Token} (h : symbolLexeme c rest = .ok (token, count)) :
    ∀ d ∈ rest.take count, IsBare d := by
  have htaken : ∀ {second : Char}, IsBare second → rest.head? = some second →
      ∀ d ∈ rest.take 1, IsBare d := by
    intro second hsecond hhead d hd
    cases rest with
    | nil => cases hhead
    | cons own more =>
        cases hhead
        cases List.mem_singleton.mp hd
        exact hsecond
  have heither : ∀ {second long short}, IsBare second →
      eitherSymbol second long short rest = .ok (token, count) → ∀ d ∈ rest.take count, IsBare d := by
    intro second long short hsecond h
    unfold eitherSymbol at h
    split at h <;> cases h
    · exact htaken hsecond ‹_›
    · exact fun _ hd => nomatch hd
  have hdoubled : ∀ {own symbol}, IsBare own →
      doubledSymbol own symbol rest = .ok (token, count) → ∀ d ∈ rest.take count, IsBare d := by
    intro own symbol hown h
    unfold doubledSymbol at h
    split at h <;> cases h
    exact htaken hown ‹_›
  unfold symbolLexeme at h
  split at h
  · exact heither ⟨by decide, by decide⟩ h
  · exact heither ⟨by decide, by decide⟩ h
  · exact heither ⟨by decide, by decide⟩ h
  · exact heither ⟨by decide, by decide⟩ h
  · exact hdoubled ⟨by decide, by decide⟩ h
  · exact hdoubled ⟨by decide, by decide⟩ h
  all_goals cases h
  all_goals exact fun _ hd => nomatch hd

theorem isBare_of_lexeme {token : Token} (hc : c ≠ '\x22')
    (h : lexeme c rest = .ok (token, count)) : ∀ d ∈ rest.take count, IsBare d := by
  unfold lexeme at h
  rw [if_neg hc] at h
  split at h
  · dsimp only at h
    split at h <;> cases h
    exact isBare_take_takeWhile (fun _ => isBare_of_isNumberChar) rest
  · split at h
    · cases h
      exact isBare_take_takeWhile (fun _ => isBare_of_isNameChar) rest
    · exact isBare_of_symbolLexeme h

-- A token that starts outside ends outside.
theorem Outside.of_lexeme {token : Token} (h : Outside (c :: rest))
    (hlexeme : lexeme c rest = .ok (token, count)) : Outside (rest.drop count) := by
  cases h with
  | char hquote _ h =>
      refine Outside.of_append (isBare_of_lexeme hquote hlexeme) ?_
      rwa [List.take_append_drop]
  | @literal body value rest hbody h =>
      rw [lexeme, if_pos rfl, textBody?_of_spells hbody] at hlexeme
      cases hlexeme
      have hlength : body.length + 1 = (body ++ ['\x22']).length := by simp
      have hsplit : body ++ '\x22' :: rest = body ++ ['\x22'] ++ rest := by simp
      rwa [hlength, hsplit, List.drop_left]

-- A literal is read where it opens, behind the tokens that stand before it.
theorem tokens_quote (h : Outside front) (line offset : Nat) (back : List Char) :
    tokens line offset (front ++ '\x22' :: back) = (do
      let before ← tokens line offset front
      let more ← tokens line (offset + byteCount front) ('\x22' :: back)
      .ok (before ++ more)) := by
  fun_induction tokens line offset front with
  | case1 offset =>
      rw [List.nil_append, byteCount_nil, Nat.add_zero]
      simp only [bind, Except.bind, List.nil_append]
      cases tokens line offset ('\x22' :: back) <;> rfl
  | case2 offset c rest hblank ih =>
      have hbare : IsBare c := by constructor <;> rintro rfl <;> exact absurd hblank (by decide)
      rw [List.cons_append, tokens, if_pos hblank, ih (h.tail hbare), byteCount_cons, Nat.add_assoc]
  | case3 offset rest hblank =>
      cases h with
      | char _ hmark _ => exact (hmark rfl).elim
  | case4 offset c rest hblank hmark misread hlexeme =>
      have hquote : c ≠ '\x22' := by
        rintro rfl
        cases h with
        | char hquote _ _ => exact hquote rfl
        | literal hbody _ =>
            rw [lexeme, if_pos rfl, textBody?_of_spells hbody] at hlexeme
            cases hlexeme
      rw [List.cons_append, tokens, if_neg hblank, if_neg hmark, lexeme_quote hquote, hlexeme]
      rfl
  | case5 offset c rest hblank hmark token count hlexeme stop =>
      rename_i ih
      have hcount := count_le_of_lexeme hlexeme
      have hlong : lexeme c (rest ++ '\x22' :: back) = .ok (token, count) := by
        by_cases hquote : c = '\x22'
        · subst hquote
          cases h with
          | char hquote _ _ => exact (hquote rfl).elim
          | @literal body value rest hbody h =>
              rw [lexeme, if_pos rfl, textBody?_of_spells hbody] at hlexeme
              rw [lexeme, if_pos rfl, List.append_assoc, List.cons_append,
                textBody?_of_spells hbody]
              exact hlexeme
        · rw [lexeme_quote hquote, hlexeme]
      have hstop : stop + byteCount (rest.drop count) = offset + byteCount (c :: rest) := by
        rw [Nat.add_assoc, ← byteCount_append, List.cons_append, List.take_append_drop]
      rw [List.cons_append, tokens, if_neg hblank, if_neg hmark, hlong]
      dsimp only
      rw [List.take_append_of_le_length hcount, List.drop_append_of_le_length hcount,
        ih (h.of_lexeme hlexeme), hstop]
      simp only [bind, Except.bind]
      cases tokens line stop (rest.drop count) with
      | error error => rfl
      | ok before =>
          cases tokens line (offset + byteCount (c :: rest)) ('\x22' :: back) <;> rfl

end Outside

section Tokens

variable {value rest back : List Char} (line offset : Nat)

-- Every text has a literal that is one token, whatever follows it.
theorem tokens_literal (value back : List Char) :
    tokens line offset (literal value ++ back) =
      (tokens line (offset + byteCount (literal value)) back).map
        (⟨.text (String.ofList value), ⟨offset, offset + byteCount (literal value)⟩⟩ :: ·) := by
  have hbody := spells_flatMap_spell value
  have hsplit : value.flatMap spell ++ ['\x22'] ++ back =
      value.flatMap spell ++ '\x22' :: back := by simp
  have hlength : (value.flatMap spell).length + 1 = (value.flatMap spell ++ ['\x22']).length := by
    simp
  have hblank : ¬isBlank '\x22' = true := by decide
  rw [literal, List.cons_append, tokens, if_neg hblank, if_neg (by decide), lexeme, if_pos rfl]
  rw [hsplit, textBody?_of_spells hbody, ← hsplit, hlength]
  dsimp only
  rw [List.take_left, List.drop_left]

theorem tokens_unclosed (h : Unclosed rest) :
    tokens line offset ('\x22' :: rest) =
      .error ⟨.unterminatedText, ⟨offset, offset + byteCount ('\x22' :: rest)⟩, line⟩ := by
  have hblank : ¬isBlank '\x22' = true := by decide
  rw [tokens, if_neg hblank, if_neg (by decide), lexeme, if_pos rfl, textBody?_eq_none_iff.mpr h]

end Tokens

end LiveDoc.Calc
