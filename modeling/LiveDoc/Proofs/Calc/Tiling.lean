import LiveDoc.Proofs.Calc.Blame
import LiveDoc.Proofs.Calc.Failures
import LiveDoc.Proofs.Calc.Literals
import LiveDoc.Proofs.Calc.Places
import Mathlib

namespace LiveDoc.Calc

open Text

section Alone

variable {c : Char} {rest : List Char} {token : Token} {count : Nat}

theorem symbolLexeme_take (h : symbolLexeme c rest = .ok (token, count)) :
    symbolLexeme c (rest.take count) = .ok (token, count) := by
  have hhead : ∀ own : List Char, (own.take 1).head? = own.head? := fun own => by cases own <;> rfl
  have heither : ∀ {second long short}, eitherSymbol second long short rest = .ok (token, count) →
      eitherSymbol second long short (rest.take count) = .ok (token, count) := by
    intro second long short h
    unfold eitherSymbol at h ⊢
    split at h <;> cases h
    · rw [hhead, if_pos ‹_›]
    · rfl
  have hdoubled : ∀ {own symbol}, doubledSymbol own symbol rest = .ok (token, count) →
      doubledSymbol own symbol (rest.take count) = .ok (token, count) := by
    intro own symbol h
    unfold doubledSymbol at h ⊢
    split at h <;> cases h
    rw [hhead, if_pos ‹_›]
  unfold symbolLexeme at h ⊢
  split at h
  · exact heither h
  · exact heither h
  · exact heither h
  · exact heither h
  · exact hdoubled h
  · exact hdoubled h
  all_goals exact h

theorem takeWhile_take (p : Char → Bool) (rest : List Char) :
    (rest.take (rest.takeWhile p).length).takeWhile p = rest.takeWhile p := by
  rw [← List.prefix_iff_eq_take.mp (List.takeWhile_prefix p), List.takeWhile_takeWhile]
  simp

-- What stands behind a token says nothing about it.
theorem lexeme_take (h : lexeme c rest = .ok (token, count)) :
    lexeme c (rest.take count) = .ok (token, count) := by
  unfold lexeme at h ⊢
  split at h
  · rename_i hquote
    rw [if_pos hquote]
    split at h
    · rename_i value width hbody
      cases h
      obtain ⟨body, back, rfl, hspells, rfl⟩ := spells_of_textBody? hbody
      have hsplit : body ++ '\x22' :: back = body ++ ['\x22'] ++ back := by simp
      have hlength : body.length + 1 = (body ++ ['\x22']).length := by simp
      rw [hlength, hsplit, List.take_left, textBody?_of_spells hspells, List.length_append]
      rfl
    · cases h
  · rename_i hquote
    rw [if_neg hquote]
    split at h
    · rename_i hdigit
      rw [if_pos hdigit]
      dsimp only at h ⊢
      split at h
      · rename_i value hvalue
        cases h
        rw [takeWhile_take, hvalue]
      · cases h
    · rename_i hdigit
      rw [if_neg hdigit]
      split at h
      · rename_i hname
        rw [if_pos hname]
        cases h
        dsimp only
        rw [takeWhile_take]
      · rename_i hname
        rw [if_neg hname]
        exact symbolLexeme_take h

-- The text of a token is a text of one token.
theorem tokens_alone (hblank : isBlank c = false) (hmark : c ≠ '#')
    (h : lexeme c rest = .ok (token, count)) (line offset : Nat) :
    tokens line offset (c :: rest.take count) =
      .ok [⟨token, ⟨offset, offset + byteCount (c :: rest.take count)⟩⟩] := by
  have htake : (rest.take count).take count = rest.take count := by simp
  have hdrop : (rest.take count).drop count = [] := by simp
  rw [tokens, if_neg (by simpa using hblank), if_neg hmark, lexeme_take h]
  dsimp only
  rw [htake, hdrop, tokens]
  rfl

-- A `#` is part of a literal, or of no token.
theorem exists_text_of_mark (hmark : c ≠ '#') (h : lexeme c rest = .ok (token, count))
    (hmem : '#' ∈ c :: rest.take count) : ∃ value, token = .text value := by
  by_cases hquote : c = '\x22'
  · rw [lexeme, if_pos hquote] at h
    split at h
    · cases h
      exact ⟨_, rfl⟩
    · cases h
  · rcases List.mem_cons.mp hmem with hc | hrest
    · exact (hmark hc.symm).elim
    · exact ((isBare_of_lexeme hquote h _ hrest).2 rfl).elim

end Alone

-- A token stands over a position of its text.
def Located.Covers (t : Located) (position : Nat) : Prop :=
  t.range.start ≤ position ∧ position < t.range.stop

-- Outside of tokens there are blanks alone, and a `#` that is in a token is in a literal.
def Covered (offset : Nat) (code : List Char) (located : List Located) : Prop :=
  ∀ front c back, code = front ++ c :: back →
    isBlank c = true ∨ ∃ t ∈ located, t.Covers (offset + byteCount front) ∧
      (c = '#' → ∃ value, t.token = .text value)

-- The tokens of a text whose first byte is at `offset`: they lie one behind the other, each would be
-- read alone, and what they leave is blank as far as the first `#` that is in no literal, or the end.
structure Tiles (offset : Nat) (text : List Char) (located : List Located) : Prop where
  filled : ∀ t ∈ located, t.range.start < t.range.stop
  apart : located.Pairwise fun t later => t.range.stop ≤ later.range.start
  alone : ∀ t ∈ located, ∃ own, t.range.Holds offset text own ∧
    ∀ line start, tokens line start own = .ok [⟨t.token, ⟨start, start + byteCount own⟩⟩]
  gaps : ∃ code comment, text = code ++ comment ∧ (∀ c ∈ comment.head?, c = '#') ∧
    (∀ t ∈ located, t.range.stop ≤ offset + byteCount code) ∧ Covered offset code located

section Tiles

variable {offset line : Nat} {text own code : List Char} {located more : List Located}

theorem Covered.mono (h : Covered offset code located) (hsub : located ⊆ more) :
    Covered offset code more := by
  intro front c back hcode
  rcases h front c back hcode with hblank | ⟨t, ht, hrest⟩
  · exact .inl hblank
  · exact .inr ⟨t, hsub ht, hrest⟩

theorem Covered.append (hown : Covered offset own located)
    (hcode : Covered (offset + byteCount own) code located) :
    Covered offset (own ++ code) located := by
  intro front c back h
  rcases List.append_eq_append_iff.mp h with ⟨rest, rfl, hrest⟩ | ⟨rest, rfl, hrest⟩
  · have hlater := hcode rest c back hrest
    rwa [Nat.add_assoc, ← byteCount_append] at hlater
  · cases rest with
    | nil =>
        have hlater := hcode [] c back hrest.symm
        simpa using hlater
    | cons d rest =>
        obtain ⟨rfl, -⟩ := List.cons.inj hrest
        exact hown front c rest rfl

theorem tiles_nil (offset : Nat) (hmark : ∀ c ∈ text.head?, c = '#') : Tiles offset text [] where
  filled _ ht := nomatch ht
  apart := .nil
  alone _ ht := nomatch ht
  gaps := ⟨[], text, rfl, hmark, fun _ ht => (nomatch ht), fun front c back h => by simp at h⟩

theorem Tiles.blank {c : Char} (h : Tiles (offset + c.utf8Size) text located)
    (hblank : isBlank c = true) : Tiles offset (c :: text) located where
  filled := h.filled
  apart := h.apart
  alone t ht := by
    obtain ⟨own, hholds, halone⟩ := h.alone t ht
    exact ⟨own, hholds.behind [c], halone⟩
  gaps := by
    obtain ⟨code, comment, rfl, hmark, hstop, hcovered⟩ := h.gaps
    refine ⟨c :: code, comment, rfl, hmark, fun t ht => ?_, ?_⟩
    · have := hstop t ht
      rw [byteCount_cons]
      omega
    · have hown : Covered offset [c] located := by
        intro front d back hd
        have hmem : d ∈ [c] := by rw [hd]; simp
        rw [List.mem_singleton.mp hmem]
        exact .inl hblank
      exact hown.append hcovered

theorem Tiles.token {token : Token} (h : Tiles (offset + byteCount own) text more) (hne : own ≠ [])
    (halone : ∀ line start, tokens line start own =
      .ok [⟨token, ⟨start, start + byteCount own⟩⟩])
    (hmark : '#' ∈ own → ∃ value, token = .text value) :
    Tiles offset (own ++ text) (⟨token, ⟨offset, offset + byteCount own⟩⟩ :: more) where
  filled := by
    refine List.forall_mem_cons.mpr ⟨?_, h.filled⟩
    have := byteCount_pos hne
    dsimp only
    omega
  apart := by
    refine List.pairwise_cons.mpr ⟨fun t ht => ?_, h.apart⟩
    obtain ⟨_, ⟨before, _, _, hrange⟩, _⟩ := h.alone t ht
    rw [hrange]
    exact Nat.le_add_right _ _
  alone := by
    refine List.forall_mem_cons.mpr ⟨⟨own, (holds_whole offset own).within text, halone⟩,
      fun t ht => ?_⟩
    obtain ⟨inside, hholds, hinside⟩ := h.alone t ht
    exact ⟨inside, hholds.behind own, hinside⟩
  gaps := by
    obtain ⟨code, comment, rfl, hcomment, hstop, hcovered⟩ := h.gaps
    refine ⟨own ++ code, comment, (List.append_assoc ..).symm, hcomment,
      List.forall_mem_cons.mpr ⟨?_, fun t ht => ?_⟩, ?_⟩
    · rw [byteCount_append]
      dsimp only
      omega
    · have := hstop t ht
      rw [byteCount_append]
      omega
    · refine Covered.append (fun front c back hown => .inr ⟨_, List.mem_cons_self .., ⟨?_, ?_⟩, ?_⟩)
        (hcovered.mono (List.subset_cons_self ..))
      · exact Nat.le_add_right _ _
      · have := c.utf8Size_pos
        rw [hown, byteCount_append, byteCount_cons]
        dsimp only
        omega
      · rintro rfl
        exact hmark (by rw [hown]; simp)

theorem tiles_of_tokens (h : tokens line offset text = .ok located) : Tiles offset text located := by
  fun_induction tokens line offset text generalizing located with
  | case1 offset =>
      cases h
      exact tiles_nil offset fun _ hc => by cases hc
  | case2 offset c rest hblank ih => exact (ih h).blank hblank
  | case3 offset rest hblank =>
      cases h
      exact tiles_nil offset fun c hc => (Option.some.inj hc).symm
  | case4 offset c rest hblank hmark misread herror => cases h
  | case5 offset c rest hblank hmark token count hlexeme stop =>
      rename_i ih
      cases hmore : tokens line stop (rest.drop count) with
      | error error =>
          rw [hmore] at h
          cases h
      | ok more =>
          rw [hmore] at h
          cases h
          have hsplit : c :: rest = (c :: rest.take count) ++ rest.drop count := by
            rw [List.cons_append, List.take_append_drop]
          rw [hsplit]
          exact (ih hmore).token (List.cons_ne_nil _ _)
            (tokens_alone (by simpa using hblank) hmark hlexeme)
            (exists_text_of_mark hmark hlexeme)

end Tiles

-- The place of errors at the end of a text: the text as a whole.
def placeOver (line offset : Nat) (text : List Char) : Place :=
  ⟨⟨offset, offset + byteCount text⟩, line⟩

section Errors

variable {line offset : Nat} {text : List Char} {error : SyntaxError}

theorem blames_of_parseExpr_eq_error {located : List Located}
    (hlocated : tokens 1 offset text = .ok located) (h : parseExpr text offset = .error error) :
    ∃ taken rest, located = taken ++ rest ∧
      Blames (placeOver 1 offset text) (whole (placeOver 1 offset text) .afterExpression)
        taken rest error := by
  unfold parseExpr at h
  rw [hlocated] at h
  exact exists_blames h

-- What a statement starts with when it binds a name.
def IsTarget (front : List Located) : Prop :=
  ∃ name range range', front = [⟨.name name, range⟩, ⟨.symbol .assign, range'⟩]

theorem blames_of_parseStatement_eq_error {located : List Located}
    (hlocated : tokens line offset text = .ok located)
    (h : parseStatement line offset text = .error error) :
    ∃ trailing target taken rest, (target = [] ∨ IsTarget target) ∧
      located = target ++ (taken ++ rest) ∧
      Blames (placeOver line offset text) (whole (placeOver line offset text) trailing)
        taken rest error := by
  have hwhole : ∀ {trailing : Fault} {input : List Located} {f : Expr → Option Statement},
      (whole (placeOver line offset text) trailing input).map f = .error error →
        whole (placeOver line offset text) trailing input = .error error := by
    intro trailing input f hmap
    cases hread : whole (placeOver line offset text) trailing input with
    | ok tree =>
        rw [hread] at hmap
        cases hmap
    | error other =>
        rw [hread] at hmap
        cases hmap
        rfl
  unfold parseStatement at h
  rw [hlocated] at h
  simp only [bind, Except.bind] at h
  split at h
  · cases h
  · rename_i name range range' rest
    obtain ⟨taken, back, rfl, hblames⟩ := exists_blames (hwhole h)
    exact ⟨_, [⟨.name name, range⟩, ⟨.symbol .assign, range'⟩], taken, back,
      .inr ⟨name, range, range', rfl⟩, rfl, hblames⟩
  · obtain ⟨taken, back, rfl, hblames⟩ := exists_blames (hwhole h)
    exact ⟨_, [], taken, back, .inl rfl, rfl, hblames⟩

-- A call that a guard holds is found at the name of its function.
theorem mem_of_parseGuard_eq_error (h : parseGuard text offset = .error error) :
    parseExpr text offset = .error error ∨ ∃ located t, tokens 1 offset text = .ok located ∧
      t ∈ located ∧ error.range = t.range := by
  unfold parseGuard at h
  cases he : parseExpr text offset with
  | error first =>
      rw [he] at h
      cases h
      exact .inl rfl
  | ok e =>
      rw [he] at h
      dsimp only [bind, Except.bind] at h
      split at h
      · cases h
      · rename_i function range hcall
        cases h
        obtain ⟨located, ds, hlocated, hderives, -⟩ := derives_of_parseExpr he
        exact .inr ⟨located, _, hlocated, hderives.name_mem (mem_names_of_firstCall? hcall), rfl⟩

end Errors

-- The tokens of a text tile it, and an error of the lexer is at whole characters of it. An error of a
-- parser is at the first token that is to blame, or at the whole text where the tokens end too early.
theorem tokens_tile_their_text (line offset : Nat) (text : List Char) :
    (∀ error, tokens line offset text = .error error →
      error.line = line ∧ ∃ inside, error.range.Holds offset text inside) ∧
    (∀ located, tokens line offset text = .ok located → Tiles offset text located ∧
      ∀ error, parseStatement line offset text = .error error →
        ∃ trailing target taken rest, (target = [] ∨ IsTarget target) ∧
          located = target ++ (taken ++ rest) ∧
          Blames (placeOver line offset text) (whole (placeOver line offset text) trailing)
            taken rest error) ∧
    (∀ located, tokens 1 offset text = .ok located →
      ∀ error, parseExpr text offset = .error error → ∃ taken rest, located = taken ++ rest ∧
        Blames (placeOver 1 offset text) (whole (placeOver 1 offset text) .afterExpression)
          taken rest error) ∧
    ∀ error, parseGuard text offset = .error error → parseExpr text offset = .error error ∨
      ∃ located t, tokens 1 offset text = .ok located ∧ t ∈ located ∧ error.range = t.range := by
  refine ⟨fun error h => ⟨line_of_tokens_eq_error h, holds_of_tokens_eq_error h⟩,
    fun located hlocated => ⟨tiles_of_tokens hlocated, fun error h => ?_⟩,
    fun located hlocated error h => blames_of_parseExpr_eq_error hlocated h,
    fun error h => mem_of_parseGuard_eq_error h⟩
  exact blames_of_parseStatement_eq_error hlocated h

-- The `#` of the literal starts no comment, and the bracket behind the `<` is where the text stops to be
-- an expression.
theorem a_bracket_behind_a_literal_is_to_blame :
    ∃ located error, tokens 1 7 "\"é#\" < ) # b".toList = .ok located ∧
      parseExpr "\"é#\" < ) # b".toList 7 = .error error ∧
      Tiles 7 "\"é#\" < ) # b".toList located ∧
      located.map (·.range) = [⟨7, 12⟩, ⟨13, 14⟩, ⟨15, 16⟩] ∧ error.range = ⟨15, 16⟩ ∧
      ∃ taken rest, located = taken ++ rest ∧
        Blames (placeOver 1 7 "\"é#\" < ) # b".toList)
          (whole (placeOver 1 7 "\"é#\" < ) # b".toList) .afterExpression) taken rest error := by
  have htokens : tokens 1 7 "\"é#\" < ) # b".toList = .ok [⟨.text "é#", ⟨7, 12⟩⟩,
      ⟨.symbol .less, ⟨13, 14⟩⟩, ⟨.symbol .close, ⟨15, 16⟩⟩] := by cbv
  have hexpr : parseExpr "\"é#\" < ) # b".toList 7 =
      .error ⟨.unexpectedSymbol .close, ⟨15, 16⟩, 1⟩ := by cbv
  obtain ⟨-, htiles, hblames, -⟩ := tokens_tile_their_text 1 7 "\"é#\" < ) # b".toList
  exact ⟨_, _, htokens, hexpr, (htiles _ htokens).1, rfl, rfl, hblames _ htokens _ hexpr⟩

end LiveDoc.Calc
