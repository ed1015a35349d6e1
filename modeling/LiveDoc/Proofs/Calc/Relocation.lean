import LiveDoc.Proofs.Calc.Depth
import LiveDoc.Proofs.Document.Marks

namespace LiveDoc.Calc

open Text

-- What no token goes on into.
def Breaks (tail : List Char) : Prop :=
  ∀ d ∈ tail.head?, isNumberChar d = false ∧ isNameChar d = false ∧ d ≠ '=' ∧ d ≠ '&' ∧ d ≠ '|'

section Breaks

variable {tail : List Char}

theorem takeWhile_append_of_head? {p : Char → Bool} (htail : ∀ d ∈ tail.head?, p d = false)
    (front : List Char) : (front ++ tail).takeWhile p = front.takeWhile p := by
  have hnone : tail.takeWhile p = [] := by
    cases tail with
    | nil => rfl
    | cons c more => exact List.takeWhile_cons_of_neg (by simp [htail c rfl])
  rw [List.takeWhile_append, hnone, List.append_nil]
  split
  · rename_i hlength
    exact ((List.takeWhile_prefix p).eq_of_length hlength).symm
  · rfl

theorem head?_append_of_ne {c : Char} (htail : ∀ d ∈ tail.head?, d ≠ c) (front : List Char) :
    (front ++ tail).head? = some c ↔ front.head? = some c := by
  cases front with
  | cons _ _ => rfl
  | nil => exact iff_of_false (fun h => htail c h rfl) nofun

theorem symbolLexeme_append (htail : Breaks tail) (c : Char) (rest : List Char) :
    symbolLexeme c (rest ++ tail) = symbolLexeme c rest := by
  have heither : ∀ long short, eitherSymbol '=' long short (rest ++ tail) =
      eitherSymbol '=' long short rest := by
    intro long short
    simp only [eitherSymbol, head?_append_of_ne fun d hd => (htail d hd).2.2.1]
  have hand : doubledSymbol '&' .and (rest ++ tail) = doubledSymbol '&' .and rest := by
    simp only [doubledSymbol, head?_append_of_ne fun d hd => (htail d hd).2.2.2.1]
  have hor : doubledSymbol '|' .or (rest ++ tail) = doubledSymbol '|' .or rest := by
    simp only [doubledSymbol, head?_append_of_ne fun d hd => (htail d hd).2.2.2.2]
  unfold symbolLexeme
  split
  · exact heither _ _
  · exact heither _ _
  · exact heither _ _
  · exact heither _ _
  · exact hand
  · exact hor
  all_goals rfl

theorem lexeme_append_of_breaks (htail : Breaks tail) {c : Char} (hc : c ≠ '\x22')
    (rest : List Char) : lexeme c (rest ++ tail) = lexeme c rest := by
  simp only [lexeme, if_neg hc, takeWhile_append_of_head? fun d hd => (htail d hd).1,
    takeWhile_append_of_head? fun d hd => (htail d hd).2.1, symbolLexeme_append htail]

end Breaks

-- A text and the same text with line ends behind it have the same tokens.
section LineEnds

variable {tail : List Char}

theorem eq_of_isLineEnd {c : Char} (h : isLineEnd c = true) : c = '\n' ∨ c = '\r' := by
  simpa [isLineEnd] using h

theorem isBlank_of_isLineEnd {c : Char} (h : isLineEnd c = true) : isBlank c = true := by
  rcases eq_of_isLineEnd h with rfl | rfl <;> decide

theorem breaks_lineEnds (htail : ∀ c ∈ tail, isLineEnd c = true) : Breaks tail := by
  intro d hd
  rcases eq_of_isLineEnd (htail d (List.mem_of_mem_head? hd)) with rfl | rfl <;> decide +kernel

theorem textBody?_lineEnds (htail : ∀ c ∈ tail, isLineEnd c = true) : textBody? tail = none := by
  fun_induction textBody? tail with
  | case1 => rfl
  | case2 rest => exact absurd (htail _ (List.mem_cons_self ..)) (by decide)
  | case3 c rest ih => exact absurd (htail _ (List.mem_cons_self ..)) (by decide)
  | case4 c rest hquote hescape ih =>
      rw [ih fun d hd => htail d (List.mem_cons_of_mem _ hd), Option.map_none]

-- A text literal is closed before the line ends.
theorem textBody?_append (htail : ∀ c ∈ tail, isLineEnd c = true) {front value : List Char}
    {count : Nat} (h : textBody? (front ++ tail) = some (value, count)) :
    textBody? front = some (value, count) ∧ count ≤ front.length := by
  fun_induction textBody? front generalizing value count with
  | case1 =>
      rw [List.nil_append, textBody?_lineEnds htail] at h
      cases h
  | case2 rest =>
      rw [List.cons_append, textBody?] at h
      cases h
      exact ⟨rfl, by simp⟩
  | case3 c rest ih =>
      rw [List.cons_append, List.cons_append, textBody?] at h
      obtain ⟨⟨inner, width⟩, hinner, hwhole⟩ := Option.map_eq_some_iff.mp h
      obtain ⟨hfront, hwidth⟩ := ih hinner
      cases hwhole
      exact ⟨by rw [hfront]; rfl, by simpa using hwidth⟩
  | case4 c rest hquote hescape ih =>
      by_cases hslash : c = '\\' ∧ rest = []
      · obtain ⟨rfl, rfl⟩ := hslash
        cases tail with
        | nil => cases h
        | cons d more =>
            rw [List.cons_append, List.nil_append, textBody?,
              textBody?_lineEnds fun c hc => htail c (List.mem_cons_of_mem _ hc)] at h
            cases h
      · rw [List.cons_append, textBody?.eq_4 _ _ hquote (fun d more hc hrest => ?_)] at h
        · obtain ⟨⟨inner, width⟩, hinner, hwhole⟩ := Option.map_eq_some_iff.mp h
          obtain ⟨hfront, hwidth⟩ := ih hinner
          cases hwhole
          exact ⟨by rw [hfront]; rfl, by simpa using hwidth⟩
        · cases rest with
          | nil => exact hslash ⟨hc, rfl⟩
          | cons own rest => exact hescape own rest hc rfl

theorem count_le_of_symbolLexeme {c : Char} {rest : List Char} {token : Token} {count : Nat}
    (h : symbolLexeme c rest = .ok (token, count)) : count ≤ rest.length := by
  have hhead : ∀ {second : Char}, rest.head? = some second → 1 ≤ rest.length := by
    intro second hsecond
    exact List.length_pos_of_mem (List.mem_of_mem_head? hsecond)
  have heither : ∀ {second long short}, eitherSymbol second long short rest = .ok (token, count) →
      count ≤ rest.length := by
    intro second long short h
    unfold eitherSymbol at h
    split at h
    · cases h
      exact hhead ‹_›
    · cases h
      exact Nat.zero_le _
  have hdoubled : ∀ {d symbol}, doubledSymbol d symbol rest = .ok (token, count) →
      count ≤ rest.length := by
    intro d symbol h
    unfold doubledSymbol at h
    split at h
    · cases h
      exact hhead ‹_›
    · cases h
  unfold symbolLexeme at h
  split at h
  · exact heither h
  · exact heither h
  · exact heither h
  · exact heither h
  · exact hdoubled h
  · exact hdoubled h
  all_goals cases h
  all_goals exact Nat.zero_le _

theorem count_le_of_lexeme {c : Char} {rest : List Char} {token : Token} {count : Nat}
    (h : lexeme c rest = .ok (token, count)) : count ≤ rest.length := by
  have htake : ∀ p : Char → Bool, (rest.takeWhile p).length ≤ rest.length :=
    fun p => (List.takeWhile_prefix p).length_le
  unfold lexeme at h
  split at h
  · split at h
    · rename_i value width hbody
      cases h
      exact (textBody?_append (List.forall_mem_nil _) (by rwa [List.append_nil])).2
    · cases h
  · split at h
    · dsimp only at h
      split at h <;> cases h
      exact htake _
    · split at h
      · cases h
        exact htake _
      · exact count_le_of_symbolLexeme h

theorem lexeme_append (htail : ∀ c ∈ tail, isLineEnd c = true) {c : Char} {rest : List Char}
    {token : Token} {count : Nat} (h : lexeme c (rest ++ tail) = .ok (token, count)) :
    lexeme c rest = .ok (token, count) ∧ count ≤ rest.length := by
  have hfront : lexeme c rest = .ok (token, count) := by
    by_cases hquote : c = '\x22'
    · unfold lexeme at h ⊢
      rw [if_pos hquote] at h ⊢
      split at h
      · rename_i value width hbody
        cases h
        rw [(textBody?_append htail hbody).1]
      · cases h
    · rwa [lexeme_append_of_breaks (breaks_lineEnds htail) hquote] at h
  exact ⟨hfront, count_le_of_lexeme hfront⟩

theorem tokens_lineEnds (line offset : Nat) (htail : ∀ c ∈ tail, isLineEnd c = true) :
    tokens line offset tail = .ok [] := by
  induction tail generalizing offset with
  | nil => rw [tokens]
  | cons c more ih =>
      rw [tokens, if_pos (isBlank_of_isLineEnd (htail c (List.mem_cons_self ..)))]
      exact ih _ fun d hd => htail d (List.mem_cons_of_mem _ hd)

-- The tokens of a text, wherever it stands, and whether or not line ends follow it.
theorem tokens_relocate {line offset : Nat} {text : List Char} {located : List Located}
    (htail : ∀ c ∈ tail, isLineEnd c = true)
    (h : tokens line offset (text ++ tail) = .ok located) (line' offset' : Nat) :
    ∃ located', tokens line' offset' text = .ok located' ∧
      located'.map (·.token) = located.map (·.token) := by
  fun_induction tokens line' offset' text generalizing offset located with
  | case1 =>
      rw [List.nil_append, tokens_lineEnds line offset htail] at h
      cases h
      exact ⟨[], rfl, rfl⟩
  | case2 offset' c rest hblank ih =>
      rw [List.cons_append, tokens, if_pos hblank] at h
      exact ih h
  | case3 offset' rest hblank =>
      rw [List.cons_append, tokens, if_neg hblank, if_pos rfl] at h
      cases h
      exact ⟨[], rfl, rfl⟩
  | case4 offset' c rest hblank hmark misread hlexeme =>
      rw [List.cons_append, tokens, if_neg hblank, if_neg hmark] at h
      split at h
      · cases h
      · rename_i token count hfirst
        rw [(lexeme_append htail hfirst).1] at hlexeme
        cases hlexeme
  | case5 offset' c rest hblank hmark token count hlexeme stop =>
      rename_i ih
      rw [List.cons_append, tokens, if_neg hblank, if_neg hmark] at h
      split at h
      · cases h
      · rename_i token' count' hfirst
        obtain ⟨hfront, hcount⟩ := lexeme_append htail hfirst
        rw [hfront] at hlexeme
        cases hlexeme
        rw [List.drop_append_of_le_length hcount] at h
        dsimp only at h
        generalize hmore : tokens line _ (rest.drop count ++ tail) = result at h
        cases result with
        | error error => cases h
        | ok more =>
            cases h
            obtain ⟨located', htokens, hequal⟩ := ih hmore
            refine ⟨⟨token, ⟨offset', stop⟩⟩ :: located', ?_, ?_⟩
            · rw [htokens]
              rfl
            · rw [List.map_cons, List.map_cons, hequal]

end LineEnds

mutual

-- An expression without the places of its names.
def Expr.bare : Expr → Expr
  | .var name _ => .var name ⟨0, 0⟩
  | .call function _ arguments => .call function ⟨0, 0⟩ (Expr.bareList arguments)
  | .unary op operand => .unary op operand.bare
  | .binary op left right => .binary op left.bare right.bare
  | e => e

def Expr.bareList : List Expr → List Expr
  | [] => []
  | e :: rest => e.bare :: Expr.bareList rest

end

section Derives

-- Tokens that differ in their places alone.
def Alike (ts us : List Located) : Prop := us.map (·.token) = ts.map (·.token)

variable {ts us : List Located} {t : Located}

theorem Alike.of_append {front back : List Located} (h : Alike (front ++ back) us) :
    ∃ front' back', us = front' ++ back' ∧ Alike front front' ∧ Alike back back' := by
  rw [Alike, List.map_append] at h
  obtain ⟨front', back', rfl, hfront, hback⟩ := List.map_eq_append_iff.mp h
  exact ⟨front', back', rfl, hfront, hback⟩

theorem Alike.of_cons (h : Alike (t :: ts) us) :
    ∃ range us', us = ⟨t.token, range⟩ :: us' ∧ Alike ts us' := by
  rw [Alike, List.map_cons] at h
  obtain ⟨u, us', rfl, htoken, hrest⟩ := List.map_eq_cons_iff.mp h
  exact ⟨u.range, us', by rw [← htoken], hrest⟩

theorem Alike.of_nil (h : Alike [] us) : us = [] := by
  rw [Alike, List.map_nil, List.map_eq_nil_iff] at h
  exact h

mutual

-- What the tokens are a tree of does not depend on where they stand.
theorem Derives.relocate {level : Nat} {ts us : List Located} {ds : List Nat} {e : Expr}
    (h : Derives level ts ds e) (hus : Alike ts us) :
    ∃ e', Derives level us ds e' ∧ e'.bare = e.bare := by
  match h with
  | .tighter hlevel h =>
      obtain ⟨e', h', hbare⟩ := h.relocate hus
      exact ⟨e', .tighter hlevel h', hbare⟩
  | .binary r hop hleft hright =>
      obtain ⟨before, rest, rfl, hbefore, hrest⟩ := hus.of_append
      obtain ⟨range, after, rfl, hafter⟩ := hrest.of_cons
      obtain ⟨left', hleft', hbareLeft⟩ := hleft.relocate hbefore
      obtain ⟨right', hright', hbareRight⟩ := hright.relocate hafter
      exact ⟨_, .binary range hop hleft' hright',
        by rw [Expr.bare, Expr.bare, hbareLeft, hbareRight]⟩
  | .sign r hop h =>
      obtain ⟨range, rest, rfl, hrest⟩ := hus.of_cons
      obtain ⟨e', h', hbare⟩ := h.relocate hrest
      exact ⟨_, .sign range hop h', by rw [Expr.bare, Expr.bare, hbare]⟩
  | .number value r =>
      obtain ⟨range, rest, rfl, hrest⟩ := hus.of_cons
      cases hrest.of_nil
      exact ⟨_, .number value range, rfl⟩
  | .text value r =>
      obtain ⟨range, rest, rfl, hrest⟩ := hus.of_cons
      cases hrest.of_nil
      exact ⟨_, .text value range, rfl⟩
  | .bool value r =>
      obtain ⟨range, rest, rfl, hrest⟩ := hus.of_cons
      cases hrest.of_nil
      exact ⟨_, .bool value range, rfl⟩
  | .unit r r' =>
      obtain ⟨range, rest, rfl, hrest⟩ := hus.of_cons
      obtain ⟨range', rest', rfl, hrest'⟩ := hrest.of_cons
      cases hrest'.of_nil
      exact ⟨_, .unit range range', rfl⟩
  | .var name r =>
      obtain ⟨range, rest, rfl, hrest⟩ := hus.of_cons
      cases hrest.of_nil
      exact ⟨_, .var name range, rfl⟩
  | .group r r' h =>
      obtain ⟨range, rest, rfl, hrest⟩ := hus.of_cons
      obtain ⟨inner, last, rfl, hinner, hlast⟩ := hrest.of_append
      obtain ⟨range', more, rfl, hmore⟩ := hlast.of_cons
      cases hmore.of_nil
      obtain ⟨e', h', hbare⟩ := h.relocate hinner
      exact ⟨_, .group range range' h', hbare⟩
  | .call0 name r r' r'' =>
      obtain ⟨range, rest, rfl, hrest⟩ := hus.of_cons
      obtain ⟨range', rest', rfl, hrest'⟩ := hrest.of_cons
      obtain ⟨range'', more, rfl, hmore⟩ := hrest'.of_cons
      cases hmore.of_nil
      exact ⟨_, .call0 name range range' range'', rfl⟩
  | .call name r r' r'' h =>
      obtain ⟨range, rest, rfl, hrest⟩ := hus.of_cons
      obtain ⟨range', rest', rfl, hrest'⟩ := hrest.of_cons
      obtain ⟨inner, last, rfl, hinner, hlast⟩ := hrest'.of_append
      obtain ⟨range'', more, rfl, hmore⟩ := hlast.of_cons
      cases hmore.of_nil
      obtain ⟨es', h', hbare⟩ := h.relocate hinner
      exact ⟨_, .call name range range' range'' h', by rw [Expr.bare, Expr.bare, hbare]⟩

theorem DerivesList.relocate {ts us : List Located} {ds : List Nat} {es : List Expr}
    (h : DerivesList ts ds es) (hus : Alike ts us) :
    ∃ es', DerivesList us ds es' ∧ Expr.bareList es' = Expr.bareList es := by
  match h with
  | .last h =>
      obtain ⟨e', h', hbare⟩ := h.relocate hus
      exact ⟨[e'], .last h', by simp only [Expr.bareList, hbare]⟩
  | .more r h hmore =>
      obtain ⟨before, rest, rfl, hbefore, hrest⟩ := hus.of_append
      obtain ⟨range, after, rfl, hafter⟩ := hrest.of_cons
      obtain ⟨e', h', hbare⟩ := h.relocate hbefore
      obtain ⟨es', hmore', hbareMore⟩ := hmore.relocate hafter
      exact ⟨_, .more range h' hmore', by rw [Expr.bareList, Expr.bareList, hbare, hbareMore]⟩

end

end Derives

section Evaluation

variable {σ : Type} (calls : Calls σ) (session : Session)

mutual

-- Evaluation does not look at places.
theorem evalAt_bare (chained : Bool) (depth : Nat) (e : Expr) :
    evalAt calls session chained depth e.bare = evalAt calls session chained depth e := by
  match e with
  | .number _ | .text _ | .bool _ | .unit => rfl
  | .var _ _ => rw [Expr.bare, evalAt, evalAt]
  | .call _ _ arguments =>
      rw [Expr.bare, evalAt, evalAt]
      simp only [evalList_bare _ arguments]
  | .unary _ operand =>
      rw [Expr.bare, evalAt, evalAt]
      simp only [evalAt_bare _ _ operand]
  | .binary _ left right =>
      rw [Expr.bare, evalAt, evalAt]
      simp only [evalAt_bare _ _ left, evalAt_bare _ _ right]

theorem evalList_bare (depth : Nat) (es : List Expr) :
    evalList calls session depth (Expr.bareList es) = evalList calls session depth es := by
  match es with
  | [] => rw [Expr.bareList]
  | e :: rest =>
      rw [Expr.bareList, evalList, evalList]
      simp only [evalAt_bare _ _ e, evalList_bare _ rest]

end

theorem evaluate_of_bare_eq {e e' : Expr} (h : e'.bare = e.bare) :
    evaluate calls session e' = evaluate calls session e := by
  rw [evaluate, evaluate, ← evalAt_bare _ _ _ _ e', h, evalAt_bare]

end Evaluation

end LiveDoc.Calc
