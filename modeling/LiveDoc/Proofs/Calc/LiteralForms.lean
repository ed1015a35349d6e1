import LiveDoc.Proofs.Calc.Literals
import LiveDoc.Proofs.Calc.ScriptLines

namespace LiveDoc.Calc

open Text

-- Blanks, and perhaps a comment behind them.
inductive Trails : List Char → Prop
  | nil : Trails []
  | comment (note : List Char) : Trails ('#' :: note)
  | blank {c : Char} {rest : List Char} : isBlank c = true → Trails rest → Trails (c :: rest)

def IsName (word : List Char) : Prop :=
  ∃ c rest, word = c :: rest ∧ isNameStart c = true ∧ (∀ d ∈ rest, isNameChar d = true) ∧
    word ≠ "true".toList ∧ word ≠ "false".toList

-- Literals of these texts with a comma between any two, and blanks wherever they may stand.
inductive LiteralList : List Char → List String → Prop
  | last {lead trail : List Char} (s : String) :
      isAllBlank lead = true → isAllBlank trail = true →
      LiteralList (lead ++ (literal s.toList ++ trail)) [s]
  | more {lead trail text : List Char} {values : List String} (s : String) :
      isAllBlank lead = true → isAllBlank trail = true → LiteralList text values →
      LiteralList (lead ++ (literal s.toList ++ (trail ++ ',' :: text))) (s :: values)

-- `LiteralExpr offset text e`: at this offset the text is an expression in which literals stand alone
-- or are the arguments of a call.
inductive LiteralExpr (offset : Nat) : List Char → Expr → Prop
  | alone {lead tail : List Char} (s : String) :
      isAllBlank lead = true → Trails tail →
      LiteralExpr offset (lead ++ (literal s.toList ++ tail)) (.text s)
  | called {lead name text tail : List Char} {values : List String} :
      isAllBlank lead = true → IsName name → LiteralList text values → Trails tail →
      LiteralExpr offset (lead ++ (name ++ '(' :: (text ++ ')' :: tail)))
        (.call (String.ofList name)
          ⟨offset + byteCount lead, offset + byteCount lead + byteCount name⟩ (values.map .text))

inductive LiteralLine (line offset : Nat) : List Char → Statement → Prop
  | run {text : List Char} {e : Expr} :
      LiteralExpr offset text e → LiteralLine line offset text (.run e line)
  | assign {lead name gap text : List Char} {e : Expr} :
      isAllBlank lead = true → IsName name → isAllBlank gap = true →
      LiteralExpr (offset + byteCount lead + byteCount name + byteCount gap + 1) text e →
      LiteralLine line offset (lead ++ (name ++ (gap ++ '=' :: text)))
        (.assign (String.ofList name) e line)

section Characters

variable {c : Char}

-- The code points of the blanks.
def blankCodes : List Nat :=
  [9, 10, 11, 12, 13, 32, 0x85, 0xA0, 0x1680, 0x2000, 0x2001, 0x2002, 0x2003, 0x2004, 0x2005, 0x2006,
    0x2007, 0x2008, 0x2009, 0x200A, 0x2028, 0x2029, 0x202F, 0x205F, 0x3000]

theorem mem_blankCodes (h : isBlank c = true) : c.toNat ∈ blankCodes := by
  simp only [isBlank, Bool.or_eq_true, Bool.and_eq_true, decide_eq_true_eq, beq_iff_eq] at h
  simp only [blankCodes, List.mem_cons, List.not_mem_nil, or_false]
  omega

theorem isNameChar_of_isBlank (h : isBlank c = true) : isNameChar c = false := by
  have hcodes : ∀ code ∈ blankCodes, isNameChar (Char.ofNat code) = false := by decide +kernel
  have hc := hcodes _ (mem_blankCodes h)
  rwa [Char.ofNat_toNat] at hc

theorem isBlank_of_isNameStart (h : isNameStart c = true) : isBlank c = false := by
  have hcodes : ∀ code ∈ blankCodes, isNameStart (Char.ofNat code) = false := by decide +kernel
  cases hblank : isBlank c with
  | false => rfl
  | true =>
      have hc := hcodes _ (mem_blankCodes hblank)
      rw [Char.ofNat_toNat, h] at hc
      cases hc

theorem isDigit_of_isNameStart (h : isNameStart c = true) : c.isDigit = false := by
  have hdigits : ∀ code ∈ List.range' 48 10, isNameStart (Char.ofNat code) = false := by
    decide +kernel
  cases hdigit : c.isDigit with
  | false => rfl
  | true =>
      have hrange : 48 ≤ c.toNat ∧ c.toNat ≤ 57 := Char.isDigit_iff_toNat.mp hdigit
      have hc := hdigits c.toNat (List.mem_range'_1.mpr (by omega))
      rw [Char.ofNat_toNat, h] at hc
      cases hc

theorem isBare_of_isNameStart (h : isNameStart c = true) : IsBare c := by
  have hquote : isNameStart '\x22' = false := by decide +kernel
  have hmark : isNameStart '#' = false := by decide +kernel
  constructor <;> rintro rfl
  · cases h.symm.trans hquote
  · cases h.symm.trans hmark

end Characters

section Tokens

variable {lead tail name rest : List Char} (line offset : Nat)

theorem tokens_blanks (h : isAllBlank lead = true) (rest : List Char) :
    tokens line offset (lead ++ rest) = tokens line (offset + byteCount lead) rest := by
  induction lead generalizing offset with
  | nil => rfl
  | cons c more ih =>
      obtain ⟨hc, hmore⟩ := List.forall_mem_cons.mp (List.all_eq_true.mp h)
      rw [List.cons_append, tokens, if_pos hc, ih _ (List.all_eq_true.mpr hmore), byteCount_cons,
        Nat.add_assoc]

theorem tokens_trails (h : Trails tail) : tokens line offset tail = .ok [] := by
  induction h generalizing offset with
  | nil => rw [tokens]
  | comment note =>
      have hblank : ¬isBlank '#' = true := by decide
      rw [tokens, if_neg hblank, if_pos rfl]
  | blank hc _ ih => rw [tokens, if_pos hc, ih]

theorem tokens_name (h : IsName name) (hrest : ∀ c, rest.head? = some c → isNameChar c = false) :
    tokens line offset (name ++ rest) =
      (tokens line (offset + byteCount name) rest).map
        (⟨.name (String.ofList name), ⟨offset, offset + byteCount name⟩⟩ :: ·) := by
  obtain ⟨c, more, rfl, hstart, hmore, htrue, hfalse⟩ := h
  have hbare := isBare_of_isNameStart hstart
  have htaken : (more ++ rest).takeWhile isNameChar = more := by
    rw [takeWhile_append_of_head? hrest, List.takeWhile_eq_self_iff.mpr hmore]
  have hlexeme : lexeme c (more ++ rest) = .ok (.name (String.ofList (c :: more)), more.length) := by
    simp only [lexeme, if_neg hbare.1, isDigit_of_isNameStart hstart, if_pos hstart, htaken, wordToken,
      if_neg htrue, if_neg hfalse, Bool.false_eq_true, if_false]
  rw [List.cons_append, tokens, if_neg (by simp [isBlank_of_isNameStart hstart]), if_neg hbare.2,
    hlexeme]
  dsimp only
  rw [List.take_left, List.drop_left]

-- A sign of one character.
theorem tokens_symbol {c : Char} {symbol : Symbol} (hc : c ∈ ['(', ',', ')', '='])
    (h : symbolLexeme c rest = .ok (.symbol symbol, 0)) :
    tokens line offset (c :: rest) =
      (tokens line (offset + 1) rest).map (⟨.symbol symbol, ⟨offset, offset + 1⟩⟩ :: ·) := by
  obtain ⟨hblank, hmark, hquote, hdigit, hstart, hsize⟩ : isBlank c = false ∧ c ≠ '#' ∧
      c ≠ '\x22' ∧ c.isDigit = false ∧ isNameStart c = false ∧ c.utf8Size = 1 := by
    simp only [List.mem_cons, List.not_mem_nil, or_false] at hc
    rcases hc with rfl | rfl | rfl | rfl <;> decide +kernel
  rw [tokens, hblank, if_neg Bool.false_ne_true, if_neg hmark, lexeme, if_neg hquote, hdigit,
    if_neg Bool.false_ne_true, hstart, if_neg Bool.false_ne_true, h]
  simp only [List.take_zero, List.drop_zero, byteCount_cons, byteCount_nil, Nat.add_zero, hsize]

end Tokens

section Expressions

variable {text name : List Char} {values : List String} {e : Expr} {offset : Nat}

theorem LiteralList.tokens_append (h : LiteralList text values) (line offset : Nat) :
    ∃ located ds, DerivesList located ds (values.map .text) ∧ (∀ d ∈ ds, d ≤ 2) ∧
      ∀ back, tokens line offset (text ++ ')' :: back) =
        (tokens line (offset + byteCount text + 1) back).map fun more =>
          located ++ ⟨.symbol .close, ⟨offset + byteCount text, offset + byteCount text + 1⟩⟩ ::
            more := by
  induction h generalizing offset with
  | @last lead trail s hlead htrail =>
      refine ⟨_, _, .last ((Derives.text s ⟨offset + byteCount lead,
        offset + byteCount lead + byteCount (literal s.toList)⟩).mono (by decide) (Nat.zero_le _)),
        by decide, fun back => ?_⟩
      rw [List.append_assoc, List.append_assoc, tokens_blanks line offset hlead, tokens_literal,
        tokens_blanks line _ htrail, tokens_symbol line _ (by decide) rfl]
      simp only [byteCount_append, Nat.add_assoc, String.ofList_toList]
      cases tokens line _ back <;> rfl
  | @more lead trail text values s hlead htrail hmore ih =>
      obtain ⟨located, ds, hderives, hds, htokens⟩ :=
        ih (offset + byteCount lead + byteCount (literal s.toList) + byteCount trail + 1)
      refine ⟨_, _, .more ⟨offset + byteCount lead + byteCount (literal s.toList) + byteCount trail,
        offset + byteCount lead + byteCount (literal s.toList) + byteCount trail + 1⟩
        ((Derives.text s ⟨offset + byteCount lead,
          offset + byteCount lead + byteCount (literal s.toList)⟩).mono (by decide) (Nat.zero_le _))
        hderives, ?_, fun back => ?_⟩
      · intro d hd
        rcases List.mem_append.mp hd with hd | hd
        · rw [List.map_singleton, List.mem_singleton] at hd
          omega
        · rcases List.mem_cons.mp hd with rfl | hd
          · decide
          · exact hds d hd
      · rw [List.append_assoc, List.append_assoc, List.append_assoc, List.cons_append,
          tokens_blanks line offset hlead, tokens_literal, tokens_blanks line _ htrail,
          tokens_symbol line _ (by decide) rfl, htokens]
        have hcomma : ','.utf8Size = 1 := by decide
        simp only [byteCount_append, byteCount_cons, hcomma, Nat.add_assoc, Nat.add_comm 1,
          String.ofList_toList]
        cases tokens line _ back <;> rfl

theorem isNameChar_open : isNameChar '(' = false := by decide +kernel

-- What such an expression is a tree of. It is no assignment.
theorem LiteralExpr.derives (h : LiteralExpr offset text e) (line : Nat) :
    ∃ t more ds, tokens line offset text = .ok (t :: more) ∧ more.head?.any isAssign = false ∧
      Derives 0 (t :: more) ds e ∧ ∀ d ∈ ds, d ≤ maxNesting := by
  cases h with
  | @alone lead tail s hlead htail =>
      refine ⟨_, [], _, ?_, rfl, (Derives.text s ⟨offset + byteCount lead,
        offset + byteCount lead + byteCount (literal s.toList)⟩).mono (by decide) (Nat.zero_le _),
        by decide⟩
      rw [tokens_blanks line offset hlead, tokens_literal, tokens_trails line _ htail,
        String.ofList_toList]
      rfl
  | @called lead name list tail values hlead hname hlist htail =>
      have hopen : ∀ c, ('(' :: (list ++ ')' :: tail)).head? = some c → isNameChar c = false := by
        rintro _ ⟨⟩
        exact isNameChar_open
      obtain ⟨located, ds, hderives, hds, htokens⟩ :=
        hlist.tokens_append line (offset + byteCount lead + byteCount name + 1)
      have hcall := Derives.call (String.ofList name)
        ⟨offset + byteCount lead, offset + byteCount lead + byteCount name⟩
        ⟨offset + byteCount lead + byteCount name, offset + byteCount lead + byteCount name + 1⟩
        ⟨offset + byteCount lead + byteCount name + 1 + byteCount list,
          offset + byteCount lead + byteCount name + 1 + byteCount list + 1⟩ hderives
      refine ⟨_, _, _, ?_, rfl, hcall.mono (by decide) (Nat.zero_le _), fun d hd => ?_⟩
      · rw [tokens_blanks line offset hlead, tokens_name line _ hname hopen,
          tokens_symbol line _ (by decide) rfl, htokens, tokens_trails line _ htail]
        rfl
      · simp only [List.mem_cons, List.mem_append, List.not_mem_nil, or_false] at hd
        rcases hd with rfl | rfl | hd | rfl
        any_goals decide
        exact (hds d hd).trans (by decide)

theorem LiteralExpr.parseExpr_eq (h : LiteralExpr offset text e) : parseExpr text offset = .ok e := by
  obtain ⟨t, more, ds, htokens, -, hderives⟩ := h.derives 1
  rw [parseExpr, htokens]
  exact (whole_eq_ok_iff _ _ _ e).mpr ⟨ds, hderives⟩

theorem LiteralExpr.head?_ne (h : LiteralExpr offset text e) : text.head? ≠ some '=' := by
  have hclass : isBlank '=' = false ∧ isNameStart '=' = false := by decide +kernel
  have hlead : ∀ {lead rest : List Char}, isAllBlank lead = true → rest.head? ≠ some '=' →
      (lead ++ rest).head? ≠ some '=' := by
    intro lead rest hlead hrest
    cases lead with
    | nil => exact hrest
    | cons c more =>
        rintro ⟨⟩
        have hc := List.all_eq_true.mp hlead '=' (List.mem_cons_self ..)
        rw [hclass.1] at hc
        cases hc
  cases h with
  | alone s hblank _ => exact hlead hblank fun h => absurd (Option.some.inj h) (by decide)
  | called hblank hname _ _ =>
      refine hlead hblank ?_
      obtain ⟨c, rest, rfl, hstart, -⟩ := hname
      rintro ⟨⟩
      cases hstart.symm.trans hclass.2

end Expressions

section Lines

variable {text tail front back : List Char} {e : Expr} {own : Statement} {line offset : Nat}

theorem trimEnd_append_cons {drop : Char → Bool} {c : Char} (hc : drop c = false)
    (front back : List Char) :
    trimEnd drop (front ++ c :: back) = front ++ c :: trimEnd drop back := by
  obtain ⟨trailing, hsplit, htrailing⟩ := exists_trimEnd drop back
  have hlast : ∀ d, (front ++ c :: trimEnd drop back).getLast? = some d → drop d = false := by
    intro d hd
    rw [List.getLast?_append_of_ne_nil _ (List.cons_ne_nil _ _)] at hd
    cases hkept : trimEnd drop back with
    | nil =>
        rw [hkept] at hd
        cases hd
        exact hc
    | cons own more =>
        rw [hkept, List.getLast?_cons_cons] at hd
        exact trimEnd_getLast_not (hkept ▸ hd)
  have hwhole := trimEnd_append hlast htrailing
  rwa [List.append_assoc, List.cons_append, ← hsplit] at hwhole

theorem Trails.of_append (h : Trails (front ++ back)) : Trails front := by
  induction front with
  | nil => exact .nil
  | cons c more ih =>
      cases h with
      | comment note => exact .comment more
      | blank hc hmore => exact .blank hc (ih hmore)

theorem Trails.trimEnd (h : Trails tail) : Trails (trimEnd isLineEnd tail) := by
  obtain ⟨trailing, hsplit, -⟩ := exists_trimEnd isLineEnd tail
  rw [hsplit] at h
  exact h.of_append

theorem LiteralExpr.trimEnd (h : LiteralExpr offset text e) :
    LiteralExpr offset (trimEnd isLineEnd text) e := by
  cases h with
  | @alone lead tail s hlead htail =>
      have hsplit : lead ++ (literal s.toList ++ tail) =
          (lead ++ '\x22' :: s.toList.flatMap spell) ++ '\x22' :: tail := by simp [literal]
      rw [hsplit, trimEnd_append_cons (by decide)]
      have hwhole : LiteralExpr offset _ _ := .alone s hlead htail.trimEnd
      simpa [literal] using hwhole
  | @called lead name list tail values hlead hname hlist htail =>
      have hsplit : lead ++ (name ++ '(' :: (list ++ ')' :: tail)) =
          (lead ++ (name ++ '(' :: list)) ++ ')' :: tail := by simp
      rw [hsplit, trimEnd_append_cons (by decide)]
      have hwhole : LiteralExpr offset _ _ := .called hlead hname hlist htail.trimEnd
      simpa using hwhole

theorem LiteralLine.trimEnd (h : LiteralLine line offset text own) :
    LiteralLine line offset (trimEnd isLineEnd text) own := by
  cases h with
  | run h => exact .run h.trimEnd
  | @assign lead name gap text e hlead hname hgap h =>
      have hsplit : lead ++ (name ++ (gap ++ '=' :: text)) = (lead ++ (name ++ gap)) ++ '=' :: text := by
        simp
      rw [hsplit, trimEnd_append_cons (by decide)]
      have hwhole : LiteralLine line offset _ _ := .assign hlead hname hgap h.trimEnd
      simpa using hwhole

theorem LiteralLine.ne_nil (h : LiteralLine line offset text own) : text ≠ [] := by
  cases h with
  | assign _ _ _ _ => simp
  | run h => cases h <;> simp [literal]

theorem LiteralLine.parseStatement_eq (h : LiteralLine line offset text own) :
    parseStatement line offset text = .ok (some own) := by
  cases h with
  | @run text e h =>
      obtain ⟨t, more, ds, htokens, hassign, hderives⟩ := h.derives line
      have hwhole : ∀ place, whole place .afterExpression (t :: more) = .ok e :=
        fun place => (whole_eq_ok_iff place _ _ e).mpr ⟨ds, hderives⟩
      rw [parseStatement, htokens]
      simp only [bind, Except.bind]
      split
      · rename_i hnil
        cases hnil
      · rename_i hsome
        obtain ⟨-, rfl⟩ := List.cons.inj hsome
        cases hassign
      · rw [hwhole]
        rfl
  | @assign lead name gap text e hlead hname hgap h =>
      obtain ⟨t, more, ds, htokens, -, hderives⟩ := h.derives line
      have hwhole : ∀ place, whole place .afterAssignment (t :: more) = .ok e :=
        fun place => (whole_eq_ok_iff place _ _ e).mpr ⟨ds, hderives⟩
      have hend : ∀ c, (gap ++ '=' :: text).head? = some c → isNameChar c = false := by
        have hsign : isNameChar '=' = false := by decide +kernel
        intro c hc
        cases gap with
        | nil =>
            cases hc
            exact hsign
        | cons d more =>
            cases hc
            exact isNameChar_of_isBlank (List.all_eq_true.mp hgap _ (List.mem_cons_self ..))
      have hassign : symbolLexeme '=' text = .ok (.symbol .assign, 0) :=
        if_neg h.head?_ne
      rw [parseStatement, tokens_blanks line offset hlead, tokens_name line _ hname hend,
        tokens_blanks line _ hgap, tokens_symbol line _ (by decide) hassign, htokens]
      simp only [bind, Except.bind, Except.map, hwhole]

end Lines

mutual

-- The text literals of a tree, in order.
def Expr.texts : Expr → List String
  | .text value => [value]
  | .call _ _ arguments => Expr.textsOf arguments
  | .unary _ operand => operand.texts
  | .binary _ left right => left.texts ++ right.texts
  | _ => []

def Expr.textsOf : List Expr → List String
  | [] => []
  | e :: rest => e.texts ++ Expr.textsOf rest

end

def textsIn (located : List Located) : List String :=
  located.filterMap fun t =>
    match t.token with
    | .text value => some value
    | _ => none

theorem textsIn_append (ts us : List Located) : textsIn (ts ++ us) = textsIn ts ++ textsIn us :=
  List.filterMap_append ..

theorem textsIn_symbol (symbol : Symbol) (range : ByteRange) (ts : List Located) :
    textsIn (⟨.symbol symbol, range⟩ :: ts) = textsIn ts := rfl

theorem textsIn_name (name : String) (range : ByteRange) (ts : List Located) :
    textsIn (⟨.name name, range⟩ :: ts) = textsIn ts := rfl

mutual

-- A tree holds the literals that it is read from, and no others.
theorem Derives.texts_eq {level : Nat} {ts : List Located} {ds : List Nat} {e : Expr}
    (h : Derives level ts ds e) : e.texts = textsIn ts := by
  match h with
  | .tighter _ h => exact h.texts_eq
  | .binary r _ hleft hright =>
      rw [Expr.texts, textsIn_append, textsIn_symbol, hleft.texts_eq, hright.texts_eq]
  | .sign r _ h => rw [Expr.texts, textsIn_symbol, h.texts_eq]
  | .number _ _ | .text _ _ | .bool _ _ | .unit _ _ | .var _ _ | .call0 _ _ _ _ => rfl
  | .group r r' h => rw [textsIn_symbol, textsIn_append, h.texts_eq]; exact (List.append_nil _).symm
  | .call name r r' r'' h =>
      rw [Expr.texts, textsIn_name, textsIn_symbol, textsIn_append, h.texts_eq]
      exact (List.append_nil _).symm

theorem DerivesList.texts_eq {ts : List Located} {ds : List Nat} {es : List Expr}
    (h : DerivesList ts ds es) : Expr.textsOf es = textsIn ts := by
  match h with
  | .last h => rw [Expr.textsOf, Expr.textsOf, List.append_nil, h.texts_eq]
  | .more r h hmore => rw [Expr.textsOf, textsIn_append, textsIn_symbol, h.texts_eq, hmore.texts_eq]

end

-- The literal that opens behind `front` is a part of what the whole is read as, wherever it stands.
theorem texts_of_parseExpr {front back : List Char} {offset : Nat} {s : String} {e : Expr}
    (houtside : Outside front)
    (h : parseExpr (front ++ (literal s.toList ++ back)) offset = .ok e) :
    ∃ before after, tokens 1 offset front = .ok before ∧
      tokens 1 (offset + byteCount front + byteCount (literal s.toList)) back = .ok after ∧
      e.texts = textsIn before ++ s :: textsIn after := by
  obtain ⟨located, ds, htokens, hderives, -⟩ := derives_of_parseExpr h
  have hopen : literal s.toList ++ back = '\x22' :: (s.toList.flatMap spell ++ '\x22' :: back) := by
    simp [literal]
  rw [hopen, tokens_quote houtside, ← hopen, tokens_literal, String.ofList_toList] at htokens
  cases hbefore : tokens 1 offset front with
  | error error =>
      rw [hbefore] at htokens
      cases htokens
  | ok before =>
      cases hafter : tokens 1 (offset + byteCount front + byteCount (literal s.toList)) back with
      | error error =>
          rw [hbefore, hafter] at htokens
          cases htokens
      | ok after =>
          rw [hbefore, hafter] at htokens
          cases htokens
          refine ⟨before, after, rfl, rfl, ?_⟩
          rw [hderives.texts_eq, textsIn_append]
          rfl

section Scripts

variable {a text back front rest : List Char}

-- One line of a script is read where the lines before it end, and the lines behind it are read where
-- it ends.
theorem parseScript_line (ha : a = [] ∨ a.getLast? = some '\n') (hne : text ≠ [])
    (hplain : '\n' ∉ text) (hback : back = [] ∨ back.head? = some '\n') :
    ∃ later, parseScript (a ++ (text ++ back)) =
        (do
          let first ← parseScript a
          let own ← parseStatement (a.count '\n' + 1) (byteCount a) (trimEnd isLineEnd text)
          let second ← later
          .ok (first ++ (own.toList ++ second))) ∧
      Shifts (a.count '\n' + 1) (byteCount a + byteCount text + 1)
        (fun script later => later =
          script.map (·.shift (a.count '\n' + 1) (byteCount a + byteCount text + 1)))
        (parseScript (back.drop 1)) later := by
  have hlines : ∃ ending, (∀ c ∈ ending, isLineEnd c = true) ∧
      lines (text ++ back) = (text ++ ending) :: lines (back.drop 1) ∧
      (byteCount (text ++ ending) = byteCount text + 1 ∨ back = []) := by
    rcases hback with rfl | hback
    · exact ⟨[], List.forall_mem_nil _, by
        simpa [lines] using lines_of_newline_not_mem hplain hne, .inr rfl⟩
    · obtain ⟨rest, rfl⟩ := List.head?_eq_some_iff.mp hback
      exact ⟨['\n'], List.forall_mem_singleton.mpr (by decide), lines_append_newline hplain rest, .inl (by simp; decide)⟩
  obtain ⟨ending, hending, hlines, hwidth⟩ := hlines
  have htrim : trimEnd isLineEnd (text ++ ending) = trimEnd isLineEnd text := by
    obtain ⟨trailing, hsplit, htrailing⟩ := exists_trimEnd isLineEnd text
    have hall : ∀ c ∈ trailing ++ ending, isLineEnd c = true := fun c hc =>
      (List.mem_append.mp hc).elim (htrailing c) (hending c)
    conv_lhs => rw [hsplit, List.append_assoc]
    exact trimEnd_append (fun _ hc => trimEnd_getLast_not hc) hall
  have hwhole : parseScript (a ++ (text ++ back)) = (do
      let first ← parseScript a
      let own ← parseStatement (a.count '\n' + 1) (byteCount a) (trimEnd isLineEnd text)
      let second ← parseLines (1 + (a.count '\n' + 1)) (0 + (byteCount a + byteCount (text ++ ending)))
        (lines (back.drop 1))
      .ok (first ++ (own.toList ++ second))) := by
    rw [parseScript, lines_append_of_ended ha, hlines, parseLines_append, flatten_lines,
      length_lines_of_ended ha, parseLines_cons, htrim, Nat.zero_add, Nat.zero_add, Nat.add_comm 1,
      Nat.add_comm 1]
    change (parseScript a >>= _) = parseScript a >>= _
    refine congrArg _ (funext fun first => ?_)
    simp only [bind, Except.bind]
    cases parseStatement (a.count '\n' + 1) (byteCount a) (trimEnd isLineEnd text) with
    | error error => rfl
    | ok own =>
        dsimp only
        cases parseLines (a.count '\n' + 1 + 1) (byteCount a + byteCount (text ++ ending))
          (lines (back.drop 1)) <;> rfl
  refine ⟨_, hwhole, ?_⟩
  rcases hwidth with hwidth | rfl
  · rw [hwidth, ← Nat.add_assoc]
    exact shifts_parseLines 1 0 _
  · exact .ok rfl

-- A line with an open literal is read up to the quote, and no further.
theorem parseStatement_unclosed (houtside : Outside front) (hopen : Unclosed rest)
    (line offset : Nat) :
    parseStatement line offset (trimEnd isLineEnd (front ++ '\x22' :: rest)) = (do
      let _ ← tokens line offset front
      .error ⟨.unterminatedText,
        ⟨offset + byteCount front,
          offset + byteCount (trimEnd isLineEnd (front ++ '\x22' :: rest))⟩, line⟩) := by
  obtain ⟨trailing, hsplit, -⟩ := exists_trimEnd isLineEnd rest
  have hrest : Unclosed (trimEnd isLineEnd rest) := (hsplit ▸ hopen).of_append
  rw [trimEnd_append_cons (by decide), parseStatement, tokens_quote houtside, tokens_unclosed _ _ hrest,
    byteCount_append, ← Nat.add_assoc]
  simp only [bind, Except.bind]
  cases tokens line offset front <;> rfl

end Scripts

-- Every text has a literal. Alone, as an argument or on the right of an assignment it is read as that
-- text, whether or not a comment follows. A literal that is not closed on its line ends the script
-- there, once the tokens before it are read. Such a line ends inside the literal, or with a backslash
-- that has nothing to escape.
theorem literals_spell_every_text :
    (∀ offset text e, LiteralExpr offset text e → parseExpr text offset = .ok e) ∧
    (∀ front back offset e (s : String), Outside front →
      parseExpr (front ++ (literal s.toList ++ back)) offset = .ok e →
      ∃ before after, tokens 1 offset front = .ok before ∧
        tokens 1 (offset + byteCount front + byteCount (literal s.toList)) back = .ok after ∧
        e.texts = textsIn before ++ s :: textsIn after) ∧
    (∀ a text back own first second, (a = [] ∨ a.getLast? = some '\n') → '\n' ∉ text →
      (back = [] ∨ back.head? = some '\n') →
      LiteralLine (a.count '\n' + 1) (byteCount a) text own →
      parseScript a = .ok first → parseScript (back.drop 1) = .ok second →
      parseScript (a ++ (text ++ back)) =
        .ok (first ++ own ::
          second.map (·.shift (a.count '\n' + 1) (byteCount a + byteCount text + 1)))) ∧
    (∀ a front rest back, (a = [] ∨ a.getLast? = some '\n') → '\n' ∉ front ++ '\x22' :: rest →
      (back = [] ∨ back.head? = some '\n') → Outside front → Unclosed rest →
      parseScript (a ++ ((front ++ '\x22' :: rest) ++ back)) = (do
        let _ ← parseScript a
        let _ ← tokens (a.count '\n' + 1) (byteCount a) front
        .error ⟨.unterminatedText,
          ⟨byteCount a + byteCount front,
            byteCount a + byteCount (trimEnd isLineEnd (front ++ '\x22' :: rest))⟩,
          a.count '\n' + 1⟩)) ∧
    ∀ rest, Unclosed rest ↔
      ∃ body value, Spells body value ∧ (rest = body ∨ rest = body ++ ['\\']) := by
  refine ⟨fun offset text e h => h.parseExpr_eq, fun front back offset e s => texts_of_parseExpr,
    fun a text back own first second ha hplain hback hline hfirst hsecond => ?_,
    fun a front rest back ha hplain hback houtside hopen => ?_, fun rest => unclosed_iff⟩
  · obtain ⟨later, hwhole, hlater⟩ := parseScript_line ha hline.ne_nil hplain hback
    rw [hsecond] at hlater
    cases hlater with
    | ok hshift =>
        rw [hwhole, hfirst, hline.trimEnd.parseStatement_eq, ← hshift]
        rfl
  · obtain ⟨later, hwhole, -⟩ := parseScript_line ha (by simp) hplain hback
    rw [hwhole, parseStatement_unclosed houtside hopen]
    simp only [bind, Except.bind]
    cases parseScript a with
    | error error => rfl
    | ok first =>
        dsimp only
        cases tokens (a.count '\n' + 1) (byteCount a) front <;> rfl

-- A comment sign, quotes and a line end in a literal, one as an argument, one on the second of three
-- lines, and one that only an escaped quote follows.
theorem a_quote_and_a_mark_are_literal :
    parseExpr " \"say \\\"#\\\" \\n\" # end".toList 0 = .ok (.text "say \"#\" \n") ∧
    (∃ before after, tokens 1 0 "print(x, ".toList = .ok before ∧
      tokens 1 (0 + 9 + 3) ") # end".toList = .ok after ∧
      ∃ e, parseExpr "print(x, \"#\") # end".toList 0 = .ok e ∧
        e.texts = textsIn before ++ "#" :: textsIn after) ∧
    (∃ first second, parseScript "x = true\n".toList = .ok first ∧
      parseScript "print(y)".toList = .ok second ∧
      parseScript "x = true\ny = \"#\" # two\r\nprint(y)".toList =
        .ok (first ++ .assign "y" (.text "#") 2 :: second.map (·.shift 2 24))) ∧
    parseScript "x = true\nprint(\"a\\\"\n".toList =
      .error ⟨.unterminatedText, ⟨15, 19⟩, 2⟩ := by
  obtain ⟨hexpr, hplace, hscript, hopen, -⟩ := literals_spell_every_text
  have hname : IsName "y".toList :=
    ⟨'y', [], rfl, by decide +kernel, List.forall_mem_nil _, by decide, by decide⟩
  have hblank : isAllBlank " ".toList = true := by decide
  have hnote : Trails " # two\r".toList := .blank (by decide) (.comment " two\r".toList)
  have hended : "x = true\n".toList.getLast? = some '\n' := by decide
  have hcount : "x = true\n".toList.count '\n' = 1 ∧ byteCount "x = true\n".toList = 9 := by
    decide +kernel
  obtain ⟨first, hfirst⟩ : ∃ first, parseScript "x = true\n".toList = .ok first :=
    Action.exists_ok_of_isOk (by decide +kernel)
  obtain ⟨second, hsecond⟩ : ∃ second, parseScript "print(y)".toList = .ok second :=
    Action.exists_ok_of_isOk (by decide +kernel)
  obtain ⟨e, he⟩ : ∃ e, parseExpr "print(x, \"#\") # end".toList 0 = .ok e :=
    Action.exists_ok_of_isOk (by decide +kernel)
  obtain ⟨before, after, hbefore, hafter, htexts⟩ :=
    hplace "print(x, ".toList ") # end".toList 0 e "#" (.of_isBare (by simp [IsBare])) he
  obtain ⟨located, hlocated⟩ : ∃ located, tokens 2 9 "print(".toList = .ok located :=
    Action.exists_ok_of_isOk (by decide +kernel)
  have hline := @LiteralLine.assign 2 9 [] _ _ _ _ rfl hname hblank
    (@LiteralExpr.alone _ [' '] _ "#" (by decide) hnote)
  have hbody : Spells ['a', '\\', '\x22'] ['a', '\x22'] :=
    .plain (by decide) (by decide) (.escape '\x22' .nil)
  refine ⟨hexpr 0 _ _ (@LiteralExpr.alone _ [' '] _ "say \"#\" \n" (by decide)
    (.blank (by decide) (.comment " end".toList))), ⟨before, after, hbefore, hafter, e, he, htexts⟩,
    ⟨first, second, hfirst, hsecond, ?_⟩, ?_⟩
  · have hwhole := hscript "x = true\n".toList "y = \"#\" # two\r".toList "\nprint(y)".toList _ first
      second (.inr hended) (by decide) (.inr rfl) (by rw [hcount.1, hcount.2]; exact hline) hfirst
      hsecond
    rw [hcount.1, hcount.2] at hwhole
    exact hwhole
  · have hwhole := hopen "x = true\n".toList "print(".toList ['a', '\\', '\x22'] ['\n'] (.inr hended)
      (by decide) (.inr rfl) (.of_isBare (by simp [IsBare])) (unclosed_iff.mpr ⟨_, _, hbody, .inl rfl⟩)
    rw [hcount.1, hcount.2, hfirst] at hwhole
    simp only [bind, Except.bind, hlocated] at hwhole
    exact hwhole

end LiveDoc.Calc
