import LiveDoc.Proofs.Calc.Grammar

namespace LiveDoc.Calc

open Grammar

-- What a reader makes of its input, without the proof that the rest is shorter.
def Reads {α : Type} {input : List Located} (result : Result α input) (tree : α)
    (rest : List Located) : Prop :=
  ∃ p, result = .ok p ∧ p.tree = tree ∧ p.rest = rest

def Chains (operand : Nat → ExprParser) (level : Nat) (left : Expr) (input : List Located)
    (tree : Expr) (rest : List Located) : Prop :=
  ∃ h, chain operand level left input = .ok (tree, ⟨rest, h⟩)

-- The level at which the first token joins two operands, zero for any other token.
def joint : List Located → Nat
  | ⟨.symbol s, _⟩ :: _ => (s.binary?.map (·.2)).getD 0
  | _ => 0

theorem joint_of_mem {s : Symbol} {op : BinaryOp} {level : Nat} (h : (s, op) ∈ binaryOps level)
    (r : ByteRange) (rest : List Located) : joint (⟨.symbol s, r⟩ :: rest) = level := by
  simp [joint, (binary?_eq_some_iff s op level).mpr h]

theorem exists_of_joint_pos {input : List Located} (h : 0 < joint input) :
    ∃ s op r more, input = ⟨.symbol s, r⟩ :: more ∧ (s, op) ∈ binaryOps (joint input) := by
  unfold joint at h ⊢
  split at h
  · rename_i s r more
    cases hs : s.binary? with
    | none => simp [hs] at h
    | some pair => exact ⟨s, pair.1, r, more, rfl, (binary?_eq_some_iff _ _ _).mp (by simp [hs])⟩
  · omega

theorem joint_le (input : List Located) : joint input ≤ 6 := by
  unfold joint
  split
  · rename_i s _ _
    cases s <;> simp [Symbol.binary?]
  · simp

theorem reads_ok_iff {α : Type} {input : List Located} (p : Parsed α input) (tree : α)
    (rest : List Located) :
    Reads (.ok p) tree rest ↔ tree = p.tree ∧ rest = p.rest := by
  constructor
  · rintro ⟨q, hq, rfl, rfl⟩
    cases hq
    exact ⟨rfl, rfl⟩
  · rintro ⟨rfl, rfl⟩
    exact ⟨p, rfl, rfl, rfl⟩

theorem not_reads_error {α : Type} {input : List Located} (e : SyntaxError) (tree : α)
    (rest : List Located) : ¬Reads (.error e : Result α input) tree rest := by
  rintro ⟨p, hp, -⟩
  cases hp

theorem Reads.unique {α : Type} {input rest rest' : List Located} {result : Result α input}
    {tree tree' : α} (h : Reads result tree rest) (h' : Reads result tree' rest') :
    tree = tree' ∧ rest = rest' := by
  obtain ⟨p, hp, rfl, rfl⟩ := h
  rw [hp, reads_ok_iff] at h'
  exact ⟨h'.1.symm, h'.2.symm⟩

-- A result that goes on from another one, as every step of the readers does.
theorem reads_bind_iff {α β : Type} {input input' : List Located} (first : Result α input)
    (next : Parsed α input → Result β input') (tree : β) (rest : List Located) :
    Reads (first >>= next) tree rest ↔ ∃ p, first = .ok p ∧ Reads (next p) tree rest := by
  cases first with
  | error e =>
      constructor
      · intro h
        exact (not_reads_error e tree rest h).elim
      · rintro ⟨p, hp, -⟩
        cases hp
  | ok p =>
      constructor
      · intro h
        exact ⟨p, rfl, h⟩
      · rintro ⟨q, hq, h⟩
        cases hq
        exact h

-- A chain ends before a token that joins operands at a looser level, or at none.
theorem chains_of_joint_lt {operand : Nat → ExprParser} {level : Nat} {left : Expr}
    {input : List Located} (h : joint input < max level 1) (tree : Expr) (rest : List Located) :
    Chains operand level left input tree rest ↔ tree = left ∧ rest = input := by
  have hstop : ∃ h, chain operand level left input = .ok (left, ⟨input, h⟩) := by
    unfold chain
    split
    · exact ⟨Nat.le_refl _, rfl⟩
    · rename_i t more
      obtain ⟨token, range⟩ := t
      cases token with
      | symbol s =>
          dsimp only
          split
          · exact ⟨Nat.le_refl _, rfl⟩
          · rename_i op own hs
            have hj : joint (⟨.symbol s, range⟩ :: more) = own := by simp [joint, hs]
            have hown := (level_of_mem_binaryOps ((binary?_eq_some_iff s op own).mp hs)).1
            rw [if_pos (by omega)]
            exact ⟨Nat.le_refl _, rfl⟩
      | _ => exact ⟨Nat.le_refl _, rfl⟩
  obtain ⟨hlen, hchain⟩ := hstop
  constructor
  · rintro ⟨hr, hc⟩
    rw [hchain] at hc
    cases hc
    exact ⟨rfl, rfl⟩
  · rintro ⟨rfl, rfl⟩
    exact ⟨hlen, hchain⟩

-- Otherwise it takes the operator with a right operand that binds tighter.
theorem chains_cons_iff {operand : Nat → ExprParser} {level own : Nat} {left : Expr} {s : Symbol}
    {op : BinaryOp} (hs : (s, op) ∈ binaryOps own) (hl : level ≤ own) (r : ByteRange)
    (more : List Located) (tree : Expr) (rest : List Located) :
    Chains operand level left (⟨.symbol s, r⟩ :: more) tree rest ↔
      ∃ right middle, Reads (operand (own + 1) more) right middle ∧
        Chains operand level (.binary op left right) middle tree rest := by
  unfold Chains
  rw [chain]
  simp only [(binary?_eq_some_iff s op own).mpr hs, if_neg (Nat.not_lt.mpr hl)]
  cases hr : operand (own + 1) more with
  | error e =>
      constructor
      · rintro ⟨_, h⟩
        cases h
      · rintro ⟨right, middle, h, -⟩
        exact (not_reads_error e right middle h).elim
  | ok p =>
      simp only [reads_ok_iff]
      constructor
      · rintro ⟨hlen, h⟩
        refine ⟨p.tree, p.rest, ⟨rfl, rfl⟩, ?_⟩
        change (chain operand level (.binary op left p.tree) p.rest >>= _) = _ at h
        cases hc : chain operand level (.binary op left p.tree) p.rest with
        | error e => rw [hc] at h; cases h
        | ok q =>
            obtain ⟨tree', rest', hrest⟩ := q
            rw [hc] at h
            cases h
            exact ⟨hrest, rfl⟩
      · rintro ⟨right, middle, ⟨rfl, rfl⟩, hlen, h⟩
        have := p.shorter
        refine ⟨by simp only [List.length_cons]; omega, ?_⟩
        change (chain operand level (.binary op left p.tree) p.rest >>= _) = _
        rw [h]
        rfl

-- An expression is an operand and its chain. A single `=` may not follow.
theorem reads_expression_iff (place : Place) (below : Readers) (level : Nat)
    (input : List Located) (tree : Expr) (rest : List Located) :
    Reads (expression place below level input) tree rest ↔
      (∃ first middle, Reads (operand place below input) first middle ∧
        Chains below.expression level first middle tree rest) ∧ rest.head?.any isAssign = false := by
  unfold expression
  rw [reads_bind_iff]
  constructor
  · rintro ⟨p, hp, h⟩
    cases hc : chain below.expression level p.tree p.rest with
    | error e =>
        rw [hc] at h
        exact (not_reads_error e tree rest h).elim
    | ok q =>
        obtain ⟨tree', rest', hlen⟩ := q
        rw [hc] at h
        change Reads (if rest'.head?.any isAssign then _ else _) tree rest at h
        split at h
        · exact (not_reads_error _ tree rest h).elim
        · rename_i ha
          rw [reads_ok_iff] at h
          obtain ⟨rfl, rfl⟩ := h
          exact ⟨⟨p.tree, p.rest, ⟨p, hp, rfl, rfl⟩, hlen, hc⟩, by simpa using ha⟩
  · rintro ⟨⟨first, middle, ⟨p, hp, rfl, rfl⟩, hlen, hc⟩, ha⟩
    refine ⟨p, hp, ?_⟩
    rw [hc]
    change Reads (if rest.head?.any isAssign then _ else _) tree rest
    rw [ha]
    exact ⟨_, rfl, rfl, rfl⟩

-- A sign takes the operand after it, one nesting level further in.
theorem reads_sign_iff {s : Symbol} {op : UnaryOp} (hs : (s, op) ∈ signs) (place : Place)
    (below : Readers) (r : ByteRange) (more : List Located) (tree : Expr) (rest : List Located) :
    Reads (operand place below (⟨.symbol s, r⟩ :: more)) tree rest ↔
      ∃ inner, Reads (below.operand more) inner rest ∧ tree = .unary op inner := by
  unfold operand
  simp only [(unary?_eq_some_iff s op).mpr hs]
  rw [reads_bind_iff]
  constructor
  · rintro ⟨p, hp, h⟩
    rw [reads_ok_iff] at h
    obtain ⟨rfl, rfl⟩ := h
    exact ⟨p.tree, ⟨p, hp, rfl, rfl⟩, rfl⟩
  · rintro ⟨inner, ⟨p, hp, rfl, rfl⟩, rfl⟩
    exact ⟨p, hp, _, rfl, rfl, rfl⟩

-- The first token is a sign.
def StartsWithSign (input : List Located) : Prop :=
  ∃ s op r more, (s, op) ∈ signs ∧ input = ⟨.symbol s, r⟩ :: more

theorem operand_eq_primary {input : List Located} (h : ¬StartsWithSign input) (place : Place)
    (below : Readers) :
    operand place below input = primary place (below.expression 0) input := by
  unfold operand
  split
  · rfl
  · rename_i t more
    obtain ⟨token, r⟩ := t
    cases token with
    | symbol s =>
        dsimp only
        split
        · rename_i op hs
          exact (h ⟨s, op, r, more, (unary?_eq_some_iff s op).mp hs, rfl⟩).elim
        · rfl
    | _ => rfl

-- Arguments start with one, and a comma or the closing parenthesis follows it.
theorem reads_arguments_iff (place : Place) (argument : ExprParser) (input : List Located)
    (trees : List Expr) (rest : List Located) :
    Reads (arguments place argument input) trees rest ↔
      ∃ first middle, Reads (argument input) first middle ∧
        ((∃ r, middle = ⟨.symbol .close, r⟩ :: rest ∧ trees = [first]) ∨
          ∃ r more others, middle = ⟨.symbol .comma, r⟩ :: more ∧
            Reads (arguments place argument more) others rest ∧ trees = first :: others) := by
  rw [arguments, reads_bind_iff]
  constructor
  · rintro ⟨p, hp, h⟩
    refine ⟨p.tree, p.rest, ⟨p, hp, rfl, rfl⟩, ?_⟩
    split at h
    · rename_i r more hr
      rw [reads_bind_iff] at h
      obtain ⟨q, hq, h⟩ := h
      rw [reads_ok_iff] at h
      obtain ⟨rfl, rfl⟩ := h
      exact .inr ⟨r, more, q.tree, hr, ⟨q, hq, rfl, rfl⟩, rfl⟩
    · rename_i r more hr
      rw [reads_ok_iff] at h
      obtain ⟨rfl, rfl⟩ := h
      exact .inl ⟨r, hr, rfl⟩
    · exact (not_reads_error _ trees rest h).elim
  · rintro ⟨first, middle, ⟨p, hp, rfl, rfl⟩, h⟩
    refine ⟨p, hp, ?_⟩
    rcases h with ⟨r, hr, rfl⟩ | ⟨r, more, others, hr, ⟨q, hq, rfl, rfl⟩, rfl⟩
    · split
      · rename_i hr'
        rw [hr] at hr'
        cases hr'
      · rename_i hr'
        rw [hr] at hr'
        cases hr'
        exact ⟨_, rfl, rfl, rfl⟩
      · rename_i hc
        exact (hc _ _ hr).elim
    · split
      · rename_i hr'
        rw [hr] at hr'
        cases hr'
        rw [reads_bind_iff]
        exact ⟨q, hq, _, rfl, rfl, rfl⟩
      · rename_i hr'
        rw [hr] at hr'
        cases hr'
      · rename_i hc _
        exact (hc _ _ hr).elim

-- What stands alone as an operand. Parentheses and names look at the token after them first.
inductive ReadsAlone (place : Place) (inner : ExprParser) :
    List Located → Expr → List Located → Prop
  | number (value : Float) (r : ByteRange) (rest : List Located) :
      ReadsAlone place inner (⟨.number value, r⟩ :: rest) (.number value) rest
  | text (value : String) (r : ByteRange) (rest : List Located) :
      ReadsAlone place inner (⟨.text value, r⟩ :: rest) (.text value) rest
  | bool (value : Bool) (r : ByteRange) (rest : List Located) :
      ReadsAlone place inner (⟨.bool value, r⟩ :: rest) (.bool value) rest
  | unit (r r' : ByteRange) (rest : List Located) :
      ReadsAlone place inner (⟨.symbol .open, r⟩ :: ⟨.symbol .close, r'⟩ :: rest) .unit rest
  | var (name : String) (r : ByteRange) (rest : List Located) :
      (∀ r' more, rest ≠ ⟨.symbol .open, r'⟩ :: more) →
      ReadsAlone place inner (⟨.name name, r⟩ :: rest) (.var name r) rest
  | group {more rest : List Located} {tree : Expr} (r r' : ByteRange) :
      (∀ r'' others, more ≠ ⟨.symbol .close, r''⟩ :: others) →
      Reads (inner more) tree (⟨.symbol .close, r'⟩ :: rest) →
      ReadsAlone place inner (⟨.symbol .open, r⟩ :: more) tree rest
  | call0 (name : String) (r r' r'' : ByteRange) (rest : List Located) :
      ReadsAlone place inner
        (⟨.name name, r⟩ :: ⟨.symbol .open, r'⟩ :: ⟨.symbol .close, r''⟩ :: rest)
        (.call name r []) rest
  | call {more rest : List Located} {trees : List Expr} (name : String) (r r' : ByteRange) :
      (∀ r'' others, more ≠ ⟨.symbol .close, r''⟩ :: others) →
      Reads (arguments place inner more) trees rest →
      ReadsAlone place inner (⟨.name name, r⟩ :: ⟨.symbol .open, r'⟩ :: more)
        (.call name r trees) rest

theorem readsAlone_of_reads {place : Place} {inner : ExprParser} {input : List Located}
    {tree : Expr} {rest : List Located} (h : Reads (primary place inner input) tree rest) :
    ReadsAlone place inner input tree rest := by
  unfold primary at h
  split at h
  · exact (not_reads_error _ tree rest h).elim
  · rename_i t more
    obtain ⟨token, r⟩ := t
    cases token with
    | number value =>
        obtain ⟨rfl, rfl⟩ := (reads_ok_iff _ tree rest).mp h
        exact .number value r _
    | text value =>
        obtain ⟨rfl, rfl⟩ := (reads_ok_iff _ tree rest).mp h
        exact .text value r _
    | bool value =>
        obtain ⟨rfl, rfl⟩ := (reads_ok_iff _ tree rest).mp h
        exact .bool value r _
    | name name =>
        dsimp only at h
        split at h
        · obtain ⟨rfl, rfl⟩ := (reads_ok_iff _ tree rest).mp h
          exact .call0 name r _ _ _
        · rename_i more hc
          obtain ⟨p, hp, h⟩ := (reads_bind_iff _ _ tree rest).mp h
          obtain ⟨rfl, rfl⟩ := (reads_ok_iff _ tree rest).mp h
          exact .call name r _ (fun r'' others he => hc r'' others he) ⟨p, hp, rfl, rfl⟩
        · rename_i hc
          obtain ⟨rfl, rfl⟩ := (reads_ok_iff _ tree rest).mp h
          exact .var name r _ (fun r' more he => hc r' more he)
    | symbol s =>
        cases s with
        | «open» =>
            dsimp only at h
            split at h
            · obtain ⟨rfl, rfl⟩ := (reads_ok_iff _ tree rest).mp h
              exact .unit r _ _
            · rename_i hc
              obtain ⟨p, hp, h⟩ := (reads_bind_iff _ _ tree rest).mp h
              split at h
              · rename_i r' rest' hr
                obtain ⟨rfl, rfl⟩ := (reads_ok_iff _ tree rest).mp h
                exact .group r r' (fun r'' others he => hc r'' others he) ⟨p, hp, rfl, hr⟩
              · exact (not_reads_error _ tree rest h).elim
        | _ => exact (not_reads_error _ tree rest h).elim

theorem reads_of_readsAlone {place : Place} {inner : ExprParser} {input : List Located}
    {tree : Expr} {rest : List Located} (h : ReadsAlone place inner input tree rest) :
    Reads (primary place inner input) tree rest := by
  cases h with
  | number | text | bool | unit | call0 => exact ⟨_, rfl, rfl, rfl⟩
  | var name r _ hn =>
      unfold primary
      dsimp only
      split
      · exact (hn _ _ rfl).elim
      · exact (hn _ _ rfl).elim
      · exact ⟨_, rfl, rfl, rfl⟩
  | group r r' hn hi =>
      obtain ⟨p, hp, rfl, hr⟩ := hi
      unfold primary
      dsimp only
      split
      · exact (hn _ _ rfl).elim
      · refine (reads_bind_iff _ _ _ _).mpr ⟨p, hp, ?_⟩
        split
        · rename_i hr'
          rw [hr] at hr'
          cases hr'
          exact ⟨_, rfl, rfl, rfl⟩
        · rename_i hc
          exact (hc _ _ hr).elim
  | @call more _ trees name r r' hn ha =>
      obtain ⟨p, hp, rfl, rfl⟩ := ha
      unfold primary
      dsimp only
      generalize hi : (⟨.symbol .open, r'⟩ :: more : List Located) = after
      split
      · cases hi
        exact (hn _ _ rfl).elim
      · cases hi
        exact (reads_bind_iff _ _ _ _).mpr ⟨p, hp, _, rfl, rfl, rfl⟩
      · rename_i hc
        exact (hc _ _ hi.symm).elim

theorem ReadsAlone.not_sign {place : Place} {inner : ExprParser} {input : List Located}
    {tree : Expr} {rest : List Located} (h : ReadsAlone place inner input tree rest) :
    ¬StartsWithSign input := by
  rintro ⟨s, op, r, more, hs, rfl⟩
  cases h <;> simp [signs] at hs

end LiveDoc.Calc
