import LiveDoc.Proofs.Calc.Acceptance
import Mathlib.Algebra.Order.BigOperators.Group.List
import Mathlib.Algebra.Order.Group.Nat

namespace LiveDoc.Calc

open Grammar

-- What can stand after an expression: a call would take an opening parenthesis, and the parser
-- stops at a single `=`.
def Follows (rest : List Located) : Prop :=
  ∀ r more, rest ≠ ⟨.symbol .open, r⟩ :: more ∧ rest ≠ ⟨.symbol .assign, r⟩ :: more

theorem follows_nil : Follows [] := by
  intro r more
  simp

theorem follows_symbol {s : Symbol} (ho : s ≠ .open) (ha : s ≠ .assign) (r : ByteRange)
    (more : List Located) : Follows (⟨.symbol s, r⟩ :: more) := by
  intro r' more'
  simp [ho, ha]

theorem follows_of_mem {s : Symbol} {op : BinaryOp} {level : Nat} (h : (s, op) ∈ binaryOps level)
    (r : ByteRange) (more : List Located) : Follows (⟨.symbol s, r⟩ :: more) := by
  have hs := (binary?_eq_some_iff s op level).mpr h
  exact follows_symbol (by rintro rfl; cases hs) (by rintro rfl; cases hs) r more

theorem not_assign_of_follows {rest : List Located} (h : Follows rest) :
    rest.head?.any isAssign = false := by
  cases rest with
  | nil => rfl
  | cons t more =>
      obtain ⟨token, r⟩ := t
      cases token with
      | symbol s => cases s <;> first | rfl | exact ((h r more).2 rfl).elim
      | _ => rfl

theorem Derives.one_mem {level : Nat} {ts : List Located} {ds : List Nat} {e : Expr}
    (h : Derives level ts ds e) : 1 ∈ ds := by
  match h with
  | .tighter _ h => exact h.one_mem
  | .binary .. | .sign .. | .number .. | .text .. | .bool .. | .unit .. | .var .. | .group ..
  | .call0 .. | .call .. => simp

mutual

-- No expression starts where its group would end.
theorem Derives.head_ne_close {level : Nat} {ts : List Located} {ds : List Nat} {e : Expr}
    (h : Derives level ts ds e) (more : List Located) (r : ByteRange) (others : List Located) :
    ts ++ more ≠ ⟨.symbol .close, r⟩ :: others := by
  match h with
  | .tighter _ h => exact h.head_ne_close more r others
  | .binary _ _ h _ =>
      rw [List.append_assoc]
      exact h.head_ne_close _ r others
  | .sign _ hs _ =>
      rintro heq
      cases heq
      simp [signs] at hs
  | .number .. | .text .. | .bool .. | .unit .. | .var .. | .group .. | .call0 .. | .call .. => simp

theorem DerivesList.head_ne_close {ts : List Located} {ds : List Nat} {es : List Expr}
    (h : DerivesList ts ds es) (more : List Located) (r : ByteRange) (others : List Located) :
    ts ++ more ≠ ⟨.symbol .close, r⟩ :: others := by
  match h with
  | .last h => exact h.head_ne_close more r others
  | .more _ h _ =>
      rw [List.append_assoc]
      exact h.head_ne_close _ r others

end

-- The operand reader takes exactly the tokens of an operand, when it may nest deep enough.
def OperandTakes (ts : List Located) (ds : List Nat) (e : Expr) : Prop :=
  ∀ (place : Place) (bound : Nat) (rest : List Located), Follows rest → ∀ first middle,
    Reads ((readers place bound).operand (ts ++ rest)) first middle ↔
      (∀ d ∈ ds, d ≤ bound) ∧ first = e ∧ middle = rest

-- An operand and a chain at a level no tighter than the expression's come to stand after it.
def ChainTakes (level : Nat) (ts : List Located) (ds : List Nat) (e : Expr) : Prop :=
  ∀ (place : Place) (bound least : Nat) (rest : List Located), least ≤ level →
    joint rest ≤ level → Follows rest → ∀ tree rest',
    (∃ first middle, Reads (operand place (readers place bound) (ts ++ rest)) first middle ∧
        Chains (readers place bound).expression least first middle tree rest') ↔
      (∀ d ∈ ds, d ≤ bound + 1) ∧ Chains (readers place bound).expression least e rest tree rest'

def ExpressionTakes (level : Nat) (ts : List Located) (ds : List Nat) (e : Expr) : Prop :=
  ∀ (place : Place) (bound : Nat) (rest : List Located), joint rest < max level 1 →
    Follows rest → ∀ tree rest',
    Reads ((readers place bound).expression level (ts ++ rest)) tree rest' ↔
      (∀ d ∈ ds, d ≤ bound) ∧ tree = e ∧ rest' = rest

theorem chainTakes_of_operandTakes {ts : List Located} {ds : List Nat} {e : Expr}
    (h : OperandTakes ts ds e) (level : Nat) : ChainTakes level ts ds e := by
  intro place bound least rest _ _ hf tree rest'
  have ho := h place (bound + 1) rest hf
  constructor
  · rintro ⟨first, middle, hr, hc⟩
    obtain ⟨hd, rfl, rfl⟩ := (ho first middle).mp hr
    exact ⟨hd, hc⟩
  · rintro ⟨hd, hc⟩
    exact ⟨e, rest, (ho e rest).mpr ⟨hd, rfl, rfl⟩, hc⟩

theorem expressionTakes_of_chainTakes {level : Nat} {ts : List Located} {ds : List Nat} {e : Expr}
    (h : ChainTakes level ts ds e) (hd : 1 ∈ ds) : ExpressionTakes level ts ds e := by
  intro place bound rest hj hf tree rest'
  cases bound with
  | zero =>
      constructor
      · intro hr
        exact (not_reads_error _ tree rest' hr).elim
      · rintro ⟨hb, -⟩
        have := hb 1 hd
        omega
  | succ bound =>
      change Reads (expression place (readers place bound) level (ts ++ rest)) tree rest' ↔ _
      have hjoint : joint rest ≤ level := by omega
      rw [reads_expression_iff, h place bound level rest (Nat.le_refl _) hjoint hf tree rest',
        chains_of_joint_lt hj]
      constructor
      · rintro ⟨⟨hb, rfl, rfl⟩, -⟩
        exact ⟨hb, rfl, rfl⟩
      · rintro ⟨hb, rfl, rfl⟩
        exact ⟨⟨hb, rfl, rfl⟩, not_assign_of_follows hf⟩

theorem chainTakes_binary {level : Nat} {s : Symbol} {op : BinaryOp} {ts us : List Located}
    {ds es : List Nat} {left right : Expr} (hs : (s, op) ∈ binaryOps level)
    (hl : ChainTakes level ts ds left) (hr : ExpressionTakes (level + 1) us es right)
    (r : ByteRange) :
    ChainTakes level (ts ++ ⟨.symbol s, r⟩ :: us) (ds ++ 1 :: es.map (· + 1))
      (.binary op left right) := by
  intro place bound least rest hleast hj hf tree rest'
  have hjs := joint_of_mem hs r (us ++ rest)
  have hleft := hl place bound least (⟨.symbol s, r⟩ :: (us ++ rest)) hleast (by omega)
    (follows_of_mem hs r _) tree rest'
  have hright := hr place bound rest (by omega) hf
  rw [List.append_assoc, List.cons_append, hleft, chains_cons_iff hs hleast]
  constructor
  · rintro ⟨hd, inner, middle, hi, hc⟩
    obtain ⟨he, rfl, rfl⟩ := (hright inner middle).mp hi
    exact ⟨by simpa [or_imp, forall_and] using ⟨hd, he⟩, hc⟩
  · rintro ⟨hd, hc⟩
    have hb : (∀ d ∈ ds, d ≤ bound + 1) ∧ ∀ d ∈ es, d ≤ bound := by
      simpa [or_imp, forall_and] using hd
    exact ⟨hb.1, right, rest, (hright right rest).mpr ⟨hb.2, rfl, rfl⟩, hc⟩

-- A reader of `bound` levels that is an operand for `bound + 1`.
theorem operandTakes_of_succ {ts : List Located} {ds : List Nat} {e : Expr} (hd : 1 ∈ ds)
    (h : ∀ (place : Place) (bound : Nat) (rest : List Located), Follows rest → ∀ first middle,
      Reads (operand place (readers place bound) (ts ++ rest)) first middle ↔
        (∀ d ∈ ds, d ≤ bound + 1) ∧ first = e ∧ middle = rest) : OperandTakes ts ds e := by
  intro place bound rest hf first middle
  cases bound with
  | zero =>
      constructor
      · intro hr
        exact (not_reads_error _ first middle hr).elim
      · rintro ⟨hb, -⟩
        have := hb 1 hd
        omega
  | succ bound => exact h place bound rest hf first middle

theorem operandTakes_sign {s : Symbol} {op : UnaryOp} {ts : List Located} {ds : List Nat}
    {e : Expr} (hs : (s, op) ∈ signs) (h : OperandTakes ts ds e) (r : ByteRange) :
    OperandTakes (⟨.symbol s, r⟩ :: ts) (1 :: ds.map (· + 1)) (.unary op e) := by
  apply operandTakes_of_succ (by simp)
  intro place bound rest hf first middle
  rw [List.cons_append, reads_sign_iff hs]
  have hi := h place bound rest hf
  constructor
  · rintro ⟨inner, hr, rfl⟩
    obtain ⟨hd, rfl, rfl⟩ := (hi inner middle).mp hr
    exact ⟨by simpa using hd, rfl, rfl⟩
  · rintro ⟨hd, rfl, rfl⟩
    exact ⟨e, (hi e middle).mpr ⟨by simpa using hd, rfl, rfl⟩, rfl⟩

-- What stands alone is read the same way under every bound that its own parts allow.
theorem operandTakes_alone {ts : List Located} {ds : List Nat} {e : Expr} (hd : 1 ∈ ds)
    (hs : ∀ rest, ¬StartsWithSign (ts ++ rest))
    (h : ∀ (place : Place) (bound : Nat) (rest : List Located), Follows rest → ∀ first middle,
      ReadsAlone place ((readers place bound).expression 0) (ts ++ rest) first middle ↔
        (∀ d ∈ ds, d ≤ bound + 1) ∧ first = e ∧ middle = rest) : OperandTakes ts ds e := by
  apply operandTakes_of_succ hd
  intro place bound rest hf first middle
  rw [operand_eq_primary (hs rest), ← h place bound rest hf first middle]
  exact ⟨readsAlone_of_reads, reads_of_readsAlone⟩

-- What has no parts is read under every bound.
theorem operandTakes_fixed {ts : List Located} {ds : List Nat} {e : Expr} (hd : 1 ∈ ds)
    (hone : ∀ d ∈ ds, d = 1)
    (h : ∀ (place : Place) (inner : ExprParser) (rest : List Located), Follows rest →
      ReadsAlone place inner (ts ++ rest) e rest) : OperandTakes ts ds e := by
  apply operandTakes_of_succ hd
  intro place bound rest hf first middle
  have hr := h place ((readers place bound).expression 0) rest hf
  rw [operand_eq_primary hr.not_sign]
  constructor
  · intro hf
    obtain ⟨rfl, rfl⟩ := hf.unique (reads_of_readsAlone hr)
    refine ⟨fun d hm => ?_, rfl, rfl⟩
    rw [hone d hm]
    omega
  · rintro ⟨-, rfl, rfl⟩
    exact reads_of_readsAlone hr

theorem operandTakes_group {ts : List Located} {ds : List Nat} {e : Expr}
    (hder : Derives 0 ts ds e) (h : ExpressionTakes 0 ts ds e) (r r' : ByteRange) :
    OperandTakes (⟨.symbol .open, r⟩ :: (ts ++ [⟨.symbol .close, r'⟩]))
      (1 :: (ds.map (· + 1) ++ [1])) e := by
  apply operandTakes_alone (by simp)
  · rintro rest ⟨s, op, r'', more, hs, heq⟩
    cases heq
    simp [signs] at hs
  · intro place bound rest hf first middle
    have hi := h place bound (⟨.symbol .close, r'⟩ :: rest) (by simp [joint, Symbol.binary?])
      (follows_symbol (by decide) (by decide) r' rest)
    simp only [List.cons_append, List.append_assoc, List.nil_append]
    constructor
    · intro hr
      have hn := hder.head_ne_close (⟨.symbol .close, r'⟩ :: rest)
      generalize ts ++ ⟨.symbol .close, r'⟩ :: rest = input at hr hi hn
      cases hr with
      | unit r r' => exact (hn _ _ rfl).elim
      | group r r'' _ hr =>
          obtain ⟨hd, rfl, heq⟩ := (hi _ _).mp hr
          cases heq
          exact ⟨by simpa [or_imp, forall_and] using hd, rfl, rfl⟩
    · rintro ⟨hd, rfl, rfl⟩
      exact .group r r' (hder.head_ne_close _)
        ((hi _ _).mpr ⟨by simpa [or_imp, forall_and] using hd, rfl, rfl⟩)

-- The arguments of a call, up to its closing parenthesis.
def ArgumentsTake (ts : List Located) (ds : List Nat) (es : List Expr) : Prop :=
  ∀ (place : Place) (bound : Nat) (r : ByteRange) (rest : List Located) (trees : List Expr)
    (rest' : List Located),
    Reads (arguments place ((readers place bound).expression 0)
        (ts ++ ⟨.symbol .close, r⟩ :: rest)) trees rest' ↔
      (∀ d ∈ ds, d ≤ bound + 1) ∧ trees = es ∧ rest' = rest

theorem argumentsTake_last {ts : List Located} {ds : List Nat} {e : Expr}
    (h : ExpressionTakes 0 ts ds e) : ArgumentsTake ts (ds.map (· + 1)) [e] := by
  intro place bound r rest trees rest'
  have hi := h place bound (⟨.symbol .close, r⟩ :: rest) (by simp [joint, Symbol.binary?])
    (follows_symbol (by decide) (by decide) r rest)
  rw [reads_arguments_iff, forall_map_succ_le]
  constructor
  · rintro ⟨first, middle, hr, ho⟩
    obtain ⟨hd, rfl, rfl⟩ := (hi first middle).mp hr
    rcases ho with ⟨r', heq, rfl⟩ | ⟨r', more, others, heq, -⟩
    · cases heq
      exact ⟨hd, rfl, rfl⟩
    · cases heq
  · rintro ⟨hd, rfl, rfl⟩
    exact ⟨e, _, (hi e _).mpr ⟨hd, rfl, rfl⟩, .inl ⟨r, rfl, rfl⟩⟩

theorem argumentsTake_more {ts us : List Located} {ds ns : List Nat} {e : Expr} {es : List Expr}
    (h : ExpressionTakes 0 ts ds e) (hm : ArgumentsTake us ns es) (r : ByteRange) :
    ArgumentsTake (ts ++ ⟨.symbol .comma, r⟩ :: us) (ds.map (· + 1) ++ 1 :: ns) (e :: es) := by
  intro place bound r' rest trees rest'
  have hi := h place bound (⟨.symbol .comma, r⟩ :: (us ++ ⟨.symbol .close, r'⟩ :: rest))
    (by simp [joint, Symbol.binary?]) (follows_symbol (by decide) (by decide) r _)
  have hbound : (∀ d ∈ ds.map (· + 1) ++ 1 :: ns, d ≤ bound + 1) ↔
      (∀ d ∈ ds, d ≤ bound) ∧ ∀ d ∈ ns, d ≤ bound + 1 := by
    simp [or_imp, forall_and]
  rw [List.append_assoc, List.cons_append, reads_arguments_iff, hbound]
  constructor
  · rintro ⟨first, middle, hr, ho⟩
    obtain ⟨hd, rfl, rfl⟩ := (hi first middle).mp hr
    rcases ho with ⟨_, heq, -⟩ | ⟨_, more, others, heq, ho, rfl⟩
    · cases heq
    · cases heq
      obtain ⟨hn, rfl, rfl⟩ := (hm place bound r' rest others rest').mp ho
      exact ⟨⟨hd, hn⟩, rfl, rfl⟩
  · rintro ⟨⟨hd, hn⟩, rfl, rfl⟩
    exact ⟨e, _, (hi e _).mpr ⟨hd, rfl, rfl⟩,
      .inr ⟨r, _, es, rfl, (hm place bound r' rest' es rest').mpr ⟨hn, rfl, rfl⟩, rfl⟩⟩

theorem operandTakes_call {ts : List Located} {ds : List Nat} {es : List Expr}
    (hder : DerivesList ts ds es) (h : ArgumentsTake ts ds es) (name : String)
    (r r' r'' : ByteRange) :
    OperandTakes (⟨.name name, r⟩ :: ⟨.symbol .open, r'⟩ :: (ts ++ [⟨.symbol .close, r''⟩]))
      (1 :: 1 :: (ds ++ [1])) (.call name r es) := by
  apply operandTakes_alone (by simp)
  · rintro rest ⟨s, op, r'', more, -, heq⟩
    cases heq
  · intro place bound rest hf first middle
    have hi := h place bound r'' rest
    have hbound : (∀ d ∈ 1 :: 1 :: (ds ++ [1]), d ≤ bound + 1) ↔ ∀ d ∈ ds, d ≤ bound + 1 := by
      simp [or_imp, forall_and]
    simp only [List.cons_append, List.append_assoc, List.nil_append, hbound]
    constructor
    · intro hr
      have hn := hder.head_ne_close (⟨.symbol .close, r''⟩ :: rest)
      generalize ts ++ ⟨.symbol .close, r''⟩ :: rest = input at hr hi hn
      cases hr with
      | var name r _ hv => exact (hv _ _ rfl).elim
      | call0 name r r' r'' => exact (hn _ _ rfl).elim
      | call name r r' _ ha =>
          obtain ⟨hd, rfl, rfl⟩ := (hi _ _).mp ha
          exact ⟨hd, rfl, rfl⟩
    · rintro ⟨hd, rfl, rfl⟩
      exact .call name r r' (hder.head_ne_close _) ((hi _ _).mpr ⟨hd, rfl, rfl⟩)

-- An expression that stands alone or after a sign is an operand as well.
def Takes (level : Nat) (ts : List Located) (ds : List Nat) (e : Expr) : Prop :=
  ChainTakes level ts ds e ∧ (7 ≤ level → OperandTakes ts ds e)

theorem takes_of_operandTakes {level : Nat} {ts : List Located} {ds : List Nat} {e : Expr}
    (h : OperandTakes ts ds e) : Takes level ts ds e :=
  ⟨chainTakes_of_operandTakes h level, fun _ => h⟩

mutual

-- Every derivation is what the readers find, as soon as they may nest deep enough.
theorem Derives.takes {level : Nat} {ts : List Located} {ds : List Nat} {e : Expr}
    (h : Derives level ts ds e) : Takes level ts ds e := by
  match h with
  | .tighter hl h =>
      obtain ⟨hc, ho⟩ := h.takes
      refine ⟨?_, fun hlevel => ho (by omega)⟩
      intro place bound least rest hleast hj hf
      exact hc place bound least rest (by omega) (by omega) hf
  | .binary r hs hl hr =>
      have hright := expressionTakes_of_chainTakes hr.takes.1 hr.one_mem
      refine ⟨chainTakes_binary hs hl.takes.1 hright r, fun hlevel => ?_⟩
      have := level_of_mem_binaryOps hs
      omega
  | .sign r hs h => exact takes_of_operandTakes (operandTakes_sign hs (h.takes.2 (Nat.le_refl 7)) r)
  | .number value r =>
      exact takes_of_operandTakes (operandTakes_fixed (by simp) (by simp)
        fun _ _ rest _ => .number value r rest)
  | .text value r =>
      exact takes_of_operandTakes (operandTakes_fixed (by simp) (by simp)
        fun _ _ rest _ => .text value r rest)
  | .bool value r =>
      exact takes_of_operandTakes (operandTakes_fixed (by simp) (by simp)
        fun _ _ rest _ => .bool value r rest)
  | .unit r r' =>
      exact takes_of_operandTakes (operandTakes_fixed (by simp) (by simp)
        fun _ _ rest _ => .unit r r' rest)
  | .var name r =>
      exact takes_of_operandTakes (operandTakes_fixed (by simp) (by simp)
        fun _ _ rest hf => .var name r rest fun r' more => (hf r' more).1)
  | .group r r' h =>
      have hi := expressionTakes_of_chainTakes h.takes.1 h.one_mem
      exact takes_of_operandTakes (operandTakes_group h hi r r')
  | .call0 name r r' r'' =>
      exact takes_of_operandTakes (operandTakes_fixed (by simp) (by simp)
        fun _ _ rest _ => .call0 name r r' r'' rest)
  | .call name r r' r'' h =>
      exact takes_of_operandTakes (operandTakes_call h h.take name r r' r'')

theorem DerivesList.take {ts : List Located} {ds : List Nat} {es : List Expr}
    (h : DerivesList ts ds es) : ArgumentsTake ts ds es := by
  match h with
  | .last h => exact argumentsTake_last (expressionTakes_of_chainTakes h.takes.1 h.one_mem)
  | .more r h hs =>
      exact argumentsTake_more (expressionTakes_of_chainTakes h.takes.1 h.one_mem) hs.take r

end

theorem Derives.reads_iff {ts : List Located} {ds : List Nat} {e : Expr} (h : Derives 0 ts ds e)
    (place : Place) (bound : Nat) (tree : Expr) (rest : List Located) :
    Reads ((readers place bound).expression 0 ts) tree rest ↔
      (∀ d ∈ ds, d ≤ bound) ∧ tree = e ∧ rest = [] := by
  have ht := expressionTakes_of_chainTakes h.takes.1 h.one_mem
  have hr := ht place bound [] (by simp [joint]) follows_nil tree rest
  rwa [List.append_nil] at hr

-- A token sequence has one tree, and all its derivations nest equally deep.
theorem Derives.unique {ts : List Located} {ds ds' : List Nat} {e e' : Expr}
    (h : Derives 0 ts ds e) (h' : Derives 0 ts ds' e') :
    e' = e ∧ ∀ bound, (∀ d ∈ ds, d ≤ bound) ↔ ∀ d ∈ ds', d ≤ bound := by
  let place : Place := ⟨⟨0, 0⟩, 1⟩
  have hsame : ∀ bound, ((∀ d ∈ ds, d ≤ bound) ∧ e' = e) ↔ ∀ d ∈ ds', d ≤ bound := by
    intro bound
    have hr := (h.reads_iff place bound e' []).symm.trans (h'.reads_iff place bound e' [])
    simpa using hr
  have htop : ∀ d ∈ ds', d ≤ ds'.sum := fun d hd => List.le_sum_of_mem hd
  obtain ⟨-, rfl⟩ := (hsame ds'.sum).mpr htop
  exact ⟨rfl, fun bound => by simpa using hsame bound⟩

theorem whole_eq_ok_iff (place : Place) (trailing : Fault) (input : List Located) (e : Expr) :
    whole place trailing input = .ok e ↔
      ∃ ds, Derives 0 input ds e ∧ ∀ d ∈ ds, d ≤ maxNesting := by
  have hread : whole place trailing input = .ok e ↔
      Reads ((readers place maxNesting).expression 0 input) e [] := by
    unfold whole
    cases h : (readers place maxNesting).expression 0 input with
    | error fault =>
        constructor
        · intro he
          cases he
        · intro he
          exact (not_reads_error fault e [] he).elim
    | ok p =>
        rw [reads_ok_iff]
        change (if p.rest = [] then _ else _) = _ ↔ _
        split
        · rename_i hr
          simp [hr, eq_comm]
        · rename_i hr
          simp [Ne.symm hr]
  rw [hread]
  constructor
  · intro h
    obtain ⟨⟨ts, ds, rfl, hder, hds⟩, -⟩ :=
      (readersCover place maxNesting).expression 0 (by omega) input e [] h
    exact ⟨ds, by simpa using hder, hds⟩
  · rintro ⟨ds, hder, hds⟩
    exact (hder.reads_iff place maxNesting e []).mpr ⟨hds, rfl, rfl⟩

-- The tokens of `-f(a)*(b)`.
def signTimesGroup : List Located :=
  [⟨.symbol .minus, ⟨4, 5⟩⟩, ⟨.name "f", ⟨5, 6⟩⟩, ⟨.symbol .open, ⟨6, 7⟩⟩,
    ⟨.name "a", ⟨7, 8⟩⟩, ⟨.symbol .close, ⟨8, 9⟩⟩, ⟨.symbol .star, ⟨9, 10⟩⟩,
    ⟨.symbol .open, ⟨10, 11⟩⟩, ⟨.name "b", ⟨11, 12⟩⟩, ⟨.symbol .close, ⟨12, 13⟩⟩]

-- A sign binds tighter than a product, and parentheses leave no node.
def signTimesGroupTree : Expr :=
  .binary .multiply (.unary .negate (.call "f" ⟨5, 6⟩ [.var "a" ⟨7, 8⟩])) (.var "b" ⟨11, 12⟩)

theorem tokens_signTimesGroup : tokens 1 4 "-f(a)*(b)".toList = .ok signTimesGroup := by
  have hblank : "-f(a)*(b)".toList.any Text.isBlank = false := by decide +kernel
  have hname : "fab".toList.all isNameStart = true := by decide +kernel
  have hother : "-()*".toList.any isNameStart = false := by decide +kernel
  have hend : "()*".toList.any isNameChar = false := by decide +kernel
  simp at hblank hname hother hend
  simp [signTimesGroup, tokens, lexeme, hblank, hname, hother, hend, wordToken, symbolLexeme, Except.map,
    Char.isDigit, Char.utf8Size]

theorem derives_signTimesGroup :
    Derives 0 signTimesGroup [1, 2, 2, 3, 2, 1, 2, 3, 2] signTimesGroupTree := by
  have hname : Derives 0 _ _ _ := (Derives.var "a" ⟨7, 8⟩).mono (by decide) (by decide)
  have hcall : Derives 7 _ _ _ :=
    (Derives.call "f" ⟨5, 6⟩ ⟨6, 7⟩ ⟨8, 9⟩ (.last hname)).mono (by decide) (by decide)
  have hminus : (Symbol.minus, UnaryOp.negate) ∈ signs := by decide
  have hsign : Derives 6 _ _ _ :=
    (Derives.sign ⟨4, 5⟩ hminus hcall).mono (by decide) (by decide)
  have hvar : Derives 0 _ _ _ := (Derives.var "b" ⟨11, 12⟩).mono (by decide) (by decide)
  have hgroup : Derives 7 _ _ _ :=
    (Derives.group ⟨10, 11⟩ ⟨12, 13⟩ hvar).mono (by decide) (by decide)
  have hstar : (Symbol.star, BinaryOp.multiply) ∈ binaryOps 6 := by decide
  have hproduct : Derives 6 _ _ _ := Derives.binary ⟨9, 10⟩ hstar hsign hgroup
  exact hproduct.mono (by decide) (by decide)

-- The parser accepts exactly the token sequences of the grammar that nest at most 128 deep, and
-- gives their one tree.
theorem parseExpr_iff_derives {text : List Char} {offset : Nat} {located : List Located}
    (hl : tokens 1 offset text = .ok located) :
    (∀ e, parseExpr text offset = .ok e ↔
      ∃ ds, Derives 0 located ds e ∧ ∀ d ∈ ds, d ≤ 128) ∧
    ∀ ds ds' e e', Derives 0 located ds e → Derives 0 located ds' e' →
      e' = e ∧ ∀ bound, (∀ d ∈ ds, d ≤ bound) ↔ ∀ d ∈ ds', d ≤ bound := by
  constructor
  · intro e
    unfold parseExpr
    rw [hl]
    exact whole_eq_ok_iff _ _ located e
  · intro ds ds' e e' h h'
    exact h.unique h'

theorem parseExpr_signTimesGroup :
    tokens 1 4 "-f(a)*(b)".toList = .ok signTimesGroup ∧
      parseExpr "-f(a)*(b)".toList 4 = .ok signTimesGroupTree :=
  ⟨tokens_signTimesGroup, ((parseExpr_iff_derives tokens_signTimesGroup).1 _).mpr
    ⟨_, derives_signTimesGroup, by decide⟩⟩

end LiveDoc.Calc
