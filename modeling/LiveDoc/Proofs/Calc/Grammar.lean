import LiveDoc.Calc.Parser

namespace LiveDoc.Calc

namespace Grammar

-- The binary operators of each level, the loosest first.
def binaryOps : Nat → List (Symbol × BinaryOp)
  | 1 => [(.or, .or)]
  | 2 => [(.and, .and)]
  | 3 => [(.equal, .equal), (.notEqual, .notEqual)]
  | 4 => [(.less, .less), (.greater, .greater), (.lessEqual, .lessEqual),
      (.greaterEqual, .greaterEqual)]
  | 5 => [(.plus, .add), (.minus, .subtract)]
  | 6 => [(.star, .multiply), (.slash, .divide), (.percent, .modulo)]
  | _ => []

def signs : List (Symbol × UnaryOp) := [(.not, .not), (.minus, .negate)]

end Grammar

open Grammar

mutual

-- `Derives level ts ds e`: the tokens `ts` are an expression of that level with the tree `e`, and
-- `ds` says how deep each of them is nested, counted from one. Level 0 is any expression, levels
-- 1 to 6 have the binary operators, 7 the signs, 8 what stands alone. A chain of operators grows
-- to the left, so only right operands are nested.
inductive Derives : Nat → List Located → List Nat → Expr → Prop
  | tighter {level : Nat} {ts : List Located} {ds : List Nat} {e : Expr} :
      level < 8 → Derives (level + 1) ts ds e → Derives level ts ds e
  | binary {level : Nat} {s : Symbol} {op : BinaryOp} {ts us : List Located} {ds es : List Nat}
      {left right : Expr} (r : ByteRange) :
      (s, op) ∈ binaryOps level → Derives level ts ds left → Derives (level + 1) us es right →
      Derives level (ts ++ ⟨.symbol s, r⟩ :: us) (ds ++ 1 :: es.map (· + 1)) (.binary op left right)
  | sign {s : Symbol} {op : UnaryOp} {ts : List Located} {ds : List Nat} {e : Expr}
      (r : ByteRange) :
      (s, op) ∈ signs → Derives 7 ts ds e →
      Derives 7 (⟨.symbol s, r⟩ :: ts) (1 :: ds.map (· + 1)) (.unary op e)
  | number (value : Float) (r : ByteRange) : Derives 8 [⟨.number value, r⟩] [1] (.number value)
  | text (value : String) (r : ByteRange) : Derives 8 [⟨.text value, r⟩] [1] (.text value)
  | bool (value : Bool) (r : ByteRange) : Derives 8 [⟨.bool value, r⟩] [1] (.bool value)
  | unit (r r' : ByteRange) : Derives 8 [⟨.symbol .open, r⟩, ⟨.symbol .close, r'⟩] [1, 1] .unit
  | var (name : String) (r : ByteRange) : Derives 8 [⟨.name name, r⟩] [1] (.var name r)
  | group {ts : List Located} {ds : List Nat} {e : Expr} (r r' : ByteRange) :
      Derives 0 ts ds e →
      Derives 8 (⟨.symbol .open, r⟩ :: (ts ++ [⟨.symbol .close, r'⟩])) (1 :: (ds.map (· + 1) ++ [1])) e
  | call0 (name : String) (r r' r'' : ByteRange) :
      Derives 8 [⟨.name name, r⟩, ⟨.symbol .open, r'⟩, ⟨.symbol .close, r''⟩] [1, 1, 1]
        (.call name r [])
  | call {ts : List Located} {ds : List Nat} {es : List Expr} (name : String)
      (r r' r'' : ByteRange) :
      DerivesList ts ds es →
      Derives 8 (⟨.name name, r⟩ :: ⟨.symbol .open, r'⟩ :: (ts ++ [⟨.symbol .close, r''⟩]))
        (1 :: 1 :: (ds ++ [1])) (.call name r es)

-- One or more arguments with a comma between any two.
inductive DerivesList : List Located → List Nat → List Expr → Prop
  | last {ts : List Located} {ds : List Nat} {e : Expr} :
      Derives 0 ts ds e → DerivesList ts (ds.map (· + 1)) [e]
  | more {ts us : List Located} {ds ns : List Nat} {e : Expr} {es : List Expr} (r : ByteRange) :
      Derives 0 ts ds e → DerivesList us ns es →
      DerivesList (ts ++ ⟨.symbol .comma, r⟩ :: us) (ds.map (· + 1) ++ 1 :: ns) (e :: es)

end

theorem binary?_eq_some_iff (s : Symbol) (op : BinaryOp) (level : Nat) :
    s.binary? = some (op, level) ↔ (s, op) ∈ binaryOps level := by
  constructor
  · intro h
    cases s <;> simp only [Symbol.binary?, Option.some.injEq, Prod.mk.injEq, reduceCtorEq] at h <;>
      obtain ⟨rfl, rfl⟩ := h <;> simp [binaryOps]
  · intro h
    unfold binaryOps at h
    split at h <;> simp only [List.mem_cons, Prod.mk.injEq, List.not_mem_nil, or_false] at h
    · obtain ⟨rfl, rfl⟩ := h; rfl
    · obtain ⟨rfl, rfl⟩ := h; rfl
    · rcases h with ⟨rfl, rfl⟩ | ⟨rfl, rfl⟩ <;> rfl
    · rcases h with ⟨rfl, rfl⟩ | ⟨rfl, rfl⟩ | ⟨rfl, rfl⟩ | ⟨rfl, rfl⟩ <;> rfl
    · rcases h with ⟨rfl, rfl⟩ | ⟨rfl, rfl⟩ <;> rfl
    · rcases h with ⟨rfl, rfl⟩ | ⟨rfl, rfl⟩ | ⟨rfl, rfl⟩ <;> rfl

theorem unary?_eq_some_iff (s : Symbol) (op : UnaryOp) :
    s.unary? = some op ↔ (s, op) ∈ signs := by
  cases s <;> cases op <;> simp [Symbol.unary?, signs]

theorem level_of_mem_binaryOps {s : Symbol} {op : BinaryOp} {level : Nat}
    (h : (s, op) ∈ binaryOps level) : 1 ≤ level ∧ level ≤ 6 := by
  unfold binaryOps at h
  split at h <;> simp at h ⊢

namespace Derives

theorem mono {level k : Nat} {ts : List Located} {ds : List Nat} {e : Expr}
    (h : Derives k ts ds e) (hk : k ≤ 8) (hl : level ≤ k) : Derives level ts ds e := by
  obtain ⟨steps, rfl⟩ := Nat.exists_eq_add_of_le hl
  induction steps with
  | zero => exact h
  | succ steps ih => exact ih (.tighter (by omega) h) (by omega) (by omega)

end Derives

end LiveDoc.Calc
