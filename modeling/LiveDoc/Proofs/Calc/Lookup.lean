import LiveDoc.Proofs.Calc.Depth
import LiveDoc.Run.Condition

namespace LiveDoc.Calc

-- The evaluation of an expression without calls, at a depth, comes to the place where a name is
-- read: nothing before it fails, and no left operand before it decides.
inductive LooksUp (session : Session) (name : String) : Bool → Nat → Expr → ByteRange → Prop
  | var {chained : Bool} {depth : Nat} (place : ByteRange) :
      depth + chained.toNat ≤ maxDepth → LooksUp session name chained depth (.var name place) place
  | operand {chained : Bool} {depth : Nat} {e : Expr} {place : ByteRange} (op : UnaryOp) :
      depth + chained.toNat ≤ maxDepth →
      LooksUp session name false (depth + chained.toNat + 1) e place →
      LooksUp session name chained depth (.unary op e) place
  | left {chained : Bool} {depth : Nat} {left right : Expr} {place : ByteRange} (op : BinaryOp) :
      (chained = false → depth ≤ maxDepth) → LooksUp session name true depth left place →
      LooksUp session name chained depth (.binary op left right) place
  | right {chained : Bool} {depth : Nat} {left right : Expr} {place : ByteRange} {op : BinaryOp}
      {value : Value} :
      (chained = false → depth ≤ maxDepth) →
      (evalAt noCalls session true depth left).run () = (.ok value, ()) →
      op.decided? value = none → LooksUp session name false (depth + 1) right place →
      LooksUp session name chained depth (.binary op left right) place

section LooksUp

variable {session : Session} {name : String} {chained : Bool} {depth : Nat} {place : ByteRange}

theorem atDepth_of_le {σ α : Type} (h : depth ≤ maxDepth) (action : Eval σ α) :
    atDepth depth action = action := if_neg (Nat.not_lt.mpr h)

theorem evalAt_binary {σ : Type} (calls : Calls σ) (op : BinaryOp) (left right : Expr)
    (h : chained = false → depth ≤ maxDepth) :
    evalAt calls session chained depth (.binary op left right) = (do
      let l ← evalAt calls session true depth left
      match op.decided? l with
      | some v => pure v
      | none =>
          let r ← evalAt calls session false (depth + 1) right
          op.apply l r) := by
  rw [evalAt]
  cases chained with
  | false => exact atDepth_of_le (h rfl) _
  | true => rfl

-- A name that is come to and not bound is what the evaluation fails with.
theorem LooksUp.run_evalAt {e : Expr} (h : LooksUp session name chained depth e place)
    (hfree : session.get? name = none) :
    (evalAt noCalls session chained depth e).run () = (.error (.undefinedVariable name), ()) := by
  induction h with
  | var place hdepth =>
      rw [evalAt, own_depth, atDepth_of_le hdepth, hfree]
      rfl
  | operand op hdepth _ ih =>
      rw [evalAt, own_depth, atDepth_of_le hdepth]
      exact Action.run_bind_of_error ih
  | left op hdepth _ ih =>
      rw [evalAt_binary _ _ _ _ hdepth]
      exact Action.run_bind_of_error ih
  | right hdepth hleft hundecided _ ih =>
      rw [evalAt_binary _ _ _ _ hdepth, Action.run_bind_of_ok hleft, hundecided]
      exact Action.run_bind_of_error ih

end LooksUp

end LiveDoc.Calc

namespace LiveDoc

theorem evaluateGuard_of_looksUp {guard : Calc.Guard} {session : Calc.Session} {name : String}
    {place : ByteRange} (h : Calc.LooksUp session name false 0 guard.expr place)
    (hfree : session.binding? name = none) (source : String) (span : Span) :
    ∃ found, evaluateGuard guard source span session = .error (.undefined name source found) := by
  have hget : session.get? name = none := by rw [Calc.Session.get?, hfree, Option.map_none]
  have heval : (Calc.evaluate Calc.noCalls session guard.expr).run () =
      (.error (.undefinedVariable name), ()) := h.run_evalAt hget
  rw [evaluateGuard, heval]
  dsimp only
  cases guard.expr.firstRead? name with
  | none => exact ⟨span, rfl⟩
  | some range => exact ⟨⟨span.source, range, span.line⟩, rfl⟩

end LiveDoc
