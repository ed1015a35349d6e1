import LiveDoc.Calc.Error
import LiveDoc.Calc.Session

namespace LiveDoc.Calc

-- A computation that keeps what its calls did, also when it fails.
abbrev Eval (σ α : Type) := ExceptT ScriptError (StateM σ) α

-- What a call does and returns.
abbrev Calls (σ : Type) := String → List Value → Eval σ Value

-- Handler for places where no call can stand.
def noCalls : Calls Unit := fun function _ => throw (.unknownFunction function)

def Value.asNumber : Value → Except ScriptError Float
  | .number value => .ok value
  | other => .error (.kindMismatch .number other.kind)

def Value.asText : Value → Except ScriptError String
  | .text value => .ok value
  | other => .error (.kindMismatch .text other.kind)

def arithmetic (f : Float → Float → Except ScriptError Float) (left right : Value) :
    Except ScriptError Value := do
  let a ← left.asNumber
  let b ← right.asNumber
  (f a b).map .number

def unlessZero (f : Float → Float → Float) (a b : Float) : Except ScriptError Float :=
  if b == 0.0 then .error .divisionByZero else .ok (f a b)

-- Texts compare by their characters, anything else as numbers.
def comparison (texts : String → String → Bool) (numbers : Float → Float → Bool)
    (left right : Value) : Except ScriptError Value :=
  match left, right with
  | .text a, .text b => .ok (.bool (texts a b))
  | _, _ => do
      let a ← left.asNumber
      let b ← right.asNumber
      .ok (.bool (numbers a b))

-- The value of an operator whose two operands are both needed.
def BinaryOp.apply (op : BinaryOp) (left right : Value) : Except ScriptError Value :=
  match op with
  | .add =>
      match left, right with
      | .number a, .number b => .ok (.number (a + b))
      | .text a, .text b => .ok (.text (a ++ b))
      | _, _ => .error (.unlikeOperands left.kind right.kind)
  | .subtract => arithmetic (fun a b => .ok (a - b)) left right
  | .multiply => arithmetic (fun a b => .ok (a * b)) left right
  | .divide => arithmetic (unlessZero (· / ·)) left right
  | .modulo => arithmetic (unlessZero Decimal.remainder) left right
  | .equal => .ok (.bool (left == right))
  | .notEqual => .ok (.bool (left != right))
  | .greater => comparison (fun a b => b < a) (fun a b => b < a) left right
  | .less => comparison (fun a b => a < b) (fun a b => a < b) left right
  | .greaterEqual => comparison (fun a b => b ≤ a) (fun a b => b ≤ a) left right
  | .lessEqual => comparison (fun a b => a ≤ b) (fun a b => a ≤ b) left right
  | .and | .or => .ok (.bool right.isTruthy)

-- The value that the left operand settles alone.
def BinaryOp.decided? (op : BinaryOp) (left : Value) : Option Value :=
  match op with
  | .and => if left.isFalsy then some (.bool false) else none
  | .or => if left.isTruthy then some (.bool true) else none
  | _ => none

def UnaryOp.apply (op : UnaryOp) (operand : Value) : Except ScriptError Value :=
  match op with
  | .negate => operand.asNumber.map fun value => .number (-value)
  | .not => .ok (.bool operand.isFalsy)

def maxDepth : Nat := 256

-- Runs at a depth, unless the depth is past the limit.
def atDepth {σ α : Type} (depth : Nat) (action : Eval σ α) : Eval σ α :=
  if maxDepth < depth then throw .tooDeep else action

mutual

-- The value of an expression that stands at `depth`. The operators of a chain such as
-- `a + b + c` share one depth: when `chained`, the expression is the left operand of an operator
-- at `depth`, and only what is no operator itself lies one deeper.
def evalAt {σ : Type} (calls : Calls σ) (session : Session) (chained : Bool) (depth : Nat) :
    Expr → Eval σ Value
  | .binary op left right =>
      let value : Eval σ Value := do
        let l ← evalAt calls session true depth left
        match op.decided? l with
        | some v => pure v
        | none =>
            let r ← evalAt calls session false (depth + 1) right
            op.apply l r
      if chained then value else atDepth depth value
  | .number value => atDepth (if chained then depth + 1 else depth) (pure (.number value))
  | .text value => atDepth (if chained then depth + 1 else depth) (pure (.text value))
  | .bool value => atDepth (if chained then depth + 1 else depth) (pure (.bool value))
  | .unit => atDepth (if chained then depth + 1 else depth) (pure .unit)
  | .var name _ =>
      atDepth (if chained then depth + 1 else depth) <|
        match session.get? name with
        | some value => pure value
        | none => throw (.undefinedVariable name)
  | .call function _ arguments =>
      let own := if chained then depth + 1 else depth
      atDepth own do
        let values ← evalList calls session (own + 1) arguments
        calls function values
  | .unary op operand =>
      let own := if chained then depth + 1 else depth
      atDepth own do
        let value ← evalAt calls session false (own + 1) operand
        op.apply value

-- Arguments from left to right, the first error ending them.
def evalList {σ : Type} (calls : Calls σ) (session : Session) (depth : Nat) :
    List Expr → Eval σ (List Value)
  | [] => pure []
  | e :: rest => do
      let value ← evalAt calls session false depth e
      let values ← evalList calls session depth rest
      pure (value :: values)

end

def evaluate {σ : Type} (calls : Calls σ) (session : Session) (expr : Expr) : Eval σ Value :=
  evalAt calls session false 0 expr

end LiveDoc.Calc
