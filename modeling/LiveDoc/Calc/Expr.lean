import LiveDoc.Source.Span

namespace LiveDoc.Calc

inductive UnaryOp where
  | negate
  | not
  deriving DecidableEq, Repr

inductive BinaryOp where
  | add
  | subtract
  | multiply
  | divide
  | modulo
  | and
  | or
  | equal
  | notEqual
  | greater
  | less
  | greaterEqual
  | lessEqual
  deriving DecidableEq, Repr

-- Names keep their place in the text, for messages. Parentheses leave no node.
inductive Expr where
  | text (value : String)
  | number (value : Float)
  | bool (value : Bool)
  | unit
  | var (name : String) (place : ByteRange)
  | call (function : String) (place : ByteRange) (arguments : List Expr)
  | unary (op : UnaryOp) (operand : Expr)
  | binary (op : BinaryOp) (left right : Expr)
  deriving BEq, Repr, Inhabited

-- The first call, from left to right. The outermost one comes before its arguments.
def Expr.firstCall? : Expr → Option (String × ByteRange)
  | .call function place _ => some (function, place)
  | .unary _ operand => operand.firstCall?
  | .binary _ left right => left.firstCall?.or right.firstCall?
  | _ => none

mutual

-- Where `name` is read first, from left to right.
def Expr.firstRead? (name : String) : Expr → Option ByteRange
  | .var other place => if other = name then some place else none
  | .call _ _ arguments => firstReadIn? name arguments
  | .unary _ operand => operand.firstRead? name
  | .binary _ left right => (left.firstRead? name).or (right.firstRead? name)
  | _ => none

def Expr.firstReadIn? (name : String) : List Expr → Option ByteRange
  | [] => none
  | e :: rest => (e.firstRead? name).or (Expr.firstReadIn? name rest)

end

-- A condition reads the session and runs nothing.
structure Guard where
  expr : Expr
  callFree : expr.firstCall? = none

theorem callFree_bool (value : Bool) : (Expr.bool value).firstCall? = none := rfl

instance : BEq Guard := ⟨fun a b => a.expr == b.expr⟩

inductive Statement where
  | assign (name : String) (value : Expr) (line : Nat)
  | run (value : Expr) (line : Nat)
  deriving BEq, Repr

def Statement.line : Statement → Nat
  | .assign _ _ line => line
  | .run _ line => line

abbrev Script := List Statement

end LiveDoc.Calc
