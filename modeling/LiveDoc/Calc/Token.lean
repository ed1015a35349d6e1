import LiveDoc.Calc.Expr

namespace LiveDoc.Calc

inductive Symbol where
  | assign
  | equal
  | notEqual
  | not
  | greaterEqual
  | greater
  | lessEqual
  | less
  | and
  | or
  | plus
  | minus
  | star
  | slash
  | percent
  | comma
  | open
  | close
  deriving DecidableEq, Repr

def Symbol.spelling : Symbol → String
  | .assign => "="
  | .equal => "=="
  | .notEqual => "!="
  | .not => "!"
  | .greaterEqual => ">="
  | .greater => ">"
  | .lessEqual => "<="
  | .less => "<"
  | .and => "&&"
  | .or => "||"
  | .plus => "+"
  | .minus => "-"
  | .star => "*"
  | .slash => "/"
  | .percent => "%"
  | .comma => ","
  | .open => "("
  | .close => ")"

-- Higher levels bind tighter, and every level groups to the left.
def Symbol.binary? : Symbol → Option (BinaryOp × Nat)
  | .or => some (.or, 1)
  | .and => some (.and, 2)
  | .equal => some (.equal, 3)
  | .notEqual => some (.notEqual, 3)
  | .less => some (.less, 4)
  | .greater => some (.greater, 4)
  | .lessEqual => some (.lessEqual, 4)
  | .greaterEqual => some (.greaterEqual, 4)
  | .plus => some (.add, 5)
  | .minus => some (.subtract, 5)
  | .star => some (.multiply, 6)
  | .slash => some (.divide, 6)
  | .percent => some (.modulo, 6)
  | _ => none

def Symbol.unary? : Symbol → Option UnaryOp
  | .not => some .not
  | .minus => some .negate
  | _ => none

inductive Token where
  | number (value : Float)
  | text (value : String)
  | bool (value : Bool)
  | name (value : String)
  | symbol (value : Symbol)
  deriving BEq, Repr

structure Located where
  token : Token
  range : ByteRange
  deriving BEq, Repr

-- What is wrong with a text that is no expression.
inductive Fault where
  | unterminatedText
  | badNumber (literal : String)
  | loneSymbol (symbol : Char)
  | badCharacter (c : Char)
  | tooDeep
  | unexpectedEnd
  | unexpectedSymbol (symbol : Symbol)
  | missingClose
  | badArguments
  | misplacedAssign
  | afterExpression
  | afterAssignment
  | callInGuard (function : String)
  deriving DecidableEq, Repr

def Fault.message : Fault → String
  | .unterminatedText => "unterminated string literal"
  | .badNumber literal => "invalid number literal `" ++ literal ++ "`"
  | .loneSymbol c =>
      let s := String.singleton c
      "unexpected `" ++ s ++ "` (did you mean `" ++ s ++ s ++ "`?)"
  | .badCharacter c => "unexpected character `" ++ String.singleton c ++ "`"
  | .tooDeep => "expression nesting too deep"
  | .unexpectedEnd => "unexpected end of expression"
  | .unexpectedSymbol symbol => "unexpected `" ++ symbol.spelling ++ "`"
  | .missingClose => "expected `)`"
  | .badArguments => "expected `,` or `)` in argument list"
  | .misplacedAssign => "`=` is only valid at the start of a statement (use `==` to compare)"
  | .afterExpression => "unexpected tokens after expression"
  | .afterAssignment => "unexpected tokens after assignment"
  | .callInGuard function => "calls are not allowed in guards (found `" ++ function ++ "`)"

-- A line is counted from one inside a script and is one elsewhere.
structure SyntaxError where
  fault : Fault
  range : ByteRange
  line : Nat
  deriving DecidableEq, Repr

end LiveDoc.Calc
