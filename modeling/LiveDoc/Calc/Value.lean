import LiveDoc.Calc.Expr
import LiveDoc.Decimal.Shortest

namespace LiveDoc.Calc

-- Equality is the program's own: a number that is none differs from itself.
inductive Value where
  | number (value : Float)
  | bool (value : Bool)
  | text (value : String)
  | unit
  deriving BEq, Repr, Inhabited

inductive Kind where
  | number
  | bool
  | text
  | unit
  deriving DecidableEq, Repr

def Value.kind : Value → Kind
  | .number _ => .number
  | .bool _ => .bool
  | .text _ => .text
  | .unit => .unit

def Kind.name : Kind → String
  | .number => "Number"
  | .bool => "Boolean"
  | .text => "String"
  | .unit => "Unit"

-- Zero of either sign, the empty text, the unit and `false` count as false.
def Value.isFalsy : Value → Bool
  | .number value => value == 0.0
  | .bool value => !value
  | .text value => value.isEmpty
  | .unit => true

def Value.isTruthy (value : Value) : Bool := !value.isFalsy

-- Zero is written without a sign.
def Value.display : Value → String
  | .number value => if value == 0.0 then "0" else Decimal.text value
  | .bool true => "true"
  | .bool false => "false"
  | .text value => value
  | .unit => "()"

end LiveDoc.Calc
