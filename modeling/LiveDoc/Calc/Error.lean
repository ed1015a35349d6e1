import LiveDoc.Calc.Token
import LiveDoc.Calc.Value

namespace LiveDoc.Calc

inductive Arity where
  | exactly (count : Nat)
  | atLeast (count : Nat)
  deriving DecidableEq, Repr

def Arity.text : Arity → String
  | .exactly count => toString count
  | .atLeast count => "at least " ++ toString count

-- Why a script stops.
inductive ScriptError where
  | badSyntax (fault : Fault)
  | kindMismatch (expected got : Kind)
  | unlikeOperands (left right : Kind)
  | undefinedVariable (name : String)
  | unknownFunction (name : String)
  | arity (function : String) (expected : Arity) (got : Nat)
  | divisionByZero
  | tooDeep
  | badExtension (extension : String)
  | notFinite (value : Float)
  | failed (message : String)
  deriving BEq, Repr

def typeMessage (expected got : String) : String :=
  "type error: expected " ++ expected ++ ", got " ++ got

def ScriptError.message : ScriptError → String
  | .badSyntax fault => "syntax error: " ++ fault.message
  | .kindMismatch expected got => typeMessage expected.name got.name
  | .unlikeOperands left right =>
      typeMessage "matching numeric or string types" (left.name ++ " + " ++ right.name)
  | .undefinedVariable name => "undefined variable: " ++ name
  | .unknownFunction name => "unknown function: " ++ name
  | .arity function expected got =>
      "`" ++ function ++ "` expects " ++ expected.text ++ " argument(s), got " ++ toString got
  | .divisionByZero => "division by zero"
  | .tooDeep => "expression nested too deeply"
  | .badExtension extension => "invalid artifact extension `" ++ extension ++ "`"
  | .notFinite value => "bar_chart values must be finite, got " ++ Decimal.text value
  | .failed message => message

-- The line is counted from one inside the block, where it is known.
structure Failure where
  line : Option Nat
  error : ScriptError
  deriving BEq, Repr

end LiveDoc.Calc
