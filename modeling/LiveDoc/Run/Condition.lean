import LiveDoc.Calc.Eval
import LiveDoc.Run.Error

namespace LiveDoc

-- Decides a condition. It reads the session and cannot change it; a name that is not bound is
-- an error and not a false condition.
def evaluateGuard (guard : Calc.Guard) (source : String) (span : Span) (session : Calc.Session) :
    Except RunError Bool :=
  match ((Calc.evaluate Calc.noCalls session guard.expr).run ()).1 with
  | .ok value => .ok value.isTruthy
  | .error (.undefinedVariable name) =>
      match guard.expr.firstRead? name with
      | some range => .error (.undefined name source ⟨span.source, range, span.line⟩)
      | none => .error (.undefined name source span)
  | .error cause => .error (.guard source cause span)

end LiveDoc
