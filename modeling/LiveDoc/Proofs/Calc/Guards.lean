import LiveDoc.Calc.Execution
import LiveDoc.Proofs.Calc.Lookup
import LiveDoc.Proofs.Calc.Relocation
import LiveDoc.Proofs.Text.Lines
import Mathlib

namespace LiveDoc.Calc

open Text

-- A tree is part of a tree, at any depth.
inductive Expr.Occurs (part : Expr) : Expr → Prop
  | self : Occurs part part
  | operand {operand : Expr} (op : UnaryOp) : Occurs part operand → Occurs part (.unary op operand)
  | left {left : Expr} (op : BinaryOp) (right : Expr) :
      Occurs part left → Occurs part (.binary op left right)
  | right {right : Expr} (op : BinaryOp) (left : Expr) :
      Occurs part right → Occurs part (.binary op left right)
  | argument {own : Expr} {arguments : List Expr} (function : String) (place : ByteRange) :
      own ∈ arguments → Occurs part own → Occurs part (.call function place arguments)

def Expr.CallFree (e : Expr) : Prop :=
  ∀ function place arguments, ¬Expr.Occurs (.call function place arguments) e

theorem callFree_unary {op : UnaryOp} {operand : Expr} :
    (Expr.unary op operand).CallFree ↔ operand.CallFree := by
  constructor
  · exact fun h function place arguments hoccurs =>
      h function place arguments (.operand op hoccurs)
  · intro h function place arguments hoccurs
    cases hoccurs with
    | operand _ hoccurs => exact h function place arguments hoccurs

theorem callFree_binary {op : BinaryOp} {left right : Expr} :
    (Expr.binary op left right).CallFree ↔ left.CallFree ∧ right.CallFree := by
  constructor
  · exact fun h =>
      ⟨fun function place arguments hoccurs => h function place arguments (.left op right hoccurs),
        fun function place arguments hoccurs => h function place arguments (.right op left hoccurs)⟩
  · intro h function place arguments hoccurs
    cases hoccurs with
    | left _ _ hoccurs => exact h.1 function place arguments hoccurs
    | right _ _ hoccurs => exact h.2 function place arguments hoccurs

-- The search for the first call finds one, wherever it stands.
theorem firstCall?_eq_none_iff (e : Expr) : e.firstCall? = none ↔ e.CallFree := by
  cases e with
  | number _ | text _ | bool _ | unit | var _ _ =>
      refine iff_of_true rfl fun function place arguments hoccurs => ?_
      cases hoccurs
  | call function place arguments =>
      refine iff_of_false (fun h => ?_) fun h => h function place arguments .self
      cases h
  | unary op operand => exact (firstCall?_eq_none_iff operand).trans callFree_unary.symm
  | binary op left right =>
      rw [Expr.firstCall?, Option.or_eq_none_iff, firstCall?_eq_none_iff left,
        firstCall?_eq_none_iff right, callFree_binary]

-- The errors that reading the session and applying operators can give.
def ScriptError.OfReading (error : ScriptError) : Prop :=
  error.OfValues ∨ ∃ name, error = .undefinedVariable name

-- What an expression comes to with every handler, if it asks none: the handler's state is left as
-- it is.
structure Settles (session : Session) (chained : Bool) (depth : Nat) (e : Expr)
    (result : Except ScriptError Value) : Prop where
  run : ∀ {σ : Type} (calls : Calls σ) (s : σ),
    (evalAt calls session chained depth e).run s = (result, s)
  errors : ∀ error, result = .error error → error.OfReading

section Settles

variable {session : Session} {chained : Bool} {depth : Nat}

theorem run_bind_lift {σ α β : Type} {m : Eval σ α} {s s' : σ} {result : Except ScriptError α}
    (f : α → Except ScriptError β) (h : m.run s = (result, s')) :
    (m >>= fun a => liftM (f a)).run s = (result.bind f, s') := by
  cases result with
  | error error => exact Action.run_bind_of_error h
  | ok a =>
      rw [Action.run_bind_of_ok h, Action.run_liftM]
      rfl

theorem ofReading_of_bind {α β : Type} {result : Except ScriptError α}
    {f : α → Except ScriptError β} {error : ScriptError}
    (hresult : ∀ error, result = .error error → error.OfReading)
    (hf : ∀ a error, f a = .error error → error.OfValues) (h : result.bind f = .error error) :
    error.OfReading := by
  cases result with
  | error own =>
      cases h
      exact hresult _ rfl
  | ok a => exact .inl (hf a error h)

-- An expression without calls comes to one thing with every handler.
theorem exists_settles (chained : Bool) (depth : Nat) {e : Expr} (hfree : e.CallFree)
    (hdepth : depth + e.reach chained ≤ maxDepth) :
    ∃ result, Settles session chained depth e result := by
  match e with
  | .number _ | .text _ | .bool _ | .unit =>
      rw [Expr.reach] at hdepth
      exact ⟨.ok _, fun calls s => by rw [evalAt, own_depth, atDepth_of_le hdepth]; rfl, nofun⟩
  | .var name place =>
      rw [Expr.reach] at hdepth
      cases hget : session.get? name with
      | some value =>
          refine ⟨.ok value, fun calls s => ?_, nofun⟩
          rw [evalAt, own_depth, atDepth_of_le hdepth, hget]
          rfl
      | none =>
          refine ⟨.error (.undefinedVariable name), fun calls s => ?_, fun error h => ?_⟩
          · rw [evalAt, own_depth, atDepth_of_le hdepth, hget]
            rfl
          · cases h
            exact .inr ⟨name, rfl⟩
  | .call function place arguments => exact (hfree function place arguments .self).elim
  | .unary op operand =>
      rw [Expr.reach] at hdepth
      obtain ⟨result, hoperand⟩ := exists_settles false (depth + chained.toNat + 1)
        (callFree_unary.mp hfree) (by omega)
      refine ⟨result.bind op.apply, fun calls s => ?_,
        fun error => ofReading_of_bind hoperand.errors fun _ _ => ofValues_of_unary_apply⟩
      rw [evalAt, own_depth, atDepth_of_le (by omega)]
      exact run_bind_lift op.apply (hoperand.run calls s)
  | .binary op left right =>
      rw [Expr.reach] at hdepth
      obtain ⟨hfreeLeft, hfreeRight⟩ := callFree_binary.mp hfree
      obtain ⟨first, hleft⟩ := exists_settles true depth hfreeLeft (by omega)
      have hrun : ∀ {σ : Type} (calls : Calls σ),
          evalAt calls session chained depth (.binary op left right) = _ :=
        fun calls => evalAt_binary calls op left right fun _ => by omega
      cases first with
      | error error =>
          refine ⟨.error error, fun calls s => ?_, hleft.errors⟩
          rw [hrun]
          exact Action.run_bind_of_error (hleft.run calls s)
      | ok l =>
          cases hsettled : op.decided? l with
          | some settled =>
              refine ⟨.ok settled, fun calls s => ?_, nofun⟩
              rw [hrun, Action.run_bind_of_ok (hleft.run calls s), hsettled]
              rfl
          | none =>
              obtain ⟨second, hright⟩ := exists_settles false (depth + 1) hfreeRight (by omega)
              refine ⟨second.bind (op.apply l), fun calls s => ?_,
                fun error => ofReading_of_bind hright.errors fun _ _ => ofValues_of_binary_apply⟩
              rw [hrun, Action.run_bind_of_ok (hleft.run calls s), hsettled]
              exact run_bind_lift (op.apply l) (hright.run calls s)

end Settles

-- A parsed guard is evaluated within the limit.
theorem settles_of_parseGuard {text : List Char} {offset : Nat} {guard : Guard}
    (h : parseGuard text offset = .ok guard) (session : Session) :
    ∃ result, Settles session false 0 guard.expr result := by
  obtain ⟨ts, ds, hderives, hnesting⟩ := (Parsable.guard h).derives
  have hreach := (hderives.reach_le 127 hnesting).1
  refine exists_settles false 0 ((firstCall?_eq_none_iff _).mp guard.callFree) ?_
  simp only [maxDepth]
  omega

section Assignment

variable {text : List Char} {offset : Nat} {e : Expr}

-- The tokens of an assignment are a name, a sign and those of the value.
theorem tokens_assignment {located : List Located} (h : tokens 1 4 text = .ok located) :
    tokens 1 0 ("x = ".toList ++ text) =
      .ok (⟨.name "x", ⟨0, 1⟩⟩ :: ⟨.symbol .assign, ⟨2, 3⟩⟩ :: located) := by
  have hname : isNameStart 'x' = true := by decide +kernel
  have hword : wordToken ['x'] = .name "x" := by rfl
  have hsign : isNameChar ' ' = false := by decide +kernel
  have hx : lexeme 'x' (' ' :: '=' :: ' ' :: text) = .ok (.name "x", 0) := by
    simp [lexeme, hname, hsign, hword, Char.isDigit]
  have hassign : lexeme '=' (' ' :: text) = .ok (.symbol .assign, 0) := by
    have hstart : isNameStart '=' = false := by decide +kernel
    simp [lexeme, hstart, symbolLexeme, eitherSymbol, Char.isDigit]
  have hblank : isBlank ' ' = true ∧ isBlank 'x' = false ∧ isBlank '=' = false := by decide
  change tokens 1 0 ('x' :: ' ' :: '=' :: ' ' :: text) = _
  simp [tokens, hx, hassign, hblank, h, Except.map, Char.utf8Size]

-- An expression is the value of an assignment, but for the places of its names.
theorem parseScript_assignment (hplain : '\n' ∉ text) (h : parseExpr text offset = .ok e) :
    ∃ e', e'.bare = e.bare ∧ parseScript ("x = ".toList ++ text) = .ok [.assign "x" e' 1] := by
  obtain ⟨ts, ds, htokens, hderives, hnesting⟩ := derives_of_parseExpr h
  obtain ⟨us, hus, halike⟩ := tokens_relocate (List.forall_mem_nil _) (by simpa using htokens) 1 4
  obtain ⟨trailing, hsplit, htrailing⟩ := exists_trimEnd isLineEnd ("x = ".toList ++ text)
  obtain ⟨vs, hvs, hwhole⟩ := tokens_relocate htrailing (hsplit ▸ tokens_assignment hus) 1 0
  obtain ⟨range, vs', rfl, hvs'⟩ := Alike.of_cons hwhole
  obtain ⟨range', value, rfl, hvalue⟩ := hvs'.of_cons
  obtain ⟨e', hderives', hbare⟩ := hderives.relocate (hvalue.trans halike)
  refine ⟨e', hbare, ?_⟩
  have hlines : lines ("x = ".toList ++ text) = ["x = ".toList ++ text] := by
    refine lines_of_newline_not_mem (fun hnewline => ?_) (by simp)
    rcases List.mem_append.mp hnewline with hnewline | hnewline
    · exact absurd hnewline (by decide)
    · exact hplain hnewline
  have hparse : ∀ place, whole place .afterAssignment value = .ok e' :=
    fun place => (whole_eq_ok_iff place _ value e').mpr ⟨ds, hderives', hnesting⟩
  rw [parseScript, hlines, parseLines, parseStatement, hvs]
  simp only [bind, Except.bind, hparse, Except.map, parseLines, Option.toList_some,
    List.append_nil]

-- What comes of the assignment in a block of its own, if nothing is printed: a value is bound, and
-- an error leaves the session as it is.
def assigned (session : Session) : Except ScriptError Value → Execution × Session
  | .ok value => (⟨.none, none⟩, session.bind "x" value)
  | .error error => (⟨.none, some ⟨some 1, error⟩⟩, session)

theorem execute_assignment (hplain : '\n' ∉ text) (h : parseExpr text offset = .ok e)
    {session : Session} {result : Except ScriptError Value}
    (hsettles : Settles session false 0 e result) :
    execute (String.ofList ("x = ".toList ++ text)) session = assigned session result := by
  obtain ⟨e', hbare, hparse⟩ := parseScript_assignment hplain h
  have heval : (evaluate builtins session e').run .none = (result, .none) := by
    rw [evaluate_of_bare_eq builtins session hbare]
    exact hsettles.run builtins .none
  rw [execute, String.toList_ofList, hparse]
  simp only [runStatements, runStatement, heval]
  cases result <;> rfl

end Assignment

end LiveDoc.Calc

namespace LiveDoc

open Calc

-- What a guard answers, by what its expression comes to. No other error comes up.
inductive Answers (source : String) (span : Span) :
    Except ScriptError Value → Except RunError Bool → Prop
  | decided (value : Value) : Answers source span (.ok value) (.ok value.isTruthy)
  | missing (name : String) (found : Span) :
      Answers source span (.error (.undefinedVariable name))
        (.error (.undefined name source found))
  | failing {cause : ScriptError} :
      cause.OfValues → Answers source span (.error cause) (.error (.guard source cause span))

theorem answers_evaluateGuard {guard : Guard} {session : Session}
    {result : Except ScriptError Value} (h : Settles session false 0 guard.expr result)
    (source : String) (span : Span) :
    Answers source span result (evaluateGuard guard source span session) := by
  have heval : (evaluate noCalls session guard.expr).run () = (result, ()) := h.run noCalls ()
  unfold evaluateGuard
  rw [heval]
  cases result with
  | ok value => exact .decided value
  | error cause =>
      rcases h.errors cause rfl with hvalues | ⟨name, rfl⟩
      · cases cause <;> first | exact hvalues.elim | exact .failing hvalues
      · dsimp only
        cases guard.expr.firstRead? name with
        | none => exact .missing name span
        | some range => exact .missing name ⟨span.source, range, span.line⟩

-- The guards are the expressions without calls, and a guard answers what an assignment of its
-- expression would bind or fail with. Neither asks a handler for anything.
theorem guard_agrees_with_assignment {text : List Char} (hplain : '\n' ∉ text) (offset : Nat) :
    ((∃ guard, parseGuard text offset = .ok guard) ↔
      ∃ e, parseExpr text offset = .ok e ∧ e.CallFree) ∧
    ∀ guard, parseGuard text offset = .ok guard →
      parseExpr text offset = .ok guard.expr ∧
      ∀ (session : Session) (source : String) (span : Span), ∃ result,
        (∀ {σ : Type} (calls : Calls σ) (s : σ),
          (evaluate calls session guard.expr).run s = (result, s)) ∧
        execute (String.ofList ("x = ".toList ++ text)) session = assigned session result ∧
        Answers source span result (evaluateGuard guard source span session) := by
  constructor
  · constructor
    · rintro ⟨guard, h⟩
      exact ⟨guard.expr, parseGuard_eq_ok_iff.mp h, (firstCall?_eq_none_iff _).mp guard.callFree⟩
    · rintro ⟨e, h, hfree⟩
      exact ⟨⟨e, (firstCall?_eq_none_iff e).mpr hfree⟩, parseGuard_eq_ok_iff.mpr h⟩
  · intro guard h
    have hexpr := parseGuard_eq_ok_iff.mp h
    refine ⟨hexpr, fun session source span => ?_⟩
    obtain ⟨result, hsettles⟩ := settles_of_parseGuard h session
    exact ⟨result, hsettles.run, execute_assignment hplain hexpr hsettles,
      answers_evaluateGuard hsettles source span⟩

-- `ready && !done`, read behind the word that starts a condition.
def readyGuard : Guard where
  expr := .binary .and (.var "ready" ⟨4, 9⟩) (.unary .not (.var "done" ⟨14, 18⟩))
  callFree := rfl

theorem guard_agrees_with_assignment_ready :
    '\n' ∉ "ready && !done".toList ∧ parseGuard "ready && !done".toList 4 = .ok readyGuard ∧
    ∃ result,
      execute (String.ofList ("x = ".toList ++ "ready && !done".toList)) .empty =
        assigned .empty result ∧
      Answers "ready && !done" ⟨0, ⟨0, 18⟩, 1⟩ result
        (evaluateGuard readyGuard "ready && !done" ⟨0, ⟨0, 18⟩, 1⟩ .empty) := by
  have hplain : '\n' ∉ "ready && !done".toList := by decide
  have hexpr : parseExpr "ready && !done".toList 4 = .ok readyGuard.expr := by cbv
  have hguard := parseGuard_eq_ok_iff.mpr hexpr
  obtain ⟨-, result, -, hexecute, hanswers⟩ :=
    ((guard_agrees_with_assignment hplain 4).2 readyGuard hguard).imp_right
      fun h => h .empty "ready && !done" ⟨0, ⟨0, 18⟩, 1⟩
  exact ⟨hplain, hguard, result, hexecute, hanswers⟩

end LiveDoc
