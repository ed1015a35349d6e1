import LiveDoc.Proofs.Calc.Agreement

namespace LiveDoc.Calc

namespace Captured

def append (a b : Captured) : Captured := ⟨a.output ++ b.output, a.artifacts ++ b.artifacts⟩

instance : Append Captured := ⟨append⟩

theorem append_def (a b : Captured) :
    a ++ b = ⟨a.output ++ b.output, a.artifacts ++ b.artifacts⟩ := rfl

@[simp] theorem none_append (a : Captured) : none ++ a = a := by simp [append_def, none]

@[simp] theorem append_none (a : Captured) : a ++ none = a := by simp [append_def, none]

theorem append_assoc (a b c : Captured) : a ++ b ++ c = a ++ (b ++ c) := by
  simp [append_def, String.append_assoc]

theorem print_eq (captured : Captured) (text : String) :
    captured.print text = captured ++ ⟨text, []⟩ := by simp [print, append_def]

theorem declare_eq (captured : Captured) (payload : Payload) :
    captured.declare payload = captured ++ ⟨"", [payload]⟩ := by simp [declare, append_def]

end Captured

-- A computation adds to what has been produced and does not look at it. Where it fails, it adds
-- nothing.
def Emits {α : Type} (m : Eval Captured α) : Prop :=
  ∃ result put, (∀ captured, m.run captured = (result, captured ++ put)) ∧
    ∀ error, result = .error error → put = .none

section Emits

variable {α β : Type}

theorem emits_lift (result : Except ScriptError α) : Emits (liftM result : Eval Captured α) :=
  ⟨result, .none, fun captured => by rw [Action.run_liftM, Captured.append_none], fun _ _ => rfl⟩

theorem emits_lift_bind {result : Except ScriptError α} {f : α → Eval Captured β}
    (hf : ∀ a, Emits (f a)) : Emits (liftM result >>= f) := by
  cases result with
  | error error =>
      refine ⟨.error error, .none, fun captured => ?_, fun _ _ => rfl⟩
      rw [Action.run_bind_of_error (Action.run_liftM ..), Captured.append_none]
  | ok a =>
      obtain ⟨result, put, hrun, hnone⟩ := hf a
      refine ⟨result, put, fun captured => ?_, hnone⟩
      rw [Action.run_bind_of_ok (Action.run_liftM ..), hrun]

theorem emits_modify {step : Captured → Captured} {put : Captured}
    (hstep : ∀ captured, step captured = captured ++ put) (a : α) :
    Emits (modify step >>= fun _ => pure a : Eval Captured α) := by
  refine ⟨.ok a, put, fun captured => ?_, nofun⟩
  rw [Action.run_bind_of_ok (Action.run_modify ..), Action.run_pure, hstep]

end Emits

theorem emits_builtins (function : String) (values : List Value) :
    Emits (builtins function values) := by
  unfold builtins
  split
  · exact emits_modify (fun captured => captured.print_eq _) _
  · exact emits_lift_bind fun value => emits_lift (.ok _)
  · exact emits_lift_bind fun value => emits_lift_bind fun text => emits_lift (.ok _)
  · exact emits_lift_bind fun _ => emits_lift_bind fun _ => emits_lift_bind fun checked =>
      emits_modify (fun captured => captured.declare_eq _) _
  · exact emits_lift_bind fun payload => emits_modify (fun captured => captured.declare_eq _) _
  · exact emits_lift_bind fun message => emits_lift (.error _)
  · exact emits_lift (.error _)

namespace Invocation

-- What a call of a builtin answers.
def answer (call : Invocation) : Except ScriptError Value :=
  ((builtins call.function call.arguments).run .none).1

-- What a call leaves when it completes.
def produced (call : Invocation) : Captured :=
  match call.answer with
  | .ok _ => ((builtins call.function call.arguments).run .none).2
  | .error _ => .none

theorem run (call : Invocation) (captured : Captured) :
    (builtins call.function call.arguments).run captured =
      (call.answer, captured ++ call.produced) := by
  obtain ⟨result, put, hrun, hnone⟩ := emits_builtins call.function call.arguments
  have hanswer : call.answer = result := by rw [answer, hrun]
  have hproduced : call.produced = put := by
    rw [produced, hanswer, hrun, Captured.none_append]
    cases result with
    | ok value => rfl
    | error error => exact (hnone error rfl).symm
  rw [hrun, hanswer, hproduced]

end Invocation

-- What calls leave, one after the other.
def gathered : List Invocation → Captured
  | [] => .none
  | call :: rest => call.produced ++ gathered rest

theorem gathered_append (made more : List Invocation) :
    gathered (made ++ more) = gathered made ++ gathered more := by
  induction made with
  | nil => exact (Captured.none_append _).symm
  | cons call rest ih => rw [List.cons_append, gathered, gathered, ih, Captured.append_assoc]

theorem gathered_singleton (call : Invocation) : gathered [call] = call.produced :=
  Captured.append_none _

section Anywhere

variable {session : Session}

mutual

-- What has been produced before plays no part in an evaluation, and what its calls produce comes
-- behind it.
theorem Gives.anywhere {e : Expr} {s after : Captured} {made : List Invocation}
    {result : Except ScriptError Value} (h : Gives builtins session e s made result after)
    (s' : Captured) : Gives builtins session e s' made result (s' ++ gathered made) := by
  match h with
  | .number value _ => simpa [gathered] using Gives.number value s'
  | .text value _ => simpa [gathered] using Gives.text value s'
  | .bool value _ => simpa [gathered] using Gives.bool value s'
  | .unit _ => simpa [gathered] using Gives.unit s'
  | .bound place _ hget => simpa [gathered] using Gives.bound place s' hget
  | .unbound place _ hget => simpa [gathered] using Gives.unbound place s' hget
  | @Gives.call _ _ _ function _ values _ middle _ _ _ place harguments hcall =>
      have hrun := Invocation.run ⟨function, values⟩
      have hown := (hrun middle).symm.trans hcall
      cases hown
      rw [gathered_append, gathered_singleton, ← Captured.append_assoc]
      exact .call place (harguments.anywhere s') (hrun _)
  | .callFails function place harguments => exact .callFails function place (harguments.anywhere s')
  | .unary op hoperand => exact .unary op (hoperand.anywhere s')
  | .unaryFails op hoperand => exact .unaryFails op (hoperand.anywhere s')
  | .leftFails op right hleft => exact .leftFails op right (hleft.anywhere s')
  | .andSkips right hleft hfalsy => exact .andSkips right (hleft.anywhere s') hfalsy
  | .orSkips right hleft htruthy => exact .orSkips right (hleft.anywhere s') htruthy
  | .rightFails hleft hneeds hright =>
      rw [gathered_append, ← Captured.append_assoc]
      exact .rightFails (hleft.anywhere s') hneeds (hright.anywhere _)
  | .both hleft hneeds hright =>
      rw [gathered_append, ← Captured.append_assoc]
      exact .both (hleft.anywhere s') hneeds (hright.anywhere _)

theorem GivesAll.anywhere {es : List Expr} {s after : Captured} {made : List Invocation}
    {result : Except ScriptError (List Value)}
    (h : GivesAll builtins session es s made result after) (s' : Captured) :
    GivesAll builtins session es s' made result (s' ++ gathered made) := by
  match h with
  | .nil _ => simpa [gathered] using GivesAll.nil s'
  | .firstFails rest hfirst => exact .firstFails rest (hfirst.anywhere s')
  | .restFails hfirst hrest =>
      rw [gathered_append, ← Captured.append_assoc]
      exact .restFails (hfirst.anywhere s') (hrest.anywhere _)
  | .cons hfirst hrest =>
      rw [gathered_append, ← Captured.append_assoc]
      exact .cons (hfirst.anywhere s') (hrest.anywhere _)

end

end Anywhere

section Levels

variable {σ : Type} {calls : Calls σ} {session : Session}

-- The first operand of a chain stands one below it, a longer chain to its left does not.
theorem reach_true (e : Expr) : e.reach true = e.reach false + (!e.isChain).toNat := by
  cases e <;> simp [Expr.reach, Expr.isChain]

mutual

-- Evaluation comes to no part that stands lower than any part does.
theorem Reaches.le_reach {e : Expr} {s : σ} {level : Nat} (h : Reaches calls session e s level) :
    level ≤ e.reach false := by
  match h with
  | .here _ _ => exact Nat.zero_le _
  | .operand _ h =>
      have := h.le_reach
      simp only [Expr.reach, Bool.toNat_false]
      omega
  | .argument _ _ h =>
      have := h.lt_reachList
      simp only [Expr.reach, Bool.toNat_false]
      omega
  | @Reaches.first _ _ _ left _ _ _ right hchain h =>
      have := h.le_reach
      have hleft := reach_true left
      rw [hchain, Bool.not_false, Bool.toNat_true] at hleft
      simp only [Expr.reach]
      omega
  | @Reaches.along _ _ _ left _ _ _ right hchain h =>
      have := h.le_reach
      have hleft := reach_true left
      simp only [Expr.reach]
      omega
  | .right _ _ h =>
      have := h.le_reach
      simp only [Expr.reach]
      omega

theorem ReachesIn.lt_reachList {es : List Expr} {s : σ} {level : Nat}
    (h : ReachesIn calls session es s level) : level < Expr.reachList es := by
  match h with
  | .first _ h =>
      have := h.le_reach
      simp only [Expr.reachList]
      omega
  | .later _ h =>
      have := h.lt_reachList
      simp only [Expr.reachList]
      omega

end

-- The limit of the parser keeps evaluation within its own limit.
theorem fits_of_derives {ts : List Located} {ds : List Nat} {e : Expr} (h : Derives 0 ts ds e)
    (hds : ∀ d ∈ ds, d ≤ maxNesting) (s : σ) : Fits calls session e s 0 := by
  intro level hlevel
  have hreach := (h.reach_le 127 hds).1
  have := hlevel.le_reach
  simp only [maxDepth]
  omega

end Levels

-- An expression as the parser gives it.
def Expr.Derivable (e : Expr) : Prop :=
  ∃ ts ds, Derives 0 ts ds e ∧ ∀ d ∈ ds, d ≤ maxNesting

-- What comes of an expression in a session: the calls that it makes, and its value or error.
def Makes (session : Session) (e : Expr) (made : List Invocation)
    (result : Except ScriptError Value) : Prop :=
  ∃ after, Gives builtins session e .none made result after

theorem exists_makes (session : Session) (e : Expr) : ∃ made result, Makes session e made result := by
  obtain ⟨made, result, after, h⟩ := exists_gives builtins session e .none
  exact ⟨made, result, after, h⟩

theorem Makes.run {session : Session} {e : Expr} {made : List Invocation}
    {result : Except ScriptError Value} (h : Makes session e made result) (he : e.Derivable)
    (captured : Captured) :
    (evaluate builtins session e).run captured = (result, captured ++ gathered made) := by
  obtain ⟨after, hgives⟩ := h
  obtain ⟨ts, ds, hderives, hds⟩ := he
  exact (runs_evalAt false 0 (fits_of_derives hderives hds captured)
    (hgives.anywhere captured)).plain

end LiveDoc.Calc
