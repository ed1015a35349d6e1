import LiveDoc.Calc.Execution
import LiveDoc.Proofs.Data.Action
import Mathlib

namespace LiveDoc.Calc

section Preserves

variable {σ α β : Type} {I : σ → Prop}

-- What a computation does to the state keeps an invariant, also when it fails.
def Preserves (I : σ → Prop) (m : Eval σ α) : Prop := ∀ s, I s → I (m.run s).2

theorem preserves_pure (a : α) : Preserves I (pure a : Eval σ α) := fun _ h => h

theorem preserves_throw (error : ScriptError) : Preserves I (throw error : Eval σ α) :=
  fun _ h => h

theorem preserves_lift (result : Except ScriptError α) :
    Preserves I (liftM result : Eval σ α) := by
  intro s h
  rwa [Action.run_liftM]

theorem preserves_lift_bind {result : Except ScriptError α} {f : α → Eval σ β}
    (hf : ∀ a, result = .ok a → Preserves I (f a)) :
    Preserves I ((liftM result : Eval σ α) >>= f) := by
  intro s hs
  cases result with
  | error error => exact hs
  | ok a => exact hf a rfl s hs

theorem preserves_modify {f : σ → σ} (hf : ∀ s, I s → I (f s)) :
    Preserves I (modify f : Eval σ PUnit) := hf

theorem preserves_bind {m : Eval σ α} {f : α → Eval σ β} (hm : Preserves I m)
    (hf : ∀ a, Preserves I (f a)) : Preserves I (m >>= f) := by
  intro s hs
  have hafter := hm s hs
  rcases hrun : m.run s with ⟨error | a, after⟩
  · rw [hrun] at hafter
    rwa [Action.run_bind_of_error hrun]
  · rw [hrun] at hafter
    rw [Action.run_bind_of_ok hrun]
    exact hf a after hafter

theorem preserves_atDepth (depth : Nat) {m : Eval σ α} (hm : Preserves I m) :
    Preserves I (atDepth depth m) := by
  unfold atDepth
  split
  · exact preserves_throw _
  · exact hm

variable {calls : Calls σ} (session : Session)

mutual

-- Only calls touch the state.
theorem preserves_evalAt (hcalls : ∀ function values, Preserves I (calls function values))
    (chained : Bool) (depth : Nat) (e : Expr) :
    Preserves I (evalAt calls session chained depth e) := by
  match e with
  | .binary op left right =>
      have hvalue : Preserves I (do
          let l ← evalAt calls session true depth left
          match op.decided? l with
          | some v => pure v
          | none =>
              let r ← evalAt calls session false (depth + 1) right
              op.apply l r : Eval σ Value) := by
        refine preserves_bind (preserves_evalAt hcalls true depth left) fun l => ?_
        split
        · exact preserves_pure _
        · exact preserves_bind (preserves_evalAt hcalls false (depth + 1) right) fun r =>
            preserves_lift _
      unfold evalAt
      dsimp only
      split
      · exact hvalue
      · exact preserves_atDepth _ hvalue
  | .unary op operand =>
      unfold evalAt
      exact preserves_atDepth _ (preserves_bind (preserves_evalAt hcalls false _ operand) fun v =>
        preserves_lift _)
  | .call function _ arguments =>
      unfold evalAt
      exact preserves_atDepth _ (preserves_bind (preserves_evalList hcalls _ arguments) fun values =>
        hcalls function values)
  | .number _ | .text _ | .bool _ | .unit =>
      unfold evalAt
      exact preserves_atDepth _ (preserves_pure _)
  | .var name _ =>
      unfold evalAt
      refine preserves_atDepth _ ?_
      split
      · exact preserves_pure _
      · exact preserves_throw _

theorem preserves_evalList (hcalls : ∀ function values, Preserves I (calls function values))
    (depth : Nat) (es : List Expr) :
    Preserves I (evalList calls session depth es) := by
  match es with
  | [] => exact preserves_pure []
  | e :: rest =>
      unfold evalList
      exact preserves_bind (preserves_evalAt hcalls false depth e) fun value =>
        preserves_bind (preserves_evalList hcalls depth rest) fun values => preserves_pure _

end

end Preserves

theorem isAlphanum_toLower {c : Char} (h : c.isAlphanum = true) : c.toLower.isAlphanum = true := by
  unfold Char.toLower
  split
  · rename_i hupper
    simp only [Char.isAlphanum, Char.isAlpha, Char.isLower, Bool.or_eq_true, Bool.and_eq_true,
      decide_eq_true_eq, ge_iff_le, UInt32.le_iff_toNat_le, UInt32.toNat_add] at hupper ⊢
    refine .inl (.inr ?_)
    have hshift : ('a'.val - 'A'.val).toNat = 32 := rfl
    have hbounds : 'a'.val.toNat = 97 ∧ 'z'.val.toNat = 122 ∧ 'A'.val.toNat = 65 ∧
        'Z'.val.toNat = 90 := ⟨rfl, rfl, rfl, rfl⟩
    omega
  · exact h

-- The extensions of all files are ASCII letters and digits.
def Captured.Plain (captured : Captured) : Prop :=
  ∀ payload ∈ captured.artifacts, ∀ c ∈ payload.extension.toList, c.isAlphanum = true

theorem plain_none : Captured.none.Plain := fun _ h => (List.not_mem_nil h).elim

theorem plain_declare {captured : Captured} {payload : Payload} (h : captured.Plain)
    (hpayload : ∀ c ∈ payload.extension.toList, c.isAlphanum = true) :
    (captured.declare payload).Plain := by
  intro other hother
  rcases List.mem_append.mp hother with hother | hother
  · exact h other hother
  · cases List.mem_singleton.mp hother
    exact hpayload

theorem isAlphanum_of_checkedExtension {extension checked : String}
    (h : checkedExtension extension = .ok checked) : ∀ c ∈ checked.toList, c.isAlphanum = true := by
  unfold checkedExtension at h
  split at h
  · rename_i hgood
    cases h
    intro c hc
    rw [String.toList_ofList] at hc
    obtain ⟨d, hd, rfl⟩ := List.mem_map.mp hc
    exact isAlphanum_toLower (List.all_eq_true.mp (Bool.and_eq_true_iff.mp hgood).2 d hd)
  · cases h

theorem extension_of_chart {function : String} {values : List Value} {payload : Payload}
    (h : chart function values = .ok payload) : payload.extension = "svg" := by
  unfold chart at h
  split at h
  · cases h
  · rename_i title rest
    cases hnumbers : rest.mapM Value.asNumber with
    | error error =>
        rw [hnumbers] at h
        cases h
    | ok numbers =>
        simp only [hnumbers, bind, Except.bind] at h
        split at h
        · cases h
        · split at h
          · cases h
          · cases h
            rfl

theorem preserves_builtins (function : String) (values : List Value) :
    Preserves Captured.Plain (builtins function values) := by
  have hdeclare : ∀ {payload : Payload}, (∀ c ∈ payload.extension.toList, c.isAlphanum = true) →
      Preserves Captured.Plain (modify (·.declare payload) : Eval Captured PUnit) :=
    fun hpayload => preserves_modify fun _ h => plain_declare h hpayload
  unfold builtins
  split
  · exact preserves_bind (preserves_modify fun _ h => h) fun _ => preserves_pure _
  · exact preserves_bind (preserves_lift _) fun _ => preserves_pure _
  · exact preserves_bind (preserves_lift _) fun _ =>
      preserves_bind (preserves_lift _) fun _ => preserves_pure _
  · refine preserves_bind (preserves_lift _) fun _ => preserves_bind (preserves_lift _) fun _ =>
      preserves_lift_bind fun checked hchecked => ?_
    exact preserves_bind (hdeclare (isAlphanum_of_checkedExtension hchecked)) fun _ =>
      preserves_pure _
  · refine preserves_lift_bind fun payload hchart => preserves_bind (hdeclare ?_) fun _ =>
      preserves_pure _
    have hsvg : "svg".toList.all Char.isAlphanum = true := by decide
    rw [extension_of_chart hchart]
    exact List.all_eq_true.mp hsvg
  · exact preserves_bind (preserves_lift _) fun _ => preserves_throw _
  · exact preserves_throw _

theorem plain_runStatement {captured : Captured} (h : captured.Plain) (session : Session)
    (statement : Statement) : (runStatement session captured statement).2.Plain := by
  cases statement with
  | assign name value line => exact preserves_evalAt session preserves_builtins _ _ value _ h
  | run value line => exact preserves_evalAt session preserves_builtins _ _ value _ h

theorem plain_runStatements {captured : Captured} (h : captured.Plain) (session : Session)
    (script : Script) : (runStatements session captured script).1.captured.Plain := by
  induction script generalizing session captured with
  | nil => exact h
  | cons statement rest ih =>
      have hstep := plain_runStatement h session statement
      unfold runStatements
      rcases hrun : runStatement session captured statement with ⟨error | next, after⟩
      · rwa [hrun] at hstep
      · rw [hrun] at hstep
        exact ih hstep next

-- The files that a block of code declares have extensions of ASCII letters and digits, also
-- where the block fails.
theorem plain_execute (code : String) (session : Session) :
    (execute code session).1.captured.Plain := by
  unfold execute
  split
  · exact plain_runStatements plain_none session _
  · exact plain_none

theorem slash_not_mem_extension {code : String} {session : Session} {payload : Payload}
    (h : payload ∈ (execute code session).1.captured.artifacts) :
    '/' ∉ payload.extension.toList :=
  fun hmem => absurd (plain_execute code session payload h _ hmem) (by decide)

end LiveDoc.Calc
