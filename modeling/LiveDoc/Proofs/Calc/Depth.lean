import LiveDoc.Calc.Eval
import LiveDoc.Proofs.Calc.Unambiguous
import LiveDoc.Proofs.Data.Action

namespace LiveDoc.Calc

mutual

-- How many levels the evaluation of an expression goes below its own. As the left operand of a
-- chain an expression that is no operator itself stands one level deeper.
def Expr.reach (chained : Bool) : Expr → Nat
  | .binary _ left right => max (left.reach true) (right.reach false + 1)
  | .unary _ operand => operand.reach false + 1 + chained.toNat
  | .call _ _ arguments => Expr.reachList arguments + chained.toNat
  | .text _ | .number _ | .bool _ | .unit | .var _ _ => chained.toNat

def Expr.reachList : List Expr → Nat
  | [] => 0
  | e :: rest => max (e.reach false + 1) (Expr.reachList rest)

end

section Eval

variable {σ α β : Type}

-- A computation that does not fail with an error.
def Never (error : ScriptError) (m : Eval σ α) : Prop := ∀ s, (m.run s).1 ≠ .error error

variable {error : ScriptError}

theorem never_pure (a : α) : Never error (pure a : Eval σ α) := by
  intro s h
  cases h

theorem never_bind {m : Eval σ α} {f : α → Eval σ β} (hm : Never error m)
    (hf : ∀ a, Never error (f a)) : Never error (m >>= f) := by
  intro s
  have h := hm s
  obtain ⟨⟨outcome, s'⟩, hr⟩ : ∃ after, m.run s = after := ⟨_, rfl⟩
  rw [hr] at h
  cases outcome with
  | ok a =>
      rw [Action.run_bind_of_ok hr]
      exact hf a s'
  | error e =>
      rw [Action.run_bind_of_error hr]
      intro he
      cases he
      exact h rfl

theorem never_lift {r : Except ScriptError α} (h : r ≠ .error error) :
    Never error (liftM r : Eval σ α) := by
  intro s
  rw [Action.run_liftM]
  exact h

theorem neverTooDeep_atDepth {depth : Nat} {m : Eval σ α} (hd : depth ≤ maxDepth)
    (hm : Never .tooDeep m) : Never .tooDeep (atDepth depth m) := by
  unfold atDepth
  rw [if_neg (Nat.not_lt.mpr hd)]
  exact hm

end Eval

-- The errors of the values that an operator is given.
def ScriptError.OfValues : ScriptError → Prop
  | .kindMismatch _ _ | .unlikeOperands _ _ | .divisionByZero => True
  | _ => False

theorem ofValues_of_unary_apply {op : UnaryOp} {v : Value} {error : ScriptError}
    (h : op.apply v = .error error) : error.OfValues := by
  cases op <;> cases v <;> simp [UnaryOp.apply, Value.asNumber, Except.map] at h <;> subst h <;>
    trivial

theorem ofValues_of_arithmetic {f : Float → Float → Except ScriptError Float} {error : ScriptError}
    (hf : ∀ a b, f a b = .error error → error.OfValues) {l r : Value}
    (h : arithmetic f l r = .error error) : error.OfValues := by
  cases l <;> cases r <;> simp [arithmetic, Value.asNumber, bind, Except.bind] at h <;>
    first | (subst h; trivial) | skip
  rename_i a b
  cases hr : f a b with
  | error e =>
      rw [hr] at h
      cases h
      exact hf a b hr
  | ok value =>
      rw [hr] at h
      cases h

theorem ofValues_of_unlessZero {f : Float → Float → Float} {a b : Float} {error : ScriptError}
    (h : unlessZero f a b = .error error) : error.OfValues := by
  unfold unlessZero at h
  split at h
  · cases h
    trivial
  · cases h

theorem ofValues_of_comparison {texts : String → String → Bool} {numbers : Float → Float → Bool}
    {l r : Value} {error : ScriptError} (h : comparison texts numbers l r = .error error) :
    error.OfValues := by
  cases l <;> cases r <;> simp [comparison, Value.asNumber, bind, Except.bind] at h <;>
    subst h <;> trivial

-- An operator fails for its operands alone.
theorem ofValues_of_binary_apply {op : BinaryOp} {l r : Value} {error : ScriptError}
    (h : op.apply l r = .error error) : error.OfValues := by
  cases op with
  | add =>
      cases l <;> cases r <;> simp [BinaryOp.apply] at h <;> subst h <;> trivial
  | subtract | multiply => exact ofValues_of_arithmetic (fun a b h => by cases h) h
  | divide | modulo => exact ofValues_of_arithmetic (fun a b => ofValues_of_unlessZero) h
  | equal | notEqual | and | or => cases h
  | greater | less | greaterEqual | lessEqual => exact ofValues_of_comparison h

theorem own_depth (chained : Bool) (depth : Nat) :
    (if chained then depth + 1 else depth) = depth + chained.toNat := by
  cases chained <;> rfl

section Reach

variable {σ : Type} {calls : Calls σ} {session : Session}

mutual

-- Evaluation stays in its limit as long as the levels below the expression do.
theorem neverTooDeep_evalAt (hcalls : ∀ function values, Never .tooDeep (calls function values))
    (chained : Bool) (depth : Nat) (e : Expr) (h : depth + e.reach chained ≤ maxDepth) :
    Never .tooDeep (evalAt calls session chained depth e) := by
  match e with
  | .binary op left right =>
      simp only [Expr.reach] at h
      have hleft := neverTooDeep_evalAt hcalls true depth left (by omega)
      have hright := neverTooDeep_evalAt hcalls false (depth + 1) right (by omega)
      have hvalue : Never .tooDeep (do
          let l ← evalAt calls session true depth left
          match op.decided? l with
          | some v => pure v
          | none =>
              let r ← evalAt calls session false (depth + 1) right
              op.apply l r : Eval σ Value) := by
        apply never_bind hleft
        intro l
        split
        · exact never_pure _
        · exact never_bind hright fun r => never_lift ofValues_of_binary_apply
      unfold evalAt
      dsimp only
      split
      · exact hvalue
      · exact neverTooDeep_atDepth (by omega) hvalue
  | .unary op operand =>
      simp only [Expr.reach] at h
      have hoperand :=
        neverTooDeep_evalAt hcalls false (depth + chained.toNat + 1) operand (by omega)
      unfold evalAt
      rw [own_depth]
      exact neverTooDeep_atDepth (by omega)
        (never_bind hoperand fun v => never_lift ofValues_of_unary_apply)
  | .call function _ arguments =>
      simp only [Expr.reach] at h
      have hlist := neverTooDeep_evalList hcalls (depth + chained.toNat) arguments (by omega)
      unfold evalAt
      rw [own_depth]
      exact neverTooDeep_atDepth (by omega) (never_bind hlist fun values => hcalls function values)
  | .number _ | .text _ | .bool _ | .unit =>
      simp only [Expr.reach] at h
      unfold evalAt
      rw [own_depth]
      exact neverTooDeep_atDepth h (never_pure _)
  | .var name _ =>
      simp only [Expr.reach] at h
      unfold evalAt
      rw [own_depth]
      apply neverTooDeep_atDepth h
      split
      · exact never_pure _
      · intro s he
        cases he

theorem neverTooDeep_evalList (hcalls : ∀ function values, Never .tooDeep (calls function values))
    (depth : Nat) (es : List Expr) (h : depth + Expr.reachList es ≤ maxDepth) :
    Never .tooDeep (evalList calls session (depth + 1) es) := by
  match es with
  | [] => exact never_pure []
  | e :: rest =>
      simp only [Expr.reachList] at h
      have hfirst := neverTooDeep_evalAt hcalls false (depth + 1) e (by omega)
      have hrest := neverTooDeep_evalList hcalls depth rest (by omega)
      unfold evalList
      exact never_bind hfirst fun value =>
        never_bind hrest fun values => never_pure _

end

end Reach

mutual

-- Each nesting level of the text costs the evaluation at most two levels, one for the operand of
-- a sign and one for standing first in a chain. Only a chain of one level needs its extra level,
-- and such a chain has no operator.
theorem Derives.reach_le {level : Nat} {ts : List Located} {ds : List Nat} {e : Expr}
    (h : Derives level ts ds e) (bound : Nat) (hd : ∀ d ∈ ds, d ≤ bound + 1) :
    e.reach false ≤ 2 * bound ∧ e.reach true ≤ max 1 (2 * bound) := by
  match h with
  | .tighter _ h => exact h.reach_le bound hd
  | @Derives.binary _ _ _ _ _ ds es _ _ _ _ hl hr =>
      have hboth : (∀ d ∈ ds, d ≤ bound + 1) ∧ ∀ d ∈ es, d ≤ bound := by
        simpa [or_imp, forall_and] using hd
      have hone := hboth.2 1 hr.one_mem
      obtain ⟨b, rfl⟩ := Nat.exists_eq_add_of_le' hone
      have hleft := hl.reach_le (b + 1) hboth.1
      have hright := hr.reach_le b hboth.2
      simp only [Expr.reach]
      omega
  | @Derives.sign _ _ _ ds _ _ _ h =>
      have hin : ∀ d ∈ ds, d ≤ bound := by simpa using hd
      have hone := hin 1 h.one_mem
      obtain ⟨b, rfl⟩ := Nat.exists_eq_add_of_le' hone
      have hreach := h.reach_le b hin
      simp only [Expr.reach, Bool.toNat_false, Bool.toNat_true]
      omega
  | @Derives.group _ ds _ _ _ h =>
      have hin : ∀ d ∈ ds, d ≤ bound := by simpa [or_imp, forall_and] using hd
      have hone := hin 1 h.one_mem
      obtain ⟨b, rfl⟩ := Nat.exists_eq_add_of_le' hone
      have hreach := h.reach_le b hin
      omega
  | @Derives.call _ ds _ _ _ _ _ h =>
      have hin : ∀ d ∈ ds, d ≤ bound + 1 := by simpa [or_imp, forall_and] using hd
      have hreach := h.reachList_lt bound hin
      simp only [Expr.reach, Bool.toNat_false, Bool.toNat_true]
      omega
  | .number .. | .text .. | .bool .. | .unit .. | .var .. | .call0 .. =>
      simp [Expr.reach, Expr.reachList]

theorem DerivesList.reachList_lt {ts : List Located} {ds : List Nat} {es : List Expr}
    (h : DerivesList ts ds es) (bound : Nat) (hd : ∀ d ∈ ds, d ≤ bound + 1) :
    Expr.reachList es < 2 * bound := by
  match h with
  | @DerivesList.last _ ds _ h =>
      have hin : ∀ d ∈ ds, d ≤ bound := by simpa using hd
      have hone := hin 1 h.one_mem
      obtain ⟨b, rfl⟩ := Nat.exists_eq_add_of_le' hone
      have hreach := h.reach_le b hin
      simp only [Expr.reachList]
      omega
  | @DerivesList.more _ _ ds ns _ _ _ h hs =>
      have hboth : (∀ d ∈ ds, d ≤ bound) ∧ ∀ d ∈ ns, d ≤ bound + 1 := by
        simpa [or_imp, forall_and] using hd
      have hone := hboth.1 1 h.one_mem
      obtain ⟨b, rfl⟩ := Nat.exists_eq_add_of_le' hone
      have hreach := h.reach_le b hboth.1
      have hrest := hs.reachList_lt (b + 1) hboth.2
      simp only [Expr.reachList]
      omega

end

def Statement.value : Statement → Expr
  | .assign _ value _ => value
  | .run value _ => value

-- The trees that the parsers give: of an expression, of a guard and of a script's statement.
inductive Parsable : Expr → Prop
  | expression {text : List Char} {offset : Nat} {e : Expr} :
      parseExpr text offset = .ok e → Parsable e
  | guard {text : List Char} {offset : Nat} {guard : Guard} :
      parseGuard text offset = .ok guard → Parsable guard.expr
  | statement {text : List Char} {script : Script} {statement : Statement} :
      parseScript text = .ok script → statement ∈ script → Parsable statement.value

theorem derives_of_parseExpr {text : List Char} {offset : Nat} {e : Expr}
    (h : parseExpr text offset = .ok e) :
    ∃ ts ds, tokens 1 offset text = .ok ts ∧ Derives 0 ts ds e ∧ ∀ d ∈ ds, d ≤ maxNesting := by
  unfold parseExpr at h
  cases hl : tokens 1 offset text with
  | error e => rw [hl] at h; cases h
  | ok located =>
      rw [hl] at h
      obtain ⟨ds, hder⟩ := (whole_eq_ok_iff _ _ located e).mp h
      exact ⟨located, ds, rfl, hder⟩

-- A guard is an expression in which no call is found.
theorem parseGuard_eq_ok_iff {text : List Char} {offset : Nat} {guard : Guard} :
    parseGuard text offset = .ok guard ↔ parseExpr text offset = .ok guard.expr := by
  unfold parseGuard
  cases he : parseExpr text offset with
  | error error => simp [bind, Except.bind]
  | ok e =>
      simp only [bind, Except.bind, Except.ok.injEq]
      obtain ⟨expr, callFree⟩ := guard
      constructor
      · intro h
        split at h
        · cases h
          rfl
        · cases h
      · rintro rfl
        split
        · rfl
        · rename_i hcall
          rw [callFree] at hcall
          cases hcall

-- A line that has tokens is read as one statement, around a whole expression.
theorem parseStatement_cases (line offset : Nat) (text : List Char) :
    (∃ error, tokens line offset text = .error error ∧
      parseStatement line offset text = .error error) ∨
    parseStatement line offset text = .ok none ∨
    ∃ place trailing front located, ∃ build : Expr → Statement,
      place.line = line ∧ tokens line offset text = .ok (front ++ located) ∧
      (∀ value, (build value).line = line ∧ (build value).value = value) ∧
      parseStatement line offset text =
        (whole place trailing located).map fun value => some (build value) := by
  unfold parseStatement
  cases htokens : tokens line offset text with
  | error error => exact .inl ⟨error, rfl, rfl⟩
  | ok located =>
      refine .inr ?_
      simp only [bind, Except.bind]
      split
      · exact .inl rfl
      · rename_i name range range' rest
        exact .inr ⟨_, _, [⟨.name name, range⟩, ⟨.symbol .assign, range'⟩], rest,
          fun value => .assign name value line, rfl, rfl, fun _ => ⟨rfl, rfl⟩, rfl⟩
      · exact .inr ⟨_, _, [], located, fun value => .run value line, rfl, rfl,
          fun _ => ⟨rfl, rfl⟩, rfl⟩

-- A statement names the line that it is read from, and its value is read as an expression from the
-- last tokens of the line.
theorem whole_of_parseStatement {line offset : Nat} {text : List Char} {statement : Statement}
    (h : parseStatement line offset text = .ok (some statement)) :
    statement.line = line ∧
      ∃ place trailing front located, tokens line offset text = .ok (front ++ located) ∧
        whole place trailing located = .ok statement.value := by
  rcases parseStatement_cases line offset text with ⟨error, -, herror⟩ | hnone |
    ⟨place, trailing, front, located, build, -, htokens, hbuild, hwhole⟩
  · cases herror.symm.trans h
  · cases hnone.symm.trans h
  · rw [hwhole] at h
    cases hvalue : whole place trailing located with
    | error error =>
        rw [hvalue] at h
        cases h
    | ok value =>
        rw [hvalue] at h
        cases h
        obtain ⟨hline, hown⟩ := hbuild value
        exact ⟨hline, place, trailing, front, located, htokens, by rw [hown, hvalue]⟩

theorem derives_of_parseStatement {line offset : Nat} {text : List Char} {statement : Statement}
    (h : parseStatement line offset text = .ok (some statement)) :
    ∃ ts ds, Derives 0 ts ds statement.value ∧ ∀ d ∈ ds, d ≤ maxNesting := by
  obtain ⟨-, place, trailing, _, located, -, hwhole⟩ := whole_of_parseStatement h
  obtain ⟨ds, hderives⟩ := (whole_eq_ok_iff place trailing located statement.value).mp hwhole
  exact ⟨located, ds, hderives⟩

section Lines

variable {line offset : Nat} {text : List Char} {more : List (List Char)}

-- What reading a line and those below it comes to.
theorem parseLines_cons (text : List Char) (more : List (List Char)) :
    parseLines line offset (text :: more) = (do
      let statement ← parseStatement line offset (Text.trimEnd isLineEnd text)
      let rest ← parseLines (line + 1) (offset + Text.byteCount text) more
      .ok (statement.toList ++ rest)) := by
  rw [parseLines]

theorem parseLines_cons_of_ok {own : Option Statement} {rest : Script}
    (hown : parseStatement line offset (Text.trimEnd isLineEnd text) = .ok own)
    (hrest : parseLines (line + 1) (offset + Text.byteCount text) more = .ok rest) :
    parseLines line offset (text :: more) = .ok (own.toList ++ rest) := by
  simp only [parseLines_cons, hown, hrest, bind, Except.bind]

theorem parseLines_cons_eq_ok {script : Script}
    (h : parseLines line offset (text :: more) = .ok script) :
    ∃ own rest, parseStatement line offset (Text.trimEnd isLineEnd text) = .ok own ∧
      parseLines (line + 1) (offset + Text.byteCount text) more = .ok rest ∧
      script = own.toList ++ rest := by
  rw [parseLines_cons] at h
  cases hown : parseStatement line offset (Text.trimEnd isLineEnd text) with
  | error error =>
      rw [hown] at h
      cases h
  | ok own =>
      simp only [hown, bind, Except.bind] at h
      cases hrest : parseLines (line + 1) (offset + Text.byteCount text) more with
      | error error =>
          rw [hrest] at h
          cases h
      | ok rest =>
          rw [hrest] at h
          cases h
          exact ⟨own, rest, rfl, rfl, rfl⟩

end Lines

theorem derives_of_mem_parseLines {line offset : Nat} {lines : List (List Char)} {script : Script}
    {statement : Statement} (h : parseLines line offset lines = .ok script)
    (hm : statement ∈ script) :
    ∃ ts ds, Derives 0 ts ds statement.value ∧ ∀ d ∈ ds, d ≤ maxNesting := by
  induction lines generalizing line offset script with
  | nil => cases h; cases hm
  | cons text more ih =>
      obtain ⟨first, rest, hs, hr, rfl⟩ := parseLines_cons_eq_ok h
      rcases List.mem_append.mp hm with hm | hm
      · exact derives_of_parseStatement (hs.trans (by rw [Option.mem_toList.mp hm]))
      · exact ih hr hm

theorem Parsable.derives {e : Expr} (h : Parsable e) :
    ∃ ts ds, Derives 0 ts ds e ∧ ∀ d ∈ ds, d ≤ maxNesting := by
  cases h with
  | expression h =>
      obtain ⟨ts, ds, -, hder⟩ := derives_of_parseExpr h
      exact ⟨ts, ds, hder⟩
  | guard h =>
      obtain ⟨ts, ds, -, hder⟩ := derives_of_parseExpr (parseGuard_eq_ok_iff.mp h)
      exact ⟨ts, ds, hder⟩
  | statement h hm => exact derives_of_mem_parseLines h hm

-- The limit of the parser keeps evaluation within its own limit, in every session.
theorem evaluate_ne_tooDeep {σ : Type} {calls : Calls σ} {e : Expr} (h : Parsable e)
    (hcalls : ∀ function values s, ((calls function values).run s).1 ≠ .error .tooDeep)
    (session : Session) (s : σ) :
    ((evaluate calls session e).run s).1 ≠ .error .tooDeep := by
  obtain ⟨ts, ds, hder, hds⟩ := h.derives
  have hreach := (hder.reach_le 127 hds).1
  apply neverTooDeep_evalAt hcalls
  simp only [maxDepth]
  omega

theorem evaluate_signTimesGroup_ne_tooDeep :
    Parsable signTimesGroupTree ∧
      ((evaluate noCalls Session.empty signTimesGroupTree).run ()).1 ≠ .error .tooDeep := by
  have hp : parseExpr "-f(a)*(b)".toList 4 = .ok signTimesGroupTree := by
    unfold parseExpr
    rw [tokens_signTimesGroup]
    exact (whole_eq_ok_iff _ _ _ _).mpr ⟨_, derives_signTimesGroup, by decide⟩
  have hcalls : ∀ function values s,
      ((noCalls function values).run s).1 ≠ .error .tooDeep := by
    intro function values s h
    cases h
  exact ⟨.expression hp, evaluate_ne_tooDeep (.expression hp) hcalls Session.empty ()⟩

end LiveDoc.Calc
