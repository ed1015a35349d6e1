import LiveDoc.Proofs.Calc.Places
import Mathlib

namespace LiveDoc.Calc

section Skips

variable (session : Session)

-- A variable stands in the right operand of an operator that evaluation comes to and that its left
-- operand settles alone.
inductive Skips : Bool → Nat → Expr → String × ByteRange → Prop
  | settled {chained : Bool} {depth : Nat} {op : BinaryOp} {left right : Expr}
      {value settled : Value} {own : String × ByteRange} :
      (evalAt noCalls session true depth left).run () = (.ok value, ()) →
      op.decided? value = some settled → own ∈ right.variables →
      Skips chained depth (.binary op left right) own
  | operand {chained : Bool} {depth : Nat} {e : Expr} {own : String × ByteRange} (op : UnaryOp) :
      Skips false (depth + chained.toNat + 1) e own → Skips chained depth (.unary op e) own
  | left {chained : Bool} {depth : Nat} {left right : Expr} {own : String × ByteRange}
      (op : BinaryOp) :
      Skips true depth left own → Skips chained depth (.binary op left right) own
  | right {chained : Bool} {depth : Nat} {op : BinaryOp} {left right : Expr} {value : Value}
      {own : String × ByteRange} :
      (evalAt noCalls session true depth left).run () = (.ok value, ()) →
      op.decided? value = none → Skips false (depth + 1) right own →
      Skips chained depth (.binary op left right) own

end Skips

section Evaluation

variable {σ α : Type} {session : Session} {chained : Bool} {depth : Nat}

-- A computation behind a limit does what it does, unless the limit is passed.
theorem run_atDepth {action : Eval σ α} {s s' : σ} {result : Except ScriptError α}
    (h : (atDepth depth action).run s = (result, s')) (hresult : result ≠ .error .tooDeep) :
    depth ≤ maxDepth ∧ action.run s = (result, s') := by
  rcases Nat.lt_or_ge maxDepth depth with hdepth | hdepth
  · rw [atDepth, if_pos hdepth] at h
    cases h
    exact (hresult rfl).elim
  · rw [atDepth_of_le hdepth] at h
    exact ⟨hdepth, h⟩

theorem run_evalAt_binary {calls : Calls σ} {op : BinaryOp} {left right : Expr} {s s' : σ}
    {result : Except ScriptError Value}
    (h : (evalAt calls session chained depth (.binary op left right)).run s = (result, s'))
    (hresult : result ≠ .error .tooDeep) :
    (chained = false → depth ≤ maxDepth) ∧ (do
      let l ← evalAt calls session true depth left
      match op.decided? l with
      | some v => pure v
      | none =>
          let r ← evalAt calls session false (depth + 1) right
          op.apply l r : Eval σ Value).run s = (result, s') := by
  rw [evalAt] at h
  cases chained with
  | true => exact ⟨nofun, h⟩
  | false =>
      obtain ⟨hdepth, h⟩ := run_atDepth h hresult
      exact ⟨fun _ => hdepth, h⟩

end Evaluation

section Names

variable {session : Session} {name : String}

-- Where evaluation succeeds it has passed over every place where an unbound name is read.
theorem skips_of_evalAt_eq_ok (hunbound : session.get? name = none) {e : Expr} {chained : Bool}
    {depth : Nat} {value : Value} (hfree : e.firstCall? = none)
    (h : (evalAt noCalls session chained depth e).run () = (.ok value, ())) {place : ByteRange}
    (hplace : (name, place) ∈ e.variables) : Skips session chained depth e (name, place) := by
  match e with
  | .number _ | .text _ | .bool _ | .unit => cases hplace
  | .call _ _ _ => cases hfree
  | .var other own =>
      cases List.mem_singleton.mp hplace
      rw [evalAt] at h
      obtain ⟨-, h⟩ := run_atDepth h nofun
      rw [hunbound] at h
      cases h
  | .unary op operand =>
      have hfree : operand.firstCall? = none := hfree
      rw [evalAt, own_depth] at h
      obtain ⟨-, h⟩ := run_atDepth h nofun
      obtain ⟨value, ⟨⟩, hoperand, -⟩ := Action.run_bind_eq_ok h
      exact .operand op (skips_of_evalAt_eq_ok hunbound hfree hoperand hplace)
  | .binary op left right =>
      obtain ⟨hfreeLeft, hfreeRight⟩ := Option.or_eq_none_iff.mp hfree
      obtain ⟨-, h⟩ := run_evalAt_binary h nofun
      obtain ⟨l, ⟨⟩, hleft, h⟩ := Action.run_bind_eq_ok h
      rcases List.mem_append.mp hplace with hplace | hplace
      · exact .left op (skips_of_evalAt_eq_ok hunbound hfreeLeft hleft hplace)
      · cases hsettled : op.decided? l with
        | some settled => exact .settled hleft hsettled hplace
        | none =>
            rw [hsettled] at h
            obtain ⟨r, ⟨⟩, hright, -⟩ := Action.run_bind_eq_ok h
            exact .right hleft hsettled
              (skips_of_evalAt_eq_ok hunbound hfreeRight hright hplace)

-- Where evaluation misses a name it has come to a place where the name is read, and has passed
-- over every such place before.
theorem looksUp_of_evalAt_eq_error {e : Expr} {chained : Bool} {depth : Nat}
    (hfree : e.firstCall? = none)
    (h : (evalAt noCalls session chained depth e).run () = (.error (.undefinedVariable name), ())) :
    session.get? name = none ∧ ∃ before place after,
      e.variables = before ++ (name, place) :: after ∧
      LooksUp session name chained depth e place ∧
      ∀ own ∈ before, own.1 = name → Skips session chained depth e own := by
  match e with
  | .number _ | .text _ | .bool _ | .unit =>
      rw [evalAt] at h
      cases (run_atDepth h nofun).2
  | .call _ _ _ => cases hfree
  | .var other own =>
      rw [evalAt, own_depth] at h
      obtain ⟨hdepth, h⟩ := run_atDepth h nofun
      cases hget : session.get? other with
      | some value =>
          rw [hget] at h
          cases h
      | none =>
          rw [hget] at h
          cases h
          exact ⟨hget, [], own, [], rfl, .var own hdepth, nofun⟩
  | .unary op operand =>
      have hfree : operand.firstCall? = none := hfree
      rw [evalAt, own_depth] at h
      obtain ⟨hdepth, h⟩ := run_atDepth h nofun
      rcases Action.run_bind_eq_error h with h | ⟨value, middle, -, h⟩
      · obtain ⟨hunbound, before, place, after, hsplit, hlooks, hskips⟩ :=
          looksUp_of_evalAt_eq_error hfree h
        exact ⟨hunbound, before, place, after, hsplit, .operand op hdepth hlooks,
          fun own hown hname => .operand op (hskips own hown hname)⟩
      · rw [Action.run_liftM] at h
        exact (ofValues_of_unary_apply (Prod.ext_iff.mp h).1).elim
  | .binary op left right =>
      obtain ⟨hfreeLeft, hfreeRight⟩ := Option.or_eq_none_iff.mp hfree
      obtain ⟨hdepth, h⟩ := run_evalAt_binary h nofun
      rcases Action.run_bind_eq_error h with h | ⟨l, ⟨⟩, hleft, h⟩
      · obtain ⟨hunbound, before, place, after, hsplit, hlooks, hskips⟩ :=
          looksUp_of_evalAt_eq_error hfreeLeft h
        refine ⟨hunbound, before, place, after ++ right.variables, ?_, .left op hdepth hlooks,
          fun own hown hname => .left op (hskips own hown hname)⟩
        rw [Expr.variables, hsplit, List.append_assoc, List.cons_append]
      · cases hsettled : op.decided? l with
        | some settled =>
            rw [hsettled] at h
            cases h
        | none =>
            rw [hsettled] at h
            rcases Action.run_bind_eq_error h with h | ⟨r, ⟨⟩, -, h⟩
            · obtain ⟨hunbound, before, place, after, hsplit, hlooks, hskips⟩ :=
                looksUp_of_evalAt_eq_error hfreeRight h
              refine ⟨hunbound, left.variables ++ before, place, after, ?_,
                .right hdepth hleft hsettled hlooks, fun own hown hname => ?_⟩
              · rw [Expr.variables, hsplit, List.append_assoc]
              · rcases List.mem_append.mp hown with hown | hown
                · obtain ⟨other, range⟩ := own
                  cases hname
                  exact .left op (skips_of_evalAt_eq_ok hunbound hfreeLeft hleft hown)
                · exact .right hleft hsettled (hskips own hown hname)
            · rw [Action.run_liftM] at h
              exact (ofValues_of_binary_apply (Prod.ext_iff.mp h).1).elim

-- Evaluation comes to one such place.
theorem LooksUp.unique (hunbound : session.get? name = none) {e : Expr} {chained : Bool}
    {depth : Nat} {place other : ByteRange} (h : LooksUp session name chained depth e place)
    (h' : LooksUp session name chained depth e other) : other = place := by
  induction h with
  | var place _ =>
      cases h'
      rfl
  | operand op _ _ ih =>
      cases h' with
      | operand _ _ h' => exact ih h'
  | left op _ hleft ih =>
      cases h' with
      | left _ _ h' => exact ih h'
      | right _ hok _ _ =>
          rw [hleft.run_evalAt hunbound] at hok
          cases hok
  | right _ hok _ _ ih =>
      cases h' with
      | left _ _ h' =>
          rw [h'.run_evalAt hunbound] at hok
          cases hok
      | right _ _ _ h' => exact ih h'

end Names

mutual

-- A name's first place is the first one in the order of the text.
theorem firstRead?_eq_find? (name : String) (e : Expr) :
    e.firstRead? name = (e.variables.find? (·.1 = name)).map (·.2) := by
  match e with
  | .var other place => by_cases h : other = name <;> simp [Expr.firstRead?, Expr.variables, h]
  | .call _ _ arguments => exact firstReadIn?_eq_find? name arguments
  | .unary _ operand => exact firstRead?_eq_find? name operand
  | .binary _ left right =>
      rw [Expr.firstRead?, Expr.variables, firstRead?_eq_find? name left,
        firstRead?_eq_find? name right, List.find?_append, Option.map_or]
  | .text _ | .number _ | .bool _ | .unit => rfl

theorem firstReadIn?_eq_find? (name : String) (es : List Expr) :
    Expr.firstReadIn? name es = ((Expr.variablesOf es).find? (·.1 = name)).map (·.2) := by
  match es with
  | [] => rfl
  | e :: rest =>
      rw [Expr.firstReadIn?, Expr.variablesOf, firstRead?_eq_find? name e,
        firstReadIn?_eq_find? name rest, List.find?_append, Option.map_or]

end

section Order

variable {line offset : Nat} {text : List Char}

-- Tokens stand one after the other.
theorem pairwise_tokens {located : List Located} (h : tokens line offset text = .ok located) :
    (∀ t ∈ located, offset ≤ t.range.start) ∧
      located.Pairwise fun t later => t.range.start < later.range.start := by
  fun_induction tokens line offset text generalizing located with
  | case1 offset =>
      cases h
      exact ⟨fun t ht => (List.not_mem_nil ht).elim, .nil⟩
  | case2 offset c rest hblank ih =>
      obtain ⟨hstart, hpairwise⟩ := ih h
      exact ⟨fun t ht => (Nat.le_add_right ..).trans (hstart t ht), hpairwise⟩
  | case3 offset rest hblank =>
      cases h
      exact ⟨fun t ht => (List.not_mem_nil ht).elim, .nil⟩
  | case4 offset c rest hblank hmark misread herror => cases h
  | case5 offset c rest hblank hmark token count hlexeme stop =>
      rename_i ih
      cases hmore : tokens line stop (rest.drop count) with
      | error error =>
          rw [hmore] at h
          cases h
      | ok more =>
          rw [hmore] at h
          cases h
          obtain ⟨hstart, hpairwise⟩ := ih hmore
          have hstop : offset < stop := by
            have := Char.utf8Size_pos c
            simp only [stop, Text.byteCount_cons]
            omega
          refine ⟨List.forall_mem_cons.mpr ⟨Nat.le_refl _, fun t ht => ?_⟩,
            List.pairwise_cons.mpr ⟨fun t ht => ?_, hpairwise⟩⟩
          · exact hstop.le.trans (hstart t ht)
          · exact hstop.trans_le (hstart t ht)

theorem pairwise_variables {guard : Guard} (h : parseGuard text offset = .ok guard) :
    guard.expr.variables.Pairwise fun own later => own.2.start < later.2.start := by
  obtain ⟨located, ds, hlocated, hderives, -⟩ := derives_of_parseExpr (parseGuard_eq_ok_iff.mp h)
  have hsublist := ((variables_sublist_names guard.expr).map _).trans hderives.names_sublist
  have hpairwise := (pairwise_tokens hlocated).2.sublist hsublist
  simpa only [List.pairwise_map] using hpairwise

end Order

end LiveDoc.Calc

namespace LiveDoc

open Calc

-- What a guard that fails so says: the name is the one that evaluation has missed.
theorem evaluateGuard_eq_undefined {guard : Guard} {source text name : String} {span found : Span}
    {session : Session}
    (h : evaluateGuard guard source span session = .error (.undefined name text found)) :
    (evaluate noCalls session guard.expr).run () = (.error (.undefinedVariable name), ()) ∧
      text = source ∧ ∃ place, guard.expr.firstRead? name = some place ∧
        found = ⟨span.source, place, span.line⟩ := by
  unfold evaluateGuard at h
  split at h
  · cases h
  · rename_i missed heval
    obtain ⟨place, hplace⟩ := exists_firstRead_of_evaluate heval
    rw [hplace] at h
    cases h
    exact ⟨Prod.ext heval rfl, rfl, place, hplace, rfl⟩
  · cases h

-- A guard that misses a name has come to one place where the name is read, and has passed over
-- every such place before. It reports the first of all of them in the text: the one it has come to,
-- unless it has passed over one.
theorem place_of_undefined {guard : Guard} {source text name : String} {span found : Span}
    {session : Session}
    (h : evaluateGuard guard source span session = .error (.undefined name text found)) :
    text = source ∧ found.source = span.source ∧ found.line = span.line ∧
    session.get? name = none ∧
    ∃ before place after,
      guard.expr.variables = before ++ (name, place) :: after ∧
      (∀ other, LooksUp session name false 0 guard.expr other ↔ other = place) ∧
      (∀ own ∈ before, own.1 = name → Skips session false 0 guard.expr own) ∧
      found.range = ((before.find? (·.1 = name)).map (·.2)).getD place ∧
      ∀ written offset, parseGuard written offset = .ok guard →
        (found.range = place ↔ ∀ own ∈ before, own.1 ≠ name) := by
  obtain ⟨heval, rfl, first, hfirst, rfl⟩ := evaluateGuard_eq_undefined h
  obtain ⟨hunbound, before, place, after, hsplit, hlooks, hskips⟩ :=
    looksUp_of_evalAt_eq_error guard.callFree heval
  have hrange : first = ((before.find? (·.1 = name)).map (·.2)).getD place := by
    rw [firstRead?_eq_find?, hsplit, List.find?_append, List.find?_cons_of_pos (by simp)] at hfirst
    cases hbefore : before.find? (·.1 = name) <;> simp_all
  refine ⟨rfl, rfl, rfl, hunbound, before, place, after, hsplit, fun other => ?_, hskips, hrange,
    fun written offset hparse => ?_⟩
  · refine ⟨fun hother => hlooks.unique hunbound hother, ?_⟩
    rintro rfl
    exact hlooks
  · have hordered := List.pairwise_append.mp (hsplit ▸ pairwise_variables hparse)
    cases hbefore : before.find? (·.1 = name) with
    | none =>
        have hnone := List.find?_eq_none.mp hbefore
        simpa [hrange, hbefore] using hnone
    | some own =>
        have hmem := List.mem_of_find?_eq_some hbefore
        have hname : own.1 = name := by simpa using List.find?_some hbefore
        have hlt := hordered.2.2 own hmem _ (List.mem_cons_self ..)
        rw [hbefore] at hrange
        refine iff_of_false (fun hsame => ?_) (fun hnone => hnone own hmem hname)
        rw [← hsame, hrange] at hlt
        exact Nat.lt_irrefl _ hlt

-- `false && x || x`, read behind the word that starts a condition.
def eitherGuard : Guard where
  expr := .binary .or (.binary .and (.bool false) (.var "x" ⟨13, 14⟩)) (.var "x" ⟨18, 19⟩)
  callFree := rfl

def eitherSpan : Span := ⟨0, ⟨0, 19⟩, 1⟩

theorem place_of_undefined_either :
    evaluateGuard eitherGuard "false && x || x" eitherSpan .empty =
      .error (.undefined "x" "false && x || x" ⟨0, ⟨13, 14⟩, 1⟩) ∧
    ∃ before place after,
      eitherGuard.expr.variables = before ++ ("x", place) :: after ∧
      (∀ other, LooksUp .empty "x" false 0 eitherGuard.expr other ↔ other = place) ∧
      ∀ own ∈ before, own.1 = "x" → Skips .empty false 0 eitherGuard.expr own := by
  have hfails : evaluateGuard eitherGuard "false && x || x" eitherSpan .empty =
      .error (.undefined "x" "false && x || x" ⟨0, ⟨13, 14⟩, 1⟩) := by rfl
  obtain ⟨-, -, -, -, before, place, after, hsplit, hlooks, hskips, -⟩ := place_of_undefined hfails
  exact ⟨hfails, before, place, after, hsplit, hlooks, hskips⟩

-- The first `x` is passed over and the second one is missed. The first one is reported.
theorem reported_place_is_skipped :
    parseGuard "false && x || x".toList 4 = .ok eitherGuard ∧
    evaluateGuard eitherGuard "false && x || x" eitherSpan .empty =
      .error (.undefined "x" "false && x || x" ⟨0, ⟨13, 14⟩, 1⟩) ∧
    Skips .empty false 0 eitherGuard.expr ("x", ⟨13, 14⟩) ∧
    ∀ place, LooksUp .empty "x" false 0 eitherGuard.expr place ↔ place = ⟨18, 19⟩ := by
  have hparse : parseExpr "false && x || x".toList 4 = .ok eitherGuard.expr := by cbv
  have hlooks : LooksUp .empty "x" false 0 eitherGuard.expr ⟨18, 19⟩ :=
    .right (fun _ => by decide) (by rfl) (by rfl) (.var _ (by decide))
  refine ⟨parseGuard_eq_ok_iff.mpr hparse, by rfl,
    .left _ (.settled (by rfl) (by rfl) (List.mem_singleton_self _)), fun place => ?_⟩
  constructor
  · exact fun h => hlooks.unique (by rfl) h
  · rintro rfl
    exact hlooks

end LiveDoc
