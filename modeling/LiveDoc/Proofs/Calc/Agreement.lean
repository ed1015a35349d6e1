import LiveDoc.Calc.Execution
import LiveDoc.Proofs.Calc.Lookup
import LiveDoc.Proofs.Calc.Rules

namespace LiveDoc.Calc

-- A computation ends like this, and with a handler that writes its calls down it ends alike and
-- has these calls written down.
structure Runs {σ α : Type} (plain : Eval σ α) (logged : Eval (σ × List Invocation) α) (s : σ)
    (made : List Invocation) (result : Except ScriptError α) (after : σ) : Prop where
  plain : plain.run s = (result, after)
  logged : ∀ log, logged.run (s, log) = (result, (after, log ++ made))

section Runs

variable {σ α β : Type} {s middle after : σ} {made more : List Invocation}
  {plain : Eval σ α} {logged : Eval (σ × List Invocation) α}
  {next : α → Eval σ β} {nextLogged : α → Eval (σ × List Invocation) β}

theorem runs_pure (a : α) (s : σ) : Runs (pure a) (pure a) s [] (.ok a) s :=
  ⟨rfl, fun log => by rw [List.append_nil]; rfl⟩

theorem runs_throw (error : ScriptError) (s : σ) :
    Runs (throw error : Eval σ α) (throw error) s [] (.error error) s :=
  ⟨rfl, fun log => by rw [List.append_nil]; rfl⟩

theorem runs_lift (result : Except ScriptError α) (s : σ) :
    Runs (liftM result : Eval σ α) (liftM result) s [] result s :=
  ⟨Action.run_liftM .., fun log => by rw [List.append_nil]; exact Action.run_liftM ..⟩

theorem runs_call {calls : Calls σ} {function : String} {values : List Value}
    {result : Except ScriptError Value} (h : (calls function values).run s = (result, after)) :
    Runs (calls function values) (calls.logged function values) s [⟨function, values⟩] result
      after :=
  ⟨h, fun log => by
    have hcall : calls function values s = (result, after) := h
    simp only [Calls.logged, ExceptT.run, ExceptT.mk, hcall]⟩

theorem Runs.bind {a : α} {result : Except ScriptError β}
    (h : Runs plain logged s made (.ok a) middle)
    (hnext : Runs (next a) (nextLogged a) middle more result after) :
    Runs (plain >>= next) (logged >>= nextLogged) s (made ++ more) result after := by
  constructor
  · rw [Action.run_bind_of_ok h.plain, hnext.plain]
  · intro log
    rw [Action.run_bind_of_ok (h.logged log), hnext.logged, List.append_assoc]

theorem Runs.bind_error {error : ScriptError} (h : Runs plain logged s made (.error error) after) :
    Runs (plain >>= next) (logged >>= nextLogged) s made (.error error) after := by
  constructor
  · exact Action.run_bind_of_error h.plain
  · exact fun log => Action.run_bind_of_error (h.logged log)

-- A last step that the handler has no part in.
theorem Runs.bind_lift {result : Except ScriptError α} {f : α → Except ScriptError β}
    (h : Runs plain logged s made result after) :
    Runs (plain >>= fun a => liftM (f a)) (logged >>= fun a => liftM (f a)) s made
      (result.bind f) after := by
  cases result with
  | error error => exact h.bind_error
  | ok a =>
      rw [← List.append_nil made]
      exact h.bind (runs_lift (f a) after)

theorem Runs.map {result : Except ScriptError α} (f : α → β)
    (h : Runs plain logged s made result after) :
    Runs (plain >>= fun a => pure (f a)) (logged >>= fun a => pure (f a)) s made (result.map f)
      after := by
  cases result with
  | error error => exact h.bind_error
  | ok a =>
      rw [← List.append_nil made]
      exact h.bind (runs_pure (f a) after)

theorem Runs.atDepth {depth : Nat} {result : Except ScriptError α} (hdepth : depth ≤ maxDepth)
    (h : Runs plain logged s made result after) :
    Runs (atDepth depth plain) (atDepth depth logged) s made result after := by
  rw [atDepth_of_le hdepth, atDepth_of_le hdepth]
  exact h

end Runs

-- The depth at which an expression stands. As the left operand of a chain it stands one deeper
-- than the chain, unless it goes on with the chain.
def Expr.standing (chained : Bool) (depth : Nat) (e : Expr) : Nat :=
  if chained && !e.isChain then depth + 1 else depth

@[simp] theorem standing_false (depth : Nat) (e : Expr) : e.standing false depth = depth := rfl

theorem standing_of_not_isChain {e : Expr} (h : e.isChain = false) (chained : Bool) (depth : Nat) :
    e.standing chained depth = depth + chained.toNat := by
  cases chained <;> simp [Expr.standing, h]

@[simp] theorem standing_binary (chained : Bool) (depth : Nat) (op : BinaryOp) (left right : Expr) :
    (Expr.binary op left right).standing chained depth = depth := by
  simp [Expr.standing, Expr.isChain]

theorem le_standing (chained : Bool) (depth : Nat) (e : Expr) :
    depth ≤ e.standing chained depth := by
  unfold Expr.standing
  split <;> omega

section Levels

variable {σ : Type} {calls : Calls σ} {session : Session}

-- Evaluation stays within the limit, for an expression at this depth and for all arguments.
def Fits (calls : Calls σ) (session : Session) (e : Expr) (s : σ) (depth : Nat) : Prop :=
  ∀ level, Reaches calls session e s level → depth + level ≤ maxDepth

def FitsAll (calls : Calls σ) (session : Session) (es : List Expr) (s : σ) (depth : Nat) : Prop :=
  ∀ level, ReachesIn calls session es s level → depth + level ≤ maxDepth

variable {s middle : σ} {depth : Nat} {made : List Invocation}

theorem Fits.own {e : Expr} (h : Fits calls session e s depth) : depth ≤ maxDepth := h 0 (.here e s)

-- What lies below the left operand of a chain lies as deep below the chain.
theorem reaches_left {left : Expr} {level : Nat} (depth : Nat) (op : BinaryOp) (right : Expr)
    (h : Reaches calls session left s level) :
    ∃ below, Reaches calls session (.binary op left right) s below ∧
      left.standing true depth + level = depth + below := by
  cases hchain : left.isChain with
  | false =>
      refine ⟨level + 1, .first op right hchain h, ?_⟩
      rw [standing_of_not_isChain hchain, Bool.toNat_true]
      omega
  | true => exact ⟨level, .along op right hchain h, by simp [Expr.standing, hchain]⟩

theorem Fits.left {op : BinaryOp} {left right : Expr}
    (h : Fits calls session (.binary op left right) s depth) :
    Fits calls session left s (left.standing true depth) := by
  intro level hlevel
  obtain ⟨below, hbelow, hequal⟩ := reaches_left depth op right hlevel
  rw [hequal]
  exact h below hbelow

theorem Fits.right {op : BinaryOp} {left right : Expr} {value : Value}
    (h : Fits calls session (.binary op left right) s depth)
    (hleft : Gives calls session left s made (.ok value) middle)
    (hneeds : op.decided? value = none) :
    Fits calls session right middle (depth + 1) := by
  intro level hlevel
  have := h (level + 1) (.right hleft (needs_iff.mpr hneeds) hlevel)
  omega

theorem Fits.operand {op : UnaryOp} {operand : Expr}
    (h : Fits calls session (.unary op operand) s depth) :
    Fits calls session operand s (depth + 1) := by
  intro level hlevel
  have := h (level + 1) (.operand op hlevel)
  omega

theorem Fits.arguments {function : String} {place : ByteRange} {arguments : List Expr}
    (h : Fits calls session (.call function place arguments) s depth) :
    FitsAll calls session arguments s (depth + 1) := by
  intro level hlevel
  have := h (level + 1) (.argument function place hlevel)
  omega

theorem FitsAll.first {e : Expr} {rest : List Expr}
    (h : FitsAll calls session (e :: rest) s depth) : Fits calls session e s depth :=
  fun level hlevel => h level (.first rest hlevel)

theorem FitsAll.later {e : Expr} {rest : List Expr} {value : Value}
    (h : FitsAll calls session (e :: rest) s depth)
    (hfirst : Gives calls session e s made (.ok value) middle) :
    FitsAll calls session rest middle depth := fun level hlevel => h level (.later hfirst hlevel)

end Levels

section Within

variable {σ : Type} {calls : Calls σ} {session : Session}

mutual

-- Within the limit evaluation does what the rules say.
theorem runs_evalAt {e : Expr} {s after : σ} {made : List Invocation}
    {result : Except ScriptError Value} (chained : Bool) (depth : Nat)
    (hfits : Fits calls session e s (e.standing chained depth))
    (h : Gives calls session e s made result after) :
    Runs (evalAt calls session chained depth e) (evalAt calls.logged session chained depth e) s made
      result after := by
  match e with
  | .number _ | .text _ | .bool _ | .unit =>
      rw [standing_of_not_isChain rfl] at hfits
      cases h
      rw [evalAt, evalAt, own_depth]
      exact (runs_pure _ s).atDepth hfits.own
  | .var name place =>
      rw [standing_of_not_isChain rfl] at hfits
      rw [evalAt, evalAt, own_depth]
      apply Runs.atDepth hfits.own
      cases h with
      | bound _ _ hget =>
          rw [hget]
          exact runs_pure _ s
      | unbound _ _ hget =>
          rw [hget]
          exact runs_throw _ s
  | .call function place arguments =>
      rw [standing_of_not_isChain rfl] at hfits
      rw [evalAt, evalAt, own_depth]
      apply Runs.atDepth hfits.own
      rcases h.of_call with ⟨error, harguments, rfl⟩ |
        ⟨before, values, middle, harguments, rfl, hcall⟩
      · exact (runs_evalList _ hfits.arguments harguments).bind_error
      · exact (runs_evalList _ hfits.arguments harguments).bind (runs_call hcall)
  | .unary op operand =>
      rw [standing_of_not_isChain rfl] at hfits
      rw [evalAt, evalAt, own_depth]
      apply Runs.atDepth hfits.own
      obtain ⟨other, hoperand, rfl⟩ := h.of_unary
      exact (runs_evalAt false _ hfits.operand hoperand).bind_lift
  | .binary op left right =>
      rw [standing_binary] at hfits
      rw [evalAt_binary _ _ _ _ fun _ => hfits.own, evalAt_binary _ _ _ _ fun _ => hfits.own]
      rcases h.of_binary with ⟨error, hleft, rfl⟩ | ⟨value, settled, hleft, hsettled, rfl⟩ |
        ⟨value, before, middle, more, other, hleft, hneeds, hright, rfl, rfl⟩
      · exact (runs_evalAt true depth hfits.left hleft).bind_error
      · rw [← List.append_nil made]
        refine (runs_evalAt true depth hfits.left hleft).bind ?_
        rw [hsettled]
        exact runs_pure settled after
      · refine (runs_evalAt true depth hfits.left hleft).bind ?_
        rw [hneeds]
        exact (runs_evalAt false (depth + 1) (hfits.right hleft hneeds) hright).bind_lift

theorem runs_evalList {es : List Expr} {s after : σ} {made : List Invocation}
    {result : Except ScriptError (List Value)} (depth : Nat)
    (hfits : FitsAll calls session es s depth)
    (h : GivesAll calls session es s made result after) :
    Runs (evalList calls session depth es) (evalList calls.logged session depth es) s made result
      after := by
  match es with
  | [] =>
      cases h
      exact runs_pure [] s
  | e :: rest =>
      rw [evalList, evalList]
      rcases h.of_cons with ⟨error, hfirst, rfl⟩ |
        ⟨value, before, middle, more, others, hfirst, hrest, rfl, rfl⟩
      · exact (runs_evalAt false depth hfits.first hfirst).bind_error
      · apply (runs_evalAt false depth hfits.first hfirst).bind
        exact (runs_evalList depth (hfits.later hfirst) hrest).map (value :: ·)

end

end Within

section Beyond

variable {σ : Type} {calls : Calls σ} {session : Session}

theorem not_fits_iff {e : Expr} {s : σ} {depth : Nat} :
    ¬Fits calls session e s depth ↔
      ∃ level, Reaches calls session e s level ∧ maxDepth < depth + level := by
  simp only [Fits, not_forall, not_le, exists_prop]

theorem run_atDepth_of_lt {α : Type} {depth : Nat} (h : maxDepth < depth) (action : Eval σ α)
    (s : σ) :
    ((atDepth depth action).run s).1 = .error .tooDeep := by
  rw [atDepth, if_pos h]
  rfl

theorem run_bind_tooDeep {α β : Type} {m : Eval σ α} {f : α → Eval σ β} {s : σ}
    (h : (m.run s).1 = .error .tooDeep) : ((m >>= f).run s).1 = .error .tooDeep := by
  rw [Action.run_bind_of_error (Prod.ext h rfl)]

-- A computation behind a limit is refused where the limit is passed or where it is refused.
theorem run_atDepth_tooDeep {α : Type} {depth : Nat} {action : Eval σ α} {s : σ}
    (h : depth ≤ maxDepth → (action.run s).1 = .error .tooDeep) :
    ((atDepth depth action).run s).1 = .error .tooDeep := by
  rcases Nat.lt_or_ge maxDepth depth with hdepth | hdepth
  · exact run_atDepth_of_lt hdepth action s
  · rw [atDepth_of_le hdepth]
    exact h hdepth

mutual

-- Evaluation that comes to a part beyond the limit is refused.
theorem run_evalAt_tooDeep {e : Expr} {s : σ} {level : Nat} (chained : Bool) (depth : Nat)
    (h : Reaches calls session e s level) (hlevel : maxDepth < e.standing chained depth + level) :
    ((evalAt calls session chained depth e).run s).1 = .error .tooDeep := by
  match e with
  | .number _ | .text _ | .bool _ | .unit | .var _ _ =>
      rw [standing_of_not_isChain rfl] at hlevel
      rw [evalAt, own_depth]
      cases h
      exact run_atDepth_of_lt hlevel _ s
  | .call function place arguments =>
      rw [standing_of_not_isChain rfl] at hlevel
      rw [evalAt, own_depth]
      refine run_atDepth_tooDeep fun hdepth => ?_
      cases h with
      | here => omega
      | argument _ _ h => exact run_bind_tooDeep (run_evalList_tooDeep _ h (by omega))
  | .unary op operand =>
      rw [standing_of_not_isChain rfl] at hlevel
      rw [evalAt, own_depth]
      refine run_atDepth_tooDeep fun hdepth => ?_
      cases h with
      | here => omega
      | operand _ h =>
          exact run_bind_tooDeep (run_evalAt_tooDeep false _ h (by rw [standing_false]; omega))
  | .binary op left right =>
      rw [standing_binary] at hlevel
      by_cases hdepth : chained = false → depth ≤ maxDepth
      · rw [evalAt_binary _ _ _ _ hdepth]
        by_cases hfits : Fits calls session left s (left.standing true depth)
        · cases h with
          | here =>
              have := hfits.own
              have := le_standing true depth left
              omega
          | first _ _ hchain h =>
              have := hfits _ h
              rw [standing_of_not_isChain hchain, Bool.toNat_true] at this
              omega
          | along _ _ hchain h =>
              have := hfits _ h
              have := le_standing true depth left
              omega
          | right hleft hneeds h =>
              rw [Action.run_bind_of_ok (runs_evalAt true depth hfits hleft).plain,
                needs_iff.mp hneeds]
              exact run_bind_tooDeep
                (run_evalAt_tooDeep false _ h (by rw [standing_false]; omega))
        · obtain ⟨own, h, hown⟩ := not_fits_iff.mp hfits
          exact run_bind_tooDeep (run_evalAt_tooDeep true depth h hown)
      · obtain ⟨rfl, hpast⟩ := Classical.not_imp.mp hdepth
        rw [evalAt]
        exact run_atDepth_of_lt (Nat.not_le.mp hpast) _ s

theorem run_evalList_tooDeep {es : List Expr} {s : σ} {level : Nat} (depth : Nat)
    (h : ReachesIn calls session es s level) (hlevel : maxDepth < depth + level) :
    ((evalList calls session depth es).run s).1 = .error .tooDeep := by
  match es with
  | [] => cases h
  | e :: rest =>
      rw [evalList]
      by_cases hfits : Fits calls session e s depth
      · cases h with
        | first _ h => exact absurd (hfits _ h) (Nat.not_le.mpr hlevel)
        | later hfirst h =>
            rw [Action.run_bind_of_ok (runs_evalAt false depth hfits hfirst).plain]
            exact run_bind_tooDeep (run_evalList_tooDeep depth h hlevel)
      · obtain ⟨own, h, hown⟩ := not_fits_iff.mp hfits
        exact run_bind_tooDeep (run_evalAt_tooDeep false depth h hown)

end

theorem overruns_iff {e : Expr} {s : σ} :
    Overruns calls session e s ↔ ¬Fits calls session e s 0 := by
  simp only [not_fits_iff, Overruns, Nat.zero_add]

end Beyond

section Refusals

variable {σ : Type} {calls : Calls σ} {session : Session}

-- The handler refused one of these calls as too deep.
def Refuses (calls : Calls σ) (made : List Invocation) : Prop :=
  ∃ own ∈ made, ∃ s, ((calls own.function own.arguments).run s).1 = .error .tooDeep

theorem Refuses.append_right {made more : List Invocation} (h : Refuses calls more) :
    Refuses calls (made ++ more) := by
  obtain ⟨own, hown, h⟩ := h
  exact ⟨own, List.mem_append_right made hown, h⟩

theorem eq_tooDeep_of_bind {α β : Type} {result : Except ScriptError α}
    {f : α → Except ScriptError β} (hf : ∀ a error, f a = .error error → error.OfValues)
    (h : result.bind f = .error .tooDeep) : result = .error .tooDeep := by
  cases result with
  | error error =>
      cases h
      rfl
  | ok a => exact (hf a _ h).elim

mutual

-- The rules know no limit: what they refuse as too deep the handler has refused.
theorem Gives.refuses {e : Expr} {s after : σ} {made : List Invocation}
    {result : Except ScriptError Value} (h : Gives calls session e s made result after)
    (hresult : result = .error .tooDeep) : Refuses calls made := by
  match e with
  | .number _ | .text _ | .bool _ | .unit | .var _ _ => cases h <;> cases hresult
  | .call function place arguments =>
      rcases h.of_call with ⟨error, harguments, rfl⟩ |
        ⟨before, values, middle, harguments, rfl, hcall⟩
      · cases hresult
        exact harguments.refuses rfl
      · refine Refuses.append_right ⟨_, List.mem_singleton_self _, middle, ?_⟩
        rw [hcall, hresult]
  | .unary op operand =>
      obtain ⟨other, hoperand, rfl⟩ := h.of_unary
      exact hoperand.refuses (eq_tooDeep_of_bind (fun _ _ => ofValues_of_unary_apply) hresult)
  | .binary op left right =>
      rcases h.of_binary with ⟨error, hleft, rfl⟩ | ⟨value, settled, hleft, hsettled, rfl⟩ |
        ⟨value, before, middle, more, other, hleft, hneeds, hright, rfl, rfl⟩
      · cases hresult
        exact hleft.refuses rfl
      · cases hresult
      · exact .append_right
          (hright.refuses (eq_tooDeep_of_bind (fun _ _ => ofValues_of_binary_apply) hresult))

theorem GivesAll.refuses {es : List Expr} {s after : σ} {made : List Invocation}
    {result : Except ScriptError (List Value)} (h : GivesAll calls session es s made result after)
    (hresult : result = .error .tooDeep) : Refuses calls made := by
  match es with
  | [] =>
      cases h
      cases hresult
  | e :: rest =>
      rcases h.of_cons with ⟨error, hfirst, rfl⟩ |
        ⟨value, before, middle, more, others, hfirst, hrest, rfl, rfl⟩
      · cases hresult
        exact hfirst.refuses rfl
      · cases others with
        | ok values => cases hresult
        | error error =>
            cases hresult
            exact .append_right (hrest.refuses rfl)

end

end Refusals

-- The leftmost operand of a chain, and the operators with their right operands, the last one of
-- the text first.
def Expr.spine : Expr → Expr × List (BinaryOp × Expr)
  | .binary op left right => (left.spine.1, (op, right) :: left.spine.2)
  | e => (e, [])

section Chain

variable {σ : Type} (calls : Calls σ) (session : Session)

-- One operator of a chain on what stands left of it.
def chainStep (depth : Nat) (left : Value) (link : BinaryOp × Expr) : Eval σ Value :=
  match link.1.decided? left with
  | some settled => pure settled
  | none => do
      let right ← evalAt calls session false (depth + 1) link.2
      link.1.apply left right

-- A chain as a loop over its operators, from left to right.
def chainLoop (depth : Nat) (e : Expr) : Eval σ Value := do
  let first ← evalAt calls session false (depth + 1) e.spine.1
  e.spine.2.reverse.foldlM (chainStep calls session depth) first

theorem chainLoop_binary (depth : Nat) (op : BinaryOp) (left right : Expr) :
    chainLoop calls session depth (.binary op left right) =
      chainLoop calls session depth left >>= fun value =>
        chainStep calls session depth value (op, right) := by
  simp only [chainLoop, Expr.spine, List.reverse_cons, List.foldlM_append, List.foldlM_cons,
    List.foldlM_nil, bind_pure, bind_assoc]

-- Evaluation down the left side of a chain is the loop, however many operators there are.
theorem evalAt_true (depth : Nat) (e : Expr) :
    evalAt calls session true depth e = chainLoop calls session depth e := by
  cases e with
  | number _ | text _ | bool _ | unit | var _ _ | call _ _ _ | unary _ _ =>
      simp only [chainLoop, Expr.spine, List.reverse_nil, List.foldlM_nil, bind_pure]
      rw [evalAt, evalAt]
      rfl
  | binary op left right =>
      have hchained : true = false → depth ≤ maxDepth := fun h => Bool.noConfusion h
      rw [evalAt_binary _ _ _ _ hchained, evalAt_true depth left, chainLoop_binary]
      rfl

theorem evalAt_eq_chainLoop {e : Expr} (h : e.isChain = true) (depth : Nat) :
    evalAt calls session false depth e = atDepth depth (chainLoop calls session depth e) := by
  cases e with
  | binary op left right =>
      rw [← evalAt_true, evalAt, evalAt]
      rfl
  | _ => cases h

end Chain

-- The evaluator and the rules. The rules settle every expression in one way. Unless evaluation
-- comes to a part beyond the limit, it makes the calls that the rules make, in their order and with
-- their arguments, and ends as they say. It is refused as too deep if and only if it comes to such
-- a part or the handler refuses one of its calls so. A chain of operators is evaluated by a loop.
theorem evaluate_eq_rules {σ : Type} (calls : Calls σ) (session : Session) (e : Expr) (s : σ) :
    (∃ made result after,
      (∀ made' result' after', Gives calls session e s made' result' after' ↔
        made' = made ∧ result' = result ∧ after' = after) ∧
      (¬Overruns calls session e s →
        (evaluate calls session e).run s = (result, after) ∧
        ∀ log, (evaluate calls.logged session e).run (s, log) = (result, (after, log ++ made))) ∧
      (((evaluate calls session e).run s).1 = .error .tooDeep ↔
        Overruns calls session e s ∨ result = .error .tooDeep) ∧
      (result = .error .tooDeep → Refuses calls made)) ∧
    (e.isChain = true → ∀ depth,
      evalAt calls session false depth e = atDepth depth (chainLoop calls session depth e)) := by
  obtain ⟨made, result, after, hgives⟩ := exists_gives calls session e s
  refine ⟨⟨made, result, after, fun made' result' after' => ⟨fun h => hgives.unique h, ?_⟩,
    fun hwithin => ?_, ⟨fun hdeep => ?_, ?_⟩, hgives.refuses⟩, evalAt_eq_chainLoop calls session⟩
  · rintro ⟨rfl, rfl, rfl⟩
    exact hgives
  · have hruns := runs_evalAt false 0 (not_not.mp (mt overruns_iff.mpr hwithin)) hgives
    exact ⟨hruns.plain, hruns.logged⟩
  · refine or_iff_not_imp_left.mpr fun hwithin => ?_
    have hruns := runs_evalAt false 0 (not_not.mp (mt overruns_iff.mpr hwithin)) hgives
    rw [evaluate, hruns.plain] at hdeep
    exact hdeep
  · rintro (⟨level, hreaches, hlevel⟩ | rfl)
    · exact run_evalAt_tooDeep false 0 hreaches (by rw [standing_false]; omega)
    · by_cases hover : Overruns calls session e s
      · obtain ⟨level, hreaches, hlevel⟩ := hover
        exact run_evalAt_tooDeep false 0 hreaches (by rw [standing_false]; omega)
      · have hruns := runs_evalAt false 0 (not_not.mp (mt overruns_iff.mpr hover)) hgives
        rw [evaluate, hruns.plain]

-- `false && print("a") || print("b")` makes the second call only.
example :
    (evaluate builtins.logged .empty
      (.binary .or
        (.binary .and (.bool false) (.call "print" ⟨9, 14⟩ [.text "a"]))
        (.call "print" ⟨23, 28⟩ [.text "b"]))).run (.none, []) =
      (.ok (.bool false), (⟨"b\n", []⟩, [⟨"print", [.text "b"]⟩])) := by
  rfl

end LiveDoc.Calc
