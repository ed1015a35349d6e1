import LiveDoc.Proofs.Run.Stations
import LiveDoc.Proofs.Run.Verbatim
import Mathlib

namespace LiveDoc

variable {σ α β : Type}

-- What a part of a run does, with and without a log of its calls. The part has `count` blocks,
-- whose indices start at `position`; it comes to `stations`, makes `calls` and leaves its blocks
-- in `states`. The last field places it in a whole run that makes other calls before and behind.
structure Covers (around : List Condition) (position count : Nat) (stations : List Station)
    (plain : Running σ α) (logged : Running (σ × List Call) α) (progress after : Progress σ)
    (result : Except RunError α) (calls : List Call) (states : List BlockState) : Prop where
  run_plain : plain.run progress = (result, after)
  run_logged : ∀ log,
    logged.run (progress.withLog log) = (result, after.withLog (log ++ calls))
  session : after.session = sessionAfter progress.session calls
  within : ∀ call ∈ calls, position ≤ call.index ∧ call.index < position + count
  increasing : calls.Pairwise fun a b => a.index < b.index
  length : states.length = count
  kept : ∀ front back, front.length = position →
    progress.states = front ++ List.replicate count .pending ++ back →
    after.states = front ++ states ++ back
  ends : ∀ start before behind, (∀ call ∈ before, call.index < position) →
    (∀ call ∈ behind, position + count ≤ call.index) →
    sessionAfter start before = progress.session →
    allHold start (before ++ calls ++ behind) around →
    Ends start (before ++ calls ++ behind) stations (calls.map Call.key) states result

def Covered (around : List Condition) (position count : Nat) (stations : List Station)
    (plain : Running σ α) (logged : Running (σ × List Call) α) (progress : Progress σ) : Prop :=
  ∃ after result calls states,
    Covers around position count stations plain logged progress after result calls states

section Parts

variable {around : List Condition} {position count more : Nat} {stations others : List Station}
  {progress : Progress σ}

theorem covered_pure (result : α) (progress : Progress σ) :
    Covered around position 0 [] (pure result) (pure result) progress := by
  refine ⟨progress, .ok result, [], [], rfl, fun log => ?_, rfl, fun _ h => (List.not_mem_nil h).elim, .nil,
    rfl, fun front back _ h => h, fun start before behind _ _ _ _ => ?_⟩
  · rw [List.append_nil]
    rfl
  · exact .all result fun _ h => (List.not_mem_nil h).elim

-- Where a part fails, the blocks of the next one stay as they are.
theorem Covers.stop {plain : Running σ α} {logged : Running (σ × List Call) α}
    {next : α → Running σ β} {nextLogged : α → Running (σ × List Call) β} {middle : Progress σ}
    {error : RunError} {calls : List Call} {states : List BlockState}
    (h : Covers around position count stations plain logged progress middle (.error error) calls
      states)
    (hfresh : others.filterMap Station.fresh? = List.replicate more .pending) :
    Covers around position (count + more) (stations ++ others) (plain >>= next)
      (logged >>= nextLogged) progress middle (.error error) calls
      (states ++ List.replicate more .pending) where
  run_plain := Action.run_bind_of_error h.run_plain
  run_logged log := Action.run_bind_of_error (h.run_logged log)
  session := h.session
  within call hcall := by
    have := h.within call hcall
    omega
  increasing := h.increasing
  length := by rw [List.length_append, h.length, List.length_replicate]
  kept front back hfront hstates := by
    rw [← List.replicate_append_replicate, ← List.append_assoc, List.append_assoc] at hstates
    rw [h.kept front _ hfront hstates]
    simp only [List.append_assoc]
  ends start before behind hbefore hbehind hsession hlive := by
    rw [← hfresh]
    refine (h.ends start before behind hbefore (fun call hcall => ?_) hsession hlive).stop _
    have := hbehind call hcall
    omega

-- Where it does not, its calls are behind those of the next one, and its blocks before.
theorem Covers.andThen {plain : Running σ α} {logged : Running (σ × List Call) α}
    {next : α → Running σ β} {nextLogged : α → Running (σ × List Call) β}
    {middle after : Progress σ} {a : α} {result : Except RunError β} {calls later : List Call}
    {states settled : List BlockState}
    (h : Covers around position count stations plain logged progress middle (.ok a) calls states)
    (h' : Covers around (position + count) more others (next a) (nextLogged a) middle after result
      later settled) :
    Covers around position (count + more) (stations ++ others) (plain >>= next)
      (logged >>= nextLogged) progress after result (calls ++ later) (states ++ settled) where
  run_plain := (Action.run_bind_of_ok h.run_plain).trans h'.run_plain
  run_logged log := by
    rw [Action.run_bind_of_ok (h.run_logged log), h'.run_logged, List.append_assoc]
  session := by rw [h'.session, h.session, sessionAfter_append]
  within call hcall := by
    rcases List.mem_append.mp hcall with hcall | hcall
    · have := h.within call hcall
      omega
    · have := h'.within call hcall
      omega
  increasing := by
    refine List.pairwise_append.mpr ⟨h.increasing, h'.increasing, fun a ha b hb => ?_⟩
    have hlow := h.within a ha
    have hhigh := h'.within b hb
    omega
  length := by rw [List.length_append, h.length, h'.length]
  kept front back hfront hstates := by
    rw [← List.replicate_append_replicate, ← List.append_assoc, List.append_assoc] at hstates
    have hmiddle := h.kept front _ hfront hstates
    rw [← List.append_assoc] at hmiddle
    have hlength : (front ++ states).length = position + count := by
      rw [List.length_append, hfront, h.length]
    rw [h'.kept _ _ hlength hmiddle]
    simp only [List.append_assoc]
  ends start before behind hbefore hbehind hsession hlive := by
    have hone : before ++ (calls ++ later) ++ behind = before ++ calls ++ (later ++ behind) := by
      simp only [List.append_assoc]
    have htwo : before ++ (calls ++ later) ++ behind = before ++ calls ++ later ++ behind := by
      simp only [List.append_assoc]
    have hlate : ∀ call ∈ later ++ behind, position + count ≤ call.index := by
      intro call hcall
      rcases List.mem_append.mp hcall with hcall | hcall
      · exact (h'.within call hcall).1
      · have := hbehind call hcall
        omega
    have hearly : ∀ call ∈ before ++ calls, call.index < position + count := by
      intro call hcall
      rcases List.mem_append.mp hcall with hcall | hcall
      · have := hbefore call hcall
        omega
      · exact (h.within call hcall).2
    have hends := h.ends start before (later ++ behind) hbefore hlate hsession (by rwa [← hone])
    have hlast := h'.ends start (before ++ calls) behind hearly
      (fun call hcall => by have := hbehind call hcall; omega)
      (by rw [sessionAfter_append, hsession, h.session]) (by rwa [← htwo])
    rw [← hone] at hends
    rw [← htwo] at hlast
    rw [List.map_append]
    exact hends.append hlast

-- One part after the other.
theorem Covered.bind {plain : Running σ α} {logged : Running (σ × List Call) α}
    {next : α → Running σ β} {nextLogged : α → Running (σ × List Call) β}
    (h : Covered around position count stations plain logged progress)
    (hnext : ∀ a after, plain.run progress = (.ok a, after) →
      Covered around (position + count) more others (next a) (nextLogged a) after)
    (hfresh : others.filterMap Station.fresh? = List.replicate more .pending) :
    Covered around position (count + more) (stations ++ others) (plain >>= next)
      (logged >>= nextLogged) progress := by
  obtain ⟨middle, result, calls, states, hfirst⟩ := h
  cases result with
  | error error => exact ⟨middle, .error error, calls, _, hfirst.stop hfresh⟩
  | ok a =>
      obtain ⟨after, result, later, settled, hsecond⟩ := hnext a middle hfirst.run_plain
      exact ⟨after, result, _, _, hfirst.andThen hsecond⟩

theorem Covered.map {plain : Running σ α} {logged : Running (σ × List Call) α} (f : α → β)
    (h : Covered around position count stations plain logged progress) :
    Covered around position count stations (plain >>= fun a => pure (f a))
      (logged >>= fun a => pure (f a)) progress := by
  have hdone := h.bind (fun a after _ => covered_pure (f a) after) rfl
  rwa [List.append_nil] at hdone

end Parts

-- The step of a block that runs: what its execution comes to and what it leaves.
def Progress.execute (progress : Progress σ) (executor : Executor σ) (own : CodeBlock) :
    Calc.Execution × Progress σ :=
  let (execution, session, host) :=
    executor.execute own.content (progress.session.enter own.index) progress.host
  (execution, { progress.mark own.index .running with session, host })

-- The call that the step makes.
def Progress.call (progress : Progress σ) (own : CodeBlock) (execution : Calc.Execution)
    (next : Progress σ) : Call :=
  ⟨own.content, progress.session.enter own.index, execution, next.session⟩

section Block

variable {executor : Executor σ} {own : CodeBlock} {progress next : Progress σ}
  {execution : Calc.Execution}

theorem key_call (progress : Progress σ) (own : CodeBlock) (execution : Calc.Execution)
    (next : Progress σ) : (progress.call own execution next).key = (own.index, own.content) := rfl

theorem execute_logged (h : progress.execute executor own = (execution, next)) (log : List Call) :
    (progress.withLog log).execute executor.logged own =
      (execution, next.withLog (log ++ [progress.call own execution next])) := by
  cases h
  rfl

theorem states_execute (h : progress.execute executor own = (execution, next)) :
    next.states = progress.states.set own.index .running := by
  cases h
  rfl

theorem run_runBlock_skipped (h : own.modifiers.executes = false) (progress : Progress σ) :
    (runBlock executor own).run progress =
      (.ok (.block own none), progress.mark own.index .skipped) := by
  simp only [runBlock, h, Bool.not_false, if_true]
  rfl

-- A block that runs: it is marked, executed, and marked again with what came of it.
theorem run_runBlock_failed {failure : Calc.Failure} (hexecutes : own.modifiers.executes = true)
    (h : progress.execute executor own = (execution, next))
    (hfailure : execution.failure = some failure) :
    (runBlock executor own).run progress =
      (.error (.block own.index own.span (failure.line.map (own.span.line + ·))
        execution.captured.output failure.error), next.mark own.index .failed) := by
  cases h
  simp only [runBlock, hexecutes, Bool.not_true, Bool.false_eq_true, if_false]
  rw [Action.run_bind_of_ok (Action.run_modify _ progress), Action.run_bind_of_ok (Action.run_get _),
    Action.run_bind_of_ok (Action.run_set _ _)]
  split
  · rename_i other hother
    cases hother.symm.trans hfailure
    rfl
  · rename_i hnone
    cases hnone.symm.trans hfailure

theorem run_runBlock_succeeded (hexecutes : own.modifiers.executes = true)
    (h : progress.execute executor own = (execution, next)) (hnone : execution.failure = none) :
    (runBlock executor own).run progress =
      (.ok (.block own (some ⟨execution.captured.output,
          (next.store.claim own.index execution.captured.artifacts).1⟩)),
        { next with
          store := (next.store.claim own.index execution.captured.artifacts).2 }.mark own.index
            .succeeded) := by
  cases h
  simp only [runBlock, hexecutes, Bool.not_true, Bool.false_eq_true, if_false]
  rw [Action.run_bind_of_ok (Action.run_modify _ progress), Action.run_bind_of_ok (Action.run_get _),
    Action.run_bind_of_ok (Action.run_set _ _)]
  split
  · rename_i other hother
    cases hother.symm.trans hnone
  · rfl

end Block

theorem set_between (front back : List BlockState) (old new : BlockState) :
    (front ++ [old] ++ back).set front.length new = front ++ [new] ++ back := by
  simp [List.append_assoc]

section Steps

variable (executor : Executor σ) {around : List Condition} {position : Nat}

-- A block that runs makes its one call and leaves its one state.
theorem covers_of_execute {own : CodeBlock} {progress next after : Progress σ}
    {execution : Calc.Execution} {result : Except RunError Executed} {state : BlockState}
    (hstep : progress.execute executor own = (execution, next))
    (hplain : (runBlock executor own).run progress = (result, after))
    (hlogged : ∀ log, (runBlock executor.logged own).run (progress.withLog log) =
      (result, after.withLog (log ++ [progress.call own execution next])))
    (hsession : after.session = next.session)
    (hstates : after.states = next.states.set own.index state)
    (hends : ∀ start log, progress.call own execution next ∈ log → allHold start log around →
      Ends start log [.block around own] [(progress.call own execution next).key] [state] result) :
    Covers around own.index 1 [.block around own] (runBlock executor own)
      (runBlock executor.logged own) progress after result [progress.call own execution next]
      [state] where
  run_plain := hplain
  run_logged := hlogged
  session := hsession
  within call hcall := by
    cases List.mem_singleton.mp hcall
    exact ⟨Nat.le_refl _, Nat.lt_succ_self _⟩
  increasing := List.pairwise_singleton _ _
  length := rfl
  kept front back hfront hbefore := by
    rw [hstates, states_execute hstep, List.set_set, hbefore, ← hfront]
    exact set_between front back _ _
  ends start before behind _ _ _ hlive := hends start _ (by simp) hlive

theorem covered_block (own : CodeBlock) (progress : Progress σ) :
    Covered around own.index 1 [.block around own] (runBlock executor own)
      (runBlock executor.logged own) progress := by
  cases hexecutes : own.modifiers.executes with
  | false =>
      refine ⟨progress.mark own.index .skipped, .ok (.block own none), [], [.skipped],
        run_runBlock_skipped hexecutes progress, fun log => ?_, rfl,
        fun _ h => (List.not_mem_nil h).elim, .nil, rfl, fun front back hfront hstates => ?_,
        fun start before behind _ _ _ hlive => .skipped hlive _ hexecutes⟩
      · rw [run_runBlock_skipped hexecutes, List.append_nil, mark_withLog]
      · rw [Progress.mark, hstates, ← hfront]
        exact set_between front back _ _
  | true =>
      rcases hstep : progress.execute executor own with ⟨execution, next⟩
      have hlogged := execute_logged hstep
      cases hresult : execution.failure with
      | some failure =>
          refine ⟨_, _, _, [.failed], covers_of_execute executor hstep
            (run_runBlock_failed hexecutes hstep hresult)
            (fun log => run_runBlock_failed hexecutes (hlogged log) hresult) rfl rfl
            fun start log hmem hlive => ?_⟩
          exact @Ends.block Executed start log [] [] around own _ failure
            (fun _ h => (List.not_mem_nil h).elim) hlive hexecutes hmem
            (key_call progress own execution next) hresult
      | none =>
          refine ⟨_, _, _, [.succeeded], covers_of_execute executor hstep
            (run_runBlock_succeeded hexecutes hstep hresult)
            (fun log => run_runBlock_succeeded hexecutes (hlogged log) hresult) rfl rfl
            fun start log hmem hlive => ?_⟩
          exact .succeeded hlive _ hexecutes hmem (key_call progress own execution next) hresult

-- The step of a condition: it is decided on the session and changes nothing.
def runCondition (own : Condition) : Running σ Bool := do
  let progress ← get
  evaluateGuard own.guard own.source own.span progress.session

theorem run_runCondition (own : Condition) (progress : Progress σ) :
    (runCondition own).run progress =
      (evaluateGuard own.guard own.source own.span progress.session, progress) :=
  Action.run_liftM _ _

-- Where a condition is reached in a whole run, the calls before it are behind.
theorem verdict_eq {own : Condition} {progress : Progress σ} {start : Calc.Session}
    {before calls behind : List Call} (hposition : own.position = position)
    (hbefore : ∀ call ∈ before, call.index < position)
    (hcalls : ∀ call ∈ calls, position ≤ call.index)
    (hbehind : ∀ call ∈ behind, position ≤ call.index)
    (hsession : sessionAfter start before = progress.session) :
    own.verdict start (before ++ calls ++ behind) =
      evaluateGuard own.guard own.source own.span progress.session := by
  have hlate : ∀ call ∈ calls ++ behind, position ≤ call.index := fun call hcall =>
    (List.mem_append.mp hcall).elim (hcalls call) (hbehind call)
  rw [Condition.verdict, hposition, List.append_assoc, sessionAt_append start hbefore hlate,
    hsession]

theorem covered_condition (own : Condition) (progress : Progress σ) :
    Covered around own.position 0 [.condition around own] (runCondition own) (runCondition own)
      progress := by
  refine ⟨progress, _, [], [], run_runCondition own progress, fun log => ?_, rfl,
    fun _ h => (List.not_mem_nil h).elim, .nil, rfl, fun front back _ h => h,
    fun start before behind hbefore hbehind hsession hlive => ?_⟩
  · rw [run_runCondition, List.append_nil]
    rfl
  · have hverdict := @verdict_eq σ _ own progress start before [] behind rfl hbefore
      (fun _ h => (List.not_mem_nil h).elim) hbehind hsession
    cases hresult : evaluateGuard own.guard own.source own.span progress.session with
    | ok value => exact .decided hlive value (hverdict.trans hresult)
    | error error =>
        exact @Ends.condition Bool start _ [] [] around own error
          (fun _ h => (List.not_mem_nil h).elim) hlive (hverdict.trans hresult)

-- A taken branch.
theorem Covered.enter {own : Condition} {count : Nat} {stations : List Station}
    {plain : Running σ α} {logged : Running (σ × List Call) α} {progress : Progress σ}
    (htrue : evaluateGuard own.guard own.source own.span progress.session = .ok true)
    (h : Covered (own :: around) own.position count stations plain logged progress) :
    Covered around own.position count stations plain logged progress := by
  obtain ⟨after, result, calls, states, h⟩ := h
  refine ⟨after, result, calls, states, { h with
    ends := fun start before behind hbefore hbehind hsession hlive => ?_ }⟩
  refine h.ends start before behind hbefore hbehind hsession ?_
  have hverdict := verdict_eq rfl hbefore (fun call hcall => (h.within call hcall).1)
    (fun call hcall => Nat.le_of_add_right_le (hbehind call hcall)) hsession
  have hholds : own.holds start (before ++ calls ++ behind) = true := by
    rw [Condition.holds, hverdict, htrue]
  rw [allHold, List.all_cons, hholds]
  exact hlive

-- A branch that is not taken.
theorem covered_dead {own : Condition} {progress : Progress σ} (result : α) (nodes : List Node)
    (hfalse : evaluateGuard own.guard own.source own.span progress.session = .ok false) :
    Covered around own.position (blocksOf nodes).length
      (stationsOf (own :: around) own.position nodes) (pure result) (pure result) progress := by
  refine ⟨progress, .ok result, [], _, rfl, fun log => ?_, rfl,
    fun _ h => (List.not_mem_nil h).elim, .nil, List.length_replicate .., fun front back _ h => h,
    fun start before behind hbefore hbehind hsession hlive => ?_⟩
  · rw [List.append_nil]
    rfl
  · rw [← fresh_stationsOf (own :: around) own.position nodes]
    refine .dead result fun station hstation => ?_
    obtain ⟨inner, hinner⟩ := around_suffix_nodes hstation
    refine ⟨inner, own, around, hinner.symm, hlive, ?_⟩
    rw [verdict_eq rfl hbefore (fun _ h => (List.not_mem_nil h).elim)
      (fun call hcall => Nat.le_of_add_right_le (hbehind call hcall)) hsession, hfalse]

end Steps

section Nodes

variable (executor : Executor σ)

mutual

theorem covered_node {around : List Condition} {position : Nat} {node : Node} (hfree : node.hasDirective = false)
    (hnumbered : node.blocks.map CodeBlock.index = List.range' position node.blocks.length)
    (progress : Progress σ) :
    Covered around position node.blocks.length (node.stations around position)
      (runNode executor node) (runNode executor.logged node) progress := by
  match node with
  | .prose prose => exact covered_pure _ progress
  | .directive directive => cases hfree
  | .code own =>
      have hindex : own.index = position := (List.cons.inj hnumbered).1
      rw [← hindex]
      exact covered_block executor own progress
  | .conditional guard source children span =>
      have hrun : ∀ {τ : Type} (executor : Executor τ),
          runNode executor (.conditional guard source children span) =
            runCondition ⟨guard, source, span, position⟩ >>= fun included =>
              (if included then runNodes executor children else pure []) >>= fun executed =>
                pure (.conditional source included executed) := by
        intro τ executor
        simp only [runNode, runCondition, bind_assoc]
        congr
        funext progress
        congr
        funext included
        cases included <;> rfl
      rw [hrun, hrun, ← Nat.zero_add (Node.blocks _).length]
      refine Covered.bind (covered_condition ⟨guard, source, span, position⟩ progress)
        (fun included after hdecided => ?_) (fresh_stationsOf _ _ children)
      rw [run_runCondition] at hdecided
      obtain ⟨hverdict, rfl⟩ := Prod.mk.inj hdecided
      have hbranch : Covered around position (blocksOf children).length
          (stationsOf (⟨guard, source, span, position⟩ :: around) position children)
          (if included then runNodes executor children else pure [])
          (if included then runNodes executor.logged children else pure []) progress := by
        cases included with
        | true => exact Covered.enter hverdict (covered_nodes hfree hnumbered progress)
        | false => exact covered_dead [] children hverdict
      exact hbranch.map _

theorem covered_nodes {around : List Condition} {position : Nat} {nodes : List Node} (hfree : anyDirective nodes = false)
    (hnumbered : (blocksOf nodes).map CodeBlock.index =
      List.range' position (blocksOf nodes).length) (progress : Progress σ) :
    Covered around position (blocksOf nodes).length (stationsOf around position nodes)
      (runNodes executor nodes) (runNodes executor.logged nodes) progress := by
  match nodes with
  | [] => exact covered_pure _ progress
  | node :: rest =>
      simp only [anyDirective, Bool.or_eq_false_iff] at hfree
      rw [blocksOf, List.map_append, List.length_append, ← List.range'_append_1] at hnumbered
      obtain ⟨hfirst, hrest⟩ := List.append_inj hnumbered (by simp)
      rw [blocksOf, List.length_append, stationsOf]
      refine (covered_node hfree.1 hfirst progress).bind (fun first after _ => ?_)
        (fresh_stationsOf _ _ rest)
      exact (covered_nodes hfree.2 hrest after).map _

end

end Nodes

-- A classification numbers the blocks in document order.
section Numbers

variable {registry : Registry} {language : String}

theorem index_of_classifyBlock {index : Nat} {block own : CodeBlock}
    (h : classifyBlock registry language index block = .ok own) : own.index = index := by
  unfold classifyBlock at h
  cases hseen : resolveTags registry block.span [] block.tags with
  | error error =>
      rw [hseen] at h
      cases h
  | ok seen =>
      rw [hseen] at h
      simp only [bind, Except.bind] at h
      split at h
      · cases h
        rfl
      · split at h
        · cases h
        · cases h
          rfl

def Visit.block? : Visit → Option CodeBlock
  | .code block => some block
  | _ => none

mutual

theorem blocks_eq_filterMap (node : Node) : node.blocks = node.visits.filterMap Visit.block? := by
  match node with
  | .prose _ => rfl
  | .directive _ => rfl
  | .code _ => rfl
  | .conditional guard source children span =>
      rw [Node.blocks, Node.visits, List.filterMap_cons_none rfl, List.filterMap_append,
        blocksOf_eq_filterMap children]
      exact (List.append_nil _).symm

theorem blocksOf_eq_filterMap (nodes : List Node) :
    blocksOf nodes = (visits nodes).filterMap Visit.block? := by
  match nodes with
  | [] => rfl
  | node :: rest =>
      rw [blocksOf, visits, List.filterMap_append, blocks_eq_filterMap node,
        blocksOf_eq_filterMap rest]

end

theorem Classifies.indices {next last : Nat} {vs ws : List Visit}
    (h : Classifies registry language next vs ws last) :
    (ws.filterMap Visit.block?).map CodeBlock.index =
      List.range' next (ws.filterMap Visit.block?).length := by
  induction h with
  | nil => rfl
  | prose _ _ ih => exact ih
  | enter _ _ _ _ ih => exact ih
  | leave _ ih => exact ih
  | @code next last vs ws block own hblock _ ih =>
      have hcons : (Visit.code own :: ws).filterMap Visit.block? =
          own :: ws.filterMap Visit.block? := rfl
      rw [hcons, List.map_cons, ih, index_of_classifyBlock hblock, List.length_cons,
        List.range'_succ]

theorem indices_of_classify {document : Document} {classified : Classified}
    (h : classify registry language document = .ok classified) :
    (blocksOf classified.document.nodes).map CodeBlock.index =
      List.range' 0 classified.blockCount := by
  obtain ⟨-, -, last, hclassifies⟩ := classifies_of_classify h
  rw [Classified.blockCount, Document.blocks, blocksOf_eq_filterMap]
  exact hclassifies.indices

end Numbers

-- Only the block at which a run stops can be left in another state than these.
theorem mem_settled {start : Calc.Session} {log : List Call} {passed : List Station}
    {state : BlockState} (h : state ∈ passed.filterMap (Station.settled? start log)) :
    state = .pending ∨ state = .succeeded ∨ state = .skipped := by
  obtain ⟨station, -, hstate⟩ := List.mem_filterMap.mp h
  cases station with
  | condition around own => cases hstate
  | block around own =>
      cases hstate
      split
      · exact .inl rfl
      · split
        · exact .inr (.inl rfl)
        · exact .inr (.inr rfl)

theorem mem_fresh {left : List Station} {state : BlockState}
    (h : state ∈ left.filterMap Station.fresh?) : state = .pending := by
  rw [filterMap_fresh?] at h
  exact (List.mem_replicate.mp h).2

theorem evaluateGuard_ne_block {guard : Calc.Guard} {source : String} {span place : Span}
    {session : Calc.Session} {index : Nat} {line : Option Nat} {output : String}
    {cause : Calc.ScriptError} :
    evaluateGuard guard source span session ≠ .error (.block index place line output cause) := by
  unfold evaluateGuard
  split
  · simp
  · split <;> simp
  · simp

theorem getElem?_eq_some_iff_of_not_mem {front back : List BlockState} {state : BlockState}
    (hfront : state ∉ front) (hback : state ∉ back) (index : Nat) :
    (front ++ state :: back)[index]? = some state ↔ index = front.length := by
  constructor
  · intro h
    rcases Nat.lt_trichotomy index front.length with hlt | heq | hgt
    · rw [List.getElem?_append_left hlt] at h
      exact (hfront (List.mem_of_getElem? h)).elim
    · exact heq
    · obtain ⟨past, hpast⟩ : ∃ past, index - front.length = past + 1 :=
        ⟨index - front.length - 1, by omega⟩
      rw [List.getElem?_append_right (by omega), hpast, List.getElem?_cons_succ] at h
      exact (hback (List.mem_of_getElem? h)).elim
  · rintro rfl
    simp

-- How a run of a tree ends whose blocks are numbered from zero. What `Ends` says of the states is
-- said of the blocks by their indices, since the states are listed in document order.
structure Lifecycle (nodes : List Node) (start : Calc.Session) (log : List Call)
    (states : List BlockState) (result : Except RunError (List Executed)) : Prop where
  numbered : (blocksOf nodes).map CodeBlock.index = List.range states.length
  increasing : log.Pairwise fun a b => a.index < b.index
  ends : Ends start log (stationsOf [] 0 nodes) (log.map Call.key) states result
  notRunning : .running ∉ states
  failed : ∀ index, states[index]? = some .failed ↔
    ∃ span line output cause, result = .error (.block index span line output cause)

section States

variable {start : Calc.Session} {log : List Call} {stations : List Station}
  {calls : List (Nat × String)} {states : List BlockState} {result : Except RunError α}

theorem Ends.notRunning (h : Ends start log stations calls states result) :
    .running ∉ states := by
  intro hmem
  have hsettled : ∀ {passed : List Station},
      .running ∉ passed.filterMap (Station.settled? start log) := by
    intro passed hmem
    rcases mem_settled hmem with h | h | h <;> cases h
  have hfresh : ∀ {left : List Station}, .running ∉ left.filterMap Station.fresh? := by
    intro left hmem
    cases mem_fresh hmem
  cases h with
  | all _ _ => exact hsettled hmem
  | block _ _ _ _ _ _ =>
      rcases List.mem_append.mp hmem with hmem | hmem
      · exact hsettled hmem
      · rcases List.mem_cons.mp hmem with h | hmem
        · cases h
        · exact hfresh hmem
  | condition _ _ _ => exact (List.mem_append.mp hmem).elim hsettled hfresh

-- The number of a block is the number of blocks before it.
theorem index_of_numbered {passed left : List Station} {around : List Condition} {own : CodeBlock}
    {count : Nat}
    (h : ((passed ++ .block around own :: left).filterMap Station.block?).map CodeBlock.index =
      List.range count) : own.index = (passed.filterMap Station.block?).length := by
  have hsplit : (passed ++ .block around own :: left).filterMap Station.block? =
      passed.filterMap Station.block? ++ own :: left.filterMap Station.block? := by
    rw [List.filterMap_append]
    rfl
  have hget := congrArg (·[(passed.filterMap Station.block?).length]?) h
  rw [hsplit] at hget
  simp only [List.map_append, List.map_cons] at hget
  rw [List.getElem?_append_right (by simp)] at hget
  simp only [List.length_map, Nat.sub_self, List.getElem?_cons_zero] at hget
  obtain ⟨_, hindex⟩ := List.getElem?_eq_some_iff.mp hget.symm
  rw [List.getElem_range] at hindex
  exact hindex.symm

theorem Ends.failed_iff (h : Ends start log stations calls states result) {count : Nat}
    (hnumbered : (stations.filterMap Station.block?).map CodeBlock.index = List.range count)
    (index : Nat) : states[index]? = some .failed ↔
      ∃ span line output cause, result = .error (.block index span line output cause) := by
  have hsettled : ∀ {passed : List Station},
      .failed ∉ passed.filterMap (Station.settled? start log) := by
    intro passed hmem
    rcases mem_settled hmem with h | h | h <;> cases h
  have hfresh : ∀ {left : List Station}, .failed ∉ left.filterMap Station.fresh? := by
    intro left hmem
    cases mem_fresh hmem
  cases h with
  | all result _ =>
      refine ⟨fun hstate => (hsettled (List.mem_of_getElem? hstate)).elim, ?_⟩
      rintro ⟨_, _, _, _, h⟩
      cases h
  | @block passed left around own call failure _ _ _ _ _ _ =>
      rw [getElem?_eq_some_iff_of_not_mem hsettled hfresh, length_filterMap_settled?,
        ← index_of_numbered hnumbered]
      constructor
      · rintro rfl
        exact ⟨_, _, _, _, rfl⟩
      · rintro ⟨_, _, _, _, h⟩
        cases h
        rfl
  | condition _ _ hverdict =>
      refine ⟨fun hstate => ?_, ?_⟩
      · exact ((List.mem_append.mp (List.mem_of_getElem? hstate)).elim hsettled hfresh).elim
      · rintro ⟨_, _, _, _, h⟩
        cases h
        exact (evaluateGuard_ne_block hverdict).elim

end States

theorem run_runDocument {executor : Executor σ} {classified : Classified}
    (h : classified.language = executor.language) (progress : Progress σ) :
    (runDocument executor classified).run progress =
      (runNodes executor classified.document.nodes).run (progress.pending classified) := by
  simp only [runDocument, h, ne_eq, not_true_eq_false, if_false]
  rfl

-- A run of a classified document comes to its end over the stations of its whole tree.
theorem exists_ends (executor : Executor σ) {registry : Registry} {document : Document}
    {classified : Classified}
    (hclassify : classify registry executor.language document = .ok classified)
    (progress : Progress σ) :
    ∃ result after log,
      (runDocument executor classified).run progress = (result, after) ∧
      (runDocument executor.logged classified).run (progress.withLog []) =
        (result, after.withLog log) ∧
      (blocksOf classified.document.nodes).map CodeBlock.index = List.range after.states.length ∧
      log.Pairwise (fun a b => a.index < b.index) ∧
      Ends progress.session log (stationsOf [] 0 classified.document.nodes) (log.map Call.key)
        after.states result := by
  obtain ⟨hlanguage, hfree, -⟩ := classifies_of_classify hclassify
  have hindices := indices_of_classify hclassify
  obtain ⟨after, result, log, states, hrun⟩ :=
    @covered_nodes σ executor [] 0 _ hfree hindices (progress.pending classified)
  have hstates : after.states = states := by
    have hkept := hrun.kept [] [] rfl (by simp [Progress.pending, Classified.blockCount,
      Document.blocks])
    simpa using hkept
  have hends := hrun.ends progress.session [] [] (fun _ h => (List.not_mem_nil h).elim)
    (fun _ h => (List.not_mem_nil h).elim) rfl rfl
  rw [List.nil_append, List.append_nil, ← hstates] at hends
  refine ⟨result, after, log, ?_, ?_, ?_, hrun.increasing, hends⟩
  · rw [run_runDocument hlanguage, hrun.run_plain]
  · exact (@run_runDocument _ executor.logged _ hlanguage _).trans (hrun.run_logged [])
  · rw [hstates, hrun.length, List.range_eq_range']
    exact hindices

-- Every run of a classified document of the executor's language, whatever the executor does: with
-- a log of its calls it ends in the same way, and the log, the states and the result are those of
-- the lifecycle.
theorem lifecycle_of_runDocument (executor : Executor σ) {registry : Registry}
    {document : Document} {classified : Classified}
    (hclassify : classify registry executor.language document = .ok classified)
    (progress : Progress σ) :
    ∃ result after log,
      (runDocument executor classified).run progress = (result, after) ∧
      (runDocument executor.logged classified).run (progress.withLog []) =
        (result, after.withLog log) ∧
      Lifecycle classified.document.nodes progress.session log after.states result := by
  obtain ⟨result, after, log, hplain, hlogged, hnumbered, hincreasing, hends⟩ :=
    exists_ends executor hclassify progress
  exact ⟨result, after, log, hplain, hlogged, hnumbered, hincreasing, hends, hends.notRunning,
    hends.failed_iff (by rw [blocks_stationsOf, hnumbered])⟩

-- An executor that binds one name and fails on one text.
def stopper : Executor Unit where
  language := "calc"
  execute code session host :=
    (⟨.none, if code = "stop" then some ⟨none, .failed code⟩ else none⟩,
      session.bind "x" (.bool true), host)

def plainBlock (index : Nat) (tags : List Modifier) (content : String) : CodeBlock :=
  ⟨some "calc", "calc", tags.map Modifier.token, .ofList tags, index, "```", content, "",
    ⟨0, ⟨0, 0⟩, 1⟩⟩

-- A block that runs, one that does not, a branch that is taken and one that is not, a block that
-- fails and one behind it.
def stopped : Document := ⟨0,
  [.code (plainBlock 0 [.silent] "go"),
    .conditional ⟨.var "x" ⟨0, 1⟩, rfl⟩ "x"
      [.code (plainBlock 1 [.noExec] "go"),
        .conditional ⟨.bool false, Calc.callFree_bool false⟩ "false" [.code (plainBlock 2 [] "go")] ⟨0, ⟨0, 0⟩, 1⟩]
      ⟨0, ⟨0, 0⟩, 1⟩,
    .code (plainBlock 3 [] "stop"), .code (plainBlock 4 [] "go")]⟩

-- The condition of the branch that is taken.
def boundGuard : Calc.Guard := ⟨.var "x" ⟨0, 1⟩, rfl⟩

theorem classify_stopped : classify .standard "calc" stopped = .ok ⟨stopped, "calc"⟩ := by
  cbv

theorem run_stopped : ((runDocument stopper ⟨stopped, "calc"⟩).run (.start () "block")).1 =
      .error (.block 3 ⟨0, ⟨0, 0⟩, 1⟩ none "" (.failed "stop")) ∧
    ((runDocument stopper ⟨stopped, "calc"⟩).run (.start () "block")).2.states =
      [.succeeded, .skipped, .pending, .failed, .pending] := by
  constructor <;> cbv

theorem lifecycle_stopped : classify .standard stopper.language stopped = .ok ⟨stopped, "calc"⟩ ∧
    ∃ log, Lifecycle stopped.nodes .empty log [.succeeded, .skipped, .pending, .failed, .pending]
      (.error (.block 3 ⟨0, ⟨0, 0⟩, 1⟩ none "" (.failed "stop"))) := by
  obtain ⟨result, after, log, hrun, -, h⟩ :=
    lifecycle_of_runDocument stopper classify_stopped (.start () "block")
  obtain ⟨hresult, hstates⟩ := run_stopped
  rw [hrun] at hresult hstates
  refine ⟨classify_stopped, log, ?_⟩
  rw [← hresult, ← hstates]
  exact h

end LiveDoc
