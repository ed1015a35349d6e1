import LiveDoc.Proofs.Include.Insertion
import LiveDoc.Proofs.Run.Lifecycle

namespace LiveDoc

variable {σ α β : Type}

-- A condition where it is decided, with the session that it sees.
structure Decision where
  guard : Calc.Guard
  source : String
  span : Span
  session : Calc.Session

def Decision.verdict (decision : Decision) : Except RunError Bool :=
  evaluateGuard decision.guard decision.source decision.span decision.session

-- What a run does, step by step: it decides conditions and has code executed.
inductive Event where
  | decision (decision : Decision)
  | call (call : Call)

def Event.call? : Event → Option Call
  | .decision _ => none
  | .call made => some made

-- The step of a walk at which a condition is decided.
def Event.visit? : Event → Option Visit
  | .decision own => some (.enter own.guard own.source own.span)
  | .call _ => none

def callsOf (events : List Event) : List Call := events.filterMap Event.call?

theorem callsOf_append (front back : List Event) :
    callsOf (front ++ back) = callsOf front ++ callsOf back := List.filterMap_append

-- A run written out: what it does, what it comes to, and the progress that it leaves.
structure Trace (σ α : Type) where
  events : List Event
  result : Except RunError α
  after : Progress σ

namespace Trace

def stay (a : α) (progress : Progress σ) : Trace σ α := ⟨[], .ok a, progress⟩

def map (f : α → β) (trace : Trace σ α) : Trace σ β :=
  ⟨trace.events, trace.result.map f, trace.after⟩

-- One run, and where it does not fail another one behind it.
def andThen (first : Trace σ α) (next : α → Progress σ → Trace σ β) : Trace σ β :=
  match first.result with
  | .error error => ⟨first.events, .error error, first.after⟩
  | .ok a =>
      let second := next a first.after
      ⟨first.events ++ second.events, second.result, second.after⟩

variable {γ : Type}

theorem andThen_of_error {first : Trace σ α} {error : RunError} (h : first.result = .error error)
    (next : α → Progress σ → Trace σ β) :
    first.andThen next = ⟨first.events, .error error, first.after⟩ := by
  simp only [andThen, h]

theorem andThen_of_ok {first : Trace σ α} {a : α} (h : first.result = .ok a)
    (next : α → Progress σ → Trace σ β) :
    first.andThen next = ⟨first.events ++ (next a first.after).events,
      (next a first.after).result, (next a first.after).after⟩ := by
  simp only [andThen, h]

theorem andThen_congr {first : Trace σ α} {next other : α → Progress σ → Trace σ β}
    (h : ∀ a, first.result = .ok a → next a first.after = other a first.after) :
    first.andThen next = first.andThen other := by
  cases hresult : first.result with
  | error error => rw [andThen_of_error hresult, andThen_of_error hresult]
  | ok a => rw [andThen_of_ok hresult, andThen_of_ok hresult, h a hresult]

theorem andThen_assoc (first : Trace σ α) (next : α → Progress σ → Trace σ β)
    (last : β → Progress σ → Trace σ γ) :
    (first.andThen next).andThen last =
      first.andThen fun a progress => (next a progress).andThen last := by
  cases h : first.result with
  | error error => rw [andThen_of_error h, andThen_of_error h, andThen_of_error rfl]
  | ok a =>
      rw [andThen_of_ok h, andThen_of_ok h]
      cases hnext : (next a first.after).result with
      | error error => rw [andThen_of_error hnext, andThen_of_error rfl]
      | ok b => rw [andThen_of_ok hnext, andThen_of_ok rfl, List.append_assoc]

theorem map_andThen (f : α → β) (first : Trace σ α) (next : β → Progress σ → Trace σ γ) :
    (first.map f).andThen next = first.andThen fun a => next (f a) := by
  cases h : first.result <;> simp only [map, andThen, h, Except.map]

theorem map_eq_andThen (f : α → β) (trace : Trace σ α) :
    trace.map f = trace.andThen fun a => stay (f a) := by
  cases h : trace.result <;> simp only [map, andThen, stay, h, Except.map, List.append_nil]

theorem result_map_eq_ok {f : α → β} {trace : Trace σ α} {b : β}
    (h : (trace.map f).result = .ok b) : ∃ a, trace.result = .ok a ∧ f a = b := by
  cases hresult : trace.result with
  | error error =>
      rw [map, hresult] at h
      cases h
  | ok a =>
      rw [map, hresult] at h
      cases h
      exact ⟨a, rfl, rfl⟩

theorem result_map_eq_error {f : α → β} {trace : Trace σ α} {error : RunError}
    (h : (trace.map f).result = .error error) : trace.result = .error error := by
  cases hresult : trace.result with
  | error other =>
      rw [map, hresult] at h
      cases h
      rfl
  | ok a =>
      rw [map, hresult] at h
      cases h

theorem result_andThen_eq_ok {first : Trace σ α} {next : α → Progress σ → Trace σ β} {b : β}
    (h : (first.andThen next).result = .ok b) :
    ∃ a, first.result = .ok a ∧ (next a first.after).result = .ok b := by
  cases hresult : first.result with
  | error error =>
      rw [andThen_of_error hresult] at h
      cases h
  | ok a =>
      rw [andThen_of_ok hresult] at h
      exact ⟨a, rfl, h⟩

theorem result_andThen_eq_error {first : Trace σ α} {next : α → Progress σ → Trace σ β}
    {error : RunError} (h : (first.andThen next).result = .error error) :
    first.result = .error error ∨
      ∃ a, first.result = .ok a ∧ (next a first.after).result = .error error := by
  cases hresult : first.result with
  | error other =>
      rw [andThen_of_error hresult] at h
      cases h
      exact .inl rfl
  | ok a =>
      rw [andThen_of_ok hresult] at h
      exact .inr ⟨a, rfl, h⟩

theorem andThen_stay (trace : Trace σ α) : trace.andThen stay = trace := by
  obtain ⟨events, result, after⟩ := trace
  cases result <;> simp only [andThen, stay, List.append_nil]

theorem stay_andThen (a : α) (progress : Progress σ) (next : α → Progress σ → Trace σ β) :
    (stay a progress).andThen next = next a progress := rfl

end Trace

-- What comes of a block whose code has been executed.
def Progress.settle (next : Progress σ) (own : CodeBlock) (execution : Calc.Execution) :
    Except RunError Executed × Progress σ :=
  match execution.failure with
  | some failure =>
      (.error (.block own.index own.span (failure.line.map (own.span.line + ·))
        execution.captured.output failure.error), next.mark own.index .failed)
  | none =>
      let (names, store) := next.store.claim own.index execution.captured.artifacts
      (.ok (.block own (some ⟨execution.captured.output, names⟩)),
        { next with store }.mark own.index .succeeded)

def traceBlock (executor : Executor σ) (progress : Progress σ) (own : CodeBlock) :
    Trace σ Executed :=
  if own.modifiers.executes then
    let (execution, next) := progress.execute executor own
    let (result, after) := next.settle own execution
    ⟨[.call (progress.call own execution next)], result, after⟩
  else ⟨[], .ok (.block own none), progress.mark own.index .skipped⟩

section Block

variable {executor : Executor σ} {own : CodeBlock} {progress next : Progress σ}
  {execution : Calc.Execution}

theorem settle_of_failure {failure : Calc.Failure} (h : execution.failure = some failure) :
    next.settle own execution =
      (.error (.block own.index own.span (failure.line.map (own.span.line + ·))
        execution.captured.output failure.error), next.mark own.index .failed) := by
  simp only [Progress.settle, h]

theorem settle_of_success (h : execution.failure = none) :
    next.settle own execution =
      (.ok (.block own (some ⟨execution.captured.output,
          (next.store.claim own.index execution.captured.artifacts).1⟩)),
        { next with
          store := (next.store.claim own.index execution.captured.artifacts).2 }.mark own.index
            .succeeded) := by
  simp only [Progress.settle, h]

theorem traceBlock_skipped (h : own.modifiers.executes = false) :
    traceBlock executor progress own =
      ⟨[], .ok (.block own none), progress.mark own.index .skipped⟩ := by
  simp only [traceBlock, h, Bool.false_eq_true, if_false]

theorem traceBlock_executed (h : own.modifiers.executes = true)
    (hstep : progress.execute executor own = (execution, next)) :
    traceBlock executor progress own = ⟨[.call (progress.call own execution next)],
      (next.settle own execution).1, (next.settle own execution).2⟩ := by
  simp only [traceBlock, h, if_true, hstep]

end Block

def traceDecision (progress : Progress σ) (decision : Decision) : Trace σ Bool :=
  ⟨[.decision decision], decision.verdict, progress⟩

mutual

-- The run of a tree, written out.
def traceNode (executor : Executor σ) (progress : Progress σ) : Node → Trace σ Executed
  | .prose prose => .stay (.prose prose.text) progress
  | .directive directive =>
      ⟨[], .error (.document (.unresolved directive.path directive.span)), progress⟩
  | .code block => traceBlock executor progress block
  | .conditional guard source children span =>
      (traceDecision progress ⟨guard, source, span, progress.session⟩).andThen
        fun included progress =>
          (if included then traceTree executor progress children else .stay [] progress).map
            (.conditional source included)

def traceTree (executor : Executor σ) (progress : Progress σ) :
    List Node → Trace σ (List Executed)
  | [] => .stay [] progress
  | node :: rest =>
      (traceNode executor progress node).andThen fun first progress =>
        (traceTree executor progress rest).map (first :: ·)

end

section Equations

variable (executor : Executor σ) (progress : Progress σ)

theorem traceTree_append (front back : List Node) :
    traceTree executor progress (front ++ back) =
      (traceTree executor progress front).andThen fun executed progress =>
        (traceTree executor progress back).map (executed ++ ·) := by
  induction front generalizing progress with
  | nil =>
      rw [List.nil_append, traceTree, Trace.stay_andThen, Trace.map_eq_andThen]
      exact (Trace.andThen_stay _).symm
  | cons node rest ih =>
      simp only [List.cons_append, traceTree, ih, Trace.map_eq_andThen, Trace.andThen_assoc,
        Trace.stay_andThen]

-- A branch that is taken or not.
def traceBranch (children : List Node) (included : Bool) : Trace σ (List Executed) :=
  if included then traceTree executor progress children else .stay [] progress

theorem traceTree_prose (own : Prose) (rest : List Node) :
    traceTree executor progress (.prose own :: rest) =
      (traceTree executor progress rest).map (.prose own.text :: ·) := rfl

theorem traceTree_code (own : CodeBlock) (rest : List Node) :
    traceTree executor progress (.code own :: rest) =
      (traceBlock executor progress own).andThen fun first progress =>
        (traceTree executor progress rest).map (first :: ·) := rfl

theorem traceTree_conditional (guard : Calc.Guard) (source : String) (children : List Node)
    (span : Span) (rest : List Node) :
    traceTree executor progress (.conditional guard source children span :: rest) =
      (traceDecision progress ⟨guard, source, span, progress.session⟩).andThen
        fun included progress =>
          (traceBranch executor progress children included).andThen fun executed progress =>
            (traceTree executor progress rest).map (.conditional source included executed :: ·) := by
  simp only [traceTree, traceNode, traceBranch, Trace.andThen_assoc, Trace.map_andThen]

end Equations

-- A relation between progress, what is done, and the progress after it holds of a whole tree where
-- it holds of each step, and can be put together.
section Keeps

variable {executor : Executor σ} {R : Progress σ → List Event → Progress σ → Prop}
  (htrans : ∀ {p q r front back}, R p front q → R q back r → R p (front ++ back) r)

include htrans

theorem keeps_andThen {progress : Progress σ} {first : Trace σ α}
    {next : α → Progress σ → Trace σ β} (h : R progress first.events first.after)
    (hnext : ∀ a, first.result = .ok a →
      R first.after (next a first.after).events (next a first.after).after) :
    R progress (first.andThen next).events (first.andThen next).after := by
  cases hresult : first.result with
  | error error =>
      rw [Trace.andThen_of_error hresult]
      exact h
  | ok a =>
      rw [Trace.andThen_of_ok hresult]
      exact htrans h (hnext a hresult)

theorem keeps_tree (hrefl : ∀ p, R p [] p)
    (hdecision : ∀ p decision, decision.session = p.session → R p [.decision decision] p)
    {nodes : List Node} (hblock : ∀ own ∈ blocksOf nodes, ∀ p,
      R p (traceBlock executor p own).events (traceBlock executor p own).after)
    (progress : Progress σ) :
    R progress (traceTree executor progress nodes).events
      (traceTree executor progress nodes).after := by
  induction nodes using nodesInduction generalizing progress with
  | nil => exact hrefl progress
  | prose own rest ih => exact ih hblock progress
  | directive own rest ih => exact hrefl progress
  | code own rest ih =>
      rw [traceTree_code]
      refine keeps_andThen htrans (hblock own (List.mem_cons_self ..) progress) fun first _ => ?_
      exact ih (fun other hother => hblock other (List.mem_cons_of_mem _ hother)) _
  | conditional guard source children span rest ihChildren ihRest =>
      have hchildren := ihChildren fun own hown => hblock own (List.mem_append_left _ hown)
      have hrest := ihRest fun own hown => hblock own (List.mem_append_right _ hown)
      rw [traceTree_conditional]
      refine keeps_andThen htrans (hdecision progress _ rfl) fun included _ => ?_
      refine keeps_andThen htrans ?_ fun executed _ => hrest _
      cases included with
      | false => exact hrefl _
      | true => exact hchildren _

end Keeps

def traceDocument (executor : Executor σ) (classified : Classified) (progress : Progress σ) :
    Trace σ (List Executed) :=
  if classified.language = executor.language then
    traceTree executor (progress.pending classified) classified.document.nodes
  else ⟨[], .error (.language classified.language executor.language), progress⟩

theorem traceDocument_of_language {executor : Executor σ} {classified : Classified}
    (h : classified.language = executor.language) (start : Progress σ) :
    traceDocument executor classified start =
      traceTree executor (start.pending classified) classified.document.nodes := if_pos h

-- A trace tells what a run does, with and without a log of its calls.
structure Trace.Tells (trace : Trace σ α) (plain : Running σ α)
    (logged : Running (σ × List Call) α) (progress : Progress σ) : Prop where
  plain : plain.run progress = (trace.result, trace.after)
  logged : ∀ log, logged.run (progress.withLog log) =
    (trace.result, trace.after.withLog (log ++ callsOf trace.events))

section Tells

theorem tells_of_quiet {result : Except RunError α} {progress after : Progress σ}
    {plain : Running σ α} {logged : Running (σ × List Call) α}
    (hplain : plain.run progress = (result, after))
    (hlogged : ∀ log, logged.run (progress.withLog log) = (result, after.withLog log)) :
    Trace.Tells ⟨[], result, after⟩ plain logged progress :=
  ⟨hplain, fun log => by rw [hlogged, callsOf, List.filterMap_nil, List.append_nil]⟩

theorem Trace.Tells.andThen {first : Trace σ α} {next : α → Progress σ → Trace σ β}
    {plain : Running σ α} {logged : Running (σ × List Call) α} {more : α → Running σ β}
    {moreLogged : α → Running (σ × List Call) β} {progress : Progress σ}
    (h : first.Tells plain logged progress)
    (hnext : ∀ a, first.result = .ok a →
      (next a first.after).Tells (more a) (moreLogged a) first.after) :
    (first.andThen next).Tells (plain >>= more) (logged >>= moreLogged) progress := by
  have hplain := h.plain
  have hlogged := h.logged
  cases hresult : first.result with
  | error error =>
      rw [hresult] at hplain hlogged
      rw [andThen_of_error hresult]
      exact ⟨Action.run_bind_of_error hplain, fun log => Action.run_bind_of_error (hlogged log)⟩
  | ok a =>
      rw [hresult] at hplain hlogged
      rw [andThen_of_ok hresult]
      refine ⟨(Action.run_bind_of_ok hplain).trans (hnext a hresult).plain, fun log => ?_⟩
      rw [Action.run_bind_of_ok (hlogged log), (hnext a hresult).logged, callsOf_append,
        List.append_assoc]

theorem Trace.Tells.map {trace : Trace σ α} {plain : Running σ α}
    {logged : Running (σ × List Call) α} {progress : Progress σ} (f : α → β)
    (h : trace.Tells plain logged progress) :
    (trace.map f).Tells (plain >>= fun a => pure (f a)) (logged >>= fun a => pure (f a))
      progress := by
  have hplain := h.plain
  have hlogged := h.logged
  cases hresult : trace.result with
  | error error =>
      rw [hresult] at hplain hlogged
      rw [Trace.map, hresult]
      exact ⟨Action.run_bind_of_error hplain, fun log => Action.run_bind_of_error (hlogged log)⟩
  | ok a =>
      rw [hresult] at hplain hlogged
      rw [Trace.map, hresult]
      exact ⟨Action.run_bind_of_ok hplain, fun log => Action.run_bind_of_ok (hlogged log)⟩

variable (executor : Executor σ)

theorem tells_block (own : CodeBlock) (progress : Progress σ) :
    (traceBlock executor progress own).Tells (runBlock executor own)
      (runBlock executor.logged own) progress := by
  cases hexecutes : own.modifiers.executes with
  | false =>
      rw [traceBlock_skipped hexecutes]
      exact tells_of_quiet (run_runBlock_skipped hexecutes progress) fun log =>
        run_runBlock_skipped hexecutes (progress.withLog log)
  | true =>
      obtain ⟨execution, next, hstep⟩ : ∃ execution next,
          progress.execute executor own = (execution, next) := ⟨_, _, rfl⟩
      have hlogged := execute_logged hstep
      rw [traceBlock_executed hexecutes hstep]
      cases hfailure : execution.failure with
      | some failure =>
          rw [settle_of_failure hfailure]
          exact ⟨run_runBlock_failed hexecutes hstep hfailure, fun log =>
            run_runBlock_failed hexecutes (hlogged log) hfailure⟩
      | none =>
          rw [settle_of_success hfailure]
          exact ⟨run_runBlock_succeeded hexecutes hstep hfailure, fun log =>
            run_runBlock_succeeded hexecutes (hlogged log) hfailure⟩

theorem tells_decision (own : Condition) (progress : Progress σ) :
    (traceDecision progress ⟨own.guard, own.source, own.span, progress.session⟩).Tells
      (runCondition own) (runCondition own) progress := by
  refine ⟨run_runCondition own progress, fun log => ?_⟩
  rw [run_runCondition, traceDecision]
  dsimp only [callsOf, List.filterMap, Event.call?]
  rw [List.append_nil]
  rfl

-- A condition and its branch, as one step after the other.
theorem runNode_conditional {τ : Type} (executor : Executor τ) (guard : Calc.Guard)
    (source : String) (children : List Node) (span : Span) :
    runNode executor (.conditional guard source children span) =
      runCondition ⟨guard, source, span, 0⟩ >>= fun included =>
        (if included then runNodes executor children else pure []) >>= fun executed =>
          pure (.conditional source included executed) := by
  simp only [runNode, runCondition, bind_assoc]
  congr
  funext progress
  congr
  funext included
  cases included <;> rfl

mutual

theorem tells_node (node : Node) (progress : Progress σ) :
    (traceNode executor progress node).Tells (runNode executor node)
      (runNode executor.logged node) progress := by
  match node with
  | .prose prose => exact tells_of_quiet rfl fun log => rfl
  | .directive directive => exact tells_of_quiet rfl fun log => rfl
  | .code block => exact tells_block executor block progress
  | .conditional guard source children span =>
      rw [runNode_conditional, runNode_conditional, traceNode]
      refine (tells_decision ⟨guard, source, span, 0⟩ progress).andThen fun included _ => ?_
      refine Trace.Tells.map _ ?_
      cases included with
      | false => exact tells_of_quiet rfl fun log => rfl
      | true => exact tells_nodes children _

theorem tells_nodes (nodes : List Node) (progress : Progress σ) :
    (traceTree executor progress nodes).Tells (runNodes executor nodes)
      (runNodes executor.logged nodes) progress := by
  match nodes with
  | [] => exact tells_of_quiet rfl fun log => rfl
  | node :: rest =>
      rw [traceTree]
      exact (tells_node node progress).andThen fun first _ => (tells_nodes rest _).map _

end

-- The trace of a document is that of its run, and the calls in it are those that its executor
-- gets.
theorem tells_document (classified : Classified) (progress : Progress σ) :
    (traceDocument executor classified progress).Tells (runDocument executor classified)
      (runDocument executor.logged classified) progress := by
  unfold traceDocument
  by_cases hlanguage : classified.language = executor.language
  · have h := tells_nodes executor classified.document.nodes (progress.pending classified)
    rw [if_pos hlanguage]
    refine ⟨(run_runDocument hlanguage progress).trans h.plain, fun log => ?_⟩
    exact (@run_runDocument _ executor.logged _ hlanguage _).trans (h.logged log)
  · rw [if_neg hlanguage]
    refine tells_of_quiet ?_ fun log => ?_
    · simp only [runDocument, ne_eq, hlanguage, not_false_eq_true, if_true]
      exact Action.run_bind_of_error (Action.run_throw _ progress)
    · have hlogged : ¬ classified.language = executor.logged.language := hlanguage
      simp only [runDocument, ne_eq, hlogged, not_false_eq_true, if_true]
      exact Action.run_bind_of_error (Action.run_throw _ (progress.withLog log))

end Tells

end LiveDoc
