import LiveDoc.Proofs.Run.Trace

namespace LiveDoc

variable {σ τ α β : Type}

-- The same progress where less of the executor's own state is seen.
def Progress.over (forget : τ → σ) (progress : Progress τ) : Progress σ :=
  ⟨forget progress.host, progress.session, progress.store, progress.states⟩

def Trace.over (forget : τ → σ) (trace : Trace τ α) : Trace σ α :=
  ⟨trace.events, trace.result, trace.after.over forget⟩

-- The second executor does what the first one does, and keeps more state of its own.
structure Executor.Erases (small : Executor σ) (big : Executor τ) (forget : τ → σ) : Prop where
  language : small.language = big.language
  execute : ∀ code session host, small.execute code session (forget host) =
    let (execution, left, next) := big.execute code session host
    (execution, left, forget next)

section Erases

variable {small : Executor σ} {big : Executor τ} {forget : τ → σ} {progress : Progress τ}

theorem over_andThen {first : Trace τ α} {next : α → Progress τ → Trace τ β}
    {other : α → Progress σ → Trace σ β}
    (h : ∀ a, first.result = .ok a →
      other a (first.after.over forget) = (next a first.after).over forget) :
    (first.over forget).andThen other = (first.andThen next).over forget := by
  cases hresult : first.result with
  | error error =>
      have hover : (first.over forget).result = .error error := hresult
      rw [Trace.andThen_of_error hresult, Trace.andThen_of_error hover]
      rfl
  | ok a =>
      have hover : (first.over forget).result = .ok a := hresult
      rw [Trace.andThen_of_ok hresult, Trace.andThen_of_ok hover]
      simp only [Trace.over, h a hresult]

theorem settle_over (own : CodeBlock) (execution : Calc.Execution) :
    (progress.over forget).settle own execution =
      ((progress.settle own execution).1, (progress.settle own execution).2.over forget) := by
  cases hfailure : execution.failure with
  | some failure =>
      rw [settle_of_failure hfailure, settle_of_failure hfailure]
      rfl
  | none =>
      rw [settle_of_success hfailure, settle_of_success hfailure]
      rfl

variable (h : small.Erases big forget)

include h

theorem execute_over (own : CodeBlock) :
    (progress.over forget).execute small own =
      ((progress.execute big own).1, (progress.execute big own).2.over forget) := by
  have hstep := h.execute own.content (progress.session.enter own.index) progress.host
  simp only [Progress.execute, Progress.over, Progress.mark, hstep]

theorem traceBlock_over (own : CodeBlock) (progress : Progress τ) :
    traceBlock small (progress.over forget) own = (traceBlock big progress own).over forget := by
  cases hexecutes : own.modifiers.executes with
  | false =>
      rw [traceBlock_skipped hexecutes, traceBlock_skipped hexecutes]
      rfl
  | true =>
      rcases hstep : progress.execute big own with ⟨execution, next⟩
      have hover : (progress.over forget).execute small own = (execution, next.over forget) := by
        rw [execute_over h, hstep]
      rw [traceBlock_executed hexecutes hover, traceBlock_executed hexecutes hstep, settle_over]
      rfl

-- What an executor remembers for itself alone does not matter to the run of a tree.
theorem traceTree_over (nodes : List Node) (progress : Progress τ) :
    traceTree small (progress.over forget) nodes = (traceTree big progress nodes).over forget := by
  induction nodes using nodesInduction generalizing progress with
  | nil => rfl
  | prose own rest ih =>
      rw [traceTree_prose, traceTree_prose, ih]
      rfl
  | directive own rest ih => rfl
  | code own rest ih =>
      rw [traceTree_code, traceTree_code, traceBlock_over h]
      refine over_andThen fun first _ => ?_
      rw [ih]
      rfl
  | conditional guard source children span rest ihChildren ihRest =>
      have hbranch : ∀ included, traceBranch small (progress.over forget) children included =
          (traceBranch big progress children included).over forget := by
        intro included
        cases included with
        | false => rfl
        | true => exact ihChildren progress
      rw [traceTree_conditional, traceTree_conditional]
      refine @over_andThen _ _ _ _ forget (traceDecision progress _) _ _ fun included _ => ?_
      dsimp only [traceDecision]
      rw [hbranch]
      refine over_andThen fun executed _ => ?_
      rw [ihRest]
      rfl

theorem traceDocument_over (classified : Classified) (progress : Progress τ) :
    traceDocument small classified (progress.over forget) =
      (traceDocument big classified progress).over forget := by
  by_cases hlanguage : classified.language = big.language
  · rw [traceDocument_of_language hlanguage, traceDocument_of_language (h.language ▸ hlanguage)]
    exact traceTree_over h _ (progress.pending classified)
  · rw [traceDocument, traceDocument, if_neg hlanguage, if_neg (h.language ▸ hlanguage), h.language]
    rfl

end Erases

end LiveDoc
