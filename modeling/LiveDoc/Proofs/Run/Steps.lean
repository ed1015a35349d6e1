import LiveDoc.Proofs.Run.Trace

namespace LiveDoc

variable {σ α β : Type}

-- Each step sees the session that the calls before it have left, and leaves its own to the next.
inductive Linked : Calc.Session → List Event → Calc.Session → Prop
  | nil (session : Calc.Session) : Linked session [] session
  | decision {decision : Decision} {events : List Event} {session last : Calc.Session} :
      decision.session = session → Linked session events last →
      Linked session (.decision decision :: events) last
  | call {call : Call} {events : List Event} {session last : Calc.Session} :
      call.given = session.enter call.index → Linked call.left events last →
      Linked session (.call call :: events) last

theorem Linked.append {start middle last : Calc.Session} {front back : List Event}
    (h : Linked start front middle) (hback : Linked middle back last) :
    Linked start (front ++ back) last := by
  induction h with
  | nil session => exact hback
  | decision hsees _ ih => exact .decision hsees (ih hback)
  | call hgiven _ ih => exact .call hgiven (ih hback)

-- A name that no call before has bound is not bound where a condition is decided.
theorem Linked.free_at {start last : Calc.Session} {before behind : List Event}
    {decision : Decision} {name : String}
    (h : Linked start (before ++ .decision decision :: behind) last)
    (hstart : start.binding? name = none)
    (hcalls : ∀ call ∈ callsOf before, call.left.binding? name = none) :
    decision.session.binding? name = none := by
  induction before generalizing start with
  | nil =>
      cases h with
      | decision hsees _ => rwa [hsees]
  | cons event rest ih =>
      cases h with
      | decision _ hrest => exact ih hrest hstart hcalls
      | call _ hrest =>
          obtain ⟨hleft, hlater⟩ := List.forall_mem_cons.mp hcalls
          exact ih hrest hleft hlater

-- What the steps of blocks do to progress, where none of them is one of the first ones.
structure Progress.Grows (floor : Nat) (progress later : Progress σ) : Prop where
  low : later.states.take floor = progress.states.take floor
  length : later.states.length = progress.states.length
  artifacts : progress.store.artifacts <+: later.store.artifacts

section Grows

variable {floor : Nat} {progress middle later : Progress σ}

theorem Progress.Grows.refl (floor : Nat) (progress : Progress σ) : progress.Grows floor progress :=
  ⟨rfl, rfl, List.prefix_rfl⟩

theorem Progress.Grows.trans (h : progress.Grows floor middle) (hnext : middle.Grows floor later) :
    progress.Grows floor later :=
  ⟨hnext.low.trans h.low, hnext.length.trans h.length, h.artifacts.trans hnext.artifacts⟩

theorem grows_mark {index : Nat} (h : floor ≤ index) (state : BlockState) :
    progress.Grows floor (progress.mark index state) :=
  ⟨List.take_set_of_le h, List.length_set, List.prefix_rfl⟩

end Grows

section Blocks

theorem session_settle (next : Progress σ) (own : CodeBlock) (execution : Calc.Execution) :
    (next.settle own execution).2.session = next.session := by
  cases hfailure : execution.failure with
  | some failure => rw [settle_of_failure hfailure]; rfl
  | none => rw [settle_of_success hfailure]; rfl

theorem grows_settle {floor : Nat} {own : CodeBlock} (h : floor ≤ own.index) (next : Progress σ)
    (execution : Calc.Execution) : next.Grows floor (next.settle own execution).2 := by
  cases hfailure : execution.failure with
  | some failure =>
      rw [settle_of_failure hfailure]
      exact grows_mark h _
  | none =>
      rw [settle_of_success hfailure]
      exact ⟨List.take_set_of_le h, List.length_set, List.prefix_append _ _⟩

theorem grows_execute {executor : Executor σ} {floor : Nat} {own : CodeBlock}
    {progress next : Progress σ} {execution : Calc.Execution} (h : floor ≤ own.index)
    (hstep : progress.execute executor own = (execution, next)) : progress.Grows floor next := by
  cases hstep
  exact ⟨List.take_set_of_le h, List.length_set, List.prefix_rfl⟩

variable (executor : Executor σ)

theorem linked_block (own : CodeBlock) (progress : Progress σ) :
    Linked progress.session (traceBlock executor progress own).events
      (traceBlock executor progress own).after.session := by
  cases hexecutes : own.modifiers.executes with
  | false =>
      rw [traceBlock_skipped hexecutes]
      exact .nil _
  | true =>
      rcases hstep : progress.execute executor own with ⟨execution, next⟩
      rw [traceBlock_executed hexecutes hstep]
      refine .call rfl ?_
      rw [session_settle]
      exact .nil _

theorem grows_block {floor : Nat} {own : CodeBlock} (h : floor ≤ own.index)
    (progress : Progress σ) : progress.Grows floor (traceBlock executor progress own).after := by
  cases hexecutes : own.modifiers.executes with
  | false =>
      rw [traceBlock_skipped hexecutes]
      exact grows_mark h _
  | true =>
      rcases hstep : progress.execute executor own with ⟨execution, next⟩
      rw [traceBlock_executed hexecutes hstep]
      exact (grows_execute h hstep).trans (grows_settle h next execution)

theorem linked_tree (nodes : List Node) (progress : Progress σ) :
    Linked progress.session (traceTree executor progress nodes).events
      (traceTree executor progress nodes).after.session :=
  @keeps_tree σ executor (fun p events q => Linked p.session events q.session)
    (fun hfront hback => hfront.append hback) (fun _ => .nil _)
    (fun _ _ hsees => .decision hsees (.nil _)) nodes
    (fun own _ p => linked_block executor own p) progress

theorem grows_tree {floor : Nat} {nodes : List Node} (h : ∀ own ∈ blocksOf nodes, floor ≤ own.index)
    (progress : Progress σ) : progress.Grows floor (traceTree executor progress nodes).after :=
  @keeps_tree σ executor (fun p _ q => p.Grows floor q) (fun hfront hback => hfront.trans hback)
    (.refl floor) (fun p _ _ => .refl floor p) nodes
    (fun own hown p => grows_block executor (h own hown) p) progress

end Blocks

-- The same with more blocks, which are pending.
def Progress.pad (progress : Progress σ) (more : Nat) : Progress σ :=
  { progress with states := progress.states ++ List.replicate more .pending }

def Trace.pad (trace : Trace σ α) (more : Nat) : Trace σ α :=
  ⟨trace.events, trace.result, trace.after.pad more⟩

section Pad

variable {executor : Executor σ} {progress : Progress σ} {more : Nat}

theorem pad_mark {index : Nat} (h : index < progress.states.length) (state : BlockState) :
    (progress.pad more).mark index state = (progress.mark index state).pad more := by
  rw [Progress.mark, Progress.mark, Progress.pad, Progress.pad, List.set_append_left _ _ h]

theorem pad_andThen {first : Trace σ α} {next : α → Progress σ → Trace σ β}
    (h : ∀ a, first.result = .ok a →
      next a (first.after.pad more) = (next a first.after).pad more) :
    (first.pad more).andThen next = (first.andThen next).pad more := by
  cases hresult : first.result with
  | error error =>
      have hpad : (first.pad more).result = .error error := hresult
      rw [Trace.andThen_of_error hresult, Trace.andThen_of_error hpad]
      rfl
  | ok a =>
      have hpad : (first.pad more).result = .ok a := hresult
      rw [Trace.andThen_of_ok hresult, Trace.andThen_of_ok hpad]
      simp only [Trace.pad, h a hresult]

theorem settle_pad {own : CodeBlock} (h : own.index < progress.states.length)
    (execution : Calc.Execution) :
    (progress.pad more).settle own execution =
      ((progress.settle own execution).1, (progress.settle own execution).2.pad more) := by
  cases hfailure : execution.failure with
  | some failure =>
      rw [settle_of_failure hfailure, settle_of_failure hfailure, pad_mark h]
  | none =>
      rw [settle_of_success hfailure, settle_of_success hfailure]
      refine Prod.ext rfl ?_
      simp only [Progress.mark, Progress.pad, List.set_append_left _ _ h]

theorem execute_pad {own : CodeBlock} (h : own.index < progress.states.length) :
    (progress.pad more).execute executor own =
      ((progress.execute executor own).1, (progress.execute executor own).2.pad more) := by
  simp only [Progress.execute, Progress.mark, Progress.pad, List.set_append_left _ _ h]

theorem traceBlock_pad {own : CodeBlock} (h : own.index < progress.states.length) :
    traceBlock executor (progress.pad more) own = (traceBlock executor progress own).pad more := by
  cases hexecutes : own.modifiers.executes with
  | false =>
      rw [traceBlock_skipped hexecutes, traceBlock_skipped hexecutes, pad_mark h]
      rfl
  | true =>
      rcases hstep : progress.execute executor own with ⟨execution, next⟩
      have hpad : (progress.pad more).execute executor own = (execution, next.pad more) := by
        rw [execute_pad h, hstep]
      have hnext : own.index < next.states.length := by
        rwa [states_execute hstep, List.length_set]
      rw [traceBlock_executed hexecutes hpad, traceBlock_executed hexecutes hstep,
        settle_pad hnext]
      rfl

-- Blocks that a tree does not have do not matter to its run.
theorem traceTree_pad {nodes : List Node}
    (h : ∀ own ∈ blocksOf nodes, own.index < progress.states.length) :
    traceTree executor (progress.pad more) nodes = (traceTree executor progress nodes).pad more := by
  induction nodes using nodesInduction generalizing progress with
  | nil => rfl
  | prose own rest ih =>
      rw [traceTree_prose, traceTree_prose, ih h]
      rfl
  | directive own rest ih => rfl
  | code own rest ih =>
      rw [traceTree_code, traceTree_code, traceBlock_pad (h own (List.mem_cons_self ..))]
      refine pad_andThen fun first _ => ?_
      rw [ih fun other hother => ?_]
      · rfl
      · rw [(grows_block executor (Nat.zero_le _) progress).length]
        exact h other (List.mem_cons_of_mem _ hother)
  | conditional guard source children span rest ihChildren ihRest =>
      have hchildren : ∀ own ∈ blocksOf children, own.index < progress.states.length :=
        fun own hown => h own (List.mem_append_left _ hown)
      rw [traceTree_conditional, traceTree_conditional]
      have hbranch : ∀ included, traceBranch executor (progress.pad more) children included =
          (traceBranch executor progress children included).pad more := by
        intro included
        cases included with
        | false => rfl
        | true => exact ihChildren hchildren
      have hlength : ∀ included,
          (traceBranch executor progress children included).after.states.length =
            progress.states.length := by
        intro included
        cases included with
        | false => rfl
        | true => exact (grows_tree executor (fun own _ => Nat.zero_le _) progress).length
      refine @pad_andThen σ _ _ more (traceDecision progress _) _ fun included _ => ?_
      dsimp only [traceDecision]
      rw [hbranch]
      refine pad_andThen fun executed _ => ?_
      rw [ihRest fun own hown => hlength included ▸ h own (List.mem_append_right _ hown)]
      rfl

end Pad

end LiveDoc
