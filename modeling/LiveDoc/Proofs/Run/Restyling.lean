import LiveDoc.Proofs.Document.Classification
import LiveDoc.Proofs.Run.Trace

namespace LiveDoc

variable {σ : Type}

-- Blocks that differ at most in their tags, and in what the tags mean.
def CodeBlock.Retagged (own other : CodeBlock) : Prop :=
  other = { own with tags := other.tags, modifiers := other.modifiers }

-- A block is one that runs when it is classified.
def CodeBlock.RunsAs (registry : Registry) (language : String) (block : CodeBlock) : Prop :=
  ∃ own, classifyBlock registry language 0 block = .ok own ∧ own.modifiers.executes = true

-- The tags of a block may differ only if it runs with both, so that they are about its display.
def CodeBlock.RestyledFor (registry : Registry) (language : String) (own other : CodeBlock) :
    Prop :=
  own = other ∨
    own.Retagged other ∧ own.RunsAs registry language ∧ other.RunsAs registry language

-- The same of blocks that are classified.
def CodeBlock.Restyled (own other : CodeBlock) : Prop :=
  own = other ∨
    own.Retagged other ∧ own.modifiers.executes = true ∧ other.modifiers.executes = true

section Classification

variable {registry : Registry} {language : String}

theorem executes_of_runsAs {index : Nat} {block own : CodeBlock}
    (h : block.RunsAs registry language)
    (hown : classifyBlock registry language index block = .ok own) :
    own.modifiers.executes = true := by
  obtain ⟨first, hfirst, hexecutes⟩ := h
  cases hown.symm.trans ((classifyBlock_eq_ok hfirst).2 index)
  exact hexecutes

theorem restyled_of_classifyBlock {index : Nat} {block other own own' : CodeBlock}
    (h : block.RestyledFor registry language other)
    (hown : classifyBlock registry language index block = .ok own)
    (hown' : classifyBlock registry language index other = .ok own') : own.Restyled own' := by
  rcases h with rfl | ⟨htags, hruns, hruns'⟩
  · exact .inl (Except.ok.inj (hown.symm.trans hown'))
  · refine .inr ⟨?_, executes_of_runsAs hruns hown, executes_of_runsAs hruns' hown'⟩
    rw [CodeBlock.Retagged, (classifyBlock_eq_ok hown).1, (classifyBlock_eq_ok hown').1, htags]

-- Trees that differ so are numbered alike.
theorem restyled_of_classifyNodes {nodes others own own' : List Node} {next last last' : Nat}
    (h : SameBut (CodeBlock.RestyledFor registry language) nodes others)
    (hown : classifyNodes registry language next nodes = .ok (own, last))
    (hown' : classifyNodes registry language next others = .ok (own', last')) :
    SameBut CodeBlock.Restyled own own' ∧ last = last' := by
  induction h generalizing own own' next last last' with
  | nil =>
      obtain ⟨rfl, rfl⟩ := classifyNodes_nil_eq_ok hown
      obtain ⟨rfl, rfl⟩ := classifyNodes_nil_eq_ok hown'
      exact ⟨.nil, rfl⟩
  | prose piece _ ih =>
      obtain ⟨rest, hrest, rfl⟩ := classifyNodes_prose_eq_ok hown
      obtain ⟨rest', hrest', rfl⟩ := classifyNodes_prose_eq_ok hown'
      obtain ⟨hsame, hlast⟩ := ih hrest hrest'
      exact ⟨.prose piece hsame, hlast⟩
  | directive _ _ _ => exact (classifyNodes_directive_ne_ok hown).elim
  | code hblock _ ih =>
      obtain ⟨first, rest, hfirst, hrest, rfl⟩ := classifyNodes_code_eq_ok hown
      obtain ⟨first', rest', hfirst', hrest', rfl⟩ := classifyNodes_code_eq_ok hown'
      obtain ⟨hsame, hlast⟩ := ih hrest hrest'
      exact ⟨.code (restyled_of_classifyBlock hblock hfirst hfirst') hsame, hlast⟩
  | conditional guard source span _ _ ihChildren ihRest =>
      obtain ⟨branch, middle, rest, hbranch, hrest, rfl⟩ := classifyNodes_conditional_eq_ok hown
      obtain ⟨branch', middle', rest', hbranch', hrest', rfl⟩ :=
        classifyNodes_conditional_eq_ok hown'
      obtain ⟨hchildren, rfl⟩ := ihChildren hbranch hbranch'
      obtain ⟨hsame, hlast⟩ := ihRest hrest hrest'
      exact ⟨.conditional guard source span hchildren hsame, hlast⟩

end Classification

-- What a node comes to in two runs: the same, or a block that was executed with the same result
-- and may be shown in another way.
inductive Reshown : Executed → Executed → Prop
  | same (node : Executed) : Reshown node node
  | block {own other : CodeBlock} (result : BlockResult) :
      own.Retagged other → own.modifiers.executes = true → other.modifiers.executes = true →
      Reshown (.block own (some result)) (.block other (some result))

inductive ReshownTree : List Executed → List Executed → Prop
  | nil : ReshownTree [] []
  | cons {first other : Executed} {rest others : List Executed} :
      Reshown first other → ReshownTree rest others →
      ReshownTree (first :: rest) (other :: others)
  | conditional {children branch rest others : List Executed} (guard : String)
      (included : Bool) :
      ReshownTree children branch → ReshownTree rest others →
      ReshownTree (.conditional guard included children :: rest)
        (.conditional guard included branch :: others)

-- The same error, or results that are related.
inductive SameOutcome {α β : Type} (R : α → β → Prop) : Except RunError α → Except RunError β → Prop
  | error (error : RunError) : SameOutcome R (.error error) (.error error)
  | ok {a : α} {b : β} : R a b → SameOutcome R (.ok a) (.ok b)

-- Two runs that do the same and leave the same progress.
structure Trace.Agrees {α β : Type} (R : α → β → Prop) (own : Trace σ α) (other : Trace σ β) :
    Prop where
  events : own.events = other.events
  after : own.after = other.after
  outcome : SameOutcome R own.result other.result

section Agreement

variable {α β γ δ : Type} {R : α → β → Prop} {S : γ → δ → Prop}

theorem Trace.Agrees.andThen {own : Trace σ α} {other : Trace σ β}
    {next : α → Progress σ → Trace σ γ} {more : β → Progress σ → Trace σ δ}
    (h : own.Agrees R other)
    (hnext : ∀ a b progress, R a b → (next a progress).Agrees S (more b progress)) :
    (own.andThen next).Agrees S (other.andThen more) := by
  obtain ⟨events, result, after⟩ := own
  obtain ⟨events', result', after'⟩ := other
  obtain ⟨rfl, rfl, houtcome⟩ := h
  cases houtcome with
  | error error => exact ⟨rfl, rfl, .error error⟩
  | ok hab =>
      obtain ⟨hevents, hafter, hlast⟩ := hnext _ _ after hab
      exact ⟨congrArg (events ++ ·) hevents, hafter, hlast⟩

theorem Trace.Agrees.map {own : Trace σ α} {other : Trace σ β} {f : α → γ} {g : β → δ}
    (h : own.Agrees R other) (hfg : ∀ a b, R a b → S (f a) (g b)) :
    (own.map f).Agrees S (other.map g) := by
  rw [Trace.map_eq_andThen, Trace.map_eq_andThen]
  exact h.andThen fun a b progress hab => ⟨rfl, rfl, .ok (hfg a b hab)⟩

theorem agrees_refl {R : α → α → Prop} (hrefl : ∀ a, R a a) (trace : Trace σ α) :
    trace.Agrees R trace := by
  refine ⟨rfl, rfl, ?_⟩
  cases trace.result with
  | error error => exact .error error
  | ok a => exact .ok (hrefl a)

variable (executor : Executor σ)

-- The step: the modifiers of a block that runs are passed on, and nothing else depends on them.
theorem agrees_block (progress : Progress σ) {own other : CodeBlock} (h : own.Restyled other) :
    (traceBlock executor progress own).Agrees Reshown (traceBlock executor progress other) := by
  rcases h with rfl | ⟨htags, hruns, hruns'⟩
  · exact agrees_refl .same _
  · obtain ⟨execution, next, hstep⟩ : ∃ execution next,
        progress.execute executor own = (execution, next) := ⟨_, _, rfl⟩
    have hstep' : progress.execute executor other = (execution, next) := by
      rw [htags]
      exact hstep
    have hcall : progress.call other execution next = progress.call own execution next := by
      rw [htags]
      rfl
    have hindex : other.index = own.index := by rw [htags]
    have hspan : other.span = own.span := by rw [htags]
    rw [traceBlock_executed hruns hstep, traceBlock_executed hruns' hstep', hcall]
    cases hfailure : execution.failure with
    | some failure =>
        rw [settle_of_failure hfailure, settle_of_failure hfailure, hindex, hspan]
        exact ⟨rfl, rfl, .error _⟩
    | none =>
        rw [settle_of_success hfailure, settle_of_success hfailure, hindex]
        exact ⟨rfl, rfl, .ok (.block _ htags hruns hruns')⟩

-- The run: what it does in the one tree it does in the other.
theorem agrees_tree {nodes others : List Node} (h : SameBut CodeBlock.Restyled nodes others)
    (progress : Progress σ) :
    (traceTree executor progress nodes).Agrees ReshownTree
      (traceTree executor progress others) := by
  induction h generalizing progress with
  | nil => exact ⟨rfl, rfl, .ok .nil⟩
  | prose own _ ih =>
      rw [traceTree_prose, traceTree_prose]
      exact (ih progress).map fun _ _ hrest => .cons (.same _) hrest
  | directive own _ _ => exact ⟨rfl, rfl, .error _⟩
  | code hblock _ ih =>
      rw [traceTree_code, traceTree_code]
      exact (agrees_block executor progress hblock).andThen fun _ _ progress hfirst =>
        (ih progress).map fun _ _ hrest => .cons hfirst hrest
  | @conditional children branch _ _ guard source span _ _ ihChildren ihRest =>
      rw [traceTree_conditional, traceTree_conditional]
      refine (agrees_refl (fun _ => rfl) _).andThen fun included _ progress hincluded => ?_
      subst hincluded
      have hbranch : (traceBranch executor progress children included).Agrees ReshownTree
          (traceBranch executor progress branch included) := by
        cases included with
        | false => exact ⟨rfl, rfl, .ok .nil⟩
        | true => exact ihChildren progress
      exact hbranch.andThen fun _ _ progress hchildren =>
        (ihRest progress).map fun _ _ hrest => .conditional source included hchildren hrest

end Agreement

mutual

-- The prose and the blocks that come out of a run, in order.
def Executed.shown : Executed → List Executed
  | .prose text => [.prose text]
  | .block block result => [.block block result]
  | .conditional _ included children => if included then shownOf children else []

def shownOf : List Executed → List Executed
  | [] => []
  | node :: rest => node.shown ++ shownOf rest

end

section Shown

mutual

theorem assembleNode_eq (layout : Layout) (node : Executed) :
    assembleNode layout node = String.join (node.shown.map (assembleNode layout)) := by
  match node with
  | .prose text => simp [Executed.shown, String.join_cons]
  | .block block result => simp [Executed.shown, String.join_cons]
  | .conditional guard included children =>
      cases included with
      | false => simp [Executed.shown, assembleNode]
      | true => simp [Executed.shown, assembleNode, assemble_eq layout children]

theorem assemble_eq (layout : Layout) (nodes : List Executed) :
    assemble layout nodes = String.join ((shownOf nodes).map (assembleNode layout)) := by
  match nodes with
  | [] => simp [assemble, shownOf]
  | node :: rest =>
      rw [assemble, assembleNode_eq layout node, assemble_eq layout rest, shownOf, List.map_append,
        String.join_append]

end

theorem forall₂_shown {first other : Executed} (h : Reshown first other) :
    List.Forall₂ Reshown first.shown other.shown := by
  cases h with
  | same => exact List.forall₂_same.mpr fun node _ => .same node
  | block result htags hruns hruns' => exact .cons (.block result htags hruns hruns') .nil

theorem ReshownTree.forall₂_shown {nodes others : List Executed} (h : ReshownTree nodes others) :
    List.Forall₂ Reshown (shownOf nodes) (shownOf others) := by
  induction h with
  | nil => exact .nil
  | cons hfirst _ ih => exact List.rel_append (LiveDoc.forall₂_shown hfirst) ih
  | conditional guard included _ _ ihChildren ihRest =>
      cases included with
      | false => exact ihRest
      | true => exact List.rel_append ihChildren ihRest

end Shown

-- Two documents that differ only in how blocks that run are to be shown: every executor is called
-- alike and leaves the same progress, the outcome is the same, and the documents that come out are
-- put together from the same parts, up to the renderings of those blocks.
theorem run_of_restyled (executor : Executor σ) {registry : Registry} {language : String}
    {document other : Document} {own own' : Classified}
    (hsame : SameBut (CodeBlock.RestyledFor registry language) document.nodes other.nodes)
    (hown : classify registry language document = .ok own)
    (hown' : classify registry language other = .ok own') (start : Progress σ) :
    ∃ result result' after log,
      (runDocument executor own).run start = (result, after) ∧
      (runDocument executor own').run start = (result', after) ∧
      (runDocument executor.logged own).run (start.withLog []) = (result, after.withLog log) ∧
      (runDocument executor.logged own').run (start.withLog []) = (result', after.withLog log) ∧
      (traceDocument executor own start).events = (traceDocument executor own' start).events ∧
      SameOutcome ReshownTree result result' ∧
      ∀ executed executed', result = .ok executed → result' = .ok executed' →
        List.Forall₂ Reshown (shownOf executed) (shownOf executed') ∧
        ∀ layout,
          assemble layout executed =
            String.join ((shownOf executed).map (assembleNode layout)) ∧
          assemble layout executed' =
            String.join ((shownOf executed').map (assembleNode layout)) := by
  obtain ⟨nodes, last, hnodes, rfl⟩ := classify_eq_ok hown
  obtain ⟨nodes', last', hnodes', rfl⟩ := classify_eq_ok hown'
  obtain ⟨htree, -⟩ := restyled_of_classifyNodes hsame hnodes hnodes'
  have hpending : start.pending ⟨⟨document.source, nodes⟩, language⟩ =
      start.pending ⟨⟨other.source, nodes'⟩, language⟩ := by
    rw [Progress.pending, Progress.pending, Classified.blockCount, Classified.blockCount,
      Document.blocks, Document.blocks, htree.length_blocks]
  have hagrees : (traceDocument executor ⟨⟨document.source, nodes⟩, language⟩ start).Agrees
      ReshownTree (traceDocument executor ⟨⟨other.source, nodes'⟩, language⟩ start) := by
    unfold traceDocument
    split
    · rw [← hpending]
      exact agrees_tree executor htree _
    · exact ⟨rfl, rfl, .error _⟩
  have htells := tells_document executor ⟨⟨document.source, nodes⟩, language⟩ start
  have htells' := tells_document executor ⟨⟨other.source, nodes'⟩, language⟩ start
  have hlogged' := htells'.logged []
  refine ⟨_, _, _, _, htells.plain, ?_, htells.logged [], ?_, hagrees.events, hagrees.outcome, ?_⟩
  · rw [htells'.plain, hagrees.after]
  · rw [hlogged', hagrees.after, hagrees.events]
  · intro executed executed' hexecuted hexecuted'
    have houtcome := hagrees.outcome
    rw [hexecuted, hexecuted'] at houtcome
    cases houtcome with
    | ok htree => exact ⟨htree.forall₂_shown, fun layout => ⟨assemble_eq layout _, assemble_eq layout _⟩⟩

-- A block that binds what a condition reads, shown and not shown.
def styled (tags : List Modifier) : Document := ⟨0,
  [.code (plainBlock 0 tags "go"),
    .conditional boundGuard "x" [.prose ⟨"so\n", ⟨0, ⟨0, 0⟩, 1⟩⟩] ⟨0, ⟨0, 0⟩, 1⟩,
    .code (plainBlock 1 [.noExec] "stop")]⟩

def styledExecuted (tags : List Modifier) : List Executed :=
  [.block (plainBlock 0 tags "go") (some ⟨"", []⟩), .conditional "x" true [.prose "so\n"],
    .block (plainBlock 1 [.noExec] "stop") none]

theorem run_of_restyled_styled :
    SameBut (CodeBlock.RestyledFor .standard "calc") (styled []).nodes (styled [.silent]).nodes ∧
    classify .standard "calc" (styled []) = .ok ⟨styled [], "calc"⟩ ∧
    classify .standard "calc" (styled [.silent]) = .ok ⟨styled [.silent], "calc"⟩ ∧
    ∃ after,
      (runDocument stopper ⟨styled [], "calc"⟩).run (.start () "block") =
        (.ok (styledExecuted []), after) ∧
      (runDocument stopper ⟨styled [.silent], "calc"⟩).run (.start () "block") =
        (.ok (styledExecuted [.silent]), after) ∧
      List.Forall₂ Reshown (shownOf (styledExecuted [])) (shownOf (styledExecuted [.silent])) ∧
      assemble ⟨"artifacts", "text"⟩ (styledExecuted []) =
        "```calc\ngo\n```\nso\n```calc\nstop\n```\n" ∧
      assemble ⟨"artifacts", "text"⟩ (styledExecuted [.silent]) =
        "so\n```calc\nstop\n```\n" := by
  have hsame : SameBut (CodeBlock.RestyledFor .standard "calc") (styled []).nodes
      (styled [.silent]).nodes :=
    .code (.inr ⟨rfl, ⟨plainBlock 0 [] "go", by cbv, rfl⟩,
        ⟨plainBlock 0 [.silent] "go", by cbv, rfl⟩⟩)
      (.conditional _ _ _ (.prose _ .nil) (.code (.inl rfl) .nil))
  have hown : classify .standard "calc" (styled []) = .ok ⟨styled [], "calc"⟩ := by cbv
  have hown' : classify .standard "calc" (styled [.silent]) = .ok ⟨styled [.silent], "calc"⟩ := by
    cbv
  obtain ⟨result, result', after, log, hrun, hrun', -, -, -, -, hshown⟩ :=
    run_of_restyled stopper hsame hown hown' (.start () "block")
  have hresult : result = .ok (styledExecuted []) :=
    (congrArg Prod.fst hrun).symm.trans rfl
  have hresult' : result' = .ok (styledExecuted [.silent]) :=
    (congrArg Prod.fst hrun').symm.trans rfl
  obtain ⟨hforall, -⟩ := hshown _ _ hresult hresult'
  rw [hresult] at hrun
  rw [hresult'] at hrun'
  exact ⟨hsame, hown, hown', after, hrun, hrun', hforall, by cbv, by cbv⟩

end LiveDoc
