import LiveDoc.Proofs.Document.Beginning
import LiveDoc.Proofs.Run.Trace

namespace LiveDoc

variable {σ : Type}

-- A place in a tree: what is before it and behind it, at its own level and outside of each
-- condition around it.
inductive Place where
  | here (before after : List Node)
  | inside (before : List Node) (guard : Calc.Guard) (source : String) (span : Span)
      (inner : Place) (after : List Node)

-- The tree with some nodes at the place.
def Place.fill : Place → List Node → List Node
  | .here before after, nodes => before ++ (nodes ++ after)
  | .inside before guard source span inner after, nodes =>
      before ++ .conditional guard source (inner.fill nodes) span :: after

-- The run up to a place, and whether it comes there. It does not where a condition around the
-- place is false.
def traceTo (executor : Executor σ) (progress : Progress σ) : Place → Trace σ Bool
  | .here before _ => (traceTree executor progress before).map fun _ => true
  | .inside before guard source span inner _ =>
      (traceTree executor progress before).andThen fun _ progress =>
        (traceDecision progress ⟨guard, source, span, progress.session⟩).andThen
          fun included progress =>
            if included then traceTo executor progress inner else .stay false progress

-- A run of a document comes to a place with some progress.
structure Reaches (executor : Executor σ) (classified : Classified) (start : Progress σ)
    (place : Place) (reached : Progress σ) : Prop where
  language : classified.language = executor.language
  comes : (traceTo executor (start.pending classified) place).result = .ok true
  after : (traceTo executor (start.pending classified) place).after = reached

theorem length_blocksOf_fill (place : Place) {nodes others : List Node}
    (h : (blocksOf nodes).length = (blocksOf others).length) :
    (blocksOf (place.fill nodes)).length = (blocksOf (place.fill others)).length := by
  induction place with
  | here before after => simp only [Place.fill, blocksOf_append, List.length_append, h]
  | inside before guard source span inner after ih =>
      simp only [Place.fill, blocksOf_append, blocksOf, Node.blocks, List.length_append, ih]

section Fill

variable {executor : Executor σ} {progress : Progress σ}

-- What stands at a place matters only where the run comes there.
theorem traceTree_fill_congr {place : Place} {nodes others : List Node}
    (h : (traceTo executor progress place).result = .ok true →
      traceTree executor (traceTo executor progress place).after nodes =
        traceTree executor (traceTo executor progress place).after others) :
    traceTree executor progress (place.fill nodes) =
      traceTree executor progress (place.fill others) := by
  induction place generalizing progress with
  | here before after =>
      simp only [Place.fill, traceTree_append]
      refine Trace.andThen_congr fun executed hbefore => ?_
      have hsame := h (by simp only [traceTo, Trace.map, hbefore, Except.map])
      rw [show (traceTo executor progress (.here before after)).after =
        (traceTree executor progress before).after from rfl] at hsame
      rw [hsame]
  | inside before guard source span inner after ih =>
      simp only [Place.fill, traceTree_append, traceTree_conditional]
      refine Trace.andThen_congr fun executed hbefore => congrArg _ ?_
      refine Trace.andThen_congr fun included hincluded => ?_
      cases included with
      | false => rfl
      | true =>
          rw [traceTo, Trace.andThen_of_ok hbefore, Trace.andThen_of_ok hincluded, if_pos rfl] at h
          simp only [traceBranch, if_pos, ih h]

theorem traceTree_of_false {guard : Calc.Guard} {source : String} {span : Span}
    (h : evaluateGuard guard source span progress.session = .ok false) (old new : List Node) :
    traceTree executor progress [.conditional guard source old span] =
      traceTree executor progress [.conditional guard source new span] := by
  simp only [traceTree_conditional]
  refine Trace.andThen_congr fun included hincluded => ?_
  cases h.symm.trans hincluded
  rfl

end Fill

section Decided

variable {executor : Executor σ}

theorem decided_andThen {α β : Type} {first : Trace σ α} {next : α → Progress σ → Trace σ β}
    {us vs : List Visit} (hfirst : (first.events.filterMap Event.visit?).Sublist us)
    (hnext : ∀ a, first.result = .ok a →
      ((next a first.after).events.filterMap Event.visit?).Sublist vs) :
    ((first.andThen next).events.filterMap Event.visit?).Sublist (us ++ vs) := by
  cases hresult : first.result with
  | error error =>
      rw [Trace.andThen_of_error hresult]
      exact hfirst.trans (List.sublist_append_left us vs)
  | ok a =>
      rw [Trace.andThen_of_ok hresult, List.filterMap_append]
      exact hfirst.append (hnext a hresult)

theorem decided_block (progress : Progress σ) (own : CodeBlock) :
    (traceBlock executor progress own).events.filterMap Event.visit? = [] := by
  cases hexecutes : own.modifiers.executes with
  | false =>
      rw [traceBlock_skipped hexecutes]
      rfl
  | true =>
      rw [traceBlock_executed hexecutes rfl]
      rfl

-- The conditions that a run decides are conditions of its tree, each once and in document order.
theorem decided_sublist (nodes : List Node) (progress : Progress σ) :
    ((traceTree executor progress nodes).events.filterMap Event.visit?).Sublist (visits nodes) := by
  induction nodes using nodesInduction generalizing progress with
  | nil => exact List.nil_sublist _
  | prose own rest ih => exact (ih progress).trans (List.sublist_cons_self _ _)
  | directive own rest ih => exact List.nil_sublist _
  | code own rest ih =>
      rw [traceTree_code]
      refine decided_andThen ?_ fun first _ => ih _
      rw [decided_block]
      exact List.nil_sublist _
  | conditional guard source children span rest ihChildren ihRest =>
      have hvisits : visits (.conditional guard source children span :: rest) =
          [.enter guard source span] ++ (visits children ++ ([.leave] ++ visits rest)) := by
        simp [visits, Node.visits]
      rw [traceTree_conditional, hvisits]
      refine decided_andThen (List.Sublist.refl _) fun included _ => ?_
      refine decided_andThen ?_ fun executed _ =>
        (ihRest _).trans (List.sublist_append_right _ _)
      cases included with
      | false => exact List.nil_sublist _
      | true => exact ihChildren _

end Decided

-- Two documents that differ only below a condition that is false where it is reached, with as many
-- blocks there: every executor is called alike and leaves the same progress and the same document,
-- and no condition below the false one is decided.
theorem run_eq_of_dead_branch (executor : Executor σ) {own other : Classified} {place : Place}
    {guard : Calc.Guard} {source : String} {span : Span} {old new : List Node}
    (hlanguage : own.language = other.language)
    (hown : own.document.nodes = place.fill [.conditional guard source old span])
    (hother : other.document.nodes = place.fill [.conditional guard source new span])
    (hcount : (blocksOf old).length = (blocksOf new).length) (start : Progress σ)
    (hfalse : ∀ reached, Reaches executor own start place reached →
      evaluateGuard guard source span reached.session = .ok false) :
    (runDocument executor own).run start = (runDocument executor other).run start ∧
      (∀ layout, ((runDocument executor own).run start).1.map (assemble layout) =
        ((runDocument executor other).run start).1.map (assemble layout)) ∧
      (runDocument executor.logged own).run (start.withLog []) =
        (runDocument executor.logged other).run (start.withLog []) ∧
      (traceDocument executor own start).events = (traceDocument executor other start).events ∧
      ((traceDocument executor own start).events.filterMap Event.visit?).Sublist
        (visits (place.fill [.conditional guard source [] span])) := by
  have hpending : start.pending own = start.pending other := by
    have hblocks : own.blockCount = other.blockCount := by
      rw [Classified.blockCount, Classified.blockCount, Document.blocks, Document.blocks, hown,
        hother]
      exact length_blocksOf_fill place (by simpa [blocksOf, Node.blocks] using hcount)
    rw [Progress.pending, Progress.pending, hblocks]
  have hbranch : own.language = executor.language → ∀ branch,
      traceTree executor (start.pending own)
          (place.fill [.conditional guard source old span]) =
        traceTree executor (start.pending own)
          (place.fill [.conditional guard source branch span]) := by
    intro howns branch
    refine traceTree_fill_congr fun hcomes => ?_
    exact traceTree_of_false (hfalse _ ⟨howns, hcomes, rfl⟩) old branch
  have htrace : traceDocument executor own start = traceDocument executor other start := by
    by_cases howns : own.language = executor.language
    · rw [traceDocument_of_language howns, traceDocument_of_language (hlanguage ▸ howns), hown,
        hother, ← hpending, hbranch howns new]
    · rw [traceDocument, traceDocument, if_neg howns, if_neg (hlanguage ▸ howns), hlanguage]
  have hrun : (runDocument executor own).run start = (runDocument executor other).run start := by
    rw [(tells_document executor own start).plain, (tells_document executor other start).plain,
      htrace]
  refine ⟨hrun, fun layout => by rw [hrun], ?_, by rw [htrace], ?_⟩
  · rw [(tells_document executor own start).logged, (tells_document executor other start).logged,
      htrace]
  · by_cases howns : own.language = executor.language
    · rw [traceDocument_of_language howns, hown, hbranch howns []]
      exact decided_sublist _ _
    · rw [traceDocument, if_neg howns]
      exact List.nil_sublist _

-- A branch in a branch that is taken, where a block has bound what its condition reads.
def shadedPlace : Place :=
  .inside [.code (plainBlock 0 [] "go")] boundGuard "x" ⟨0, ⟨0, 0⟩, 1⟩
    (.here [] []) [.code (plainBlock 2 [] "go")]

def shaded (branch : List Node) : Classified :=
  ⟨⟨0, shadedPlace.fill
    [.conditional ⟨.unary .not (.var "x" ⟨1, 2⟩), rfl⟩ "!x" branch ⟨0, ⟨0, 0⟩, 1⟩]⟩, "calc"⟩

-- A block that would fail, below a condition that would.
def failingBranch : List Node :=
  [.conditional ⟨.var "nowhere" ⟨0, 7⟩, rfl⟩ "nowhere" [.code (plainBlock 1 [] "stop")]
    ⟨0, ⟨0, 0⟩, 1⟩]

def quietBranch : List Node := [.code (plainBlock 1 [.noExec] "go")]

theorem run_eq_shaded :
    classify .standard "calc" (shaded failingBranch).document = .ok (shaded failingBranch) ∧
    classify .standard "calc" (shaded quietBranch).document = .ok (shaded quietBranch) ∧
    (∀ reached, Reaches stopper (shaded failingBranch) (.start () "block") shadedPlace reached →
      evaluateGuard ⟨.unary .not (.var "x" ⟨1, 2⟩), rfl⟩ "!x" ⟨0, ⟨0, 0⟩, 1⟩ reached.session =
        .ok false) ∧
    (∃ reached, Reaches stopper (shaded failingBranch) (.start () "block") shadedPlace reached) ∧
    (runDocument stopper (shaded failingBranch)).run (.start () "block") =
      (runDocument stopper (shaded quietBranch)).run (.start () "block") ∧
    ((traceDocument stopper (shaded failingBranch) (.start () "block")).events.filterMap
      Event.visit?).Sublist (visits (shadedPlace.fill
        [.conditional ⟨.unary .not (.var "x" ⟨1, 2⟩), rfl⟩ "!x" [] ⟨0, ⟨0, 0⟩, 1⟩])) := by
  have hfalse : ∀ reached,
      Reaches stopper (shaded failingBranch) (.start () "block") shadedPlace reached →
        evaluateGuard ⟨.unary .not (.var "x" ⟨1, 2⟩), rfl⟩ "!x" ⟨0, ⟨0, 0⟩, 1⟩ reached.session =
          .ok false := by
    rintro reached ⟨-, -, rfl⟩
    rfl
  obtain ⟨hrun, -, -, -, hdecided⟩ := @run_eq_of_dead_branch Unit stopper (shaded failingBranch)
    (shaded quietBranch) shadedPlace _ _ _ failingBranch quietBranch rfl rfl rfl rfl
    (.start () "block") hfalse
  exact ⟨by cbv, by cbv, hfalse, ⟨_, rfl, rfl, rfl⟩, hrun, hdecided⟩

end LiveDoc
