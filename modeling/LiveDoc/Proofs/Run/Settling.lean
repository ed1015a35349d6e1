import LiveDoc.Proofs.Run.ArtifactNames
import LiveDoc.Proofs.Run.Trace
import Mathlib

namespace LiveDoc

variable {σ : Type}

-- The artifacts of a block that has declared files, in the order of declaration.
def listing (stem : String) (block : Nat) (payloads : List Calc.Payload) : List Artifact :=
  (payloads.zipIdx 1).map fun (payload, ordinal) =>
    ⟨ArtifactStore.nameOf stem block ordinal payload.extension, block, payload.bytes⟩

theorem named_eq (stem : String) (block ordinal : Nat) (payloads : List Calc.Payload) :
    ArtifactStore.named stem block ordinal payloads =
      (payloads.zipIdx ordinal).map fun (payload, ordinal) =>
        ⟨ArtifactStore.nameOf stem block ordinal payload.extension, block, payload.bytes⟩ := by
  induction payloads generalizing ordinal with
  | nil => rfl
  | cons payload rest ih => rw [ArtifactStore.named, List.zipIdx_cons, List.map_cons, ih]

theorem block_of_mem_listing {stem : String} {block : Nat} {payloads : List Calc.Payload}
    {artifact : Artifact} (h : artifact ∈ listing stem block payloads) :
    artifact.block = block := by
  obtain ⟨entry, -, rfl⟩ := List.mem_map.mp h
  rfl

-- A name in a listing is made of the block and of a declared file.
theorem name_of_mem_listing {stem : String} {block : Nat} {payloads : List Calc.Payload}
    {artifact : Artifact} (h : artifact ∈ listing stem block payloads) :
    ∃ payload ∈ payloads, ∃ ordinal,
      artifact.name = ArtifactStore.nameOf stem block ordinal payload.extension := by
  obtain ⟨⟨payload, ordinal⟩, hentry, rfl⟩ := List.mem_map.mp h
  exact ⟨payload, List.fst_mem_of_mem_zipIdx hentry, ordinal, rfl⟩

theorem nodup_listing (stem : String) (block : Nat) (payloads : List Calc.Payload) :
    ((listing stem block payloads).map Artifact.name).Nodup := by
  rw [listing, List.map_map]
  have hordinals : ((payloads.zipIdx 1).map Prod.snd).Nodup := by
    rw [List.zipIdx_map_snd]
    exact List.nodup_range'
  exact List.pairwise_map.mpr ((List.pairwise_map.mp hordinals).imp fun hne hname =>
    hne (nameOf_inj hname).2)

-- What a call puts into the store: nothing, if it fails.
def Call.artifacts (stem : String) (call : Call) : List Artifact :=
  match call.execution.failure with
  | some _ => []
  | none => listing stem call.index call.execution.captured.artifacts

theorem artifacts_of_failure {stem : String} {call : Call} {failure : Calc.Failure}
    (h : call.execution.failure = some failure) : call.artifacts stem = [] := by
  simp only [Call.artifacts, h]

theorem artifacts_of_success {stem : String} {call : Call} (h : call.execution.failure = none) :
    call.artifacts stem = listing stem call.index call.execution.captured.artifacts := by
  simp only [Call.artifacts, h]

-- The store when some calls have been made.
def ArtifactStore.after (store : ArtifactStore) (log : List Call) : ArtifactStore :=
  ⟨store.stem, store.artifacts ++ log.flatMap (Call.artifacts store.stem)⟩

theorem after_nil (store : ArtifactStore) : store.after [] = store := by
  rw [ArtifactStore.after, List.flatMap_nil, List.append_nil]

theorem after_append (store : ArtifactStore) (front back : List Call) :
    store.after (front ++ back) = (store.after front).after back := by
  simp only [ArtifactStore.after, List.flatMap_append, List.append_assoc]

section Store

variable (executor : Executor σ)

theorem store_block (own : CodeBlock) (progress : Progress σ) :
    (traceBlock executor progress own).after.store =
      progress.store.after (callsOf (traceBlock executor progress own).events) := by
  cases hexecutes : own.modifiers.executes with
  | false =>
      rw [traceBlock_skipped hexecutes]
      exact (after_nil _).symm
  | true =>
      rcases hstep : progress.execute executor own with ⟨execution, next⟩
      have hstore : next.store = progress.store := by
        cases hstep
        rfl
      have hcall : progress.store.after (callsOf [.call (progress.call own execution next)]) =
          ⟨progress.store.stem, progress.store.artifacts ++
            (progress.call own execution next).artifacts progress.store.stem⟩ := by
        simp [ArtifactStore.after, callsOf, Event.call?]
      rw [traceBlock_executed hexecutes hstep, hcall]
      cases hfailure : execution.failure with
      | some failure =>
          rw [settle_of_failure hfailure, artifacts_of_failure hfailure, List.append_nil]
          exact hstore
      | none =>
          rw [settle_of_success hfailure, artifacts_of_success hfailure, ← hstore, listing,
            ← named_eq]
          rfl

-- A run adds to the store what its calls put into it.
theorem store_tree (nodes : List Node) (progress : Progress σ) :
    (traceTree executor progress nodes).after.store =
      progress.store.after (callsOf (traceTree executor progress nodes).events) :=
  @keeps_tree σ executor (fun p events q => q.store = p.store.after (callsOf events))
    (fun hfront hback => by rw [hback, hfront, callsOf_append, after_append])
    (fun p => (after_nil p.store).symm) (fun p _ _ => (after_nil p.store).symm) nodes
    (fun own _ p => store_block executor own p) progress

theorem stem_block (own : CodeBlock) (progress : Progress σ) :
    (traceBlock executor progress own).after.store.stem = progress.store.stem := by
  rw [store_block]
  rfl

theorem stem_tree (nodes : List Node) (progress : Progress σ) :
    (traceTree executor progress nodes).after.store.stem = progress.store.stem := by
  rw [store_tree]
  rfl

end Store

-- What the steps of some blocks do: each block is called at most once and in its turn, the states
-- of all others stay, and the blocks that succeed are those whose call has not failed.
structure Settles (blocks : List CodeBlock) (progress : Progress σ) (events : List Event)
    (after : Progress σ) : Prop where
  calls : ((callsOf events).map Call.key).Sublist (blocks.map fun own => (own.index, own.content))
  others : ∀ index, (∀ own ∈ blocks, own.index ≠ index) →
    after.states[index]? = progress.states[index]?
  succeeded : ∀ own ∈ blocks, progress.states[own.index]? = some .pending →
    (after.states[own.index]? = some .succeeded ↔
      ∃ call ∈ callsOf events, call.index = own.index ∧ call.execution.failure = none)

section Settles

variable {blocks more : List CodeBlock} {progress middle after : Progress σ}
  {events later : List Event} {α β : Type}

theorem settles_idle (blocks : List CodeBlock) (progress : Progress σ) :
    Settles blocks progress [] progress where
  calls := List.nil_sublist _
  others _ _ := rfl
  succeeded own _ hpending := by
    constructor
    · intro hstate
      cases hpending.symm.trans hstate
    · rintro ⟨call, hcall, -⟩
      cases hcall

theorem Settles.exists_block (h : Settles blocks progress events after) {call : Call}
    (hcall : call ∈ callsOf events) : ∃ own ∈ blocks, own.index = call.index := by
  obtain ⟨own, hown, hkey⟩ := List.mem_map.mp (h.calls.subset (List.mem_map_of_mem hcall))
  exact ⟨own, hown, congrArg Prod.fst hkey⟩

theorem Settles.append (h : Settles blocks progress events middle)
    (hmore : Settles more middle later after)
    (hapart : ∀ own ∈ blocks, ∀ other ∈ more, own.index ≠ other.index) :
    Settles (blocks ++ more) progress (events ++ later) after where
  calls := by
    rw [callsOf_append, List.map_append, List.map_append]
    exact h.calls.append hmore.calls
  others index hindex := by
    rw [hmore.others index fun own hown => hindex own (List.mem_append_right _ hown),
      h.others index fun own hown => hindex own (List.mem_append_left _ hown)]
  succeeded own hown hpending := by
    simp only [callsOf_append, List.mem_append, or_and_right, exists_or]
    rcases List.mem_append.mp hown with hown | hown
    · have hlater : ¬ ∃ call ∈ callsOf later, call.index = own.index ∧
          call.execution.failure = none := by
        rintro ⟨call, hcall, hindex, -⟩
        obtain ⟨other, hother, hsame⟩ := hmore.exists_block hcall
        exact hapart own hown other hother (hindex.symm.trans hsame.symm)
      rw [hmore.others own.index fun other hother => (hapart own hown other hother).symm,
        h.succeeded own hown hpending, or_iff_left hlater]
    · have hearlier : ¬ ∃ call ∈ callsOf events, call.index = own.index ∧
          call.execution.failure = none := by
        rintro ⟨call, hcall, hindex, -⟩
        obtain ⟨other, hother, hsame⟩ := h.exists_block hcall
        exact hapart other hother own hown (hsame.trans hindex)
      have hmiddle := h.others own.index fun other hother => hapart other hother own hown
      rw [hmore.succeeded own hown (hmiddle.trans hpending), or_iff_right hearlier]

theorem settles_andThen {first : Trace σ α} {next : α → Progress σ → Trace σ β}
    (h : Settles blocks progress first.events first.after)
    (hnext : ∀ a, first.result = .ok a →
      Settles more first.after (next a first.after).events (next a first.after).after)
    (hapart : ∀ own ∈ blocks, ∀ other ∈ more, own.index ≠ other.index) :
    Settles (blocks ++ more) progress (first.andThen next).events (first.andThen next).after := by
  cases hresult : first.result with
  | error error =>
      rw [Trace.andThen_of_error hresult, ← List.append_nil first.events]
      exact h.append (settles_idle more first.after) hapart
  | ok a =>
      rw [Trace.andThen_of_ok hresult]
      exact h.append (hnext a hresult) hapart

variable (executor : Executor σ)

theorem settles_block (own : CodeBlock) (progress : Progress σ) :
    Settles [own] progress (traceBlock executor progress own).events
      (traceBlock executor progress own).after := by
  cases hexecutes : own.modifiers.executes with
  | false =>
      rw [traceBlock_skipped hexecutes]
      refine ⟨List.nil_sublist _, fun index hindex => ?_, fun other hother hpending => ?_⟩
      · exact List.getElem?_set_ne (hindex own (List.mem_singleton_self _))
      · cases List.mem_singleton.mp hother
        have hstate : (progress.mark own.index .skipped).states[own.index]? = some .skipped :=
          List.getElem?_set_self (List.getElem?_eq_some_iff.mp hpending).1
        simp [hstate, callsOf]
  | true =>
      rcases hstep : progress.execute executor own with ⟨execution, next⟩
      have hstates := states_execute hstep
      rw [traceBlock_executed hexecutes hstep]
      have hafter : ∃ state, (next.settle own execution).2.states =
          progress.states.set own.index state ∧
            (state = .succeeded ↔ execution.failure = none) := by
        cases hfailure : execution.failure with
        | some failure =>
            refine ⟨.failed, ?_, by simp⟩
            rw [settle_of_failure hfailure]
            simp only [Progress.mark, hstates, List.set_set]
        | none =>
            refine ⟨.succeeded, ?_, by simp⟩
            rw [settle_of_success hfailure]
            simp only [Progress.mark, hstates, List.set_set]
      obtain ⟨state, hset, hsucceeded⟩ := hafter
      refine ⟨List.Sublist.refl _, fun index hindex => ?_, fun other hother hpending => ?_⟩
      · rw [hset]
        exact List.getElem?_set_ne (hindex own (List.mem_singleton_self _))
      · cases List.mem_singleton.mp hother
        rw [hset, List.getElem?_set_self (List.getElem?_eq_some_iff.mp hpending).1,
          Option.some_inj, hsucceeded]
        constructor
        · intro hnone
          exact ⟨progress.call own execution next, List.mem_singleton_self _, rfl, hnone⟩
        · rintro ⟨call, hcall, -, hnone⟩
          cases List.mem_singleton.mp hcall
          exact hnone

theorem settles_tree {nodes : List Node} (hdistinct : ((blocksOf nodes).map CodeBlock.index).Nodup)
    (progress : Progress σ) :
    Settles (blocksOf nodes) progress (traceTree executor progress nodes).events
      (traceTree executor progress nodes).after := by
  induction nodes using nodesInduction generalizing progress with
  | nil => exact settles_idle [] progress
  | prose own rest ih => exact ih hdistinct progress
  | directive own rest ih => exact settles_idle _ progress
  | code own rest ih =>
      obtain ⟨hown, hrest⟩ := List.nodup_cons.mp hdistinct
      have hapart : ∀ first ∈ [own], ∀ other ∈ blocksOf rest, first.index ≠ other.index := by
        intro first hfirst other hother hsame
        cases List.mem_singleton.mp hfirst
        exact hown (hsame ▸ List.mem_map_of_mem hother)
      rw [traceTree_code]
      exact settles_andThen (settles_block executor own progress) (fun first _ => ih hrest _) hapart
  | conditional guard source children span rest ihChildren ihRest =>
      have hsplit : blocksOf (.conditional guard source children span :: rest) =
          blocksOf children ++ blocksOf rest := rfl
      rw [hsplit, List.map_append] at hdistinct
      obtain ⟨hchildren, hrest, hdisjoint⟩ := List.nodup_append.mp hdistinct
      have hapart : ∀ own ∈ blocksOf children, ∀ other ∈ blocksOf rest, own.index ≠ other.index :=
        fun own hown other hother => hdisjoint _ (List.mem_map_of_mem hown) _
          (List.mem_map_of_mem hother)
      rw [hsplit, traceTree_conditional, ← List.nil_append (blocksOf children), List.append_assoc]
      refine settles_andThen ⟨List.nil_sublist _, fun _ _ => rfl, fun own hown => nomatch hown⟩
        (fun included _ => ?_) fun own hown => nomatch hown
      refine settles_andThen ?_ (fun executed _ => ihRest hrest _) hapart
      cases included with
      | false => exact settles_idle _ _
      | true => exact ihChildren hchildren _

end Settles

mutual

-- The blocks that have run in some executed nodes with what they gave, in document order.
def Executed.results : Executed → List (CodeBlock × BlockResult)
  | .prose _ => []
  | .block block result => result.toList.map fun own => (block, own)
  | .conditional _ _ children => resultsOf children

def resultsOf : List Executed → List (CodeBlock × BlockResult)
  | [] => []
  | node :: rest => node.results ++ resultsOf rest

end

-- A call has given a block its result.
structure Call.Gives (stem : String) (call : Call) (entry : CodeBlock × BlockResult) : Prop where
  key : call.key = (entry.1.index, entry.1.content)
  succeeded : call.execution.failure = none
  output : entry.2.output = call.execution.captured.output
  names : entry.2.artifacts = (call.artifacts stem).map Artifact.name

section Results

variable (executor : Executor σ) {progress : Progress σ}

theorem results_block {own : CodeBlock} {node : Executed}
    (h : (traceBlock executor progress own).result = .ok node) :
    List.Forall₂ (Call.Gives progress.store.stem)
      (callsOf (traceBlock executor progress own).events) node.results := by
  cases hexecutes : own.modifiers.executes with
  | false =>
      rw [traceBlock_skipped hexecutes] at h ⊢
      cases h
      exact .nil
  | true =>
      rcases hstep : progress.execute executor own with ⟨execution, next⟩
      have hstore : next.store = progress.store := by
        cases hstep
        rfl
      rw [traceBlock_executed hexecutes hstep] at h ⊢
      cases hfailure : execution.failure with
      | some failure =>
          rw [settle_of_failure hfailure] at h
          cases h
      | none =>
          rw [settle_of_success hfailure] at h
          cases h
          refine .cons ⟨rfl, hfailure, rfl, ?_⟩ .nil
          rw [artifacts_of_success hfailure, ← hstore, listing, ← named_eq]
          rfl

-- The blocks of a run that gets to its end have run in the order of its calls.
theorem results_tree {nodes : List Node} {executed : List Executed}
    (h : (traceTree executor progress nodes).result = .ok executed) :
    List.Forall₂ (Call.Gives progress.store.stem)
      (callsOf (traceTree executor progress nodes).events) (resultsOf executed) := by
  induction nodes using nodesInduction generalizing progress executed with
  | nil =>
      cases h
      exact .nil
  | prose own rest ih =>
      rw [traceTree_prose] at h ⊢
      obtain ⟨others, hothers, rfl⟩ := Trace.result_map_eq_ok h
      have hrest := ih hothers
      exact hrest
  | directive own rest ih => cases h
  | code own rest ih =>
      rw [traceTree_code] at h ⊢
      obtain ⟨first, hfirst, hnext⟩ := Trace.result_andThen_eq_ok h
      obtain ⟨others, hothers, rfl⟩ := Trace.result_map_eq_ok hnext
      rw [Trace.andThen_of_ok hfirst, callsOf_append]
      exact List.rel_append (results_block executor hfirst)
        (stem_block executor own progress ▸ ih hothers)
  | conditional guard source children span rest ihChildren ihRest =>
      rw [traceTree_conditional] at h ⊢
      obtain ⟨included, hincluded, hbranch⟩ := Trace.result_andThen_eq_ok h
      obtain ⟨branch, hexecuted, hnext⟩ := Trace.result_andThen_eq_ok hbranch
      obtain ⟨others, hothers, rfl⟩ := Trace.result_map_eq_ok hnext
      rw [Trace.andThen_of_ok hincluded, Trace.andThen_of_ok hexecuted, callsOf_append,
        callsOf_append]
      have hchildren : List.Forall₂ (Call.Gives progress.store.stem)
            (callsOf (traceBranch executor progress children included).events)
            (resultsOf branch) ∧
          (traceBranch executor progress children included).after.store.stem =
            progress.store.stem := by
        cases included with
        | false =>
            cases hexecuted
            exact ⟨.nil, rfl⟩
        | true =>
            exact ⟨ihChildren hexecuted, stem_tree executor children progress⟩
      exact List.rel_append hchildren.1 (hchildren.2 ▸ ihRest hothers)

end Results

end LiveDoc
