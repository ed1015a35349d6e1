import LiveDoc.Proofs.Calc.Extensions
import LiveDoc.Proofs.Run.Settling
import Mathlib

namespace LiveDoc

variable {σ : Type}

-- The files that the calls for a block have declared.
def payloadsAt (log : List Call) (index : Nat) : List Calc.Payload :=
  (log.filter fun call => call.index = index).flatMap (·.execution.captured.artifacts)

-- What a run that has started with an empty store leaves in it.
structure Bookkeeping (stem : String) (nodes : List Node) (log : List Call)
    (states : List BlockState) (result : Except RunError (List Executed))
    (artifacts : List Artifact) : Prop where
  -- A block that has succeeded has had one call, for its own code.
  called : ∀ own ∈ blocksOf nodes, states[own.index]? = some .succeeded →
    ∃ call, log.filter (fun call => call.index = own.index) = [call] ∧
      call.code = own.content ∧ call.execution.failure = none
  distinct : (artifacts.map Artifact.name).Nodup
  listed : artifacts = (blocksOf nodes).flatMap fun own =>
    if states[own.index]? = some .succeeded then listing stem own.index (payloadsAt log own.index)
    else []
  -- So nothing that a failing block has declared is in the store.
  owned : ∀ artifact ∈ artifacts, states[artifact.block]? = some .succeeded
  printed : ∀ executed, result = .ok executed →
    (resultsOf executed).flatMap (fun entry => entry.2.artifacts) = artifacts.map Artifact.name

section Log

variable {blocks : List CodeBlock} {log : List Call}

theorem nodup_index_of_sublist
    (hcalls : (log.map Call.key).Sublist (blocks.map fun own => (own.index, own.content)))
    (hdistinct : (blocks.map CodeBlock.index).Nodup) : (log.map Call.index).Nodup := by
  have hindices := hcalls.map Prod.fst
  simp only [List.map_map] at hindices
  exact hindices.nodup hdistinct

theorem filter_index_eq {call : Call} (hdistinct : (log.map Call.index).Nodup)
    (hcall : call ∈ log) : log.filter (fun other => other.index = call.index) = [call] := by
  obtain ⟨front, back, rfl⟩ := List.append_of_mem hcall
  rw [List.map_append, List.map_cons] at hdistinct
  obtain ⟨-, hback, hfront⟩ := List.nodup_append.mp hdistinct
  have hbefore : ∀ other ∈ front, other.index ≠ call.index := fun other hother =>
    hfront _ (List.mem_map_of_mem hother) _ (List.mem_cons_self ..)
  have hbehind : ∀ other ∈ back, other.index ≠ call.index := fun other hother hsame =>
    (List.nodup_cons.mp hback).1 (hsame ▸ List.mem_map_of_mem hother)
  rw [List.filter_append, List.filter_cons_of_pos (by simp),
    List.filter_eq_nil_iff.mpr (by simpa using hbefore),
    List.filter_eq_nil_iff.mpr (by simpa using hbehind), List.nil_append]

-- A log that keeps the order of some blocks comes apart into what belongs to each of them.
theorem flatMap_eq_blocks {α : Type} (f : Call → List α)
    (hcalls : (log.map Call.key).Sublist (blocks.map fun own => (own.index, own.content)))
    (hdistinct : (blocks.map CodeBlock.index).Nodup) :
    log.flatMap f = blocks.flatMap fun own =>
      (log.filter fun call => call.index = own.index).flatMap f := by
  induction blocks generalizing log with
  | nil =>
      have hlog : log = [] := List.map_eq_nil_iff.mp (List.sublist_nil.mp hcalls)
      rw [hlog]
      rfl
  | cons own rest ih =>
      obtain ⟨hown, hrest⟩ := List.nodup_cons.mp hdistinct
      -- The calls for the blocks behind are not calls for this one.
      have hfree : ∀ {calls : List Call}, (calls.map Call.key).Sublist
          (rest.map fun own => (own.index, own.content)) →
            calls.filter (fun call => call.index = own.index) = [] := by
        intro calls hcalls
        refine List.filter_eq_nil_iff.mpr fun call hcall => ?_
        obtain ⟨other, hother, hkey⟩ := List.mem_map.mp (hcalls.subset (List.mem_map_of_mem hcall))
        have hindex : other.index = call.index := congrArg Prod.fst hkey
        rw [decide_eq_true_iff]
        rintro hsame
        exact hown (hsame ▸ hindex ▸ List.mem_map_of_mem hother)
      rw [List.flatMap_cons]
      rcases List.sublist_cons_iff.mp hcalls with hcalls | ⟨keys, hkeys, hcalls⟩
      · rw [hfree hcalls, List.flatMap_nil, List.nil_append]
        exact ih hcalls hrest
      · obtain ⟨call, later, rfl, hkey, rfl⟩ := List.map_eq_cons_iff.mp hkeys
        have hindex : call.index = own.index := congrArg Prod.fst hkey
        have hothers : ∀ other ∈ rest, (call :: later).filter (fun call => call.index = other.index) =
            later.filter fun call => call.index = other.index := by
          intro other hother
          refine List.filter_cons_of_neg ?_
          rw [decide_eq_true_iff, hindex]
          intro hsame
          exact hown (hsame ▸ List.mem_map_of_mem hother)
        rw [List.filter_cons_of_pos (by simpa using hindex), hfree hcalls, List.flatMap_cons,
          ih hcalls hrest, List.flatMap_singleton]
        congr 1
        exact List.flatMap_congr fun other hother => by rw [hothers other hother]

-- The names that two calls have given differ, since the calls are for different blocks.
theorem nodup_names (stem : String) (hdistinct : (log.map Call.index).Nodup) :
    ((log.flatMap (Call.artifacts stem)).map Artifact.name).Nodup := by
  have hmem : ∀ {call : Call} {artifact : Artifact}, artifact ∈ call.artifacts stem →
      artifact ∈ listing stem call.index call.execution.captured.artifacts := by
    intro call artifact hartifact
    cases hfailure : call.execution.failure with
    | some failure =>
        rw [artifacts_of_failure hfailure] at hartifact
        cases hartifact
    | none => rwa [artifacts_of_success hfailure] at hartifact
  rw [List.map_flatMap]
  refine List.pairwise_flatMap.mpr ⟨fun call _ => ?_, ?_⟩
  · cases hfailure : call.execution.failure with
    | some failure =>
        rw [artifacts_of_failure hfailure]
        exact .nil
    | none =>
        rw [artifacts_of_success hfailure]
        exact nodup_listing stem _ _
  · refine (List.pairwise_map.mp hdistinct).imp fun hne name hname other hother hsame => hne ?_
    obtain ⟨artifact, hartifact, rfl⟩ := List.mem_map.mp hname
    obtain ⟨second, hsecond, rfl⟩ := List.mem_map.mp hother
    obtain ⟨_, _, _, hfirst⟩ := name_of_mem_listing (hmem hartifact)
    obtain ⟨_, _, _, hlast⟩ := name_of_mem_listing (hmem hsecond)
    rw [hfirst, hlast] at hsame
    exact (nameOf_inj hsame).1

theorem flatMap_names {stem : String} {results : List (CodeBlock × BlockResult)}
    (h : List.Forall₂ (Call.Gives stem) log results) :
    results.flatMap (fun entry => entry.2.artifacts) =
      (log.flatMap (Call.artifacts stem)).map Artifact.name := by
  induction h with
  | nil => rfl
  | cons hgives _ ih => rw [List.flatMap_cons, List.flatMap_cons, List.map_append, hgives.names, ih]

end Log

section Settled

variable {blocks : List CodeBlock} {progress after : Progress σ} {events : List Event}
  (h : Settles blocks progress events after) (hdistinct : (blocks.map CodeBlock.index).Nodup)
  (hpending : ∀ own ∈ blocks, progress.states[own.index]? = some .pending)

include h hdistinct hpending

theorem Settles.called {own : CodeBlock} (hown : own ∈ blocks)
    (hstate : after.states[own.index]? = some .succeeded) :
    ∃ call, (callsOf events).filter (fun call => call.index = own.index) = [call] ∧
      call.code = own.content ∧ call.execution.failure = none := by
  obtain ⟨call, hcall, hindex, hnone⟩ := (h.succeeded own hown (hpending own hown)).mp hstate
  obtain ⟨other, hother, hkey⟩ := List.mem_map.mp (h.calls.subset (List.mem_map_of_mem hcall))
  have hsame : other = own :=
    List.inj_on_of_nodup_map hdistinct hother hown ((congrArg Prod.fst hkey).trans hindex)
  refine ⟨call, ?_, (congrArg Prod.snd hkey).symm.trans (by rw [hsame]), hnone⟩
  rw [← hindex]
  exact filter_index_eq (nodup_index_of_sublist h.calls hdistinct) hcall

theorem Settles.listed (stem : String) :
    (callsOf events).flatMap (Call.artifacts stem) = blocks.flatMap fun own =>
      if after.states[own.index]? = some .succeeded then
        listing stem own.index (payloadsAt (callsOf events) own.index)
      else [] := by
  rw [flatMap_eq_blocks _ h.calls hdistinct]
  refine List.flatMap_congr fun own hown => ?_
  by_cases hstate : after.states[own.index]? = some .succeeded
  · obtain ⟨call, hcalls, -, hnone⟩ := h.called hdistinct hpending hown hstate
    have hindex : call.index = own.index := by
      have hmem : call ∈ (callsOf events).filter fun call => call.index = own.index := by
        rw [hcalls]
        exact List.mem_singleton_self _
      simpa using (List.mem_filter.mp hmem).2
    rw [if_pos hstate, payloadsAt, hcalls, List.flatMap_singleton, List.flatMap_singleton,
      artifacts_of_success hnone, hindex]
  · rw [if_neg hstate]
    refine List.flatMap_eq_nil_iff.mpr fun call hcall => ?_
    obtain ⟨hmem, hindex⟩ := List.mem_filter.mp hcall
    cases hfailure : call.execution.failure with
    | some failure => exact artifacts_of_failure hfailure
    | none =>
        have hsucceeded := (h.succeeded own hown (hpending own hown)).mpr
          ⟨call, hmem, by simpa using hindex, hfailure⟩
        exact (hstate hsucceeded).elim

end Settled

section Document

variable (executor : Executor σ) {registry : Registry} {language : String} {document : Document}
  {classified : Classified}

theorem pending_of_classify (hclassify : classify registry language document = .ok classified)
    (start : Progress σ) : ∀ own ∈ blocksOf classified.document.nodes,
      (start.pending classified).states[own.index]? = some .pending := by
  intro own hown
  have hindex : own.index ∈ List.range' 0 classified.blockCount := by
    rw [← indices_of_classify hclassify]
    exact List.mem_map_of_mem hown
  have hlt : own.index < classified.blockCount := by simpa using hindex
  exact List.getElem?_replicate_of_lt hlt

theorem artifacts_traceDocument (classified : Classified) (host : σ) (stem : String) :
    (traceDocument executor classified (.start host stem)).after.store.artifacts =
      (callsOf (traceDocument executor classified (.start host stem)).events).flatMap
        (Call.artifacts stem) := by
  by_cases hlanguage : classified.language = executor.language
  · rw [traceDocument_of_language hlanguage, store_tree]
    exact List.nil_append _
  · rw [traceDocument, if_neg hlanguage]
    rfl

theorem bookkeeping_of_trace
    (hclassify : classify registry language document = .ok classified) (host : σ) (stem : String) :
    Bookkeeping stem classified.document.nodes
      (callsOf (traceDocument executor classified (.start host stem)).events)
      (traceDocument executor classified (.start host stem)).after.states
      (traceDocument executor classified (.start host stem)).result
      (traceDocument executor classified (.start host stem)).after.store.artifacts := by
  have hartifacts := artifacts_traceDocument executor classified host stem
  by_cases hlanguage : classified.language = executor.language
  · rw [traceDocument_of_language hlanguage] at hartifacts ⊢
    have hdistinct : ((blocksOf classified.document.nodes).map CodeBlock.index).Nodup := by
      rw [indices_of_classify hclassify]
      exact List.nodup_range'
    have hpending := pending_of_classify hclassify (.start host stem)
    have hsettles := settles_tree executor hdistinct
      ((Progress.start host stem).pending classified)
    have hprinted := fun executed => @results_tree σ executor
      ((Progress.start host stem).pending classified) classified.document.nodes executed
    generalize traceTree executor ((Progress.start host stem).pending classified)
      classified.document.nodes = trace at hartifacts hsettles hprinted ⊢
    have hlisted := hartifacts.trans (hsettles.listed hdistinct hpending stem)
    refine ⟨fun own => hsettles.called hdistinct hpending, ?_, hlisted, fun artifact hmem => ?_,
      fun executed hresult => ?_⟩
    · rw [hartifacts]
      exact nodup_names stem (nodup_index_of_sublist hsettles.calls hdistinct)
    · rw [hlisted] at hmem
      obtain ⟨own, -, hmem⟩ := List.mem_flatMap.mp hmem
      split at hmem
      · rename_i hstate
        rwa [block_of_mem_listing hmem]
      · cases hmem
    · rw [hartifacts]
      exact flatMap_names (hprinted executed hresult)
  · -- The run of another language ends before it has done anything.
    have htrace : traceDocument executor classified (.start host stem) =
        ⟨[], .error (.language classified.language executor.language), .start host stem⟩ :=
      if_neg hlanguage
    rw [htrace]
    exact {
      called := fun _ _ h => nomatch h
      distinct := List.nodup_nil
      listed := (List.flatMap_eq_nil_iff.mpr fun _ _ => if_neg (by simp [Progress.start])).symm
      owned := fun _ h => nomatch h
      printed := fun _ h => nomatch h }

-- What an executor is called with decides what comes of it, up to its own state.
theorem execution_of_call (progress : Progress σ) (nodes : List Node) :
    ∀ call ∈ callsOf (traceTree executor progress nodes).events,
      ∃ host, call.execution = (executor.execute call.code call.given host).1 := by
  refine @keeps_tree σ executor (fun _ events _ => ∀ call ∈ callsOf events,
    ∃ host, call.execution = (executor.execute call.code call.given host).1)
    (fun hfront hback => ?_) (fun _ call hcall => nomatch hcall)
    (fun _ _ _ call hcall => nomatch hcall) nodes (fun own _ p => ?_) progress
  · rw [callsOf_append]
    intro call hcall
    exact (List.mem_append.mp hcall).elim (hfront call) (hback call)
  · cases hexecutes : own.modifiers.executes with
    | false =>
        rw [traceBlock_skipped hexecutes]
        exact fun call hcall => nomatch hcall
    | true =>
        rcases hstep : p.execute executor own with ⟨execution, next⟩
        rw [traceBlock_executed hexecutes hstep]
        intro call hcall
        cases List.mem_singleton.mp hcall
        exact ⟨p.host, (congrArg Prod.fst hstep).symm⟩

-- With an executor whose extensions hold no slash, a name is one component of a path.
theorem steps_name {stem : String} {log : List Call} {artifact : Artifact}
    (hstem : '/' ∉ stem.toList)
    (hlog : ∀ call ∈ log, ∀ payload ∈ call.execution.captured.artifacts,
      '/' ∉ payload.extension.toList)
    (h : artifact ∈ log.flatMap (Call.artifacts stem)) :
    steps artifact.name = [.name artifact.name] := by
  obtain ⟨call, hcall, hartifact⟩ := List.mem_flatMap.mp h
  cases hfailure : call.execution.failure with
  | some failure =>
      rw [artifacts_of_failure hfailure] at hartifact
      cases hartifact
  | none =>
      rw [artifacts_of_success hfailure] at hartifact
      obtain ⟨payload, hpayload, ordinal, hname⟩ := name_of_mem_listing hartifact
      rw [hname]
      exact steps_nameOf hstem (hlog call hcall payload hpayload)

theorem steps_name_of_calc {stem : String} (hstem : '/' ∉ stem.toList) : ∀ artifact ∈
    (traceDocument Executor.calc classified (.start () stem)).after.store.artifacts,
      steps artifact.name = [.name artifact.name] := by
  intro artifact hartifact
  rw [artifacts_traceDocument] at hartifact
  refine steps_name hstem (fun call hcall payload hpayload => ?_) hartifact
  by_cases hlanguage : classified.language = Executor.calc.language
  · rw [traceDocument_of_language hlanguage] at hcall
    obtain ⟨_, hexecution⟩ := execution_of_call Executor.calc _ _ call hcall
    rw [hexecution] at hpayload
    exact Calc.slash_not_mem_extension hpayload
  · rw [traceDocument, if_neg hlanguage] at hcall
    cases hcall

end Document

-- Every run of a classified document from the start, whatever its executor does: with a log of
-- its calls it ends in the same way, and what is in the store is what the succeeded blocks have
-- declared. The calc executor declares only files whose names are no paths.
theorem bookkeeping_of_runDocument {registry : Registry} {language : String}
    {document : Document} {classified : Classified}
    (hclassify : classify registry language document = .ok classified) (stem : String) :
    (∀ {σ : Type} (executor : Executor σ) (host : σ), ∃ result after log,
      (runDocument executor classified).run (.start host stem) = (result, after) ∧
      (runDocument executor.logged classified).run ((Progress.start host stem).withLog []) =
        (result, after.withLog log) ∧
      Bookkeeping stem classified.document.nodes log after.states result after.store.artifacts) ∧
    ('/' ∉ stem.toList →
      ∀ artifact ∈
        ((runDocument Executor.calc classified).run (.start () stem)).2.store.artifacts,
          steps artifact.name = [.name artifact.name]) := by
  refine ⟨fun executor host => ?_, fun hstem => ?_⟩
  · have htells := tells_document executor classified (.start host stem)
    exact ⟨_, _, _, htells.plain, htells.logged [], bookkeeping_of_trace executor hclassify host stem⟩
  · rw [(tells_document Executor.calc classified (.start () stem)).plain]
    exact steps_name_of_calc hstem

-- An executor that declares two files for each block, and fails on one text behind them.
def declarer : Executor Unit where
  language := "calc"
  execute code session host :=
    (⟨⟨"", [⟨"a-1.b", ⟨#[1]⟩⟩, ⟨"svg", ⟨#[2]⟩⟩]⟩,
      if code = "stop" then some ⟨none, .failed code⟩ else none⟩,
      session.bind "x" (.bool true), host)

theorem run_declared :
    ((runDocument declarer ⟨stopped, "calc"⟩).run (.start () "block")).1 =
      .error (.block 3 ⟨0, ⟨0, 0⟩, 1⟩ none "" (.failed "stop")) ∧
    ((runDocument declarer ⟨stopped, "calc"⟩).run (.start () "block")).2.states =
      [.succeeded, .skipped, .pending, .failed, .pending] ∧
    ((runDocument declarer ⟨stopped, "calc"⟩).run (.start () "block")).2.store.artifacts =
      [⟨"block-000-1.a-1.b", 0, ⟨#[1]⟩⟩, ⟨"block-000-2.svg", 0, ⟨#[2]⟩⟩] := by
  refine ⟨?_, ?_, ?_⟩ <;> cbv

-- A block that saves a file.
def savingBlock : CodeBlock :=
  ⟨some "calc", "calc", [], .empty, 0, "```", "save(\"TXT\", true)\n", "", ⟨0, ⟨0, 30⟩, 1⟩⟩

def saving : Document := ⟨0, [.code savingBlock]⟩

def saved : Artifact := ⟨"block-000-1.txt", 0, "true".toUTF8⟩

theorem classify_saving : classify .standard "calc" saving = .ok ⟨saving, "calc"⟩ := by
  cbv

theorem run_saving : (runDocument Executor.calc ⟨saving, "calc"⟩).run (.start () "block") =
    (.ok [.block savingBlock (some ⟨"", ["block-000-1.txt"]⟩)],
      ⟨(), Calc.Session.empty.enter 0, ⟨"block", [saved]⟩, [.succeeded]⟩) := by
  cbv

theorem bookkeeping_declared : classify .standard "calc" stopped = .ok ⟨stopped, "calc"⟩ ∧
    (∃ log, Bookkeeping "block" stopped.nodes log
      [.succeeded, .skipped, .pending, .failed, .pending]
      (.error (.block 3 ⟨0, ⟨0, 0⟩, 1⟩ none "" (.failed "stop")))
      [⟨"block-000-1.a-1.b", 0, ⟨#[1]⟩⟩, ⟨"block-000-2.svg", 0, ⟨#[2]⟩⟩]) ∧
    classify .standard "calc" saving = .ok ⟨saving, "calc"⟩ ∧ '/' ∉ "block".toList ∧
    steps "block-000-1.txt" = [.name "block-000-1.txt"] := by
  obtain ⟨hany, -⟩ := bookkeeping_of_runDocument classify_stopped "block"
  obtain ⟨result, after, log, hrun, -, h⟩ := hany declarer ()
  obtain ⟨hresult, hstates, hartifacts⟩ := run_declared
  rw [hrun] at hresult hstates hartifacts
  obtain ⟨-, hcalc⟩ := bookkeeping_of_runDocument classify_saving "block"
  have hstem : '/' ∉ "block".toList := by decide
  rw [run_saving] at hcalc
  refine ⟨classify_stopped, ⟨log, ?_⟩, classify_saving, hstem,
    hcalc hstem saved (List.mem_singleton_self _)⟩
  rw [← hresult, ← hstates, ← hartifacts]
  exact h

end LiveDoc
