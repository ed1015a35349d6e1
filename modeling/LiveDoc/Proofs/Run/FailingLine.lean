import LiveDoc.Proofs.Calc.Failures
import LiveDoc.Proofs.Include.Origin
import LiveDoc.Proofs.Run.Bookkeeping
import LiveDoc.Proofs.Run.Positions

namespace LiveDoc

open Text Markdown

-- How the code of a block fails from a session on a line of the text that its span names: it fails
-- on the line of its content that is read from that one.
def CodeBlock.FailsAt (block : CodeBlock) (map : SourceMap) (session : Calc.Session) (line : Nat)
    (captured : Calc.Captured) (cause : Calc.ScriptError) : Prop :=
  ∃ source count text own, map.get? block.span.source = some source ∧
    block.Stands source.text.toList ∧
    Calc.FailsOn block.content.toList session count text captured cause ∧
    line = block.span.line + (count + 1) ∧ HasLine source.text.toList line own ∧ Carries own text

-- The line in the text is as far below the fence as the failure is in the code.
theorem CodeBlock.StandsIn.failsAt {block : CodeBlock} {map : SourceMap} (h : block.StandsIn map)
    {session : Calc.Session} {execution : Calc.Execution} {failure : Calc.Failure}
    (hexecution : (Calc.execute block.content session).1 = execution)
    (hfailure : execution.failure = some failure) :
    ∃ line, failure.line.map (block.span.line + ·) = some line ∧
      block.FailsAt map session line execution.captured failure.error := by
  obtain ⟨source, hsource, hstands⟩ := h
  have hrun : Calc.execute block.content session =
      (execution, (Calc.execute block.content session).2) := by rw [← hexecution]
  obtain ⟨count, text, hnumber, hfails⟩ := Calc.failsOn_of_execute hrun hfailure
  obtain ⟨own, hown, hcarries⟩ := hstands.exists_line hfails.hasLine
  exact ⟨block.span.line + (count + 1), by rw [hnumber]; rfl, source, count, text, own, hsource,
    hstands, hfails, rfl, hown, hcarries⟩

theorem mem_visits_of_mem_blocksOf {nodes : List Node} {block : CodeBlock}
    (h : block ∈ blocksOf nodes) : .code block ∈ visits nodes := by
  rw [blocksOf_eq_filterMap] at h
  obtain ⟨visit, hvisit, hblock⟩ := List.mem_filterMap.mp h
  cases visit with
  | code own =>
      cases hblock
      exact hvisit
  | prose _ | directive _ | enter _ _ _ | leave => cases hblock

section Classification

variable {registry : Registry} {language : String} {map next : SourceMap}

theorem standsIn_of_classifyBlock {index : Nat} {block own : CodeBlock}
    (h : classifyBlock registry language index block = .ok own) (hstands : block.StandsIn map) :
    own.StandsIn map := by
  rw [(classifyBlock_eq_ok h).1]
  exact hstands

theorem standsIn_of_classifies {first last : Nat} {vs ws : List Visit}
    (h : Classifies registry language first vs ws last)
    (hvs : ∀ block, .code block ∈ vs → block.StandsIn map) :
    ∀ block, .code block ∈ ws → block.StandsIn map := by
  induction h with
  | nil => exact hvs
  | code hblock _ ih =>
      intro block hmem
      rcases List.mem_cons.mp hmem with hown | hmem
      · cases hown
        exact standsIn_of_classifyBlock hblock (hvs _ (List.mem_cons_self ..))
      · exact ih (fun other hother => hvs other (List.mem_cons_of_mem _ hother)) block hmem
  | prose _ _ ih | enter _ _ _ _ ih | leave _ ih =>
      intro block hmem
      rcases List.mem_cons.mp hmem with hown | hmem
      · cases hown
      · exact ih (fun other hother => hvs other (List.mem_cons_of_mem _ hother)) block hmem

-- All blocks of a checked document stand in the texts it has been read from.
theorem allStand_check {tree : FileTree} {settings : Settings} {root : Root} {directory : String}
    {classified : Classified}
    (h : (check tree settings root directory language).run map = (.ok classified, next)) :
    AllStand classified.document.nodes next ∧
      ∃ document, classify settings.registry language document = .ok classified := by
  obtain ⟨document, middle, hload, h⟩ := Action.run_bind_eq_ok h
  obtain ⟨whole, last, hresolve, h⟩ := Action.run_bind_eq_ok h
  rw [Action.run_liftM] at h
  obtain ⟨hclassify, rfl⟩ := Prod.mk.inj h
  obtain ⟨-, -, count, hvisits⟩ := classifies_of_classify hclassify
  exact ⟨standsIn_of_classifies hvisits (allStand_resolve (allStand_load hload) hresolve),
    whole, hclassify⟩

end Classification

section Ends

variable {α : Type} {start : Calc.Session} {log : List Call} {stations : List Station}
  {states : List BlockState} {result : Except RunError α}

-- A block is called once.
theorem call_eq_of_key (hincreasing : log.Pairwise fun a b => a.index < b.index) {first call : Call}
    (hfirst : first ∈ log) (hcall : call ∈ log) (h : first.key = call.key) : first = call := by
  have hdistinct : (log.map Call.index).Nodup :=
    List.pairwise_map.mpr (hincreasing.imp fun hlt => Nat.ne_of_lt hlt)
  exact List.inj_on_of_nodup_map hdistinct hfirst hcall (congrArg Prod.fst h)

-- A run ends at the call that fails.
theorem Ends.of_failure (h : Ends start log stations (log.map Call.key) states result)
    (hincreasing : log.Pairwise fun a b => a.index < b.index) {call : Call} (hcall : call ∈ log)
    {failure : Calc.Failure} (hfailure : call.execution.failure = some failure) :
    ∃ own ∈ stations.filterMap Station.block?, call.key = (own.index, own.content) ∧
      result = .error (.block own.index own.span (failure.line.map (own.span.line + ·))
        call.execution.captured.output failure.error) := by
  have hpassed {passed : List Station} (h : ∀ station ∈ passed, station.Passed start log) :
      call.key ∉ passed.filterMap (Station.call? start log) := by
    intro hmem
    obtain ⟨station, hstation, hkey⟩ := List.mem_filterMap.mp hmem
    have hpass := h station hstation
    cases station with
    | condition around own => cases hkey
    | block around own =>
        simp only [Station.call?] at hkey
        split at hkey
        · rename_i hlive
          obtain ⟨hhold, hexecutes⟩ := Bool.and_eq_true_iff.mp hlive
          rw [Station.Passed, if_pos hhold] at hpass
          obtain ⟨other, hother, hsame, hnone⟩ := hpass hexecutes
          obtain rfl := call_eq_of_key hincreasing hother hcall
            (hsame.trans (Option.some.inj hkey))
          cases hnone.symm.trans hfailure
        · cases hkey
  have hkey : call.key ∈ log.map Call.key := List.mem_map_of_mem hcall
  generalize log.map Call.key = keys at h hkey
  cases h with
  | all _ hall => exact (hpassed hall hkey).elim
  | condition hall _ _ => exact (hpassed hall hkey).elim
  | @block passed left around own other own hall _ _ hother hsame hfails =>
      rcases List.mem_append.mp hkey with hkey | hkey
      · exact (hpassed hall hkey).elim
      · obtain rfl := call_eq_of_key hincreasing hcall hother (List.mem_singleton.mp hkey)
        cases hfails.symm.trans hfailure
        exact ⟨_, by simp [Station.block?], hsame, rfl⟩

theorem Ends.exists_failure (h : Ends start log stations (log.map Call.key) states result)
    {index : Nat} {span : Span} {line : Option Nat} {output : String} {cause : Calc.ScriptError}
    (herror : result = .error (.block index span line output cause)) :
    ∃ call ∈ log, ∃ failure, call.execution.failure = some failure := by
  generalize log.map Call.key = keys at h
  cases h with
  | all _ _ => cases herror
  | condition _ _ hverdict =>
      cases herror
      exact (evaluateGuard_ne_block hverdict).elim
  | block _ _ _ hcall _ hfailure => exact ⟨_, hcall, _, hfailure⟩

end Ends

-- What the log of a run holds is what the executor makes of the code and the session.
theorem execution_of_log {σ : Type} {executor : Executor σ} {classified : Classified}
    (hlanguage : classified.language = executor.language) {progress after : Progress σ}
    {result : Except RunError (List Executed)} {log : List Call}
    (h : (runDocument executor.logged classified).run (progress.withLog []) =
      (result, after.withLog log)) :
    ∀ call ∈ log, ∃ host, call.execution = (executor.execute call.code call.given host).1 := by
  have hlogged := (tells_document executor classified progress).logged []
  have hlog : log = callsOf (traceDocument executor classified progress).events := by
    have hafter := congrArg Prod.snd (h.symm.trans hlogged)
    exact congrArg (fun own => own.host.2) hafter
  rw [hlog, traceDocument_of_language hlanguage]
  exact execution_of_call executor _ _

-- What a run says of code that fails. The error is that of its block, and names the line of the
-- source on which the failing line of the code is.
structure FailsInPlace (classified : Classified) (map : SourceMap) (log : List Call)
    (result : Except RunError (List Executed)) : Prop where
  line : ∀ call ∈ log, ∀ failure, call.execution.failure = some failure →
    ∃ block ∈ blocksOf classified.document.nodes, ∃ line,
      call.key = (block.index, block.content) ∧
      result = .error (.block block.index block.span (some line) call.execution.captured.output
        failure.error) ∧
      block.FailsAt map call.given line call.execution.captured failure.error
  only : ∀ index span line output cause, result = .error (.block index span line output cause) →
    ∃ call ∈ log, ∃ failure, call.execution.failure = some failure

section Runs

variable {tree : FileTree} {settings : Settings} {root : Root} {directory : String}
  {map next : SourceMap} {classified : Classified}

theorem failsInPlace_of_check
    (hcheck : (check tree settings root directory Executor.calc.language).run map =
      (.ok classified, next)) (progress : Progress Unit) :
    ∃ result after log,
      (runDocument Executor.calc classified).run progress = (result, after) ∧
      (runDocument Executor.calc.logged classified).run (progress.withLog []) =
        (result, after.withLog log) ∧
      FailsInPlace classified next log result := by
  obtain ⟨hstand, document, hclassify⟩ := allStand_check hcheck
  obtain ⟨result, after, log, hrun, hlogged, hlife⟩ :=
    lifecycle_of_runDocument Executor.calc hclassify progress
  refine ⟨result, after, log, hrun, hlogged, fun call hcall failure hfailure => ?_,
    fun _ _ _ _ _ herror => hlife.ends.exists_failure herror⟩
  obtain ⟨block, hblock, hkey, hresult⟩ := hlife.ends.of_failure hlife.increasing hcall hfailure
  rw [blocks_stationsOf] at hblock
  obtain ⟨_, hexecution⟩ := execution_of_log (language_of_classify hclassify) hlogged call hcall
  have hcode : call.code = block.content := congrArg Prod.snd hkey
  rw [hcode] at hexecution
  obtain ⟨line, hline, hfails⟩ :=
    (hstand block (mem_visits_of_mem_blocksOf hblock)).failsAt hexecution.symm hfailure
  exact ⟨block, hblock, line, hkey, hline ▸ hresult, hfails⟩

end Runs

-- The line that the error of a block names, for every document that has been read and checked:
-- wherever the block stands in it, the line holds the code that fails, in the text that the span of
-- the error names. A run reports all failures of code, and nothing else, as errors of blocks.
theorem failing_line_of_run (tree : FileTree) (settings : Settings) (root : Root)
    (directory : String) :
    (∀ map classified next,
      (check tree settings root directory Executor.calc.language).run map =
        (.ok classified, next) →
      ∀ progress, ∃ result after log,
        (runDocument Executor.calc classified).run progress = (result, after) ∧
        (runDocument Executor.calc.logged classified).run (progress.withLog []) =
          (result, after.withLog log) ∧
        FailsInPlace classified next log result) ∧
    ∀ index span line output cause next,
      expand Executor.calc () tree settings root directory =
        (.error (.block index span line output cause), next) →
      ∃ classified, (check tree settings root directory Executor.calc.language).run .empty =
          (.ok classified, next) ∧
        ∃ block ∈ blocksOf classified.document.nodes, ∃ number session captured,
          index = block.index ∧ span = block.span ∧ line = some number ∧
          output = captured.output ∧ block.FailsAt next session number captured cause := by
  refine ⟨fun map classified next hcheck => failsInPlace_of_check hcheck,
    fun index span line output cause next hexpand => ?_⟩
  rcases expand_eq_error hexpand with ⟨failed, -, herror⟩ | ⟨classified, last, hcheck, hfailed⟩
  · cases herror
  · obtain ⟨result, after, log, hrun, -, hplace⟩ :=
      failsInPlace_of_check hcheck (.start () settings.stem)
    cases hfailed.symm.trans hrun
    obtain ⟨call, hcall, failure, hfailure⟩ := hplace.only _ _ _ _ _ rfl
    obtain ⟨block, hblock, number, -, herror, hfails⟩ := hplace.line call hcall failure hfailure
    cases herror
    exact ⟨classified, hcheck, block, hblock, number, _, _, rfl, rfl, rfl, rfl, hfails⟩

-- An included file with a block in a quote. Its code fails below a note and a blank line.
def failingContent : String := "One\n\n> ```calc\n> # total\r\n>\n> x = nope\n> ```\n"

def failingBlock : CodeBlock :=
  ⟨some "calc", "calc", [], .empty, 0, "```", "# total\n\nx = nope\n", "> ", ⟨1, ⟨7, 45⟩, 3⟩⟩

def failingNodes : List Node :=
  [.prose ⟨"One\n\n> ", ⟨1, ⟨0, 7⟩, 1⟩⟩, .code failingBlock]

theorem part_failing : partDocument 1 failingContent "a" askingInclude =
    .ok ⟨1, failingNodes⟩ := by
  have hblocks : Markdown.blocks (slice failingContent.toList 0 45) =
      ([.fenced ⟨7, 44⟩ "calc".toList "# total\n\nx = nope\n".toList], []) := by
    cbv
  have hsegments : segments failingContent.toList ⟨0, 45⟩ =
      [.prose 0 "One\n\n> ".toList,
        .fenced ⟨7, 45⟩ "calc".toList "# total\n\nx = nope\n".toList] := by
    rw [segments, regions, hblocks]
    decide +kernel
  have hcount : byteCount failingContent.toList = 45 := by decide +kernel
  rw [partDocument, askingInclude, partRange?]
  dsimp only
  rw [hcount, parseWindow, hsegments]
  cbv

def failingDocument : Classified := ⟨⟨0, failingNodes ++ [.prose askingNext]⟩, "calc"⟩

theorem check_failing :
    (check (oneFile failingContent) .standard (.text "r" (String.ofList asking)) ""
      Executor.calc.language).run .empty = (.ok failingDocument, askingEnd failingContent) :=
  check_oneFile part_failing rfl (by cbv)

theorem expand_failing :
    expand Executor.calc () (oneFile failingContent) .standard (.text "r" (String.ofList asking))
        "" =
      (.error (.block 0 ⟨1, ⟨7, 45⟩, 3⟩ (some 6) "" (.undefinedVariable "nope")),
        askingEnd failingContent) := by
  rw [expand, expandFrom, check_failing]
  cbv

theorem failing_line_quoted :
    (check (oneFile failingContent) .standard (.text "r" (String.ofList asking)) ""
      Executor.calc.language).run .empty = (.ok failingDocument, askingEnd failingContent) ∧
    (∃ result after log,
      (runDocument Executor.calc failingDocument).run (.start () "block") = (result, after) ∧
      FailsInPlace failingDocument (askingEnd failingContent) log result) ∧
    expand Executor.calc () (oneFile failingContent) .standard (.text "r" (String.ofList asking))
        "" =
      (.error (.block 0 ⟨1, ⟨7, 45⟩, 3⟩ (some 6) "" (.undefinedVariable "nope")),
        askingEnd failingContent) ∧
    ∃ session captured, captured.output = "" ∧
      failingBlock.FailsAt (askingEnd failingContent) session 6 captured
        (.undefinedVariable "nope") := by
  obtain ⟨hruns, hexpand⟩ := failing_line_of_run (oneFile failingContent) .standard
    (.text "r" (String.ofList asking)) ""
  obtain ⟨result, after, log, hrun, -, hplace⟩ :=
    hruns _ _ _ check_failing (.start () "block")
  obtain ⟨classified, hcheck, block, hblock, number, session, captured, -, -, hnumber, houtput,
    hfails⟩ := hexpand _ _ _ _ _ _ expand_failing
  cases hcheck.symm.trans check_failing
  cases hnumber
  cases List.mem_singleton.mp hblock
  exact ⟨check_failing, ⟨result, after, log, hrun, hplace⟩, expand_failing, session, captured,
    houtput.symm, hfails⟩

end LiveDoc
