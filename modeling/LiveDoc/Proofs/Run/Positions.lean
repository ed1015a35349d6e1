import LiveDoc.Proofs.Document.Classification
import LiveDoc.Proofs.Include.Boundary
import LiveDoc.Proofs.Include.Positions
import LiveDoc.Proofs.Run.Trace
import LiveDoc.Proofs.Run.Verbatim

namespace LiveDoc

section Classification

variable {registry : Registry} {language : String} {map : SourceMap} {error : DocumentError}

theorem span_of_resolveTags_eq_error {span : Span} {seen : List (String × Modifier)}
    {tags : List String} (h : resolveTags registry span seen tags = .error error) :
    error.span? = some span := by
  induction tags generalizing seen with
  | nil => cases h
  | cons tag rest ih =>
      rw [resolveTags] at h
      split at h
      · cases h
        rfl
      · split at h
        · cases h
          rfl
        · exact ih h

theorem span_of_classifyBlock_eq_error {index : Nat} {block : CodeBlock}
    (h : classifyBlock registry language index block = .error error) :
    error.span? = some block.span := by
  unfold classifyBlock at h
  cases hseen : resolveTags registry block.span [] block.tags with
  | error other =>
      rw [hseen] at h
      cases h
      exact span_of_resolveTags_eq_error hseen
  | ok seen =>
      rw [hseen] at h
      dsimp only [bind, Except.bind] at h
      split at h
      · cases h
      · split at h
        · cases h
          rfl
        · cases h

-- Blocks are refused where they stand.
theorem valid_of_classifyNodes_eq_error {next : Nat} {nodes : List Node}
    (hnodes : ∀ visit ∈ visits nodes, visit.Valid map)
    (h : classifyNodes registry language next nodes = .error error) : error.Valid map := by
  induction nodes using nodesInduction generalizing next with
  | nil => cases h
  | prose own rest ih =>
      obtain ⟨-, hmore⟩ := List.forall_mem_cons.mp hnodes
      rcases eq_error_of_bind h with hfirst | ⟨⟨first, middle⟩, -, h⟩
      · cases hfirst
      · rcases eq_error_of_bind h with hrest | ⟨⟨others, last⟩, -, h⟩
        · exact ih hmore hrest
        · cases h
  | directive own rest ih =>
      obtain ⟨hown, -⟩ := List.forall_mem_cons.mp hnodes
      cases h
      exact .of_span rfl hown
  | code own rest ih =>
      obtain ⟨hown, hmore⟩ := List.forall_mem_cons.mp hnodes
      rcases eq_error_of_bind h with hfirst | ⟨⟨first, middle⟩, -, h⟩
      · rcases eq_error_of_bind hfirst with hblock | ⟨block, -, hfirst⟩
        · exact .of_span (span_of_classifyBlock_eq_error hblock) hown
        · cases hfirst
      · rcases eq_error_of_bind h with hrest | ⟨⟨others, last⟩, -, h⟩
        · exact ih hmore hrest
        · cases h
  | conditional guard source children span rest ihChildren ihRest =>
      obtain ⟨-, ⟨hchildren, -⟩, hmore⟩ := forall_visits_conditional.mp hnodes
      rcases eq_error_of_bind h with hfirst | ⟨⟨first, middle⟩, -, h⟩
      · rcases eq_error_of_bind hfirst with hinner | ⟨⟨inner, last⟩, -, hfirst⟩
        · exact ihChildren hchildren hinner
        · cases hfirst
      · rcases eq_error_of_bind h with hrest | ⟨⟨others, last⟩, -, h⟩
        · exact ihRest hmore hrest
        · cases h

theorem valid_of_classifies {next last : Nat} {vs ws : List Visit}
    (h : Classifies registry language next vs ws last) (hvs : ∀ visit ∈ vs, visit.Valid map) :
    ∀ visit ∈ ws, visit.Valid map := by
  induction h with
  | nil => exact hvs
  | code hblock _ ih =>
      obtain ⟨hown, hmore⟩ := List.forall_mem_cons.mp hvs
      refine List.forall_mem_cons.mpr ⟨?_, ih hmore⟩
      rw [Visit.Valid, (classifyBlock_eq_ok hblock).1]
      exact hown
  | prose _ _ ih | enter _ _ _ _ ih | leave _ ih =>
      obtain ⟨hown, hmore⟩ := List.forall_mem_cons.mp hvs
      exact List.forall_mem_cons.mpr ⟨hown, ih hmore⟩

-- Classification moves nothing.
theorem valid_classify {document : Document}
    (h : ∀ visit ∈ visits document.nodes, visit.Valid map) :
    ValidResult map (fun classified => classified.document.nodes)
      (classify registry language document) := by
  cases hclassify : classify registry language document with
  | ok classified =>
      obtain ⟨-, -, last, hvisits⟩ := classifies_of_classify hclassify
      exact valid_of_classifies hvisits h
  | error error =>
      rcases eq_error_of_bind hclassify with hnodes | ⟨⟨nodes, last⟩, -, hdone⟩
      · exact valid_of_classifyNodes_eq_error h hnodes
      · cases hdone

end Classification

theorem sound_check {tree : FileTree} {settings : Settings} {root : Root}
    {directory language : String} {map : SourceMap} :
    Sound (fun classified => classified.document.nodes)
      (check tree settings root directory language) map :=
  (sound_load root).bind fun _ _ _ hdocument =>
    (sound_resolve hdocument).bind fun _ _ _ hwhole =>
      .of_run (Action.run_liftM _ _) (valid_classify hwhole)

def Label.Inside (label : Label) (map : SourceMap) : Prop :=
  ∃ source, map.get? label.source = some source ∧ label.range.start ≤ label.range.stop ∧
    label.range.stop ≤ Text.byteCount source.text.toList

-- Where an error of a run points to. A name that is missed is named where it stands.
structure RunError.Valid (error : RunError) (map : SourceMap) : Prop where
  span : ∀ span ∈ error.span?, span.Valid map
  name : ∀ name source span, error = .undefined name source span → span.Holds map name.toList
  label : ∀ label ∈ error.diagnostic.label?, label.Inside map

section Errors

variable {map : SourceMap}

theorem Span.Valid.inside {span : Span} (h : span.Valid map) (message : String) :
    (Label.of span message).Inside map := by
  obtain ⟨inside, source, before, after, hsource, htext, hrange, -⟩ := h
  refine ⟨source, hsource, ?_, ?_⟩
  · simp [Label.of, hrange]
  · simp only [Label.of, hrange, htext, Text.byteCount_append]
    omega

theorem RunError.exists_label (error : RunError) :
    ∃ message, error.diagnostic.label? = error.span?.map (Label.of · message) := by
  cases error with
  | document inner => exact ⟨_, rfl⟩
  | block index span line output cause => exact ⟨_, rfl⟩
  | undefined name source span => exact ⟨_, rfl⟩
  | guard source cause span => exact ⟨_, rfl⟩
  | language wanted own => exact ⟨"", rfl⟩
  | unwritable path => exact ⟨"", rfl⟩

theorem RunError.Valid.of_forall {error : RunError} (hspan : ∀ span ∈ error.span?, span.Valid map)
    (hname : ∀ name source span, error = .undefined name source span → span.Holds map name.toList) :
    error.Valid map := by
  refine ⟨hspan, hname, fun label hlabel => ?_⟩
  obtain ⟨message, hmessage⟩ := error.exists_label
  rw [hmessage] at hlabel
  obtain ⟨span, hmem, rfl⟩ := Option.mem_map.mp hlabel
  exact (hspan span hmem).inside message

theorem DocumentError.Valid.run {error : DocumentError} (h : error.Valid map) :
    (RunError.document error).Valid map := .of_forall h nofun

theorem RunError.Valid.of_span {error : RunError} {span : Span} (hspan : error.span? = some span)
    (h : span.Valid map) (hother : ∀ name source own, error ≠ .undefined name source own) :
    error.Valid map := by
  refine .of_forall (fun own hown => ?_) fun name source own herror => (hother _ _ _ herror).elim
  rw [hspan] at hown
  cases hown
  exact h

theorem valid_undefined {span : Span} {name : String} (h : span.Holds map name.toList)
    (source : String) : (RunError.undefined name source span).Valid map := by
  refine .of_forall ?_ ?_
  · rintro own ⟨⟩
    exact h.valid
  · rintro _ _ _ ⟨⟩
    exact h

end Errors

section Runs

variable {map : SourceMap} {error : RunError}

-- A condition that cannot be decided is reported where it stands, or where the name stands that
-- it misses.
theorem valid_of_evaluateGuard_eq_error {guard : Calc.Guard} {source : String} {span : Span}
    {session : Calc.Session} (hvisit : (Visit.enter guard source span).Valid map)
    (h : evaluateGuard guard source span session = .error error) : error.Valid map := by
  obtain ⟨hspan, hvariables⟩ := hvisit
  unfold evaluateGuard at h
  split at h
  · cases h
  · rename_i name hmissing
    obtain ⟨place, hplace⟩ := Calc.exists_firstRead_of_evaluate hmissing
    have hholds := hvariables (name, place) (Calc.mem_variables_of_firstRead? hplace)
    rw [hplace] at h
    cases h
    exact valid_undefined hholds source
  · cases h
    exact .of_span rfl hspan nofun

variable {σ : Type} {executor : Executor σ}

theorem valid_of_traceBlock_eq_error {own : CodeBlock} {progress : Progress σ}
    (hown : own.span.Valid map) (h : (traceBlock executor progress own).result = .error error) :
    error.Valid map := by
  cases hexecutes : own.modifiers.executes with
  | false =>
      rw [traceBlock_skipped hexecutes] at h
      cases h
  | true =>
      rcases hstep : progress.execute executor own with ⟨execution, next⟩
      rw [traceBlock_executed hexecutes hstep] at h
      cases hfailure : execution.failure with
      | none =>
          rw [settle_of_success hfailure] at h
          cases h
      | some failure =>
          rw [settle_of_failure hfailure] at h
          cases h
          exact .of_span rfl hown nofun

-- A run fails at one of its nodes. The induction is on the tree, with the progress left free.
theorem valid_of_traceTree_eq_error {nodes : List Node} {progress : Progress σ}
    (hnodes : ∀ visit ∈ visits nodes, visit.Valid map)
    (h : (traceTree executor progress nodes).result = .error error) : error.Valid map := by
  induction nodes using nodesInduction generalizing progress with
  | nil => cases h
  | prose own rest ih =>
      obtain ⟨-, hmore⟩ := List.forall_mem_cons.mp hnodes
      rw [traceTree_prose] at h
      exact ih hmore (Trace.result_map_eq_error h)
  | directive own rest ih =>
      obtain ⟨hown, -⟩ := List.forall_mem_cons.mp hnodes
      cases h
      exact DocumentError.Valid.run (.of_span rfl hown)
  | code own rest ih =>
      obtain ⟨hown, hmore⟩ := List.forall_mem_cons.mp hnodes
      rw [traceTree_code] at h
      rcases Trace.result_andThen_eq_error h with h | ⟨first, -, h⟩
      · exact valid_of_traceBlock_eq_error hown h
      · exact ih hmore (Trace.result_map_eq_error h)
  | conditional guard source children span rest ihChildren ihRest =>
      obtain ⟨henter, ⟨hchildren, -⟩, hmore⟩ := forall_visits_conditional.mp hnodes
      rw [traceTree_conditional] at h
      rcases Trace.result_andThen_eq_error h with h | ⟨included, -, h⟩
      · exact valid_of_evaluateGuard_eq_error henter h
      · rcases Trace.result_andThen_eq_error h with h | ⟨executed, -, h⟩
        · cases included with
          | false => cases h
          | true => exact ihChildren hchildren h
        · exact ihRest hmore (Trace.result_map_eq_error h)

theorem valid_of_runDocument_eq_error {classified : Classified} {progress after : Progress σ}
    (hnodes : ∀ visit ∈ visits classified.document.nodes, visit.Valid map)
    (h : (runDocument executor classified).run progress = (.error error, after)) :
    error.Valid map := by
  have htrace := (@tells_document _ executor classified progress).plain
  rw [h] at htrace
  have hresult : (traceDocument executor classified progress).result = .error error :=
    (congrArg Prod.fst htrace).symm
  unfold traceDocument at hresult
  split at hresult
  · exact valid_of_traceTree_eq_error hnodes hresult
  · cases hresult
    exact .of_forall nofun nofun

end Runs

-- A run that fails has failed in the check, or in the document that it has come to.
theorem expand_eq_error {tree : FileTree} {settings : Settings} {root : Root} {directory : String}
    {σ : Type} {executor : Executor σ} {host : σ} {error : RunError} {next : SourceMap}
    (h : expand executor host tree settings root directory = (.error error, next)) :
    (∃ failed, (check tree settings root directory executor.language).run .empty =
        (.error failed, next) ∧ error = .document failed) ∨
    ∃ classified after, (check tree settings root directory executor.language).run .empty =
        (.ok classified, next) ∧
      (runDocument executor classified).run (.start host settings.stem) = (.error error, after) := by
  unfold expand expandFrom runClassified at h
  rcases hcheck : (check tree settings root directory executor.language).run .empty with
    ⟨failed | classified, last⟩
  · rw [hcheck] at h
    cases h
    exact .inl ⟨failed, rfl, rfl⟩
  · rcases hrun : (runDocument executor classified).run (.start host settings.stem) with
      ⟨failed | nodes, after⟩
    · rw [hcheck] at h
      simp only [hrun, Except.map] at h
      cases h
      exact .inr ⟨classified, after, rfl, hrun⟩
    · rw [hcheck] at h
      simp only [hrun, Except.map] at h
      cases h

-- All positions of a run are positions of the texts that it has registered: those of the document
-- with its includes, before and after it is classified, and those of the errors.
theorem positions_of_run (tree : FileTree) (settings : Settings) (root : Root) (directory : String)
    (map : SourceMap) :
    Sound Document.nodes (root.load tree >>= resolve tree settings.limit directory) map ∧
    (∀ language classified next,
      (check tree settings root directory language).run map = (.ok classified, next) →
        (∀ visit ∈ visits classified.document.nodes, visit.Valid next) ∧
        ∀ (σ : Type) (executor : Executor σ) (progress after : Progress σ) (error : RunError),
          (runDocument executor classified).run progress = (.error error, after) →
            error.Valid next) ∧
    (∀ language error next,
      (check tree settings root directory language).run map = (.error error, next) →
        (RunError.document error).Valid next) ∧
    ∀ (σ : Type) (executor : Executor σ) (host : σ) (error : RunError) (next : SourceMap),
      expand executor host tree settings root directory = (.error error, next) →
        error.Valid next := by
  refine ⟨(sound_load root).bind fun _ _ _ hdocument => sound_resolve hdocument,
    fun language classified next hrun => ?_, fun language error next hrun => ?_,
    fun σ executor host error next hexpand => ?_⟩
  · have hnodes := sound_check.ok hrun
    exact ⟨hnodes, fun σ executor progress after error hfail =>
      valid_of_runDocument_eq_error hnodes hfail⟩
  · exact (sound_check.error hrun).run
  · rcases expand_eq_error hexpand with ⟨failed, hcheck, rfl⟩ | ⟨classified, after, hcheck, hrun⟩
    · exact (sound_check.error hcheck).run
    · exact valid_of_runDocument_eq_error (sound_check.ok hcheck) hrun

-- A condition of an included file, behind a blank of three bytes on the second line.
def guardedContent : String := "é\n\u3000!if width\n!endif\n"

def guardedNodes : List Node :=
  [.prose ⟨"é\n", ⟨1, ⟨0, 3⟩, 1⟩⟩,
    .conditional ⟨.var "width" ⟨10, 15⟩, rfl⟩ "width" [] ⟨1, ⟨3, 15⟩, 2⟩]

theorem part_guarded : partDocument 1 guardedContent "a" askingInclude = .ok ⟨1, guardedNodes⟩ := by
  have hblocks : Markdown.blocks (Text.slice guardedContent.toList 0 23) = ([], []) := by
    cbv
  have hsegments : segments guardedContent.toList ⟨0, 23⟩ =
      [.prose 0 "é\n".toList,
        .mark 3 "\u3000!if width\n".toList ⟨.startIf, "\u3000!if ".toList, "width".toList⟩,
        .mark 16 "!endif\n".toList ⟨.endIf, "!endif".toList, []⟩] := by
    rw [segments, regions, hblocks]
    decide +kernel
  have hcount : Text.byteCount guardedContent.toList = 23 := by decide +kernel
  rw [partDocument, askingInclude, partRange?]
  dsimp only
  rw [hcount, parseWindow, hsegments]
  cbv

theorem expand_guarded :
    expand Executor.calc () (oneFile guardedContent) .standard (.text "r" (String.ofList asking)) "" =
      (.error (.undefined "width" "width" ⟨1, ⟨10, 15⟩, 2⟩), askingEnd guardedContent) := by
  rw [expand_oneFile part_guarded rfl rfl]
  cbv

theorem positions_guarded :
    expand Executor.calc () (oneFile guardedContent) .standard (.text "r" (String.ofList asking)) "" =
      (.error (.undefined "width" "width" ⟨1, ⟨10, 15⟩, 2⟩), askingEnd guardedContent) ∧
    (RunError.undefined "width" "width" ⟨1, ⟨10, 15⟩, 2⟩).Valid (askingEnd guardedContent) := by
  obtain ⟨-, -, -, hexpand⟩ := positions_of_run (oneFile guardedContent) .standard
    (.text "r" (String.ofList asking)) "" .empty
  exact ⟨expand_guarded, hexpand _ _ _ _ _ expand_guarded⟩

end LiveDoc
