import LiveDoc.Proofs.Calc.Lookup
import LiveDoc.Proofs.Document.Beginning
import LiveDoc.Proofs.Run.Steps

namespace LiveDoc

variable {σ α β : Type}

-- The same of executed nodes as `Begins` says of nodes.
inductive Begun (deep : Bool) : List Executed → List Executed → Prop
  | nil (rest : List Executed) : Begun deep [] rest
  | cons (node : Executed) {front rest : List Executed} :
      Begun deep front rest → Begun deep (node :: front) (node :: rest)
  | inside (guard : String) (included : Bool) {front children : List Executed}
      (rest : List Executed) : deep = true → Begun deep front children →
      Begun deep [.conditional guard included front] (.conditional guard included children :: rest)

-- A trace opens a longer one: where it fails they are the same, and otherwise the longer one goes
-- on from the session of the first and leaves what the first has done.
structure Trace.Opens (deep : Bool) (floor : Nat) (own whole : Trace σ (List Executed)) :
    Prop where
  failed : ∀ error, own.result = .error error → whole = own
  executed : ∀ front all, own.result = .ok front → whole.result = .ok all → Begun deep front all
  events : ∃ rest, whole.events = own.events ++ rest ∧
    Linked own.after.session rest whole.after.session
  grows : own.after.Grows floor whole.after

section Opens

variable {executor : Executor σ} {deep : Bool} {floor : Nat}

theorem opens_nil {nodes : List Node} (h : ∀ own ∈ blocksOf nodes, floor ≤ own.index)
    (progress : Progress σ) :
    (Trace.stay [] progress).Opens deep floor (traceTree executor progress nodes) where
  failed _ h := nomatch h
  executed front all hfront _ := by
    cases hfront
    exact .nil all
  events := ⟨_, rfl, linked_tree executor nodes progress⟩
  grows := grows_tree executor h progress

theorem opens_of_error {own : Trace σ (List Executed)} {error : RunError}
    (h : own.result = .error error) : own.Opens deep floor own where
  failed _ _ := rfl
  executed _ _ hfront _ := nomatch h.symm.trans hfront
  events := ⟨[], (List.append_nil _).symm, .nil _⟩
  grows := .refl floor _

theorem Trace.Opens.andThen {first : Trace σ α} {next more : α → Progress σ → Trace σ (List Executed)}
    (h : ∀ a, first.result = .ok a → (next a first.after).Opens deep floor (more a first.after)) :
    (first.andThen next).Opens deep floor (first.andThen more) := by
  cases hfirst : first.result with
  | error error =>
      rw [andThen_of_error hfirst, andThen_of_error hfirst]
      exact opens_of_error rfl
  | ok a =>
      obtain ⟨hfailed, hexecuted, ⟨rest, hevents, hlinked⟩, hgrows⟩ := h a hfirst
      rw [andThen_of_ok hfirst, andThen_of_ok hfirst]
      refine ⟨fun error herror => ?_, hexecuted, ⟨rest, ?_, hlinked⟩, hgrows⟩
      · rw [hfailed error herror]
      · rw [hevents, List.append_assoc]

theorem Trace.Opens.map {own whole : Trace σ (List Executed)} (h : own.Opens deep floor whole)
    {f : List Executed → List Executed}
    (hf : ∀ {front all}, Begun deep front all → Begun deep (f front) (f all)) :
    (own.map f).Opens deep floor (whole.map f) where
  failed error herror := by
    rw [h.failed error (Trace.result_map_eq_error herror)]
  executed front all hfront hall := by
    obtain ⟨first, hfirst, rfl⟩ := Trace.result_map_eq_ok hfront
    obtain ⟨second, hsecond, rfl⟩ := Trace.result_map_eq_ok hall
    exact hf (h.executed first second hfirst hsecond)
  events := h.events
  grows := h.grows

-- A cut branch, with what comes behind the whole one.
theorem Trace.Opens.branch {own whole : Trace σ (List Executed)} (h : own.Opens deep floor whole)
    (guard : String) (included : Bool) {rest : List Node} (hdeep : deep = true)
    (hrest : ∀ own ∈ blocksOf rest, floor ≤ own.index) :
    (own.map fun executed => [.conditional guard included executed]).Opens deep floor
      (whole.andThen fun executed progress =>
        (traceTree executor progress rest).map (.conditional guard included executed :: ·)) := by
  cases hwhole : whole.result with
  | error error =>
      rw [andThen_of_error hwhole]
      refine ⟨fun failure hfailure => ?_, fun _ _ _ hall => (nomatch hall), h.events, h.grows⟩
      have hown := Trace.result_map_eq_error hfailure
      rw [h.failed failure hown] at hwhole ⊢
      rw [Trace.map, hwhole]
      rfl
  | ok all =>
      rw [andThen_of_ok hwhole]
      refine ⟨fun failure hfailure => ?_, fun front others hfront hothers => ?_, ?_, ?_⟩
      · have hown := Trace.result_map_eq_error hfailure
        cases (h.failed failure hown ▸ hwhole).symm.trans hown
      · obtain ⟨inner, hinner, rfl⟩ := Trace.result_map_eq_ok hfront
        obtain ⟨behind, -, rfl⟩ := Trace.result_map_eq_ok hothers
        exact .inside guard included behind hdeep (h.executed inner all hinner hwhole)
      · obtain ⟨middle, hevents, hlinked⟩ := h.events
        refine ⟨middle ++ (traceTree executor whole.after rest).events, ?_,
          hlinked.append (linked_tree executor rest whole.after)⟩
        simp only [Trace.map, hevents, List.append_assoc]
      · exact h.grows.trans (grows_tree executor hrest whole.after)

-- The run of a tree opens with the run of what begins the tree, where the other blocks come later.
theorem opens_tree {front nodes : List Node} (h : Begins deep front nodes)
    (hlate : ∀ rest, blocksOf nodes = blocksOf front ++ rest → ∀ own ∈ rest, floor ≤ own.index)
    (progress : Progress σ) :
    (traceTree executor progress front).Opens deep floor (traceTree executor progress nodes) := by
  induction h generalizing progress with
  | nil rest => exact opens_nil (hlate _ rfl) progress
  | cons node _ ih =>
      rw [traceTree, traceTree]
      refine .andThen fun first _ => ?_
      refine (ih (fun rest hrest => hlate rest ?_) _).map fun hbegun => .cons first hbegun
      rw [blocksOf, blocksOf, hrest, List.append_assoc]
  | @inside guard source span front children rest hdeep hbegins ih =>
      obtain ⟨behind, hbehind⟩ := hbegins.blocks
      have hblocks : blocksOf (.conditional guard source children span :: rest) =
          blocksOf [.conditional guard source front span] ++ (behind ++ blocksOf rest) := by
        simp only [blocksOf, Node.blocks, List.append_nil, ← hbehind, List.append_assoc]
      have hall := hlate _ hblocks
      have hchildren : ∀ rest, blocksOf children = blocksOf front ++ rest →
          ∀ own ∈ rest, floor ≤ own.index := by
        intro others hothers own hown
        rw [← List.append_cancel_left (hbehind.trans hothers)] at hown
        exact hall own (List.mem_append_left _ hown)
      rw [traceTree_conditional, traceTree_conditional]
      refine .andThen fun included _ => ?_
      have hbranch : (traceBranch executor progress front included).Opens deep floor
          (traceBranch executor progress children included) := by
        cases included with
        | false => exact @opens_nil σ executor deep floor [] (fun _ h => nomatch h) progress
        | true => exact ih hchildren progress
      have hrest : ∀ own ∈ blocksOf rest, floor ≤ own.index :=
        fun own hown => hall own (List.mem_append_right _ hown)
      have hopens := @Trace.Opens.branch σ executor deep floor _ _ hbranch source included rest
        hdeep hrest
      rw [Trace.map_eq_andThen] at hopens
      exact hopens

end Opens

def AllDecided (events : List Event) : Prop :=
  ∀ decision, .decision decision ∈ events → ∃ included, decision.verdict = .ok included

-- A run stops at the first condition that cannot be decided, with what is wrong with it.
inductive Trace.Stops (trace : Trace σ α) : Prop
  | never : AllDecided trace.events → Stops trace
  | last {before : List Event} {decision : Decision} {error : RunError} :
      trace.events = before ++ [.decision decision] → AllDecided before →
      decision.verdict = .error error → trace.result = .error error → Stops trace

section Stops

variable {executor : Executor σ}

theorem Trace.Stops.map {trace : Trace σ α} (h : trace.Stops) (f : α → β) :
    (trace.map f).Stops := by
  cases h with
  | never hall => exact .never hall
  | last hevents hbefore hverdict hresult =>
      exact .last hevents hbefore hverdict (by rw [Trace.map, hresult]; rfl)

theorem Trace.Stops.andThen {first : Trace σ α} {next : α → Progress σ → Trace σ β}
    (h : first.Stops) (hnext : ∀ a, first.result = .ok a → (next a first.after).Stops) :
    (first.andThen next).Stops := by
  cases hfirst : first.result with
  | error error =>
      rw [andThen_of_error hfirst]
      cases h with
      | never hall => exact .never hall
      | last hevents hbefore hverdict hresult =>
          cases hfirst.symm.trans hresult
          exact .last hevents hbefore hverdict rfl
  | ok a =>
      have hall : AllDecided first.events := by
        cases h with
        | never hall => exact hall
        | last _ _ _ hresult => cases hfirst.symm.trans hresult
      have hboth : ∀ {events}, AllDecided events → AllDecided (first.events ++ events) :=
        fun hevents decision hmem =>
          (List.mem_append.mp hmem).elim (hall decision) (hevents decision)
      rw [andThen_of_ok hfirst]
      cases hnext a hfirst with
      | never hlater => exact .never (hboth hlater)
      | last hevents hbefore hverdict hresult =>
          refine .last ?_ (hboth hbefore) hverdict hresult
          rw [hevents, List.append_assoc]

theorem stops_block (own : CodeBlock) (progress : Progress σ) :
    (traceBlock executor progress own).Stops := by
  refine .never fun decision hmem => ?_
  cases hexecutes : own.modifiers.executes with
  | false =>
      rw [traceBlock_skipped hexecutes] at hmem
      cases hmem
  | true =>
      rw [traceBlock_executed hexecutes rfl] at hmem
      cases List.mem_singleton.mp hmem

theorem stops_decision (decision : Decision) (progress : Progress σ) :
    (traceDecision progress decision).Stops := by
  cases hverdict : decision.verdict with
  | error error =>
      exact @Trace.Stops.last σ Bool _ [] decision error rfl (fun _ h => nomatch h) hverdict hverdict
  | ok included =>
      refine .never fun other hmem => ?_
      cases List.mem_singleton.mp hmem
      exact ⟨included, hverdict⟩

theorem stops_tree (nodes : List Node) (progress : Progress σ) :
    (traceTree executor progress nodes).Stops := by
  induction nodes using nodesInduction generalizing progress with
  | nil => exact .never fun _ h => nomatch h
  | prose own rest ih => exact (ih progress).map _
  | directive own rest ih => exact .never fun _ h => nomatch h
  | code own rest ih =>
      rw [traceTree_code]
      exact (stops_block own progress).andThen fun first _ => (ih _).map _
  | conditional guard source children span rest ihChildren ihRest =>
      rw [traceTree_conditional]
      refine (stops_decision _ progress).andThen fun included _ => ?_
      refine Trace.Stops.andThen ?_ fun executed _ => (ihRest _).map _
      cases included with
      | false => exact .never fun _ h => nomatch h
      | true => exact ihChildren _

-- Nothing comes behind a condition that cannot be decided.
theorem Trace.Stops.at_error {trace : Trace σ α} (h : trace.Stops) {before behind : List Event}
    {decision : Decision} {error : RunError}
    (hevents : trace.events = before ++ .decision decision :: behind)
    (herror : decision.verdict = .error error) : behind = [] ∧ trace.result = .error error := by
  have hundecided : ∀ {events}, AllDecided events → .decision decision ∉ events := by
    intro events hall hmem
    obtain ⟨included, hok⟩ := hall decision hmem
    cases hok.symm.trans herror
  cases h with
  | never hall => exact (hundecided hall (by simp [hevents])).elim
  | @last front other failure hlast hfront hverdict hresult =>
      have hsame := hevents.symm.trans hlast
      rcases List.eq_nil_or_concat behind with rfl | ⟨init, event, rfl⟩
      · obtain ⟨-, hdecision⟩ := List.append_inj' hsame rfl
        cases hdecision
        cases hverdict.symm.trans herror
        exact ⟨rfl, hresult⟩
      · rw [List.concat_eq_append, ← List.cons_append, ← List.append_assoc] at hsame
        obtain ⟨hfronts, -⟩ := List.append_inj' hsame rfl
        exact (hundecided hfront (by simp [← hfronts])).elim

end Stops

-- The run of a document opens with the run of one that begins it. All that is done is what
-- `Trace.Tells` says of the run itself; what comes later goes on from the session of the first, and
-- leaves its artifacts and the states of its blocks.
structure OpensWith (deep : Bool) (executor : Executor σ) (start : Progress σ)
    (begun whole : Classified) : Prop where
  tells : (traceDocument executor whole start).Tells (runDocument executor whole)
    (runDocument executor.logged whole) start
  events : ∃ rest, (traceDocument executor whole start).events =
      (traceDocument executor begun start).events ++ rest ∧
    Linked (traceDocument executor begun start).after.session rest
      (traceDocument executor whole start).after.session
  executed : ∀ front all, (traceDocument executor begun start).result = .ok front →
    (traceDocument executor whole start).result = .ok all → Begun deep front all
  artifacts : (traceDocument executor begun start).after.store.artifacts <+:
    (traceDocument executor whole start).after.store.artifacts
  states : (traceDocument executor begun start).after.states <+:
    (traceDocument executor whole start).after.states
  failed : ∀ error, (traceDocument executor begun start).result = .error error →
    traceDocument executor whole start =
      (traceDocument executor begun start).pad (whole.blockCount - begun.blockCount)
  undefined : ∀ before decision behind name place,
    (traceDocument executor whole start).events = before ++ .decision decision :: behind →
    Calc.LooksUp decision.session name false 0 decision.guard.expr place →
    start.session.binding? name = none →
    (∀ call ∈ callsOf before, call.left.binding? name = none) →
    behind = [] ∧ ∃ found, (traceDocument executor whole start).result =
      .error (.undefined name decision.source found)

section Documents

variable {executor : Executor σ} {registry : Registry} {deep : Bool} {document : Document}
  {begun whole : Classified}

theorem linked_document (h : classify registry executor.language document = .ok whole)
    (start : Progress σ) :
    Linked start.session (traceDocument executor whole start).events
      (traceDocument executor whole start).after.session := by
  rw [traceDocument_of_language (language_of_classify h)]
  exact linked_tree executor whole.document.nodes (start.pending whole)

theorem undefined_of_looksUp (h : classify registry executor.language document = .ok whole)
    {start : Progress σ} {before behind : List Event} {decision : Decision} {name : String}
    {place : ByteRange}
    (hevents : (traceDocument executor whole start).events =
      before ++ .decision decision :: behind)
    (hlooks : Calc.LooksUp decision.session name false 0 decision.guard.expr place)
    (hstart : start.session.binding? name = none)
    (hcalls : ∀ call ∈ callsOf before, call.left.binding? name = none) :
    behind = [] ∧ ∃ found, (traceDocument executor whole start).result =
      .error (.undefined name decision.source found) := by
  have hlinked := linked_document h start
  rw [hevents] at hlinked
  obtain ⟨found, hverdict⟩ := evaluateGuard_of_looksUp hlooks (hlinked.free_at hstart hcalls)
    decision.source decision.span
  have hstops : (traceDocument executor whole start).Stops := by
    rw [traceDocument_of_language (language_of_classify h)]
    exact stops_tree _ _
  obtain ⟨hbehind, hresult⟩ := hstops.at_error hevents hverdict
  exact ⟨hbehind, found, hresult⟩

-- Where blocks are numbered from zero on, the first ones have the lower numbers.
theorem numbered_append {front later : List CodeBlock} {count : Nat}
    (h : (front ++ later).map CodeBlock.index = List.range' 0 count) :
    (∀ own ∈ front, own.index < front.length) ∧ ∀ own ∈ later, front.length ≤ own.index := by
  have hcount : count = front.length + later.length := by
    simpa using (congrArg List.length h).symm
  rw [List.map_append, hcount, ← List.range'_append_1] at h
  obtain ⟨hfront, hlater⟩ := List.append_inj h (by simp)
  refine ⟨fun own hown => ?_, fun own hown => ?_⟩
  · have hmem := List.mem_map_of_mem hown (f := CodeBlock.index)
    rw [hfront, List.mem_range'_1] at hmem
    omega
  · have hmem := List.mem_map_of_mem hown (f := CodeBlock.index)
    rw [hlater, List.mem_range'_1] at hmem
    omega

theorem opens_document {front : Document}
    (hbegun : classify registry executor.language front = .ok begun)
    (hwhole : classify registry executor.language document = .ok whole)
    (h : Begins deep begun.document.nodes whole.document.nodes) (start : Progress σ) :
    ((traceDocument executor begun start).pad (whole.blockCount - begun.blockCount)).Opens deep
      begun.blockCount (traceDocument executor whole start) := by
  obtain ⟨later, hlater⟩ := h.blocks
  have hcount : whole.blockCount = begun.blockCount + later.length := by
    rw [Classified.blockCount, Document.blocks, ← hlater, List.length_append]
    rfl
  have hindices := indices_of_classify hwhole
  rw [← hlater] at hindices
  obtain ⟨hfirst, hlate⟩ := numbered_append hindices
  have hearly : ∀ own ∈ blocksOf begun.document.nodes,
      own.index < (start.pending begun).states.length := by
    intro own hown
    rw [Progress.pending, List.length_replicate]
    exact hfirst own hown
  have hpending : start.pending whole =
      (start.pending begun).pad (whole.blockCount - begun.blockCount) := by
    rw [hcount, Nat.add_sub_cancel_left, Progress.pending, Progress.pending, Progress.pad, hcount]
    simp only [List.replicate_append_replicate]
  rw [traceDocument_of_language (language_of_classify hwhole),
    traceDocument_of_language (language_of_classify hbegun), hpending, ← traceTree_pad hearly]
  refine opens_tree h (fun rest hrest => ?_) _
  rw [List.append_cancel_left (hrest.symm.trans hlater.symm)]
  exact hlate

theorem opensWith_of_begins {front : Document}
    (hbegun : classify registry executor.language front = .ok begun)
    (hwhole : classify registry executor.language document = .ok whole)
    (h : Begins deep begun.document.nodes whole.document.nodes) (start : Progress σ) :
    OpensWith deep executor start begun whole where
  tells := tells_document executor whole start
  events := (opens_document hbegun hwhole h start).events
  executed := (opens_document hbegun hwhole h start).executed
  artifacts := (opens_document hbegun hwhole h start).grows.artifacts
  states := by
    have hlength : (traceDocument executor begun start).after.states.length =
        begun.blockCount := by
      rw [traceDocument_of_language (language_of_classify hbegun),
        (grows_tree executor (fun own _ => Nat.zero_le own.index) _).length, Progress.pending,
        List.length_replicate]
    have hlow := (opens_document hbegun hwhole h start).grows.low
    rw [Trace.pad, Progress.pad, ← hlength, List.take_left] at hlow
    rw [← hlow]
    exact List.take_prefix _ _
  failed := (opens_document hbegun hwhole h start).failed
  undefined _ _ _ _ _ hevents hlooks hstart hcalls :=
    undefined_of_looksUp hwhole hevents hlooks hstart hcalls

end Documents

-- Two documents that begin alike, also inside of their conditions. What both share can be
-- classified and run by itself, each step of it sees what the calls before have left, and the run of
-- either document opens with that run.
theorem runs_open_alike (executor : Executor σ) {registry : Registry} {deep : Bool}
    {front : List Node} {one other : Document} {own others : Classified}
    (hown : classify registry executor.language one = .ok own)
    (hothers : classify registry executor.language other = .ok others)
    (hone : Begins deep front one.nodes) (hother : Begins deep front other.nodes)
    (start : Progress σ) :
    ∃ begun, classify registry executor.language ⟨one.source, front⟩ = .ok begun ∧
      (traceDocument executor begun start).Tells (runDocument executor begun)
        (runDocument executor.logged begun) start ∧
      Linked start.session (traceDocument executor begun start).events
        (traceDocument executor begun start).after.session ∧
      OpensWith deep executor start begun own ∧ OpensWith deep executor start begun others := by
  obtain ⟨nodes, hbegun, hbegins⟩ := hone.classify hown one.source
  obtain ⟨nodes', hbegun', hbegins'⟩ := hother.classify hothers one.source
  cases hbegun.symm.trans hbegun'
  exact ⟨_, hbegun, tells_document executor _ start, linked_document hbegun start,
    opensWith_of_begins hbegun hown hbegins start,
    opensWith_of_begins hbegun hothers hbegins' start⟩

-- An executor that binds the name that it is given.
def namer : Executor Unit where
  language := "calc"
  execute code session host := (⟨.none, none⟩, session.bind code (.bool true), host)

def readsName (name : String) (children : List Node) : Node :=
  .conditional ⟨.var name ⟨0, 1⟩, rfl⟩ name children ⟨0, ⟨0, 0⟩, 1⟩

-- A condition on a name, in a branch that is taken, with some blocks in it and behind it.
def waiting (inside behind : List Node) : Document :=
  ⟨0, [.code (plainBlock 0 [] "x"), readsName "x" (readsName "y" inside :: behind)]⟩

def boundX : Calc.Session := (Calc.Session.empty.enter 0).bind "x" (.bool true)

theorem runs_open_alike_waiting :
    ∃ own others,
      classify .standard namer.language (waiting [] [.code (plainBlock 1 [] "y")]) = .ok own ∧
      classify .standard namer.language (waiting [.code (plainBlock 1 [] "z")] []) = .ok others ∧
      Begins true (waiting [] []).nodes (waiting [] [.code (plainBlock 1 [] "y")]).nodes ∧
      Begins true (waiting [] []).nodes (waiting [.code (plainBlock 1 [] "z")] []).nodes ∧
      (∃ begun, classify .standard namer.language ⟨0, (waiting [] []).nodes⟩ = .ok begun ∧
        OpensWith true namer (.start () "block") begun own ∧
        OpensWith true namer (.start () "block") begun others) ∧
      ∃ found, ((runDocument namer own).run (.start () "block")).1 =
        .error (.undefined "y" "y" found) := by
  have hown : classify .standard namer.language (waiting [] [.code (plainBlock 1 [] "y")]) =
      .ok ⟨waiting [] [.code (plainBlock 1 [] "y")], "calc"⟩ := by
    cbv
  have hothers : classify .standard namer.language (waiting [.code (plainBlock 1 [] "z")] []) =
      .ok ⟨waiting [.code (plainBlock 1 [] "z")] [], "calc"⟩ := by
    cbv
  have hone : Begins true (waiting [] []).nodes (waiting [] [.code (plainBlock 1 [] "y")]).nodes :=
    .cons _ (.inside _ _ _ [] rfl (.cons _ (.nil _)))
  have hother : Begins true (waiting [] []).nodes (waiting [.code (plainBlock 1 [] "z")] []).nodes :=
    .cons _ (.inside _ _ _ [] rfl (.inside _ _ _ [] rfl (.nil _)))
  obtain ⟨begun, hbegun, -, -, hopens, hopens'⟩ :=
    runs_open_alike namer hown hothers hone hother (.start () "block")
  refine ⟨_, _, hown, hothers, hone, hother, ⟨begun, hbegun, hopens, hopens'⟩, ?_⟩
  have hlooks : ∀ session, Calc.LooksUp session "y" false 0 (.var "y" ⟨0, 1⟩) ⟨0, 1⟩ :=
    fun session => .var _ (by decide)
  have hbinds : ∀ call ∈ callsOf [.call ⟨"x", Calc.Session.empty.enter 0, ⟨.none, none⟩, boundX⟩,
      .decision ⟨⟨.var "x" ⟨0, 1⟩, rfl⟩, "x", ⟨0, ⟨0, 0⟩, 1⟩, boundX⟩],
      call.left.binding? "y" = none := by
    intro call hcall
    cases List.mem_singleton.mp hcall
    rfl
  obtain ⟨-, found, hresult⟩ := hopens.undefined _ ⟨_, _, _, _⟩ [] "y" ⟨0, 1⟩ rfl (hlooks _) rfl
    hbinds
  exact ⟨found, by rw [hopens.tells.plain, hresult]⟩

end LiveDoc
