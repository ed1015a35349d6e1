import LiveDoc.Proofs.Data.Action
import LiveDoc.Proofs.Document.Classification
import LiveDoc.Proofs.Document.Segments
import LiveDoc.Proofs.Document.Visits
import LiveDoc.Run.Expansion
import Mathlib

namespace LiveDoc

open Text

variable {σ : Type}

-- Decides the condition on a line of a text, on the session as it is there.
def decideMark (text : List Char) (source start : Nat) (line : List Char) (marker : Marker) :
    Running σ Bool := do
  match Calc.parseGuard marker.argument (start + byteCount marker.front) with
  | .error e => throw (.document (.malformed (.badGuard e.fault) (Span.of text source e.range)))
  | .ok guard =>
      let progress ← get
      evaluateGuard guard (String.ofList marker.argument) (markSpan text source start line)
        progress.session

-- Runs the code block at a range of a text and renders it.
def renderCode (executor : Executor σ) (registry : Registry) (layout : Layout) (text : List Char)
    (source index : Nat) (range : ByteRange) (info content : List Char) : Running σ String := do
  match codeBlock text source range info content with
  | .error e => throw (.document e)
  | .ok block =>
      match classifyBlock registry executor.language index block with
      | .error e => throw (.document e)
      | .ok block => assembleNode layout <$> runBlock executor block

-- Reads the pieces of a text from left to right and puts together what stays of it. `branches`
-- are the conditions that are open, the innermost first; only where all hold is anything kept,
-- decided or run. Code blocks are counted everywhere.
def expandPieces (executor : Executor σ) (registry : Registry) (layout : Layout)
    (text : List Char) (source : Nat) : List Piece → List Bool → Nat → Running σ String
  | [], _, _ => pure ""
  | ⟨_, stretch, .kept⟩ :: rest, branches, index => do
      let out ← expandPieces executor registry layout text source rest branches index
      pure ((if branches.all id then String.ofList stretch else "") ++ out)
  | ⟨_, stretch, .code (.indented _)⟩ :: rest, branches, index => do
      let out ← expandPieces executor registry layout text source rest branches index
      pure ((if branches.all id then String.ofList stretch else "") ++ out)
  | ⟨_, _, .code (.fenced range info content)⟩ :: rest, branches, index => do
      let own ← if branches.all id then
          renderCode executor registry layout text source index range info content
        else pure ""
      let out ← expandPieces executor registry layout text source rest branches (index + 1)
      pure (own ++ out)
  | ⟨before, line, .mark marker⟩ :: rest, branches, index =>
      match marker.keyword with
      | .startIf => do
          let included ← if branches.all id then
              decideMark text source (byteCount before) line marker
            else pure false
          expandPieces executor registry layout text source rest (included :: branches) index
      | .endIf => expandPieces executor registry layout text source rest branches.tail index
      | .insert => expandPieces executor registry layout text source rest branches index

-- The same over the walk of a tree whose blocks are classified.
def expandVisits (executor : Executor σ) (layout : Layout) :
    List Visit → List Bool → Running σ String
  | [], _ => pure ""
  | .prose piece :: rest, branches => do
      let out ← expandVisits executor layout rest branches
      pure ((if branches.all id then piece.text else "") ++ out)
  | .directive _ :: rest, branches => expandVisits executor layout rest branches
  | .code block :: rest, branches => do
      let own ← if branches.all id then assembleNode layout <$> runBlock executor block
        else pure ""
      let out ← expandVisits executor layout rest branches
      pure (own ++ out)
  | .enter guard source span :: rest, branches => do
      let included ← if branches.all id then
          do
            let progress ← get
            evaluateGuard guard source span progress.session
        else pure false
      expandVisits executor layout rest (included :: branches)
  | .leave :: rest, branches => expandVisits executor layout rest branches.tail

theorem map_empty_append (m : Running σ String) : HAppend.hAppend "" <$> m = m := by
  have hid : (HAppend.hAppend "" : String → String) = id := funext fun _ => String.empty_append
  rw [hid, id_map]

section Visits

variable (executor : Executor σ) (layout : Layout)

mutual

-- Nothing happens where a condition does not hold.
theorem expandVisits_node_dead (node : Node) (rest : List Visit) {branches : List Bool}
    (h : branches.all id = false) :
    expandVisits executor layout (node.visits ++ rest) branches =
      expandVisits executor layout rest branches := by
  match node with
  | .prose piece => simp [Node.visits, expandVisits, h]
  | .directive directive => simp [Node.visits, expandVisits]
  | .code block => simp [Node.visits, expandVisits, h, map_empty_append]
  | .conditional guard source children span =>
      have hinner := @expandVisits_nodes_dead children (.leave :: rest) (false :: branches) rfl
      simp [Node.visits, expandVisits, h, hinner]

theorem expandVisits_nodes_dead (nodes : List Node) (rest : List Visit) {branches : List Bool}
    (h : branches.all id = false) :
    expandVisits executor layout (visits nodes ++ rest) branches =
      expandVisits executor layout rest branches := by
  match nodes with
  | [] => rfl
  | node :: more =>
      rw [visits, List.append_assoc, expandVisits_node_dead node _ h,
        expandVisits_nodes_dead more _ h]

end

mutual

-- Where all conditions hold, the walk does what running the tree and writing it out does.
theorem expandVisits_node (node : Node) (rest : List Visit) {branches : List Bool}
    (h : branches.all id = true) (hfree : node.hasDirective = false) :
    expandVisits executor layout (node.visits ++ rest) branches = (do
      let executed ← runNode executor node
      let out ← expandVisits executor layout rest branches
      pure (assembleNode layout executed ++ out)) := by
  match node with
  | .prose piece => simp [Node.visits, expandVisits, runNode, assembleNode, h]
  | .directive directive => cases hfree
  | .code block => simp [Node.visits, expandVisits, runNode, h]
  | .conditional guard source children span =>
      have hdead := @expandVisits_nodes_dead _ executor layout children (.leave :: rest)
        (false :: branches) rfl
      have hlive := @expandVisits_nodes children (.leave :: rest) (true :: branches)
        (by simpa using h) hfree
      simp only [Node.visits, List.cons_append, List.append_assoc, List.nil_append, expandVisits, h,
        runNode, if_true, bind_assoc]
      congr 1
      funext progress
      congr 1
      funext included
      cases included with
      | false =>
          rw [hdead]
          simp [expandVisits, assembleNode, map_empty_append]
      | true =>
          rw [hlive]
          simp [expandVisits, assembleNode]

theorem expandVisits_nodes (nodes : List Node) (rest : List Visit) {branches : List Bool}
    (h : branches.all id = true) (hfree : anyDirective nodes = false) :
    expandVisits executor layout (visits nodes ++ rest) branches = (do
      let executed ← runNodes executor nodes
      let out ← expandVisits executor layout rest branches
      pure (assemble layout executed ++ out)) := by
  match nodes with
  | [] => simp [visits, runNodes, assemble, map_empty_append]
  | node :: more =>
      simp only [anyDirective, Bool.or_eq_false_iff] at hfree
      rw [visits, List.append_assoc, expandVisits_node node _ h hfree.1]
      simp only [expandVisits_nodes more rest h hfree.2]
      simp only [runNodes, assemble, bind_assoc, pure_bind, String.append_assoc]

end

end Visits

-- Two walks that differ only in what the classification gives to the blocks, which are counted
-- from one number on and up to another.
inductive Classifies (registry : Registry) (language : String) :
    Nat → List Visit → List Visit → Nat → Prop
  | nil (next : Nat) : Classifies registry language next [] [] next
  | prose {next last : Nat} {vs ws : List Visit} (piece : Prose) :
      Classifies registry language next vs ws last →
      Classifies registry language next (.prose piece :: vs) (.prose piece :: ws) last
  | code {next last : Nat} {vs ws : List Visit} {block own : CodeBlock} :
      classifyBlock registry language next block = .ok own →
      Classifies registry language (next + 1) vs ws last →
      Classifies registry language next (.code block :: vs) (.code own :: ws) last
  | enter {next last : Nat} {vs ws : List Visit} (guard : Calc.Guard) (source : String)
      (span : Span) :
      Classifies registry language next vs ws last →
      Classifies registry language next (.enter guard source span :: vs)
        (.enter guard source span :: ws) last
  | leave {next last : Nat} {vs ws : List Visit} :
      Classifies registry language next vs ws last →
      Classifies registry language next (.leave :: vs) (.leave :: ws) last

section Classification

variable {registry : Registry} {language : String}

theorem Classifies.append {next middle last : Nat} {vs ws vs' ws' : List Visit}
    (h : Classifies registry language next vs ws middle)
    (h' : Classifies registry language middle vs' ws' last) :
    Classifies registry language next (vs ++ vs') (ws ++ ws') last := by
  induction h with
  | nil => exact h'
  | prose piece _ ih => exact .prose piece (ih h')
  | code hblock _ ih => exact .code hblock (ih h')
  | enter guard source span _ ih => exact .enter guard source span (ih h')
  | leave _ ih => exact .leave (ih h')

theorem classifies_nodes {next last : Nat} {nodes own : List Node}
    (h : classifyNodes registry language next nodes = .ok (own, last)) :
    Classifies registry language next (visits nodes) (visits own) last ∧
      anyDirective own = false := by
  induction nodes using nodesInduction generalizing next last own with
  | nil =>
      obtain ⟨rfl, rfl⟩ := classifyNodes_nil_eq_ok h
      exact ⟨.nil _, rfl⟩
  | prose piece rest ih =>
      obtain ⟨others, hrest, rfl⟩ := classifyNodes_prose_eq_ok h
      obtain ⟨hmore, hnone⟩ := ih hrest
      exact ⟨.prose piece hmore, hnone⟩
  | directive directive rest _ => exact (classifyNodes_directive_ne_ok h).elim
  | code block rest ih =>
      obtain ⟨first, others, hblock, hrest, rfl⟩ := classifyNodes_code_eq_ok h
      obtain ⟨hmore, hnone⟩ := ih hrest
      exact ⟨.code hblock hmore, hnone⟩
  | conditional guard source children span rest ihChildren ihRest =>
      obtain ⟨branch, middle, others, hbranch, hrest, rfl⟩ := classifyNodes_conditional_eq_ok h
      obtain ⟨hvisits, hfree⟩ := ihChildren hbranch
      obtain ⟨hmore, hnone⟩ := ihRest hrest
      refine ⟨(Classifies.enter guard source span (hvisits.append (.leave (.nil _)))).append hmore,
        ?_⟩
      rw [anyDirective, hnone, Node.hasDirective, hfree]
      rfl

end Classification

section Stages

variable {executor : Executor σ} {registry : Registry} (layout : Layout) {text : List Char}
  {source : Nat}

theorem renderCode_of_classified {index : Nat} {range : ByteRange} {info content : List Char}
    {block own : CodeBlock} (hblock : codeBlock text source range info content = .ok block)
    (hown : classifyBlock registry executor.language index block = .ok own) :
    renderCode executor registry layout text source index range info content =
      assembleNode layout <$> runBlock executor own := by
  simp only [renderCode, hblock, hown]

theorem decideMark_of_guard {start : Nat} {line : List Char} {marker : Marker}
    {guard : Calc.Guard}
    (hguard : Calc.parseGuard marker.argument (start + byteCount marker.front) = .ok guard) :
    (decideMark text source start line marker : Running σ Bool) = (do
      let progress ← get
      evaluateGuard guard (String.ofList marker.argument) (markSpan text source start line)
        progress.session) := by
  simp only [decideMark, hguard]

-- Reading the pieces does what walking over the classified tree does: the induction is on how the
-- segments come from the pieces.
theorem expandPieces_eq {ps : List Piece} {ss : List Segment} {vs ws : List Visit}
    {next last : Nat} (hg : Gathers ps ss) (hs : List.Forall₂ (Shows text source) ss vs)
    (hc : Classifies registry executor.language next vs ws last) (branches : List Bool) :
    expandPieces executor registry layout text source ps branches next =
      expandVisits executor layout ws branches := by
  induction hg generalizing vs ws next branches with
  | nil =>
      cases hs
      cases hc
      rfl
  | kept before piece _ ih =>
      cases hs with
      | cons hfirst hmore =>
          cases hfirst
          cases hc with
          | prose _ hc => simp only [expandPieces, expandVisits, ih hmore hc]
  | join before piece _ ih =>
      cases hs with
      | cons hfirst hmore =>
          cases hfirst
          cases hc with
          | prose _ hc =>
              have hnext := ih (.cons (.prose _ _) hmore) (.prose _ hc) branches
              simp only [expandVisits] at hnext
              simp only [expandPieces, expandVisits, hnext, bind_assoc, pure_bind]
              cases branches.all id <;> simp [String.append_assoc]
  | mark before line marker _ ih =>
      cases hs with
      | cons hfirst hmore =>
          cases hfirst with
          | insert path part hkeyword => cases hc
          | startIf hkeyword hargument hguard =>
              cases hc with
              | enter _ _ _ hc =>
                  simp only [expandPieces, hkeyword, expandVisits, decideMark_of_guard hguard,
                    ih hmore hc, bind_assoc]
          | endIf hkeyword =>
              cases hc with
              | leave hc => simp only [expandPieces, hkeyword, expandVisits, ih hmore hc]
  | fenced before code range info content _ ih =>
      cases hs with
      | cons hfirst hmore =>
          cases hfirst with
          | fenced hblock =>
              cases hc with
              | code hown hc =>
                  simp only [expandPieces, expandVisits, renderCode_of_classified layout hblock hown,
                    ih hmore hc]
  | indented before code range _ ih =>
      cases hs with
      | cons hfirst hmore =>
          cases hfirst
          cases hc with
          | prose _ hc => simp only [expandPieces, expandVisits, ih hmore hc]

end Stages

theorem classifies_of_classify {registry : Registry} {language : String} {document : Document}
    {classified : Classified} (h : classify registry language document = .ok classified) :
    classified.language = language ∧ anyDirective classified.document.nodes = false ∧
      ∃ last, Classifies registry language 0 (visits document.nodes)
        (visits classified.document.nodes) last := by
  obtain ⟨nodes, last, hnodes, rfl⟩ := classify_eq_ok h
  obtain ⟨hvisits, hfree⟩ := classifies_nodes hnodes
  exact ⟨rfl, hfree, last, hvisits⟩

-- The progress that a run of a document starts from: no block has been reached.
def Progress.pending (progress : Progress σ) (classified : Classified) : Progress σ :=
  { progress with states := List.replicate classified.blockCount .pending }

theorem run_runDocument_eq_ok {executor : Executor σ} {classified : Classified}
    {progress after : Progress σ} {executed : List Executed}
    (h : (runDocument executor classified).run progress = (.ok executed, after)) :
    classified.language = executor.language ∧
      (runNodes executor classified.document.nodes).run (progress.pending classified) =
        (.ok executed, after) := by
  unfold runDocument at h
  by_cases hlanguage : classified.language = executor.language
  · refine ⟨hlanguage, ?_⟩
    simp only [hlanguage, ne_eq, not_true_eq_false, if_false] at h
    exact h
  · simp only [ne_eq, hlanguage, not_false_eq_true, if_true] at h
    rw [Action.run_bind_of_error (Action.run_throw _ progress)] at h
    cases h

-- The pieces of a whole text.
def piecesOf (text : List Char) : List Piece :=
  pieces [] text (regions text ⟨0, byteCount text⟩)

-- Where parsing, classifying and running a text succeed, the document that comes out is what one
-- reading of the text from left to right puts together, and that leaves the same progress.
theorem run_expandPieces_of_runDocument {executor : Executor σ} {registry : Registry}
    {layout : Layout} {language : String} {text : List Char} {source : Nat} {document : Document}
    {classified : Classified} {progress after : Progress σ} {executed : List Executed}
    (hown : OwnLines text) (hparse : parseDocument text source = .ok document)
    (hclassify : classify registry language document = .ok classified)
    (hrun : (runDocument executor classified).run progress = (.ok executed, after)) :
    (piecesOf text).flatMap Piece.text = text ∧
      (∀ piece ∈ piecesOf text,
        piece.Fits text ⟨0, byteCount text⟩ (regions text ⟨0, byteCount text⟩)) ∧
      (expandPieces executor registry layout text source (piecesOf text) [] 0).run
        (progress.pending classified) = (.ok (assemble layout executed), after) := by
  have htext : text = [] ++ text ++ [] := by rw [List.append_nil, List.nil_append]
  have htiled : Tiled text ⟨0, byteCount text⟩ [] text (piecesOf text) :=
    tiled_pieces htext rfl hown
  obtain ⟨hlanguage, hfree, last, hclassifies⟩ := classifies_of_classify hclassify
  obtain ⟨hsame, hnodes⟩ := run_runDocument_eq_ok hrun
  rw [← hlanguage, hsame] at hclassifies
  have hpieces := expandPieces_eq layout htiled.gathers (shows_parseWindow hparse) hclassifies []
  have hwalk := @expandVisits_nodes _ executor layout classified.document.nodes [] [] rfl hfree
  rw [List.append_nil] at hwalk
  refine ⟨htiled.flatMap_text, htiled.fits, ?_⟩
  rw [hpieces, hwalk, Action.run_bind_of_ok hnodes]
  simp [expandVisits]

-- A taken branch with code that runs and, inside, one that is not taken.
def branching : List Char :=
  "a\n!if true\n```calc\nprint(\"b\")\n```\n!if \"\"\nno\n!endif\n!endif\nc".toList

theorem blocks_branching : Markdown.blocks (slice branching 0 (byteCount branching)) =
    ([.fenced ⟨11, 33⟩ "calc".toList "print(\"b\")\n".toList], []) := by
  cbv

theorem segments_branching : segments branching ⟨0, byteCount branching⟩ =
    [.prose 0 "a\n".toList, .mark 2 "!if true\n".toList ⟨.startIf, "!if ".toList, "true".toList⟩,
      .fenced ⟨11, 34⟩ "calc".toList "print(\"b\")\n".toList,
      .mark 34 "!if \"\"\n".toList ⟨.startIf, "!if ".toList, "\"\"".toList⟩,
      .prose 41 "no\n".toList, .mark 44 "!endif\n".toList ⟨.endIf, "!endif".toList, []⟩,
      .mark 51 "!endif\n".toList ⟨.endIf, "!endif".toList, []⟩, .prose 58 "c".toList] := by
  rw [segments, regions, blocks_branching]
  decide +kernel

def branchingBlock : CodeBlock :=
  ⟨some "calc", "calc", [], .empty, 0, "```", "print(\"b\")\n", "", ⟨0, ⟨11, 34⟩, 3⟩⟩

def branchingDocument : Document := ⟨0,
  [.prose ⟨"a\n", ⟨0, ⟨0, 2⟩, 1⟩⟩,
    .conditional ⟨.bool true, Calc.callFree_bool true⟩ "true"
      [.code branchingBlock,
        .conditional ⟨.text "", rfl⟩ "\"\"" [.prose ⟨"no\n", ⟨0, ⟨41, 44⟩, 7⟩⟩] ⟨0, ⟨34, 40⟩, 6⟩]
      ⟨0, ⟨2, 10⟩, 2⟩,
    .prose ⟨"c", ⟨0, ⟨58, 59⟩, 10⟩⟩]⟩

theorem parseDocument_branching : parseDocument branching 0 = .ok branchingDocument := by
  rw [parseDocument, parseWindow, segments_branching]
  cbv

theorem classify_branching :
    classify .standard "calc" branchingDocument = .ok ⟨branchingDocument, "calc"⟩ := by
  cbv

def branchingExecuted : List Executed :=
  [.prose "a\n", .conditional "true" true
    [.block branchingBlock (some ⟨"b\n", []⟩), .conditional "\"\"" false []], .prose "c"]

theorem runDocument_branching :
    (runDocument Executor.calc ⟨branchingDocument, "calc"⟩).run (.start () "block") =
      (.ok branchingExecuted,
        ⟨(), Calc.Session.empty.enter 0, .empty "block", [.succeeded]⟩) := by
  cbv

theorem assemble_branching : assemble ⟨"artifacts", "text"⟩ branchingExecuted =
    "a\n```calc\nprint(\"b\")\n```\n\n```text\nb\n```\nc" := by
  cbv

theorem run_expandPieces_branching :
    OwnLines branching ∧ (piecesOf branching).flatMap Piece.text = branching ∧
      ∃ after, (expandPieces Executor.calc .standard ⟨"artifacts", "text"⟩ branching 0
        (piecesOf branching) [] 0).run
          ((Progress.start () "block").pending ⟨branchingDocument, "calc"⟩) =
        (.ok "a\n```calc\nprint(\"b\")\n```\n\n```text\nb\n```\nc", after) := by
  have hown : OwnLines branching := by
    have hslice : slice branching 0 (byteCount branching) = branching := by decide +kernel
    have hblocks := blocks_branching
    rw [hslice] at hblocks
    rw [OwnLines, Markdown.codeRanges, hblocks]
    exact List.pairwise_singleton _ _
  obtain ⟨hall, -, hrun⟩ := @run_expandPieces_of_runDocument _ _ _ ⟨"artifacts", "text"⟩ _ _ _ _ _
    _ _ _ hown parseDocument_branching classify_branching runDocument_branching
  rw [assemble_branching] at hrun
  exact ⟨hown, hall, _, hrun⟩

end LiveDoc
