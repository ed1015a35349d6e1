import LiveDoc.Proofs.Data.Action
import LiveDoc.Proofs.Document.Tags
import LiveDoc.Proofs.Document.Visits
import Mathlib

namespace LiveDoc

section Blocks

variable {registry : Registry} {language : String} {index : Nat} {block : CodeBlock}

theorem contains_annotated (m : Modifier) :
    (block.annotated registry language index).modifiers.contains m = true ↔
      m ∈ registry.meanings block.tags ∨ m = .noExec ∧ block.language ≠ some language := by
  rw [CodeBlock.annotated, ModifierSet.contains_ofList, List.contains_iff_mem]
  split
  · simp [*]
  · simp [*, or_comm]

theorem eq_noExec_of_idle {m : Modifier} (h : m.needsExecution = false) : m = .noExec := by
  simpa [Modifier.needsExecution] using h

-- The modifiers of a block do not conflict, also where not to run is one that no tag asks for.
theorem apart_annotated (h : block.Acceptable registry language) :
    ∀ a b, (block.annotated registry language index).modifiers.contains a = true →
      (block.annotated registry language index).modifiers.contains b = true →
      a.conflicts b = false := by
  intro a b ha hb
  rw [contains_annotated] at ha hb
  by_cases hlanguage : block.language = some language
  · simp only [hlanguage, ne_eq, not_true_eq_false, and_false, or_false] at ha hb
    exact h.tags.apart a ha b hb
  · have hidle : ∀ m, m ∈ registry.meanings block.tags ∨
        m = .noExec ∧ block.language ≠ some language → m = .noExec := by
      rintro m (hm | ⟨hm, -⟩)
      · exact eq_noExec_of_idle (h.idle hlanguage m hm)
      · exact hm
    rw [hidle a ha, hidle b hb]
    rfl

theorem language_of_executes
    (h : (block.annotated registry language index).modifiers.executes = true) :
    block.language = some language := by
  by_contra hlanguage
  have hnoExec : (block.annotated registry language index).modifiers.contains .noExec = true :=
    (contains_annotated _).mpr (.inr ⟨rfl, hlanguage⟩)
  rw [ModifierSet.executes, hnoExec] at h
  cases h

end Blocks

-- A step of a walk with which nothing is wrong.
def Visit.Clean (registry : Registry) (language : String) : Visit → Prop
  | .directive _ => False
  | .code block => block.Acceptable registry language
  | _ => True

-- What is wrong with a step: a directive is left, or a block cannot be classified.
inductive Visit.Fault (registry : Registry) (language : String) : Visit → DocumentError → Prop
  | directive (own : Include) :
      Fault registry language (.directive own) (.unresolved own.path own.span)
  | code {block : CodeBlock} {error : DocumentError} :
      block.Fault registry language error → Fault registry language (.code block) error

-- What is wrong with the first step that something is wrong with.
def FirstFault (registry : Registry) (language : String) (vs : List Visit)
    (error : DocumentError) : Prop :=
  ∃ before visit behind, vs = before ++ visit :: behind ∧
    (∀ earlier ∈ before, earlier.Clean registry language) ∧ visit.Fault registry language error

section Faults

variable {registry : Registry} {language : String} {error : DocumentError} {vs : List Visit}

theorem Visit.Fault.not_clean {visit : Visit} (h : visit.Fault registry language error) :
    ¬ visit.Clean registry language := by
  cases h with
  | directive own => exact id
  | code hfault => exact hfault.not_acceptable

theorem Visit.Fault.first {visit : Visit} (h : visit.Fault registry language error)
    (behind : List Visit) : FirstFault registry language (visit :: behind) error :=
  ⟨[], visit, behind, rfl, List.forall_mem_nil _, h⟩

theorem FirstFault.append (h : FirstFault registry language vs error) (more : List Visit) :
    FirstFault registry language (vs ++ more) error := by
  obtain ⟨before, visit, behind, rfl, hbefore, hfault⟩ := h
  exact ⟨before, visit, behind ++ more, by simp, hbefore, hfault⟩

theorem FirstFault.cons (hclean : visit.Clean registry language)
    (h : FirstFault registry language vs error) :
    FirstFault registry language (visit :: vs) error := by
  obtain ⟨before, later, behind, rfl, hbefore, hfault⟩ := h
  exact ⟨visit :: before, later, behind, rfl, List.forall_mem_cons.mpr ⟨hclean, hbefore⟩, hfault⟩

theorem FirstFault.behind {front : List Visit}
    (hfront : ∀ visit ∈ front, visit.Clean registry language)
    (h : FirstFault registry language vs error) :
    FirstFault registry language (front ++ vs) error := by
  obtain ⟨before, visit, behind, rfl, hbefore, hfault⟩ := h
  refine ⟨front ++ before, visit, behind, (List.append_assoc ..).symm, fun earlier hearlier => ?_,
    hfault⟩
  exact (List.mem_append.mp hearlier).elim (hfront earlier) (hbefore earlier)

theorem FirstFault.not_clean (h : FirstFault registry language vs error) :
    ¬ ∀ visit ∈ vs, visit.Clean registry language := by
  obtain ⟨before, visit, behind, rfl, -, hfault⟩ := h
  exact fun hclean => hfault.not_clean (hclean visit (by simp))

-- Only directives and blocks can be at fault.
theorem clean_visits_iff (registry : Registry) (language : String) (nodes : List Node) :
    (∀ visit ∈ visits nodes, visit.Clean registry language) ↔
      anyDirective nodes = false ∧ ∀ block ∈ blocksOf nodes, block.Acceptable registry language := by
  induction nodes using nodesInduction with
  | nil => simp [visits, anyDirective, blocksOf]
  | prose own rest ih =>
      simpa [visits, Node.visits, anyDirective, Node.hasDirective, blocksOf, Node.blocks,
        Visit.Clean] using ih
  | directive own rest _ =>
      simp [visits, Node.visits, anyDirective, Node.hasDirective, Visit.Clean]
  | code own rest ih =>
      simp only [visits, Node.visits, List.singleton_append, List.forall_mem_cons, anyDirective,
        Node.hasDirective, Bool.false_or, blocksOf, Node.blocks, Visit.Clean]
      tauto
  | conditional guard source children span rest ihChildren ihRest =>
      simp only [visits, Node.visits, List.cons_append, List.forall_mem_cons, List.forall_mem_append,
        anyDirective, Node.hasDirective, Bool.or_eq_false_iff, blocksOf, Node.blocks, Visit.Clean]
      tauto

end Faults

-- A block and what the classification makes of it.
def CodeBlock.AnnotatedAs (registry : Registry) (language : String) (block own : CodeBlock) :
    Prop :=
  own = block.annotated registry language own.index

-- What comes of the nodes of a tree that are numbered from `next` on.
inductive ClassifiesTo (registry : Registry) (language : String) (next : Nat) (nodes : List Node) :
    Except DocumentError (List Node × Nat) → Prop
  | ok {own : List Node} :
      (∀ visit ∈ visits nodes, visit.Clean registry language) →
      SameBut (CodeBlock.AnnotatedAs registry language) nodes own →
      (blocksOf own).map CodeBlock.index = List.range' next (blocksOf nodes).length →
      ClassifiesTo registry language next nodes (.ok (own, next + (blocksOf nodes).length))
  | error {error : DocumentError} :
      FirstFault registry language (visits nodes) error →
      ClassifiesTo registry language next nodes (.error error)

section Classification

variable {registry : Registry} {language : String}

theorem classifiesTo_prose {next : Nat} {rest : List Node} (own : Prose)
    (h : ClassifiesTo registry language next rest (classifyNodes registry language next rest)) :
    ClassifiesTo registry language next (.prose own :: rest)
      (classifyNodes registry language next (.prose own :: rest)) := by
  simp only [classifyNodes, classifyNode, bind, Except.bind]
  generalize classifyNodes registry language next rest = result at h
  cases h with
  | error hfault => exact .error (hfault.cons trivial)
  | ok hclean hsame hindices =>
      exact .ok (List.forall_mem_cons.mpr ⟨trivial, hclean⟩) (.prose own hsame) hindices

theorem classifiesTo_code {next : Nat} {rest : List Node} (own : CodeBlock)
    (h : ClassifiesTo registry language (next + 1) rest
      (classifyNodes registry language (next + 1) rest)) :
    ClassifiesTo registry language next (.code own :: rest)
      (classifyNodes registry language next (.code own :: rest)) := by
  simp only [classifyNodes, classifyNode, bind, Except.bind]
  rcases classifyBlock_cases registry language next own with ⟨haccepts, hown⟩ | ⟨error, hfault, hown⟩
  · simp only [hown]
    generalize classifyNodes registry language (next + 1) rest = result at h
    cases h with
    | error hfault => exact .error (hfault.cons haccepts)
    | ok hclean hsame hindices =>
        have hlength : next + 1 + (blocksOf rest).length =
            next + (blocksOf (.code own :: rest)).length := by
          simp only [blocksOf, Node.blocks, List.singleton_append, List.length_cons]
          omega
        rw [hlength]
        refine .ok (List.forall_mem_cons.mpr ⟨haccepts, hclean⟩) (.code rfl hsame) ?_
        simp only [blocksOf, Node.blocks, List.singleton_append, List.map_cons, hindices,
          List.length_cons, List.range'_succ]
        rfl
  · simp only [hown]
    exact .error (Visit.Fault.first (.code hfault) (visits rest))

theorem classifiesTo_conditional {next : Nat} {children rest : List Node} (guard : Calc.Guard)
    (source : String) (span : Span)
    (h : ClassifiesTo registry language next children
      (classifyNodes registry language next children))
    (hrest : ∀ middle, ClassifiesTo registry language middle rest
      (classifyNodes registry language middle rest)) :
    ClassifiesTo registry language next (.conditional guard source children span :: rest)
      (classifyNodes registry language next (.conditional guard source children span :: rest)) := by
  have hvisits : visits (.conditional guard source children span :: rest) =
      .enter guard source span :: (visits children ++ .leave :: visits rest) := by
    simp only [visits, Node.visits, List.cons_append, List.append_assoc, List.nil_append]
  have hblocks : blocksOf (.conditional guard source children span :: rest) =
      blocksOf children ++ blocksOf rest := rfl
  simp only [classifyNodes, classifyNode, bind, Except.bind]
  generalize classifyNodes registry language next children = result at h
  cases h with
  | error hfault =>
      refine .error ?_
      rw [hvisits]
      exact (hfault.append _).cons trivial
  | @ok branch hclean hsame hindices =>
      have hlater := hrest (next + (blocksOf children).length)
      dsimp only
      generalize classifyNodes registry language (next + (blocksOf children).length) rest = others
        at hlater
      have hfront : ∀ visit ∈ .enter guard source span :: (visits children ++ [.leave]),
          Visit.Clean registry language visit := by
        refine List.forall_mem_cons.mpr ⟨trivial, List.forall_mem_append.mpr ⟨hclean, ?_⟩⟩
        exact List.forall_mem_singleton.mpr trivial
      cases hlater with
      | error hfault =>
          refine .error ?_
          have hall := hfault.behind hfront
          rwa [List.cons_append, List.append_assoc, List.singleton_append, ← hvisits] at hall
      | ok hmore hothers hlast =>
          rw [Nat.add_assoc, ← List.length_append, ← hblocks]
          refine .ok ?_ (.conditional guard source span hsame hothers) ?_
          · have hall := List.forall_mem_append.mpr ⟨hfront, hmore⟩
            rwa [List.cons_append, List.append_assoc, List.singleton_append, ← hvisits] at hall
          · rw [hblocks, List.length_append, ← List.range'_append_1, ← hindices, ← hlast,
              ← List.map_append]
            rfl

theorem classifiesTo (registry : Registry) (language : String) (next : Nat) (nodes : List Node) :
    ClassifiesTo registry language next nodes (classifyNodes registry language next nodes) := by
  induction nodes using nodesInduction generalizing next with
  | nil => exact .ok (fun _ h => nomatch h) .nil rfl
  | prose own rest ih => exact classifiesTo_prose own (ih next)
  | directive own rest _ =>
      exact .error (Visit.Fault.first (.directive own) (visits rest))
  | code own rest ih => exact classifiesTo_code own (ih (next + 1))
  | conditional guard source children span rest ihChildren ihRest =>
      exact classifiesTo_conditional guard source span (ihChildren next) ihRest

end Classification

theorem forall_mem_of_forall₂ {α β : Type} {R : α → β → Prop} {P : α → Prop} {Q : β → Prop}
    {front : List α} {back : List β} (h : List.Forall₂ R front back)
    (hR : ∀ a b, R a b → P a → Q b) (hfront : ∀ a ∈ front, P a) : ∀ b ∈ back, Q b := by
  induction h with
  | nil => exact fun _ h => nomatch h
  | cons hfirst _ ih =>
      obtain ⟨ha, hrest⟩ := List.forall_mem_cons.mp hfront
      exact List.forall_mem_cons.mpr ⟨hR _ _ hfirst ha, ih hrest⟩

theorem SameBut.forall₂_blocks {R : CodeBlock → CodeBlock → Prop} {nodes others : List Node}
    (h : SameBut R nodes others) : List.Forall₂ R (blocksOf nodes) (blocksOf others) := by
  induction h with
  | nil => exact .nil
  | prose _ _ ih | directive _ _ ih => exact ih
  | code hblock _ ih => exact .cons hblock ih
  | conditional _ _ _ _ _ ihChildren ihRest => exact List.rel_append ihChildren ihRest

-- What is made of a document that is accepted. Nothing but the modifiers and the index of a block
-- is set.
structure Annotates (registry : Registry) (language : String) (document : Document)
    (classified : Classified) : Prop where
  target : classified.language = language
  source : classified.document.source = document.source
  same : SameBut (CodeBlock.AnnotatedAs registry language) document.nodes classified.document.nodes
  numbered : classified.document.blocks.map CodeBlock.index = List.range classified.blockCount
  apart : ∀ own ∈ classified.document.blocks, ∀ a b, own.modifiers.contains a = true →
    own.modifiers.contains b = true → a.conflicts b = false
  runs : ∀ own ∈ classified.document.blocks, own.modifiers.executes = true →
    own.language = some language

section Documents

variable {registry : Registry} {language : String} {document : Document} {classified : Classified}

theorem classify_cases (registry : Registry) (language : String) (document : Document) :
    (∀ visit ∈ visits document.nodes, visit.Clean registry language) ∧
      (∃ nodes, classify registry language document = .ok ⟨⟨document.source, nodes⟩, language⟩ ∧
        SameBut (CodeBlock.AnnotatedAs registry language) document.nodes nodes ∧
        (blocksOf nodes).map CodeBlock.index = List.range' 0 (blocksOf document.nodes).length) ∨
    ∃ error, FirstFault registry language (visits document.nodes) error ∧
      classify registry language document = .error error := by
  have h := classifiesTo registry language 0 document.nodes
  simp only [classify, bind, Except.bind]
  generalize classifyNodes registry language 0 document.nodes = result at h
  cases h with
  | ok hclean hsame hindices => exact .inl ⟨hclean, _, rfl, hsame, hindices⟩
  | error hfault => exact .inr ⟨_, hfault, rfl⟩

theorem exists_classify_iff :
    (∃ classified, classify registry language document = .ok classified) ↔
      document.hasDirectives = false ∧
        ∀ block ∈ document.blocks, block.Acceptable registry language := by
  rw [Document.hasDirectives, Document.blocks, ← clean_visits_iff]
  rcases classify_cases registry language document with ⟨hclean, nodes, hok, -⟩ |
    ⟨error, hfault, herror⟩
  · exact ⟨fun _ => hclean, fun _ => ⟨_, hok⟩⟩
  · constructor
    · rintro ⟨classified, hok⟩
      cases herror.symm.trans hok
    · intro hclean
      exact (hfault.not_clean hclean).elim

theorem annotates_of_classify (h : classify registry language document = .ok classified) :
    Annotates registry language document classified := by
  rcases classify_cases registry language document with ⟨hclean, nodes, hok, hsame, hindices⟩ |
    ⟨error, -, herror⟩
  · cases hok.symm.trans h
    -- Each block comes from one of the document.
    have hown : ∀ own ∈ blocksOf nodes, ∃ block : CodeBlock, block.Acceptable registry language ∧
        own = block.annotated registry language own.index :=
      forall_mem_of_forall₂ hsame.forall₂_blocks (fun block _ hannotated haccepts =>
        ⟨block, haccepts, hannotated⟩) ((clean_visits_iff ..).mp hclean).2
    refine ⟨rfl, rfl, hsame, ?_, fun own hmem a b => ?_, fun own hmem hexecutes => ?_⟩
    · rw [Document.blocks, hindices, List.range_eq_range', Classified.blockCount, Document.blocks,
        hsame.length_blocks]
    · obtain ⟨block, haccepts, hannotated⟩ := hown own hmem
      rw [hannotated]
      exact apart_annotated haccepts a b
    · obtain ⟨block, -, hannotated⟩ := hown own hmem
      rw [hannotated] at hexecutes ⊢
      exact language_of_executes hexecutes
  · cases herror.symm.trans h

theorem firstFault_of_classify {error : DocumentError}
    (h : classify registry language document = .error error) :
    FirstFault registry language (visits document.nodes) error := by
  rcases classify_cases registry language document with ⟨-, nodes, hok, -⟩ |
    ⟨own, hfault, herror⟩
  · cases hok.symm.trans h
  · cases herror.symm.trans h
    exact hfault

end Documents

-- Blocks of one language whose tags mean the same, whatever their order and however often, each
-- for its own registry. An unknown tag means nothing.
def CodeBlock.MeansAs (registry registry' : Registry) (own other : CodeBlock) : Prop :=
  own.language = other.language ∧
    ∀ meaning, meaning ∈ own.tags.map registry.lookup? ↔ meaning ∈ other.tags.map registry'.lookup?

section Meanings

variable {registry registry' : Registry} {language : String} {own other : CodeBlock}

theorem mem_meanings_iff_map {tags : List String} {m : Modifier} :
    m ∈ registry.meanings tags ↔ some m ∈ tags.map registry.lookup? := by
  rw [mem_meanings, List.mem_map]

theorem CodeBlock.MeansAs.symm (h : own.MeansAs registry registry' other) :
    other.MeansAs registry' registry own := ⟨h.1.symm, fun meaning => (h.2 meaning).symm⟩

theorem CodeBlock.MeansAs.mem_meanings_iff (h : own.MeansAs registry registry' other)
    (m : Modifier) : m ∈ registry.meanings own.tags ↔ m ∈ registry'.meanings other.tags := by
  rw [mem_meanings_iff_map, mem_meanings_iff_map, h.2]

theorem CodeBlock.MeansAs.acceptable (h : own.MeansAs registry registry' other)
    (hown : own.Acceptable registry language) : other.Acceptable registry' language where
  tags := {
    known := fun tag htag hnone => by
      have hmem : none ∈ other.tags.map registry'.lookup? := List.mem_map.mpr ⟨tag, htag, hnone⟩
      obtain ⟨first, hfirst, hlookup⟩ := List.mem_map.mp ((h.2 none).mpr hmem)
      exact hown.tags.known first hfirst hlookup
    apart := fun a ha b hb =>
      hown.tags.apart a ((h.mem_meanings_iff a).mpr ha) b ((h.mem_meanings_iff b).mpr hb) }
  idle hlanguage m hm := hown.idle (h.1 ▸ hlanguage) m ((h.mem_meanings_iff m).mpr hm)

theorem ofList_congr {front back : List Modifier} (h : ∀ m, m ∈ front ↔ m ∈ back) :
    ModifierSet.ofList front = ModifierSet.ofList back := by
  rw [ModifierSet.ofList, ModifierSet.ofList]
  congr 1
  refine List.filter_congr fun m _ => ?_
  rw [Bool.eq_iff_iff, List.contains_iff_mem, List.contains_iff_mem, h]

theorem CodeBlock.MeansAs.modifiers_eq (h : own.MeansAs registry registry' other)
    (index index' : Nat) : (own.annotated registry language index).modifiers =
      (other.annotated registry' language index').modifiers := by
  rw [CodeBlock.annotated, CodeBlock.annotated, h.1]
  split
  · exact ofList_congr h.mem_meanings_iff
  · exact ofList_congr fun m => by rw [List.mem_cons, List.mem_cons, h.mem_meanings_iff]

end Meanings

theorem map_modifiers_eq {registry registry' : Registry} {language : String}
    {blocks others owns own' : List CodeBlock}
    (h : List.Forall₂ (CodeBlock.MeansAs registry registry') blocks others)
    (hown : List.Forall₂ (CodeBlock.AnnotatedAs registry language) blocks owns)
    (hother : List.Forall₂ (CodeBlock.AnnotatedAs registry' language) others own') :
    owns.map CodeBlock.modifiers = own'.map CodeBlock.modifiers := by
  induction h generalizing owns own' with
  | nil =>
      cases hown
      cases hother
      rfl
  | cons hmeans _ ih =>
      cases hown with
      | cons hfirst hrest =>
          cases hother with
          | cons hfirst' hrest' =>
              rw [List.map_cons, List.map_cons, ih hrest hrest', hfirst, hfirst',
                hmeans.modifiers_eq]

-- Which documents are accepted, and what is made of them. Otherwise the error is that of the first
-- step of the walk that something is wrong with, so a branch that turns out false is checked too.
-- Of the tags of a block it only matters what they mean.
theorem classification_is_exact (registry : Registry) (language : String) (document : Document) :
    ((∃ classified, classify registry language document = .ok classified) ↔
      document.hasDirectives = false ∧
        ∀ block ∈ document.blocks, block.Acceptable registry language) ∧
    (∀ classified, classify registry language document = .ok classified →
      Annotates registry language document classified) ∧
    (∀ error, classify registry language document = .error error →
      FirstFault registry language (visits document.nodes) error) ∧
    ∀ registry' document', document.hasDirectives = document'.hasDirectives →
      List.Forall₂ (CodeBlock.MeansAs registry registry') document.blocks document'.blocks →
      ((∃ classified, classify registry language document = .ok classified) ↔
        ∃ classified, classify registry' language document' = .ok classified) ∧
      ∀ classified classified', classify registry language document = .ok classified →
        classify registry' language document' = .ok classified' →
        classified.document.blocks.map CodeBlock.modifiers =
          classified'.document.blocks.map CodeBlock.modifiers := by
  refine ⟨exists_classify_iff, fun _ => annotates_of_classify, fun _ => firstFault_of_classify,
    fun registry' document' hdirectives hmeans => ⟨?_, fun classified classified' hok hok' => ?_⟩⟩
  · rw [exists_classify_iff, exists_classify_iff, hdirectives]
    refine and_congr_right fun _ => ⟨?_, ?_⟩
    · exact forall_mem_of_forall₂ hmeans fun _ _ h => h.acceptable
    · exact forall_mem_of_forall₂ hmeans.flip fun _ _ h => (CodeBlock.MeansAs.symm h).acceptable
  · exact map_modifiers_eq hmeans (annotates_of_classify hok).same.forall₂_blocks
      (annotates_of_classify hok').same.forall₂_blocks

def taggedBlock (language : Option String) (tags : List String) : CodeBlock :=
  ⟨language, "", tags, .empty, 0, "```", "", "", ⟨0, ⟨0, 0⟩, 1⟩⟩

-- A condition on a name that nothing binds.
def draftOnly : Calc.Guard := ⟨.var "draft" ⟨0, 5⟩, rfl⟩

-- A block under a condition, and one that does not run.
def tagged : Document := ⟨0,
  [.conditional draftOnly "draft"
      [.code (taggedBlock (some "calc") ["hide-output", "artifact-only", "hide-output"])]
      ⟨0, ⟨0, 0⟩, 1⟩,
    .code (taggedBlock none ["no-exec"])]⟩

-- The same meanings in another order.
def reordered : Document := ⟨0,
  [.code (taggedBlock (some "calc") ["artifact-only", "hide-output"]),
    .code (taggedBlock none ["no-exec", "no-exec"])]⟩

-- A block of another language that one of its tags would run, before one with an unknown tag.
def misplaced : Document := ⟨0,
  [.code (taggedBlock (some "text") ["no-exec"]),
    .conditional draftOnly "draft" [.code (taggedBlock (some "text") ["silent"])]
      ⟨0, ⟨0, 0⟩, 1⟩,
    .code (taggedBlock (some "calc") ["loud"])]⟩

theorem tagged_and_reordered_mean_the_same :
    List.Forall₂ (CodeBlock.MeansAs .standard .standard) tagged.blocks reordered.blocks := by
  have hlookup : Registry.standard.lookup? "hide-output" = some .hideOutput ∧
      Registry.standard.lookup? "artifact-only" = some .artifactOnly ∧
      Registry.standard.lookup? "no-exec" = some .noExec := by decide +kernel
  refine .cons ⟨rfl, fun meaning => ?_⟩ (.cons ⟨rfl, fun meaning => ?_⟩ .nil)
  · simp [taggedBlock, hlookup]
    tauto
  · simp [taggedBlock, hlookup]

theorem classification_of_tagged : ∃ first second,
    classify .standard "calc" tagged = .ok first ∧
    classify .standard "calc" reordered = .ok second ∧
    Annotates .standard "calc" tagged first ∧ tagged.hasDirectives = reordered.hasDirectives ∧
    List.Forall₂ (CodeBlock.MeansAs .standard .standard) tagged.blocks reordered.blocks ∧
    first.document.blocks.map CodeBlock.modifiers = second.document.blocks.map CodeBlock.modifiers ∧
    classify .standard "calc" misplaced = .error
      (.conflict (.language (some "text")) "silent" ⟨0, ⟨0, 0⟩, 1⟩) ∧
    FirstFault .standard "calc" (visits misplaced.nodes)
      (.conflict (.language (some "text")) "silent" ⟨0, ⟨0, 0⟩, 1⟩) := by
  obtain ⟨-, hannotates, -, hmeans⟩ := classification_is_exact .standard "calc" tagged
  obtain ⟨hiff, hsame⟩ := hmeans .standard reordered rfl tagged_and_reordered_mean_the_same
  obtain ⟨first, hfirst⟩ : ∃ first, classify .standard "calc" tagged = .ok first :=
    Action.exists_ok_of_isOk (by decide +kernel)
  obtain ⟨second, hsecond⟩ := hiff.mp ⟨first, hfirst⟩
  have herror : classify .standard "calc" misplaced = .error
      (.conflict (.language (some "text")) "silent" ⟨0, ⟨0, 0⟩, 1⟩) := by cbv
  obtain ⟨-, -, hfault, -⟩ := classification_is_exact .standard "calc" misplaced
  exact ⟨first, second, hfirst, hsecond, hannotates first hfirst, rfl,
    tagged_and_reordered_mean_the_same, hsame first second hfirst hsecond, herror,
    hfault _ herror⟩

end LiveDoc
