import LiveDoc.Proofs.Data.Action
import LiveDoc.Proofs.Data.NameTable
import LiveDoc.Proofs.Document.Acceptance

namespace LiveDoc

open LiveDoc.Action (Follows)

-- A block with other tags.
def CodeBlock.respell (f : String → String) (block : CodeBlock) : CodeBlock :=
  { block with tags := block.tags.map f }

mutual

-- Nodes with other tags.
def Node.respell (f : String → String) : Node → Node
  | .code block => .code (block.respell f)
  | .conditional guard source children span =>
      .conditional guard source (respellAll f children) span
  | node => node

def respellAll (f : String → String) : List Node → List Node
  | [] => []
  | node :: rest => node.respell f :: respellAll f rest

end

def Document.respell (f : String → String) (document : Document) : Document :=
  ⟨document.source, respellAll f document.nodes⟩

def Classified.respell (f : String → String) (classified : Classified) : Classified :=
  ⟨classified.document.respell f, classified.language⟩

-- The same error where tags are spelled otherwise.
def DocumentError.respell (f : String → String) : DocumentError → DocumentError
  | .conflict (.tag first) second span => .conflict (.tag (f first)) (f second) span
  | .conflict (.language name) second span => .conflict (.language name) (f second) span
  | error => error

-- What becomes of a tag: another one that means the same by another registry.
def Registry.Respells (registry registry' : Registry) (f : String → String)
    (tags : List String) : Prop :=
  ∀ tag ∈ tags, ∃ modifier, registry.lookup? tag = some modifier ∧
    registry'.lookup? (f tag) = some modifier

section Respelling

variable {registry registry' : Registry} {f : String → String} {language : String}

theorem follows_resolveTags {tags : List String} (h : registry.Respells registry' f tags)
    (span : Span) (seen : List (String × Modifier)) :
    Follows (DocumentError.respell f)
      (fun own other => other = own.map fun entry => (f entry.1, entry.2))
      (resolveTags registry span seen tags)
      (resolveTags registry' span (seen.map fun entry => (f entry.1, entry.2)) (tags.map f)) := by
  induction tags generalizing seen with
  | nil => exact .ok rfl
  | cons tag rest ih =>
      obtain ⟨⟨modifier, hown, hother⟩, hrest⟩ := List.forall_mem_cons.mp h
      have hfind : (seen.map fun entry => (f entry.1, entry.2)).find?
          (fun earlier => earlier.2.conflicts modifier) =
          (seen.find? fun earlier => earlier.2.conflicts modifier).map
            fun entry => (f entry.1, entry.2) := List.find?_map
      rw [List.map_cons, resolveTags, resolveTags, hown, hother]
      dsimp only
      rw [hfind]
      cases hconflict : seen.find? fun earlier => earlier.2.conflicts modifier with
      | some found => exact .error (DocumentError.conflict (.tag found.1) tag span)
      | none =>
          have hlater := ih hrest (seen ++ [(tag, modifier)])
          rw [List.map_append] at hlater
          exact hlater

theorem follows_classifyBlock {block : CodeBlock} (h : registry.Respells registry' f block.tags)
    (index : Nat) :
    Follows (DocumentError.respell f) (fun own other => other = own.respell f)
      (classifyBlock registry language index block)
      (classifyBlock registry' language index (block.respell f)) := by
  refine (follows_resolveTags h block.span []).bind ?_
  rintro seen _ rfl
  have hmodifiers : (seen.map fun entry => (f entry.1, entry.2)).map (·.2) = seen.map (·.2) := by
    rw [List.map_map]
    rfl
  have hfind : (seen.map fun entry => (f entry.1, entry.2)).find?
      (fun tag => tag.2.needsExecution) =
      (seen.find? fun tag => tag.2.needsExecution).map fun entry => (f entry.1, entry.2) :=
    List.find?_map
  dsimp only
  rw [hmodifiers, hfind]
  by_cases hlanguage : block.language = some language
  · have hother : (block.respell f).language = some language := hlanguage
    rw [if_pos hlanguage, if_pos hother]
    exact .ok rfl
  · have hother : ¬ (block.respell f).language = some language := hlanguage
    rw [if_neg hlanguage, if_neg hother]
    cases hneeds : seen.find? fun tag => tag.2.needsExecution with
    | some found =>
        exact .error (DocumentError.conflict (.language block.language) found.1 block.span)
    | none => exact .ok rfl

mutual

theorem follows_classifyNode {node : Node}
    (h : ∀ block ∈ node.blocks, registry.Respells registry' f block.tags) (next : Nat) :
    Follows (DocumentError.respell f) (fun own other => other = (own.1.respell f, own.2))
      (classifyNode registry language next node)
      (classifyNode registry' language next (node.respell f)) := by
  match node with
  | .prose own => exact .ok rfl
  | .directive own => exact .error (DocumentError.unresolved own.path own.span)
  | .code block =>
      rw [Node.respell, classifyNode, classifyNode]
      refine (follows_classifyBlock (h block (List.mem_singleton_self _)) next).bind ?_
      rintro own _ rfl
      exact .ok rfl
  | .conditional guard source children span =>
      rw [Node.respell, classifyNode, classifyNode]
      refine (follows_classifyNodes h next).bind ?_
      rintro ⟨branch, last⟩ _ rfl
      exact .ok rfl

theorem follows_classifyNodes {nodes : List Node}
    (h : ∀ block ∈ blocksOf nodes, registry.Respells registry' f block.tags) (next : Nat) :
    Follows (DocumentError.respell f) (fun own other => other = (respellAll f own.1, own.2))
      (classifyNodes registry language next nodes)
      (classifyNodes registry' language next (respellAll f nodes)) := by
  match nodes with
  | [] => exact .ok rfl
  | node :: rest =>
      obtain ⟨hnode, hrest⟩ := List.forall_mem_append.mp h
      rw [respellAll, classifyNodes, classifyNodes]
      refine (follows_classifyNode hnode next).bind ?_
      rintro ⟨first, middle⟩ _ rfl
      refine (follows_classifyNodes hrest middle).bind ?_
      rintro ⟨others, last⟩ _ rfl
      exact .ok rfl

end

-- A document whose tags are spelled otherwise is classified in the same way.
theorem follows_classify {document : Document}
    (h : ∀ block ∈ document.blocks, registry.Respells registry' f block.tags) :
    Follows (DocumentError.respell f) (fun own other => other = own.respell f)
      (classify registry language document) (classify registry' language (document.respell f)) := by
  refine (follows_classifyNodes h 0).bind ?_
  rintro ⟨nodes, last⟩ _ rfl
  exact .ok rfl

end Respelling

section Identity

theorem CodeBlock.respell_id (block : CodeBlock) : block.respell id = block := by
  rw [CodeBlock.respell, List.map_id]

theorem respellAll_id (nodes : List Node) : respellAll id nodes = nodes := by
  induction nodes using nodesInduction with
  | nil => rfl
  | prose own rest ih => exact congrArg (Node.prose own :: ·) ih
  | directive own rest ih => exact congrArg (Node.directive own :: ·) ih
  | code own rest ih => rw [respellAll, Node.respell, ih, CodeBlock.respell_id]
  | conditional guard source children span rest ihChildren ihRest =>
      rw [respellAll, Node.respell, ihChildren, ihRest]

theorem Document.respell_id (document : Document) : document.respell id = document := by
  rw [Document.respell, respellAll_id]

theorem DocumentError.respell_id (error : DocumentError) : error.respell id = error := by
  unfold DocumentError.respell
  split <;> rfl

end Identity

theorem Modifier.ofToken?_token (m : Modifier) : ofToken? m.token = some m := by
  cases m <;> decide +kernel

-- A token means the same by every registry.
theorem lookup?_of_ofToken? {tag : String} {m : Modifier} (h : Modifier.ofToken? tag = some m)
    (registry : Registry) : registry.lookup? tag = some m := by
  rw [Registry.lookup?, h, Option.some_or]

-- Aliases registered one after the other.
def Registry.addAliases (registry : Registry) (aliases : List (String × Modifier)) : Registry :=
  aliases.foldl (fun registry own => registry.addAlias own.1 own.2) registry

theorem addAliases_eq (registry : Registry) (aliases : List (String × Modifier)) :
    registry.addAliases aliases = ⟨NameTable.putAll aliases registry.aliases⟩ := by
  induction aliases generalizing registry with
  | nil => rfl
  | cons own rest ih => exact ih (registry.addAlias own.1 own.2)

theorem lookup?_addAliases (aliases : List (String × Modifier)) (tag : String) :
    (Registry.standard.addAliases aliases).lookup? tag =
      (Modifier.ofToken? tag).or (lastOf tag aliases) := by
  have hfind : NameTable.find? tag (NameTable.putAll aliases Registry.standard.aliases) =
      lastOf tag aliases := by
    rw [NameTable.find?_putAll]
    exact Option.or_none
  rw [addAliases_eq, Registry.lookup?, hfind]

-- The token of what a tag means.
def Registry.spellOut (registry : Registry) (tag : String) : String :=
  ((registry.lookup? tag).map Modifier.token).getD tag

theorem respells_spellOut {registry : Registry} {tags : List String}
    (h : ∀ tag ∈ tags, registry.lookup? tag ≠ none) (registry' : Registry) :
    registry.Respells registry' registry.spellOut tags := by
  intro tag htag
  obtain ⟨modifier, hlookup⟩ := Option.ne_none_iff_exists'.mp (h tag htag)
  refine ⟨modifier, hlookup, ?_⟩
  rw [Registry.spellOut, hlookup]
  exact lookup?_of_ofToken? modifier.ofToken?_token registry'

-- Two outcomes of a classification but for the spelling of tags: everything else of the blocks is
-- the same, their modifiers and indices with it, or the errors are of one kind at one span.
inductive SpelledAlike : Except DocumentError Classified → Except DocumentError Classified → Prop
  | ok {own other : Classified} :
      other.language = own.language → other.document.source = own.document.source →
      SameBut (fun block spelled => spelled = { block with tags := spelled.tags })
        own.document.nodes other.document.nodes →
      SpelledAlike (.ok own) (.ok other)
  | same (error : DocumentError) : SpelledAlike (.error error) (.error error)
  | tags (first second first' second' : String) (span : Span) :
      SpelledAlike (.error (.conflict (.tag first) second span))
        (.error (.conflict (.tag first') second' span))
  | language (name : Option String) (second second' : String) (span : Span) :
      SpelledAlike (.error (.conflict (.language name) second span))
        (.error (.conflict (.language name) second' span))

section Spelling

variable {f : String → String}

theorem sameBut_respellAll (f : String → String) (nodes : List Node) :
    SameBut (fun block spelled => spelled = { block with tags := spelled.tags }) nodes
      (respellAll f nodes) := by
  induction nodes using nodesInduction with
  | nil => exact .nil
  | prose own rest ih => exact .prose own ih
  | directive own rest ih => exact .directive own ih
  | code own rest ih => exact .code rfl ih
  | conditional guard source children span rest ihChildren ihRest =>
      exact .conditional guard source span ihChildren ihRest

theorem spelledAlike_of_follows {result other : Except DocumentError Classified}
    (h : Follows (DocumentError.respell f) (fun own other => other = own.respell f) result other) :
    SpelledAlike result other := by
  cases h with
  | @ok own _ hown =>
      subst hown
      exact .ok rfl rfl (sameBut_respellAll f own.document.nodes)
  | error error =>
      cases error with
      | conflict first second span =>
          cases first with
          | tag first => exact .tags first second (f first) (f second) span
          | language name => exact .language name second (f second) span
      | _ => exact .same _

end Spelling

-- Aliases are other spellings and nothing else. A token is none, and the last registration of a
-- name counts. With every tag replaced by the token that it stands for, a document is classified
-- alike, and a document of tokens is classified the same whatever is registered.
theorem aliases_are_spellings (aliases : List (String × Modifier)) (language : String)
    (document : Document) :
    let registry := Registry.standard.addAliases aliases
    (∀ tag, registry.lookup? tag = (Modifier.ofToken? tag).or (lastOf tag aliases)) ∧
    ((∀ block ∈ document.blocks, ∀ tag ∈ block.tags, registry.lookup? tag ≠ none) →
      ∀ registry', SpelledAlike (classify registry language document)
        (classify registry' language (document.respell registry.spellOut))) ∧
    ((∀ block ∈ document.blocks, ∀ tag ∈ block.tags, Modifier.ofToken? tag ≠ none) →
      ∀ first second, classify first language document = classify second language document) := by
  refine ⟨lookup?_addAliases aliases, fun hknown registry' => ?_, fun htokens first second => ?_⟩
  · exact spelledAlike_of_follows (follows_classify fun block hblock =>
      respells_spellOut (hknown block hblock) registry')
  · have hsame : ∀ block ∈ document.blocks, first.Respells second id block.tags := by
      intro block hblock tag htag
      obtain ⟨m, hm⟩ := Option.ne_none_iff_exists'.mp (htokens block hblock tag htag)
      exact ⟨m, lookup?_of_ofToken? hm first, lookup?_of_ofToken? hm second⟩
    have hfollows := @follows_classify first second id language document hsame
    rw [Document.respell_id] at hfollows
    generalize classify first language document = own at hfollows ⊢
    generalize classify second language document = other at hfollows ⊢
    cases hfollows with
    | ok hother => rw [hother, Classified.respell, Document.respell_id]
    | error error => rw [DocumentError.respell_id]

-- Two registrations of one name, and one under a token, which is never asked for.
def registrations : List (String × Modifier) :=
  [("echo-false", .outputOnly), ("silent", .hideOutput), ("echo-false", .silent)]

def aliased : Document := ⟨0,
  [.conditional draftOnly "draft" [.code (taggedBlock (some "calc") ["echo-false"])]
      ⟨0, ⟨0, 0⟩, 1⟩,
    .code (taggedBlock (some "calc") ["silent"])]⟩

def aliasedConflict : Document := ⟨0,
  [.code (taggedBlock (some "calc") ["hide-output", "echo-false"])]⟩

theorem spelling_of_aliased :
    let registry := Registry.standard.addAliases registrations
    registry.lookup? "echo-false" = some .silent ∧ registry.lookup? "silent" = some .silent ∧
    (∀ block ∈ aliased.blocks, ∀ tag ∈ block.tags, registry.lookup? tag ≠ none) ∧
    (aliased.respell registry.spellOut).blocks.map CodeBlock.tags = [["silent"], ["silent"]] ∧
    SpelledAlike (classify registry "calc" aliased)
      (classify .standard "calc" (aliased.respell registry.spellOut)) ∧
    (∀ block ∈ aliasedConflict.blocks, ∀ tag ∈ block.tags, registry.lookup? tag ≠ none) ∧
    SpelledAlike (.error (.conflict (.tag "hide-output") "echo-false" ⟨0, ⟨0, 0⟩, 1⟩))
      (classify registry "calc" (aliasedConflict.respell registry.spellOut)) ∧
    (∀ block ∈ tagged.blocks, ∀ tag ∈ block.tags, Modifier.ofToken? tag ≠ none) ∧
    classify registry "calc" tagged = classify .standard "calc" tagged := by
  intro registry
  obtain ⟨-, hspelled, -⟩ := aliases_are_spellings registrations "calc" aliased
  obtain ⟨-, hconflict, -⟩ := aliases_are_spellings registrations "calc" aliasedConflict
  obtain ⟨-, -, htokens⟩ := aliases_are_spellings registrations "calc" tagged
  have hknown : ∀ block ∈ aliased.blocks, ∀ tag ∈ block.tags, registry.lookup? tag ≠ none := by
    decide +kernel
  have hknown' : ∀ block ∈ aliasedConflict.blocks, ∀ tag ∈ block.tags,
      registry.lookup? tag ≠ none := by decide +kernel
  have hbuiltIn : ∀ block ∈ tagged.blocks, ∀ tag ∈ block.tags, Modifier.ofToken? tag ≠ none := by
    decide +kernel
  have herror : classify registry "calc" aliasedConflict =
      .error (.conflict (.tag "hide-output") "echo-false" ⟨0, ⟨0, 0⟩, 1⟩) := by cbv
  refine ⟨by decide +kernel, by decide +kernel, hknown, by decide +kernel, hspelled hknown _,
    hknown', ?_, hbuiltIn, htokens hbuiltIn _ _⟩
  rw [← herror]
  exact hconflict hknown' registry

end LiveDoc
