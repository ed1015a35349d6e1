import LiveDoc.Document.Error
import LiveDoc.Document.Node

namespace LiveDoc

-- A document in which every block has its modifiers and its index, for the one language that
-- is run.
structure Classified where
  document : Document
  language : String

def Classified.blockCount (classified : Classified) : Nat := classified.document.blocks.length

-- The tags of one block with what they mean, the first unknown or conflicting one failing.
def resolveTags (registry : Registry) (span : Span) (seen : List (String × Modifier)) :
    List String → Except DocumentError (List (String × Modifier))
  | [] => .ok seen
  | tag :: rest =>
      match registry.lookup? tag with
      | none => .error (.unknownModifier tag registry.known span)
      | some modifier =>
          match seen.find? fun earlier => earlier.2.conflicts modifier with
          | some (first, _) => .error (.conflict (.tag first) tag span)
          | none => resolveTags registry span (seen ++ [(tag, modifier)]) rest

-- A block of another language does not run, so none of its tags may need that.
def classifyBlock (registry : Registry) (language : String) (index : Nat) (block : CodeBlock) :
    Except DocumentError CodeBlock := do
  let seen ← resolveTags registry block.span [] block.tags
  let modifiers := seen.map (·.2)
  if block.language = some language then
    .ok { block with modifiers := .ofList modifiers, index }
  else match seen.find? fun tag => tag.2.needsExecution with
    | some (tag, _) => .error (.conflict (.language block.language) tag block.span)
    | none => .ok { block with modifiers := .ofList (.noExec :: modifiers), index }

mutual

-- Numbers the blocks from `next` on; the result has the number that comes after them.
def classifyNode (registry : Registry) (language : String) (next : Nat) :
    Node → Except DocumentError (Node × Nat)
  | .prose prose => .ok (.prose prose, next)
  | .directive directive => .error (.unresolved directive.path directive.span)
  | .code block => do
      let block ← classifyBlock registry language next block
      .ok (.code block, next + 1)
  | .conditional guard source children span => do
      let (children, next) ← classifyNodes registry language next children
      .ok (.conditional guard source children span, next)

def classifyNodes (registry : Registry) (language : String) (next : Nat) :
    List Node → Except DocumentError (List Node × Nat)
  | [] => .ok ([], next)
  | node :: rest => do
      let (node, next) ← classifyNode registry language next node
      let (rest, next) ← classifyNodes registry language next rest
      .ok (node :: rest, next)

end

-- Checks and numbers every block, also those under conditions that may turn out false.
def classify (registry : Registry) (language : String) (document : Document) :
    Except DocumentError Classified := do
  let (nodes, _) ← classifyNodes registry language 0 document.nodes
  .ok ⟨⟨document.source, nodes⟩, language⟩

end LiveDoc
