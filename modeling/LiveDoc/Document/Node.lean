import LiveDoc.Calc.Expr
import LiveDoc.Document.Modifier

namespace LiveDoc

-- Markdown that passes through unchanged.
structure Prose where
  text : String
  span : Span
  deriving DecidableEq, Repr

-- A request for another file, or for one section of it.
structure Include where
  path : String
  part : Option String
  span : Span
  deriving DecidableEq, Repr

-- A fenced block. The classifier sets `modifiers` and `index`; `lead` is what stands before
-- the fence on its line, as later lines repeat it to stay inside their containers.
structure CodeBlock where
  language : Option String
  info : String
  tags : List String
  modifiers : ModifierSet
  index : Nat
  fence : String
  content : String
  lead : String
  span : Span
  deriving DecidableEq, Repr

inductive Node where
  | prose (prose : Prose)
  | directive (directive : Include)
  | code (block : CodeBlock)
  | conditional (guard : Calc.Guard) (source : String) (children : List Node) (span : Span)
  deriving BEq

-- The nodes of one source in order.
structure Document where
  source : Nat
  nodes : List Node
  deriving BEq

mutual

def Node.blocks : Node → List CodeBlock
  | .code block => [block]
  | .conditional _ _ children _ => blocksOf children
  | _ => []

-- All code blocks, in document order.
def blocksOf : List Node → List CodeBlock
  | [] => []
  | node :: rest => node.blocks ++ blocksOf rest

end

mutual

def Node.hasDirective : Node → Bool
  | .directive _ => true
  | .conditional _ _ children _ => anyDirective children
  | _ => false

def anyDirective : List Node → Bool
  | [] => false
  | node :: rest => node.hasDirective || anyDirective rest

end

def Document.blocks (document : Document) : List CodeBlock := blocksOf document.nodes

def Document.hasDirectives (document : Document) : Bool := anyDirective document.nodes

end LiveDoc
