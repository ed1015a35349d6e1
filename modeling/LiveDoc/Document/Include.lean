import LiveDoc.Document.Parser
import LiveDoc.Document.Section
import LiveDoc.Source.Map

namespace LiveDoc

-- A file, or a part of it, that is being included, with the name the directive gave it.
structure Included where
  location : Location
  part : Option String
  label : String
  deriving DecidableEq, Repr

def Include.label (directive : Include) : String :=
  match directive.part with
  | none => directive.path
  | some part => directive.path ++ "#" ++ part

def Included.isAt (entry : Included) (location : Location) (part : Option String) : Bool :=
  entry.location == location && entry.part == part

-- The labels from the first entry that is the same file and part, outermost entry first.
def cycle? (opened : List Included) (location : Location) (part : Option String) :
    Option (List String) :=
  match opened.dropWhile fun entry => !entry.isAt location part with
  | [] => none
  | entries => some (entries.map (·.label))

-- Reading keeps the sources it has registered, also when it fails.
abbrev Reading (α : Type) := ExceptT DocumentError (StateM SourceMap) α

-- Registers the file at a path. It is read once.
def loadSource (tree : FileTree) (path : String) (failed : PathError → DocumentError) :
    Reading Nat := do
  let (result, map) := (← get).read tree path
  set map
  match result with
  | .error cause => throw (failed cause)
  | .ok id => pure id

-- The nodes of a source, or of one of its sections.
def readPart (source : Nat) (text path : String) (directive : Include) : Reading Document := do
  match directive.part with
  | none => parseDocument text.toList source
  | some name =>
      let found := sections text.toList
      match findSection? found name.toList with
      | none => throw (.noSection name path (found.map (·.name)) directive.span)
      | some hit => parseWindow text.toList source hit.range

-- An include in the files of a run: where its own paths start, what it has opened so far
-- (outermost first), and how deep the includes around it are.
structure Site where
  directory : String
  opened : List Included
  depth : Nat

mutual

-- Puts what each directive stands for in its place. `insert` answers one directive.
def expandNode (insert : Include → Reading (List Node)) : Node → Reading (List Node)
  | .directive directive => insert directive
  | .conditional guard source children span => do
      let children ← expandNodes insert children
      pure [.conditional guard source children span]
  | node => pure [node]

def expandNodes (insert : Include → Reading (List Node)) : List Node → Reading (List Node)
  | [] => pure []
  | node :: rest => do
      let first ← expandNode insert node
      let others ← expandNodes insert rest
      pure (first ++ others)

end

-- The document that a directive names and the site of its own directives. A circle is reported
-- before a limit, so that a file that includes itself is named.
def openInclude (tree : FileTree) (limit : Nat) (site : Site) (directive : Include) :
    Reading (Document × Site) := do
  let path := Path.join site.directory directive.path
  let missing (cause : PathError) : DocumentError := .notIncluded path cause directive.span
  match tree.locate path with
  | .error cause => throw (missing cause)
  | .ok location =>
      match cycle? site.opened location directive.part with
      | some chain => throw (.circular (chain ++ [directive.label]) directive.span)
      | none =>
          if limit ≤ site.depth then throw (.tooDeep limit directive.span)
          let source ← loadSource tree path missing
          let document ← readPart source ((← get).text source) path directive
          let entry : Included := ⟨location, directive.part, directive.label⟩
          pure (document,
            ⟨Location.text location.tail, site.opened ++ [entry], site.depth + 1⟩)

-- The nodes that a directive stands for, its own directives included. Each level has one less
-- of the `budget`, and the limit is met before the budget is used up.
def includedNodes (tree : FileTree) (limit : Nat) :
    (budget : Nat) → Site → Include → Reading (List Node)
  | 0, _, directive => throw (.tooDeep limit directive.span)
  | budget + 1, site, directive => do
      let (document, inner) ← openInclude tree limit site directive
      expandNodes (includedNodes tree limit budget inner) document.nodes

-- A document without directives. Those of the document itself are read from `directory`, those
-- of an included file from where that file is.
def resolve (tree : FileTree) (limit : Nat) (directory : String) (document : Document) :
    Reading Document := do
  let map ← get
  let opened := match map.location? document.source with
    | some location => [⟨location, none, map.name document.source⟩]
    | none => []
  let site : Site := ⟨directory, opened, 0⟩
  let nodes ← expandNodes (includedNodes tree limit (limit + 1) site) document.nodes
  pure { document with nodes }

-- Reads the document that a run starts from.
def loadRoot (tree : FileTree) (path : String) : Reading Document := do
  let source ← loadSource tree path (.unreadable path)
  parseDocument ((← get).text source).toList source

def defaultLimit : Nat := 50

end LiveDoc
