import LiveDoc.Markdown.Scan
import LiveDoc.Run.Progress

namespace LiveDoc

-- How results are written: the directory that references name, and the info text of the fence
-- around captured output.
structure Layout where
  artifactDirectory : String
  outputLanguage : String
  deriving DecidableEq, Repr

namespace Layout

def reference (layout : Layout) (name : String) : String :=
  let directory := String.ofList (Text.trimEnd (· == '/') layout.artifactDirectory.toList)
  if directory.isEmpty then name else directory ++ "/" ++ name

end Layout

def endLine (text : String) : String := if text.endsWith "\n" then text else text ++ "\n"

def codeFence (block : CodeBlock) : String :=
  block.fence ++ block.info ++ "\n" ++
    (if block.content.isEmpty then "" else endLine block.content) ++ block.fence ++ "\n"

-- The longest run of backticks, given the run that has just been read.
def longestRun (current : Nat) : List Char → Nat
  | [] => current
  | c :: rest =>
      if c = Markdown.backtick then longestRun (current + 1) rest
      else max current (longestRun 0 rest)

-- The fence is longer than any run of backticks inside.
def outputFence (language output : String) : String :=
  let fence := "".pushn Markdown.backtick (max (longestRun 0 output.toList + 1) 3)
  fence ++ language ++ "\n" ++ endLine output ++ fence ++ "\n"

-- A later line of a block repeats what stands before its fence. A blank line gets it without
-- the blanks at its end.
def leadLine (lead line : List Char) : List Char :=
  (if Text.isAllBlank line then Text.trimEnd Text.isBlank lead else lead) ++ line

def leadLines (lead : List Char) (text : List Char) : List Char :=
  match Text.lines text with
  | [] => []
  | first :: rest => first ++ (rest.map (leadLine lead)).flatten

def blockPieces (layout : Layout) (block : CodeBlock) (result : Option BlockResult) :
    List String :=
  let code := if block.modifiers.showsCode then [codeFence block] else []
  let shown := match result with
    | none => []
    | some result =>
        let output :=
          if block.modifiers.showsOutput && !result.output.isEmpty then
            [outputFence layout.outputLanguage result.output]
          else []
        let images :=
          if block.modifiers.showsArtifacts && !result.artifacts.isEmpty then
            let image (name : String) : String := "![](" ++ layout.reference name ++ ")\n"
            [String.join (result.artifacts.map image)]
          else []
        output ++ images
  code ++ shown

-- Pieces are separated by a blank line. Without any the block leaves nothing.
def assembleBlock (layout : Layout) (block : CodeBlock) (result : Option BlockResult) : String :=
  match blockPieces layout block result with
  | [] => ""
  | pieces => String.ofList (leadLines block.lead.toList (Text.joined "\n" pieces).toList)

mutual

def assembleNode (layout : Layout) : Executed → String
  | .prose text => text
  | .block block result => assembleBlock layout block result
  | .conditional _ included children => if included then assemble layout children else ""

-- The document that a run makes of its nodes.
def assemble (layout : Layout) : List Executed → String
  | [] => ""
  | node :: rest => assembleNode layout node ++ assemble layout rest

end

end LiveDoc
