import LiveDoc.Command.Arguments
import LiveDoc.Report.Outline
import LiveDoc.Report.Snippet
import LiveDoc.Suite.Run

namespace LiveDoc.Command

-- What a command leaves behind: the files, what it has written to its two streams, and its
-- exit code.
structure Outcome where
  tree : FileTree
  output : String
  messages : String
  code : Nat

def versionText : String := "weave 0.1.0"

def usage : String :=
  "Expand executable Markdown documents\n\n" ++
    "Usage: weave [OPTIONS] <COMMAND>\n\n" ++
    "Commands:\n" ++
    "  expand  Resolve includes, run code blocks and write the expanded document\n" ++
    "  check   Resolve and classify without executing (exit 0 if valid)\n" ++
    "  test    Run .test.md test files\n" ++
    "  help    Print this message\n"

def Stop.message : Stop → String
  | .help => usage
  | .version => versionText
  | .unknown argument => "unexpected argument '" ++ argument ++ "' found"
  | .missingValue flag => "a value is required for '--" ++ flag ++ "'"
  | .strayValue flag => "no value is allowed for '--" ++ flag ++ "'"
  | .badValue flag value => "invalid value '" ++ value ++ "' for '" ++ flag ++ "'"
  | .repeated flag => "'--" ++ flag ++ "' cannot be used multiple times"
  | .tooMany argument => "unexpected argument '" ++ argument ++ "' found"
  | .missing name => "the " ++ name ++ " is missing"

def Stop.outcome (stop : Stop) (tree : FileTree) : Outcome :=
  match stop with
  | .help => ⟨tree, stop.message, "", 0⟩
  | .version => ⟨tree, stop.message ++ "\n", "", 0⟩
  | _ => ⟨tree, "", "error: " ++ stop.message ++ "\n", 2⟩

def configFailure (tree : FileTree) (error : ConfigError) : Outcome :=
  ⟨tree, "", "error: " ++ error.message ++ "\n", 1⟩

def runFailure (tree : FileTree) (map : SourceMap) (error : RunError) : Outcome :=
  ⟨tree, "", Report.render map error.diagnostic, 1⟩

def SourceOptions.directory (source : SourceOptions) : String :=
  source.baseDirectory.getD (Path.directory source.input)

-- The configuration of a document. What the command line says wins.
def SourceOptions.load (source : SourceOptions) (tree : FileTree) : Except ConfigError Config :=
  (Config.load tree source.config source.input).map fun config =>
    { config with limit := source.limit.getD config.limit }

-- Where artifacts are written: where the references in the output file lead, or below the
-- working directory if there is no such file.
def artifactPlace (output : Option String) (directory : String) : String :=
  match output with
  | some path => Path.join (Path.directory path) directory
  | none => directory

-- Prints a document. What has been printed when the standard output fails stays printed.
def printDocument (tree : FileTree) (device : Device) (markdown : String) : Outcome :=
  match device.printed markdown with
  | none => ⟨tree, markdown, "", 0⟩
  | some count => ⟨tree, String.ofList (markdown.toList.take count),
      "error: cannot write to stdout: " ++ PathError.noSpace.message ++ "\n", 1⟩

-- Writes an expansion. Without an output file the document goes to the standard output.
def writeExpansion (tree : FileTree) (device : Device) (map : SourceMap) (expansion : Expansion)
    (directory : String) (output : Option String) : Outcome :=
  let artifacts := artifactPlace output directory
  match output with
  | some path =>
      match expansion.write tree path artifacts device with
      | (tree, .ok _) => ⟨tree, "", "", 0⟩
      | (tree, .error place) => runFailure tree map (.unwritable place)
  | none =>
      match persistArtifacts tree artifacts expansion.artifacts device with
      | (tree, .ok _) => printDocument tree device expansion.markdown
      | (tree, .error place) => runFailure tree map (.unwritable place)

def withArtifacts (config : Config) (directory : Option String) : Config :=
  { config with
    layout.artifactDirectory := directory.getD config.layout.artifactDirectory }

def runExpand (tree : FileTree) (device : Device) (source : SourceOptions)
    (output directory : Option String) : Outcome :=
  let prepared : Except ConfigError (Config × Settings × Executor Unit) := do
    let config := withArtifacts (← source.load tree) directory
    let settings ← config.settings
    let executor ← config.executor
    return (config, settings, executor)
  match prepared with
  | .error error => configFailure tree error
  | .ok (config, settings, executor) =>
      match expand executor () tree settings (.file source.input) source.directory with
      | (.error error, map) => runFailure tree map error
      | (.ok expansion, map) =>
          writeExpansion tree device map expansion config.layout.artifactDirectory output

-- One line for a block: its index, language, modifiers and place.
def blockLine (map : SourceMap) (block : CodeBlock) : String :=
  let modifiers :=
    if block.modifiers.members.isEmpty then "" else " " ++ block.modifiers.display
  Text.padded ' ' 3 (toString block.index) ++ "  " ++ block.language.getD "-" ++ modifiers ++
    "  " ++ map.position block.span

def runCheck (tree : FileTree) (source : SourceOptions) (listBlocks outline : Bool) : Outcome :=
  let prepared : Except ConfigError (Config × Settings) := do
    let config ← source.load tree
    return (config, ← config.settings)
  match prepared with
  | .error error => configFailure tree error
  | .ok (config, settings) =>
      let action := check tree settings (.file source.input) source.directory config.language
      match action.run .empty with
      | (.error error, map) => runFailure tree map (.document error)
      | (.ok classified, map) =>
          if outline then
            ⟨tree, (Report.Outline.ofDocument classified.document).render ++ "\n", "", 0⟩
          else if listBlocks then
            let lines := classified.document.blocks.map fun block => blockLine map block ++ "\n"
            ⟨tree, String.join lines, "", 0⟩
          else
            ⟨tree, "", "ok: " ++ source.input ++ " (" ++ toString classified.blockCount ++
              " blocks)\n", 0⟩

def linesText (lines : List String) : String := String.join (lines.map (· ++ "\n"))

-- Runs a task on a file tree. `scratch` is a directory for the files of tests; nothing of it
-- is left in the tree.
def runTask (tree : FileTree) (device : Device) (scratch : String) (color : Bool) :
    Task → Outcome
  | .expand source output directory => runExpand tree device source output directory
  | .check source listBlocks outline => runCheck tree source listBlocks outline
  | .test path categories listing =>
      if listing then ⟨tree, "", linesText (Suite.listCategories tree path), 0⟩
      else
        let report := Suite.run tree scratch path color categories
        ⟨tree, "", linesText report.lines, if report.passed then 0 else 1⟩

def run (tree : FileTree) (scratch : String) (arguments : List String)
    (device : Device := .sound) : Outcome :=
  match parse arguments with
  | .error stop => stop.outcome tree
  | .ok invocation => runTask tree device scratch invocation.color invocation.task

end LiveDoc.Command
