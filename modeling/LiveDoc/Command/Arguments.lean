import LiveDoc.Command.Flag

namespace LiveDoc.Command

-- The document that a command works on, and how it is found and configured.
structure SourceOptions where
  input : String
  baseDirectory : Option String
  config : Option String
  limit : Option Nat
  deriving DecidableEq, Repr

inductive Task where
  | expand (source : SourceOptions) (output artifactDirectory : Option String)
  | check (source : SourceOptions) (listBlocks outline : Bool)
  | test (path : String) (categories : List String) (listCategories : Bool)
  deriving DecidableEq, Repr

structure Invocation where
  task : Task
  color : Bool
  deriving DecidableEq, Repr

def noColor : Flag := ⟨"no-color", none, .nothing, false⟩
def verbose : Flag := ⟨"verbose", some 'v', .nothing, true⟩
def logFormat : Flag := ⟨"log-format", none, .oneOf ["text", "json"], false⟩
def baseDir : Flag := ⟨"base-dir", none, .path, false⟩
def configFile : Flag := ⟨"config", none, .path, false⟩
def maxDepth : Flag := ⟨"max-include-depth", none, .number, false⟩
def outputFile : Flag := ⟨"output", some 'o', .path, false⟩
def artifactDir : Flag := ⟨"artifact-dir", none, .text, false⟩
def listBlocks : Flag := ⟨"list-blocks", none, .nothing, false⟩
def outline : Flag := ⟨"ast", none, .nothing, false⟩
def category : Flag := ⟨"category", some 'c', .text, true⟩
def listCategories : Flag := ⟨"list-categories", none, .nothing, false⟩

-- Flags that stand before or after the name of a command.
def commonFlags : List Flag := [noColor, verbose, logFormat]

def sourceFlags : List Flag := [baseDir, configFile, maxDepth]

def expandFlags : List Flag := commonFlags ++ sourceFlags ++ [outputFile, artifactDir]

def checkFlags : List Flag := commonFlags ++ sourceFlags ++ [listBlocks, outline]

def testFlags : List Flag := commonFlags ++ [category, listCategories]

def commandNames : List String := ["expand", "check", "test", "help"]

-- The flags whose next argument is a value, in all their spellings.
def valueFlags : List String :=
  (([logFormat] ++ sourceFlags ++ [outputFile, artifactDir]).map fun flag =>
    ("--" ++ flag.long) :: (flag.letter.map fun c => "-" ++ String.singleton c).toList).flatten

-- The first argument that is neither a flag nor the value of one.
def firstWord? : List String → Option String
  | [] => none
  | [argument] =>
      if valueFlags.contains argument || argument.startsWith "-" then none else some argument
  | argument :: next :: rest =>
      if valueFlags.contains argument then firstWord? rest
      else if argument.startsWith "-" then firstWord? (next :: rest)
      else some argument

-- A document alone is expanded.
def withCommand (arguments : List String) : List String :=
  match firstWord? arguments with
  | some word => if commandNames.contains word then arguments else "expand" :: arguments
  | none => arguments

def requiredWord (name : String) (given : Given) : Except Stop String :=
  match given.words with
  | word :: _ => .ok word
  | [] => .error (.missing name)

def sourceOptions (given : Given) : Except Stop SourceOptions := do
  let input ← requiredWord "input" given
  return ⟨input, given.value? baseDir.long, given.value? configFile.long,
    (given.value? maxDepth.long).bind natural?⟩

def readTask (name : String) (arguments : List String) : Except Stop (Task × Bool) := do
  let read (flags : List Flag) : Except Stop Given :=
    (readArguments ⟨flags, false, false⟩ .nothing arguments).map (·.1)
  match name with
  | "expand" =>
      let given ← read expandFlags
      let source ← sourceOptions given
      return (.expand source (given.value? outputFile.long) (given.value? artifactDir.long),
        given.has noColor.long)
  | "check" =>
      let given ← read checkFlags
      let source ← sourceOptions given
      return (.check source (given.has listBlocks.long) (given.has outline.long),
        given.has noColor.long)
  | "test" =>
      let given ← read testFlags
      let path ← requiredWord "path" given
      return (.test path (given.values category.long) (given.has listCategories.long),
        given.has noColor.long)
  | "help" =>
      match arguments with
      | [] => throw .help
      | word :: rest =>
          if commandNames.contains word ∧ rest = [] then throw .help else throw (.unknown word)
  | other => throw (.unknown other)

-- What the arguments of the program ask for.
def parse (arguments : List String) : Except Stop Invocation := do
  let (given, rest) ← readArguments ⟨commonFlags, true, true⟩ .nothing (withCommand arguments)
  match rest with
  | [] => throw (.missing "command")
  | name :: own =>
      let (task, plain) ← readTask name own
      return ⟨task, !(plain || given.has noColor.long)⟩

end LiveDoc.Command
