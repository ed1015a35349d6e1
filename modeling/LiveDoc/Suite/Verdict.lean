import LiveDoc.Suite.Case
import LiveDoc.Text.Display

namespace LiveDoc.Suite

-- Why a test fails.
inductive Failure where
  | unreadable (cause : PathError)
  | malformed (error : CaseError)
  | unmade (file : String) (cause : PathError)
  | unwritten (file : String) (cause : PathError)
  | config (error : ConfigError)
  | otherError (expected : String) (error : RunError)
  | noError (expected : String)
  | unexpected (error : RunError)
  | output (expected actual : String)
  | artifacts (expected actual : List String)

-- Lines without their breaks, as people count them.
def plainLines (text : String) : List String :=
  (Text.lines text.toList).map fun line =>
    match Text.after? ['\n'] line.reverse with
    | some ('\r' :: front) => String.ofList front.reverse
    | some front => String.ofList front.reverse
    | none => String.ofList line

def indentedText (text : String) : String :=
  Text.joined "\n" ((plainLines text).map ("    " ++ ·))

def quotedList (names : List String) : String :=
  "[" ++ Text.joined ", " (names.map Text.quoted) ++ "]"

def Failure.reason : Failure → String
  | .unreadable cause => "cannot read file: " ++ cause.message
  | .malformed error => "frontmatter error: " ++ error.message
  | .unmade file cause => "cannot create " ++ file ++ ": " ++ cause.message
  | .unwritten file cause => "cannot write " ++ file ++ ": " ++ cause.message
  | .config error => error.message
  | .otherError expected error =>
      "expected error containing \x22" ++ expected ++ "\x22, got: " ++ error.message
  | .noError expected =>
      "expected error containing \x22" ++ expected ++ "\x22, but expansion succeeded"
  | .unexpected error => "unexpected error: " ++ error.message
  | .output expected actual =>
      "output mismatch\n  expected:\n" ++ indentedText expected ++ "\n  actual:\n" ++
        indentedText actual
  | .artifacts expected actual =>
      "artifact mismatch\n  expected: " ++ quotedList expected ++ "\n  actual:   " ++
        quotedList actual

def rootFile : String := "main.md"

-- Puts a file below a directory, with the directories that its name asks for.
def place (tree : FileTree) (directory name text : String) : Except Failure FileTree := do
  let target := Path.join directory name
  let ready ← match Path.parent? target with
    | none => .ok tree
    | some parent =>
        match tree.makeDirectories parent with
        | (tree, .ok _) => .ok tree
        | (_, .error cause) => .error (.unmade name cause)
  match ready.write target text.toUTF8 with
  | .ok tree => .ok tree
  | .error cause => .error (.unwritten name cause)

def trimmed (text : String) : String := String.ofList (Text.trimBlanks text.toList)

-- The expectations in the order in which they are checked. Blanks around a text do not count.
def Case.compare (case : Case) (expansion : Expansion) : Option Failure :=
  let actual := trimmed expansion.markdown
  let names := expansion.artifacts.map (·.name)
  match case.output.map trimmed, case.artifacts with
  | some expected, artifacts =>
      if expected ≠ actual then some (.output expected actual)
      else match artifacts with
        | some expected => if expected ≠ names then some (.artifacts expected names) else none
        | none => none
  | none, some expected => if expected ≠ names then some (.artifacts expected names) else none
  | none, none => none

def Case.judge (case : Case) (result : Except RunError Expansion) : Option Failure :=
  match case.error, result with
  | some expected, .error error =>
      if Text.contains expected.toList error.message.toList then none
      else some (.otherError expected error)
  | some expected, .ok _ => some (.noError expected)
  | none, .error error => some (.unexpected error)
  | none, .ok expansion => case.compare expansion

-- Expands a test in a directory of its own. An error means that the test cannot start.
def Case.run (case : Case) (tree : FileTree) (scratch : String) :
    Except Failure (Option Failure) := do
  let start ← match tree.makeDirectories scratch with
    | (tree, .ok _) => .ok tree
    | (_, .error cause) => .error (.unmade scratch cause)
  let files := case.files ++ [(rootFile, case.document)]
  let tree ← files.foldlM (fun tree (name, text) => place tree scratch name text) start
  let config {α : Type} (result : Except ConfigError α) : Except Failure α :=
    result.mapError .config
  let settings ← config case.config.settings
  let executor ← config case.config.executor
  let root := Root.file (Path.join scratch rootFile)
  .ok (case.judge (expand executor () tree settings root scratch).1)

-- A test file with its name for people and why it fails, if it does.
structure Verdict where
  path : String
  label : String
  failure : Option Failure

-- The description stands for a test that could start, the name of the file for any other.
def verdict (tree : FileTree) (scratch path : String) : Verdict :=
  let stem := (Path.stem? path).getD "?"
  match tree.readText path with
  | .error cause => ⟨path, stem, some (.unreadable cause)⟩
  | .ok text =>
      match Case.parse text with
      | .error error => ⟨path, stem, some (.malformed error)⟩
      | .ok case =>
          match case.run tree scratch with
          | .error failure => ⟨path, stem, some failure⟩
          | .ok failure => ⟨path, case.description.getD stem, failure⟩

end LiveDoc.Suite
