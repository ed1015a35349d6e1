import LiveDoc.Config.Basic

namespace LiveDoc.Suite

-- A test: a document, the files beside it, how it is expanded and what is expected of it.
structure Case where
  description : Option String
  output : Option String
  error : Option String
  artifacts : Option (List String)
  files : NameTable String
  config : Config
  document : String

-- Why a text is no test.
inductive CaseError where
  | noOpening
  | noClosing
  | badSettings
  deriving DecidableEq, Repr

def CaseError.message : CaseError → String
  | .noOpening => "missing opening --- frontmatter delimiter"
  | .noClosing => "missing closing --- frontmatter delimiter"
  | .badSettings => "TOML parse error"

def skipBreak (text : List Char) : List Char := (Toml.afterNewline? text).getD text

-- The settings and the document of a test. The settings stand between two lines of dashes; the
-- first may go on after its dashes, and so may the document after the second.
def splitCase (text : List Char) : Except CaseError (List Char × List Char) :=
  match Text.after? "---".toList (Text.trimStart (· == Toml.byteOrderMark) text) with
  | none => .error .noOpening
  | some rest =>
      match Text.cutAt? "\n---".toList (skipBreak rest) with
      | none => .error .noClosing
      | some (settings, document) =>
          .ok (Text.trimEnd (· == '\r') settings, skipBreak document)

def caseFields : List String :=
  ["description", "expect_output", "expect_error", "expect_artifacts", "files", "expand",
    "modifiers"]

def Case.ofSettings? (settings : List Char) (document : String) : Option Case := do
  let entries ← Toml.parse? settings
  match ← Toml.fields? caseFields (.table .header entries) with
  | [description, output, error, artifacts, files, expand, modifiers] =>
      return {
        description := ← Toml.optional Toml.Value.text? description
        output := ← Toml.optional Toml.Value.text? output
        error := ← Toml.optional Toml.Value.text? error
        artifacts := ← Toml.optional Toml.Value.texts? artifacts
        files := ← Toml.orDefault [] Toml.Value.textTable? files
        config := ← Config.ofTables? expand modifiers
        document }
  | _ => none

def Case.parse (text : String) : Except CaseError Case := do
  let (settings, document) ← splitCase text.toList
  match Case.ofSettings? settings (String.ofList document) with
  | some case => .ok case
  | none => .error .badSettings

end LiveDoc.Suite
