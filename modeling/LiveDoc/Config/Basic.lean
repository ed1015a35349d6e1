import LiveDoc.Run.Expansion
import LiveDoc.Toml.Decode
import LiveDoc.Toml.Reader

namespace LiveDoc

-- What a configuration file says. Aliases are names still to be looked up.
structure Config where
  language : String
  limit : Nat
  layout : Layout
  stem : String
  aliases : NameTable String
  deriving DecidableEq, Repr

inductive ConfigError where
  | unreadable (path : String) (cause : PathError)
  | malformed (path : String)
  | unknownTarget (name target : String)
  | unsupported (language : String)
  deriving DecidableEq, Repr

def ConfigError.message : ConfigError → String
  | .unreadable path cause => "cannot read " ++ path ++ ": " ++ cause.message
  | .malformed path => "failed to parse " ++ path
  | .unknownTarget name target =>
      "modifier alias `" ++ name ++ "` targets unknown modifier `" ++ target ++ "`"
  | .unsupported language =>
      "unsupported language `" ++ language ++ "` (only `" ++ Calc.language ++
        "` can be executed)"

namespace Config

def standard : Config :=
  let base := Settings.standard
  ⟨Calc.language, base.limit, base.layout, base.stem, []⟩

def expandFields : List String :=
  ["language", "max_include_depth", "artifact_dir", "artifact_prefix", "output_language"]

def ofExpand? (config : Config) (value : Toml.Value) : Option Config := do
  match ← Toml.fields? expandFields value with
  | [language, limit, directory, stem, output] =>
      return { config with
        language := ← Toml.orDefault config.language Toml.Value.text? language
        limit := ← Toml.orDefault config.limit Toml.Value.natural? limit
        layout :=
          ⟨← Toml.orDefault config.layout.artifactDirectory Toml.Value.text? directory,
            ← Toml.orDefault config.layout.outputLanguage Toml.Value.text? output⟩
        stem := ← Toml.orDefault config.stem Toml.Value.text? stem }
  | _ => none

def ofModifiers? (config : Config) (value : Toml.Value) : Option Config := do
  match ← Toml.fields? ["aliases"] value with
  | [aliases] =>
      return { config with aliases := ← Toml.orDefault [] Toml.Value.textTable? aliases }
  | _ => none

-- The two tables of a configuration, each of which may be missing.
def ofTables? (expand modifiers : Option Toml.Value) : Option Config := do
  let config ← Toml.orDefault standard (ofExpand? standard) expand
  Toml.orDefault config (ofModifiers? config) modifiers

def parse? (text : String) : Option Config := do
  let entries ← Toml.parse? text.toList
  match ← Toml.fields? ["expand", "modifiers"] (.table .header entries) with
  | [expand, modifiers] => ofTables? expand modifiers
  | _ => none

-- The tags that the aliases add, the first one in the order of names failing if its target
-- is no token.
def registry (config : Config) : Except ConfigError Registry :=
  config.aliases.foldlM (fun registry (name, target) =>
    match Modifier.ofToken? target with
    | some modifier => .ok (registry.addAlias name modifier)
    | none => .error (.unknownTarget name target)) .standard

def settings (config : Config) : Except ConfigError Settings :=
  config.registry.map fun registry => ⟨config.limit, config.layout, config.stem, registry⟩

-- There is an executor for one language alone.
def executor (config : Config) : Except ConfigError (Executor Unit) :=
  if config.language = Calc.language then .ok .calc else .error (.unsupported config.language)

def fileName : String := "weave.toml"

def read (tree : FileTree) (path : String) : Except ConfigError Config :=
  match tree.readText path with
  | .error cause => .error (.unreadable path cause)
  | .ok text =>
      match parse? text with
      | some config => .ok config
      | none => .error (.malformed path)

-- Where a document's configuration is if no other file is asked for.
def pathBeside (input : String) : String := Path.join ((Path.parent? input).getD ".") fileName

-- The configuration for a document: the file that is asked for, or the one beside the document
-- if there is one.
def load (tree : FileTree) (explicit : Option String) (input : String) :
    Except ConfigError Config :=
  match explicit with
  | some path => read tree path
  | none =>
      let path := pathBeside input
      if tree.exists? path then read tree path else .ok standard

end Config

end LiveDoc
