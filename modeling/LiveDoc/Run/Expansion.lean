import LiveDoc.Document.Include
import LiveDoc.Run.Layout

namespace LiveDoc

structure Settings where
  limit : Nat
  layout : Layout
  stem : String
  registry : Registry
  deriving DecidableEq, Repr

def Settings.standard : Settings :=
  ⟨defaultLimit, ⟨"artifacts", "text"⟩, ArtifactStore.defaultStem, .standard⟩

-- The document that a run starts from: a file, or a text under a name.
inductive Root where
  | file (path : String)
  | text (name content : String)
  deriving DecidableEq, Repr

def Root.load (tree : FileTree) : Root → Reading Document
  | .file path => loadRoot tree path
  | .text name content => do
      let (source, map) := (← get).add name content
      set map
      parseDocument content.toList source

-- Reads a document with all it includes and classifies it. Nothing runs.
def check (tree : FileTree) (settings : Settings) (root : Root) (directory language : String) :
    Reading Classified := do
  let document ← root.load tree
  let whole ← resolve tree settings.limit directory document
  classify settings.registry language whole

-- What a run makes of a document. Nothing is in the files yet.
structure Expansion where
  markdown : String
  artifacts : List Artifact
  deriving DecidableEq

-- Runs a document. What the executor makes of its host comes back too.
def runClassified {σ : Type} (executor : Executor σ) (host : σ) (settings : Settings)
    (classified : Classified) : Except RunError Expansion × σ :=
  let (result, progress) := (runDocument executor classified).run (.start host settings.stem)
  (result.map fun nodes => ⟨assemble settings.layout nodes, progress.store.artifacts⟩,
    progress.host)

-- Checks and runs a document. The sources it has read and the host come back also when it fails.
def expandFrom {σ : Type} (executor : Executor σ) (host : σ) (tree : FileTree)
    (settings : Settings) (root : Root) (directory : String) :
    Except RunError Expansion × SourceMap × σ :=
  let (checked, map) := (check tree settings root directory executor.language).run .empty
  match checked with
  | .error e => (.error (.document e), map, host)
  | .ok classified =>
      let (result, host) := runClassified executor host settings classified
      (result, map, host)

def expand {σ : Type} (executor : Executor σ) (host : σ) (tree : FileTree) (settings : Settings)
    (root : Root) (directory : String) : Except RunError Expansion × SourceMap :=
  let (result, map, _) := expandFrom executor host tree settings root directory
  (result, map)

-- Writes the artifacts and then the document. An error names the path that cannot be written.
def Expansion.write (expansion : Expansion) (tree : FileTree) (output directory : String)
    (device : Device := .sound) : FileTree × Except String Unit :=
  match persistArtifacts tree directory expansion.artifacts device with
  | (tree, .error path) => (tree, .error path)
  | (tree, .ok _) => tree.replace device output expansion.markdown.toUTF8

end LiveDoc
