import LiveDoc.Calc.Execution
import LiveDoc.FileTree.Device

namespace LiveDoc

-- A declared file with its name and the index of the block that declared it.
structure Artifact where
  name : String
  block : Nat
  bytes : ByteArray
  deriving DecidableEq

-- The artifacts of a run in the order of declaration, in memory until the run has succeeded.
structure ArtifactStore where
  stem : String
  artifacts : List Artifact
  deriving DecidableEq

namespace ArtifactStore

def defaultStem : String := "block"

def empty (stem : String) : ArtifactStore := ⟨stem, []⟩

-- The position in the document decides the name, so an unchanged document keeps its names.
def nameOf (stem : String) (block ordinal : Nat) (extension : String) : String :=
  stem ++ "-" ++ Text.padded '0' 3 (toString block) ++ "-" ++ toString ordinal ++ "." ++ extension

def named (stem : String) (block ordinal : Nat) : List Calc.Payload → List Artifact
  | [] => []
  | payload :: rest =>
      ⟨nameOf stem block ordinal payload.extension, block, payload.bytes⟩ ::
        named stem block (ordinal + 1) rest

-- Keeps the files of one block and gives their names. Ordinals start at one.
def claim (store : ArtifactStore) (block : Nat) (payloads : List Calc.Payload) :
    List String × ArtifactStore :=
  let added := named store.stem block 1 payloads
  (added.map (·.name), { store with artifacts := store.artifacts ++ added })

end ArtifactStore

-- Writes files into a directory one after the other, up to the first that cannot be written.
-- The result is the tree with what has been written, and the paths or the path that failed.
def writeArtifacts (tree : FileTree) (device : Device) (directory : String) :
    List Artifact → FileTree × Except String (List String)
  | [] => (tree, .ok [])
  | artifact :: rest =>
      let path := Path.join directory artifact.name
      match tree.overwrite device path artifact.bytes with
      | (tree, .error _) => (tree, .error path)
      | (tree, .ok _) =>
          let (tree, result) := writeArtifacts tree device directory rest
          (tree, result.map (path :: ·))

-- The directory is made first, if there is anything to write.
def persistArtifacts (tree : FileTree) (directory : String) (artifacts : List Artifact)
    (device : Device := .sound) : FileTree × Except String (List String) :=
  if artifacts.isEmpty then (tree, .ok [])
  else match tree.makeDirectories directory with
    | (tree, .error _) => (tree, .error directory)
    | (tree, .ok _) => writeArtifacts tree device directory artifacts

end LiveDoc
