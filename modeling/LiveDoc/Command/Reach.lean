import LiveDoc.Command.Run

namespace LiveDoc.Command

-- The paths at which a task looks. They are told from the files that are already in a tree: an
-- included document may name more, so the answer grows with the tree until nothing is missing.

-- The included file at which reading a document stops because the tree does not have it.
def SourceOptions.missing? (source : SourceOptions) (tree : FileTree) : Option String :=
  let limit := match source.load tree with
    | .ok config => config.limit
    | .error _ => defaultLimit
  let reading : Reading Document := do
    let document ← loadRoot tree source.input
    resolve tree limit source.directory document
  match (reading.run .empty).1 with
  | .error (.notIncluded path .notFound _) => some path
  | _ => none

def SourceOptions.reach (source : SourceOptions) (tree : FileTree) : List String :=
  [source.config.getD (Config.pathBeside source.input), source.input] ++
    (source.missing? tree).toList

-- Where an expansion writes. The document's own name stays out, since it is replaced unread.
def writeReach (source : SourceOptions) (tree : FileTree) (output directory : Option String) :
    List String :=
  match source.load tree with
  | .error _ => []
  | .ok config =>
      let layout := (withArtifacts config directory).layout
      (output.map Path.directory).toList ++ [artifactPlace output layout.artifactDirectory]

-- The paths that a task reads or writes, as far as a tree can tell. Tests are looked for below
-- their path, which is what `Task.below?` is for.
def Task.reach (tree : FileTree) : Task → List String
  | .expand source output directory =>
      source.reach tree ++ writeReach source tree output directory
  | .check source _ _ => source.reach tree
  | .test path _ _ => [path]

-- The directory, or the file, that a task takes as a whole.
def Task.below? : Task → Option String
  | .test path _ _ => some path
  | _ => none

-- What differs between two trees, in the order in which it has to be made.
def changes (before after : FileTree) : List (Location × Entry) :=
  after.entries.filter fun e => !before.entries.contains e

end LiveDoc.Command
