import LiveDoc.Command.Reach

namespace LiveDoc.Main

def locationOf (path : String) : Location :=
  ((Path.pieces path).filter fun piece => !piece.isEmpty).reverse

-- Puts a file of the machine into a tree. One that cannot be read stays out.
def takeFile (tree : FileTree) (location : Location) : IO FileTree := do
  try return tree.set location (.file (← IO.FS.readBinFile location.text))
  catch _ => return tree

-- Puts what steps lead to into a tree, with the links and directories on the way. The steps
-- end where the machine has nothing.
def takeSteps (tree : FileTree) (place : Location) : List Step → IO FileTree
  | [] => return tree
  | .stay :: rest => takeSteps tree place rest
  | .up :: rest => takeSteps tree place.tail rest
  | .name name :: rest => do
      let next : Location := name :: place
      let .ok real ← (IO.FS.realPath next.text).toBaseIO | return tree
      let target := locationOf real.toString
      let tree := if target = next then tree else tree.set next (.link real.toString)
      if ← real.isDir then takeSteps (tree.set target .directory) target rest
      else takeFile tree target

def takePath (tree : FileTree) (path : String) : IO FileTree :=
  takeSteps tree (tree.origin path) (steps path)

-- Puts the tests below a path into a tree. Deeper levels than `depth` stay out, so that links
-- which lead back up come to an end.
def takeTests (depth : Nat) (tree : FileTree) (path : String) : IO FileTree := do
  match depth with
  | 0 => return tree
  | depth + 1 =>
      let .ok real ← (IO.FS.realPath path).toBaseIO | return tree
      if !(← real.isDir) then return tree
      let mut tree := tree
      for child in ← real.readDir do
        let inner := Path.join path child.fileName
        if ← child.path.isDir then
          tree ← takeTests depth (← takePath tree inner) inner
        else if child.fileName.endsWith Suite.testSuffix then
          tree ← takePath tree inner
      return tree

-- No path that the machine takes has more names.
def maxDepth : Nat := 2048

-- Reads what a task looks at, until it looks at nothing new.
partial def takeReach (task : Command.Task) (seen : List String) (tree : FileTree) :
    IO FileTree := do
  match (task.reach tree).filter fun path => !seen.contains path with
  | [] => return tree
  | fresh => takeReach task (seen ++ fresh) (← fresh.foldlM takePath tree)

def take (here : Location) (task : Command.Task) : IO FileTree := do
  let tree ← takeReach task [] ⟨[(here, .directory)], here⟩
  match task.below? with
  | some path => takeTests maxDepth tree path
  | none => return tree

-- Makes one change. A file takes the place of an older one in one step.
def apply (change : Location × Entry) : IO Unit := do
  let path := change.1.text
  match change.2 with
  | .directory => IO.FS.createDirAll path
  | .link _ => return
  | .file bytes =>
      let fresh := path ++ ".new"
      IO.FS.writeBinFile fresh bytes
      IO.FS.rename fresh path

-- Where tests have their files. It is a place in the tree alone.
def scratch : String := "/weave.scratch"

def finish (before : FileTree) (outcome : Command.Outcome) : IO UInt32 := do
  (Command.changes before outcome.tree).forM apply
  IO.print outcome.output
  IO.eprint outcome.messages
  return outcome.code.toUInt32

def run (arguments : List String) : IO UInt32 := do
  try
    let here := locationOf (← IO.currentDir).toString
    let before ← match Command.parse arguments with
      | .ok invocation => take here invocation.task
      | .error _ => pure ⟨[(here, .directory)], here⟩
    finish before (Command.run before scratch arguments)
  catch error =>
    IO.eprintln ("error: " ++ toString error)
    return 1

end LiveDoc.Main

def main (arguments : List String) : IO UInt32 := LiveDoc.Main.run arguments
