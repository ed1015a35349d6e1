import LiveDoc.Data.Bytes
import LiveDoc.FileTree.Path

namespace LiveDoc

-- Why a path cannot be used.
inductive PathError where
  | notFound
  | notDirectory
  | isDirectory
  | taken
  | linkLoop
  | nameTooLong
  | zeroByte
  | notText
  | noSpace
  deriving DecidableEq, Repr

def PathError.message : PathError → String
  | .notFound => "No such file or directory (os error 2)"
  | .notDirectory => "Not a directory (os error 20)"
  | .isDirectory => "Is a directory (os error 21)"
  | .taken => "File exists (os error 17)"
  | .linkLoop => "Too many levels of symbolic links (os error 40)"
  | .nameTooLong => "File name too long (os error 36)"
  | .zeroByte => "file name contained an unexpected NUL byte"
  | .notText => "stream did not contain valid UTF-8"
  | .noSpace => "No space left on device (os error 28)"

inductive Entry where
  | file (bytes : ByteArray)
  | directory
  | link (target : String)
  deriving DecidableEq

-- The names from the root to an entry, the entry's own name first.
abbrev Location := List String

-- A finite tree of files. A location that lies above an entry is a directory, and so is the
-- root; relative paths start at `here`.
structure FileTree where
  entries : List (Location × Entry)
  here : Location

def Location.text (location : Location) : String :=
  "/" ++ Text.joined "/" location.reverse

inductive Step where
  | stay
  | up
  | name (name : String)
  deriving DecidableEq, Repr

def Step.ofPiece (piece : String) : Step :=
  if piece = "" ∨ piece = "." then .stay
  else if piece = ".." then .up
  else .name piece

def steps (path : String) : List Step := (Path.pieces path).map Step.ofPiece

namespace FileTree

def entry? (tree : FileTree) (location : Location) : Option Entry :=
  match tree.entries.find? fun e => e.1 == location with
  | some (_, entry) => some entry
  | none =>
      if location = [] ∨ tree.entries.any (fun e => location.isSuffixOf e.1) then some .directory
      else none

def isDirectoryAt (tree : FileTree) (location : Location) : Bool :=
  tree.entry? location == some .directory

def origin (tree : FileTree) (path : String) : Location :=
  if Path.isAbsolute path then [] else tree.here

def maxLinks : Nat := 40

def maxName : Nat := 255

-- In bytes, as `maxName` is.
def maxPath : Nat := 4095

-- Follows steps from a directory, through at most `links` symbolic links. With `create`, the
-- last name need not exist.
def walk (tree : FileTree) (create : Bool) (links : Nat) (place : Location) (todo : List Step) :
    Except PathError Location :=
  match todo with
  | [] => .ok place
  | step :: rest =>
      if !tree.isDirectoryAt place then .error .notDirectory
      else match step with
        | .stay => walk tree create links place rest
        | .up => walk tree create links place.tail rest
        | .name name =>
            if maxName < name.utf8ByteSize then .error .nameTooLong
            else match tree.entry? (name :: place) with
              | none => if create ∧ rest = [] then .ok (name :: place) else .error .notFound
              | some (.link target) =>
                  match links with
                  | 0 => .error .linkLoop
                  | links + 1 =>
                      let start := if Path.isAbsolute target then [] else place
                      walk tree create links start (steps target ++ rest)
              | some _ => walk tree create links (name :: place) rest
termination_by (links, todo.length)

def checked (path : String) : Except PathError (List Step) :=
  if path.isEmpty then .error .notFound
  else if path.contains (Char.ofNat 0) then .error .zeroByte
  else .ok (steps path)

-- A path that the system takes.
def accepted (path : String) : Except PathError (List Step) := do
  let todo ← checked path
  if maxPath < path.utf8ByteSize then .error .nameTooLong else .ok todo

-- Where the system comes to by a path, with every link followed.
def seek (tree : FileTree) (path : String) : Except PathError Location := do
  tree.walk false maxLinks (tree.origin path) (← accepted path)

-- The one location that a path names. It is followed name by name, so that the path may be longer
-- than the system takes, but the path of what it names may not.
def locate (tree : FileTree) (path : String) : Except PathError Location := do
  let location ← tree.walk false maxLinks (tree.origin path) (← checked path)
  if maxPath < location.text.utf8ByteSize then .error .nameTooLong else .ok location

def find? (tree : FileTree) (path : String) : Option Entry :=
  match tree.seek path with
  | .ok location => tree.entry? location
  | .error _ => none

def isDirectory (tree : FileTree) (path : String) : Bool := tree.find? path == some .directory

def exists? (tree : FileTree) (path : String) : Bool := (tree.find? path).isSome

def isFile (tree : FileTree) (path : String) : Bool :=
  match tree.find? path with
  | some (.file _) => true
  | _ => false

def textAt (tree : FileTree) (location : Location) : Except PathError String :=
  match tree.entry? location with
  | some (.file bytes) =>
      match String.fromUTF8? bytes with
      | some text => .ok text
      | none => .error .notText
  | some _ => .error .isDirectory
  | none => .error .notFound

def readText (tree : FileTree) (path : String) : Except PathError String := do
  tree.textAt (← tree.seek path)

-- Replaces what is at a location.
def set (tree : FileTree) (location : Location) (entry : Entry) : FileTree :=
  { tree with
    entries := tree.entries.filter (fun e => e.1 != location) ++ [(location, entry)] }

def remove (tree : FileTree) (location : Location) : FileTree :=
  { tree with entries := tree.entries.filter fun e => e.1 != location }

-- The file that a path is written to, through links. Its directory must exist.
def target (tree : FileTree) (path : String) : Except PathError Location := do
  let location ← tree.walk true maxLinks (tree.origin path) (← accepted path)
  if tree.isDirectoryAt location then .error .isDirectory else .ok location

def write (tree : FileTree) (path : String) (bytes : ByteArray) : Except PathError FileTree := do
  return tree.set (← tree.target path) (.file bytes)

-- The location of the last name of a path, in a directory. The name may be free or a link's.
def slot (tree : FileTree) (path : String) : Except PathError Location := do
  match (← accepted path).reverse with
  | [] => .error .notFound
  | last :: front =>
      let place ← tree.walk false maxLinks (tree.origin path) front.reverse
      if !tree.isDirectoryAt place then .error .notDirectory
      else match last with
        | .name name => if maxName < name.utf8ByteSize then .error .nameTooLong else .ok (name :: place)
        | _ => .error .taken

-- The location of a name that nothing has yet.
def free (tree : FileTree) (path : String) : Except PathError Location := do
  let location ← tree.slot path
  if (tree.entry? location).isSome then .error .taken else .ok location

def makeDirectory (tree : FileTree) (path : String) : Except PathError FileTree := do
  return tree.set (← tree.free (Path.withoutEnd path)) .directory

-- Makes a directory, unless there is one already. The empty path asks for none.
def ensureDirectory (tree : FileTree) (path : String) : FileTree × Except PathError Unit :=
  if path.isEmpty then (tree, .ok ())
  else match tree.makeDirectory path with
    | .ok next => (next, .ok ())
    | .error cause => (tree, if tree.isDirectory path then .ok () else .error cause)

-- Makes a directory. Where the one above it is missing, that one is made first, and so on; `above` has
-- their paths, the nearest first. What has been made stays when a later one cannot be made.
def makeBelow (tree : FileTree) (path : String) :
    (above : List String) → FileTree × Except PathError Unit
  | [] => tree.ensureDirectory path
  | parent :: rest =>
      match tree.makeDirectory path with
      | .error .notFound =>
          match makeBelow tree parent rest with
          | (left, .error cause) => (left, .error cause)
          | (left, .ok _) => left.ensureDirectory path
      | _ => tree.ensureDirectory path

-- Makes a directory with all directories above it.
def makeDirectories (tree : FileTree) (path : String) : FileTree × Except PathError Unit :=
  tree.makeBelow path (Path.above path)

-- Gives what is at a location the name that a path ends with. A file that has the name gives way.
def rename (tree : FileTree) (location : Location) (path : String) : Except PathError FileTree := do
  let goal ← tree.slot path
  if tree.isDirectoryAt goal then .error .isDirectory
  else match tree.entry? location with
    | some entry => .ok ((tree.remove location).set goal entry)
    | none => .error .notFound

-- The number of names that lead to what lies deepest.
def height (tree : FileTree) : Nat := tree.entries.foldr (fun e most => max e.1.length most) 0

-- The names in a directory, in ascending order.
def children (tree : FileTree) (location : Location) : List String :=
  let below := tree.entries.filterMap fun e =>
    if location.isSuffixOf e.1 then (e.1.take (e.1.length - location.length)).getLast? else none
  let names := below.foldl
    (fun names name => if names.contains name then names else name :: names) []
  names.mergeSort fun a b => decide (a ≤ b)

end FileTree

end LiveDoc
