import LiveDoc.Text.Basic

namespace LiveDoc.Path

def pieces (path : String) : List String := path.splitOn "/"

def isAbsolute (path : String) : Bool := path.startsWith "/"

-- A path read from a directory. An absolute path stands for itself.
def join (base path : String) : String :=
  if isAbsolute path then path
  else if base.isEmpty || base.endsWith "/" then base ++ path
  else base ++ "/" ++ path

-- The pieces of a path, last one first, without the empty ones and dots that end it. The
-- first piece of a path always counts.
def dropIdle : List String → List String
  | [] => []
  | [first] => [first]
  | piece :: rest => if piece = "" ∨ piece = "." then dropIdle rest else piece :: rest

def ofPieces : List String → String
  | [""] => "/"
  | reversed => Text.joined "/" reversed.reverse

-- The path without its last component. The root and the empty path have no parent.
def parent? (path : String) : Option String :=
  match dropIdle (pieces path).reverse with
  | [] => none
  | [""] => none
  | [_] => some ""
  | _ :: rest => some (ofPieces (dropIdle rest))

-- The paths that are left of a path component by component, the longest first, when there are at
-- most `count` of them.
def parents (path : String) : (count : Nat) → List String
  | 0 => []
  | count + 1 =>
      match parent? path with
      | none => []
      | some parent => parent :: parents parent count

-- All directories above a path, the nearest first.
def above (path : String) : List String := parents path (pieces path).length

-- The path without the slashes at its end.
def withoutEnd (path : String) : String :=
  let front := String.ofList (Text.trimEnd (· == '/') path.toList)
  if front.isEmpty then path else front

-- The directory that a document's own relative paths start from.
def directory (path : String) : String :=
  match parent? path with
  | none => "."
  | some parent => if parent.isEmpty then "." else parent

def name? (path : String) : Option String :=
  match dropIdle (pieces path).reverse with
  | [] => none
  | last :: _ => if last = "" ∨ last = "." ∨ last = ".." then none else some last

-- The name without its last extension. A leading dot starts no extension.
def stem? (path : String) : Option String :=
  (name? path).map fun name =>
    match (name.splitOn ".").reverse with
    | [] => name
    | [_] => name
    | _ :: rest =>
        let front := Text.joined "." rest.reverse
        if front.isEmpty then name else front

end LiveDoc.Path
