import LiveDoc.FileTree.Basic

namespace LiveDoc

-- How a machine takes what is written to it: the bytes of a file and the characters of a printed text
-- that it takes before it fails, if it fails, and the names that it gives to temporary files.
structure Device where
  room : FileTree → Location → ByteArray → Option Nat
  printed : String → Option Nat
  fresh : Nat → String

-- A machine that takes everything.
def Device.sound : Device where
  room := fun _ _ _ => none
  printed := fun _ => none
  fresh := fun index => Text.padded '0' 6 (toString index)

namespace FileTree

-- Fills a file that has been opened and holds nothing so far.
def fill (tree : FileTree) (device : Device) (location : Location) (bytes : ByteArray) :
    FileTree × Except PathError Unit :=
  match device.room tree location bytes with
  | none => (tree.set location (.file bytes), .ok ())
  | some count => (tree.set location (.file (bytes.extract 0 count)), .error .noSpace)

-- Writes a file in its own place, so that a failing write leaves a part.
def overwrite (tree : FileTree) (device : Device) (path : String) (bytes : ByteArray) :
    FileTree × Except PathError Unit :=
  match tree.target path with
  | .error cause => (tree, .error cause)
  | .ok location => (tree.set location (.file .empty)).fill device location bytes

def maxTries : Nat := 65536

-- A location in a directory for a temporary file: that of the first name, from `index` on, which
-- nothing has.
def vacant (tree : FileTree) (device : Device) (directory : String) :
    (tries index : Nat) → Except PathError Location
  | 0, _ => .error .taken
  | tries + 1, index =>
      let path := Path.join directory (".tmp" ++ device.fresh index)
      match tree.free (Path.join (Location.text tree.here) path) with
      | .error .taken => vacant tree device directory tries (index + 1)
      | found => found

-- Writes a file elsewhere in its directory and gives it its name when it is whole. The temporary file
-- goes away where this fails. An error names the path that cannot be written.
def replace (tree : FileTree) (device : Device) (path : String) (bytes : ByteArray) :
    FileTree × Except String Unit :=
  let directory := Path.directory path
  match tree.vacant device directory maxTries 0 with
  | .error _ => (tree, .error directory)
  | .ok location =>
      let opened := tree.set location (.file .empty)
      match opened.fill device location bytes with
      | (left, .error _) => (left.remove location, .error path)
      | (left, .ok _) =>
          match left.rename location path with
          | .error _ => (left.remove location, .error path)
          | .ok next => (next, .ok ())

end FileTree

end LiveDoc
