import LiveDoc.Suite.Verdict

namespace LiveDoc.Suite

def testSuffix : String := ".test.md"

def forwardSlashes (path : String) : String :=
  String.ofList (path.toList.map fun c => if c = '\\' then '/' else c)

-- The test files of a directory and of those below it, by category: the directories that lead
-- from the start to a file. Links are followed as far as paths allow.
def collect (tree : FileTree) : (depth : Nat) → (directory category : String) →
    NameTable (List String) → NameTable (List String)
  | 0, _, _, found => found
  | depth + 1, directory, category, found =>
      match tree.seek directory with
      | .error _ => found
      | .ok location =>
          (tree.children location).foldl (fun found name =>
            let path := Path.join directory name
            if tree.isDirectory path then
              let inner := if category.isEmpty then name else category ++ "/" ++ name
              collect tree depth path inner found
            else if name.endsWith testSuffix then
              let key := forwardSlashes category
              let files := (NameTable.find? key found).getD []
              NameTable.put key (files ++ [path]) found
            else found) found

-- A path leads through at most `maxLinks` links, and from one to the next no deeper than to what
-- lies deepest.
def discover (tree : FileTree) (root : String) : NameTable (List String) :=
  if tree.isDirectory root then
    collect tree ((FileTree.maxLinks + 1) * (tree.height + 1)) root "" []
  else []

def categoryLabel (category : String) : String := if category.isEmpty then "(root)" else category

-- Whether a category is the named one or lies below it.
def belongs (name category : String) : Bool :=
  category == name || category.startsWith (name ++ "/")

def trimSlashes (name : String) : String := String.ofList (Text.trim (· == '/') name.toList)

-- What the requested names add to the choice, with a warning for a name that adds nothing.
def select (all : NameTable (List String)) (requested : List String) :
    NameTable (List String) × List String :=
  if requested.isEmpty then (all, [])
  else requested.foldl (fun (chosen, warnings) request =>
    let name := trimSlashes request
    let more := all.foldl (fun table (category, files) =>
      if belongs name category then NameTable.put category files table else table) chosen
    if more.length = chosen.length then
      let known := Text.joined ", " ((NameTable.names all).map categoryLabel)
      (more, warnings ++
        ["warning: category '" ++ name ++ "' not found (available: " ++ known ++ ")"])
    else (more, warnings)) ([], [])

def escapeCode : Char := Char.ofNat 27

def paint (color : Bool) (code text : String) : String :=
  if color then
    let start := String.singleton escapeCode ++ "["
    start ++ code ++ "m" ++ text ++ start ++ "0m"
  else text

def verdictLine (color : Bool) (v : Verdict) : String :=
  let mark := if v.failure.isNone then paint color "32" "PASS" else paint color "31" "FAIL"
  "  " ++ mark ++ "  " ++ v.label

def failureLines (v : Verdict) : List String :=
  match v.failure with
  | none => []
  | some failure =>
      ["", "  --- " ++ v.path ++ " ---"] ++ (plainLines failure.reason).map ("  " ++ ·)

def summary (color : Bool) (passed failed : Nat) : String :=
  if failed = 0 then
    "test result: " ++ paint color "32" "ok" ++ ". " ++ toString passed ++ " passed, 0 failed"
  else
    "test result: " ++ paint color "31" "FAILED" ++ ". " ++ toString passed ++ " passed, " ++
      toString failed ++ " failed (of " ++ toString (passed + failed) ++ ")"

-- What a run says, line by line, and whether everything passed.
structure Report where
  lines : List String
  passed : Bool
  deriving DecidableEq, Repr

-- The results of the chosen tests. A single file has no category to show.
def reportOn (color single : Bool) (results : List (String × List Verdict)) : Report :=
  let verdicts := (results.map (·.2)).flatten
  let failed := verdicts.filter fun v => v.failure.isSome
  let shown := results.map fun (category, own) =>
    (if single then [] else ["", paint color "1" (categoryLabel category)]) ++
      own.map (verdictLine color)
  let failures :=
    if failed.isEmpty then [] else ["", "failures:"] ++ (failed.map failureLines).flatten
  ⟨shown.flatten ++ failures ++
      ["", summary color (verdicts.length - failed.length) failed.length], failed.isEmpty⟩

def noTests (path : String) : String := "no .test.md files found in " ++ path

-- Runs a test file, or the test files below a directory that belong to the requested
-- categories.
def run (tree : FileTree) (scratch path : String) (color : Bool) (requested : List String) :
    Report :=
  let single := tree.isFile path
  let all := if single then [("", [path])] else discover tree path
  if all.isEmpty then ⟨[noTests path], false⟩
  else
    let (chosen, warnings) := select all (if single then [] else requested)
    if chosen.isEmpty then ⟨warnings ++ ["no matching categories found"], false⟩
    else
      let results := chosen.map fun (category, files) =>
        (category, files.map (verdict tree scratch))
      let report := reportOn color single results
      { report with lines := warnings ++ report.lines }

-- The categories below a directory with the number of their tests.
def listCategories (tree : FileTree) (path : String) : List String :=
  if tree.isFile path then ["(single file, no categories)"]
  else
    let all := discover tree path
    if all.isEmpty then [noTests path]
    else "available categories:" :: all.map fun (category, files) =>
      "  " ++ categoryLabel category ++ " (" ++ toString files.length ++ " tests)"

end LiveDoc.Suite
