import LiveDoc.Text.Basic

namespace LiveDoc.Toml

-- A value and the text after it.
abbrev Reader (α : Type) := List Char → Option (α × List Char)

def isSpace (c : Char) : Bool := c == ' ' || c == '\t'

def skipSpaces (text : List Char) : List Char := text.dropWhile isSpace

-- Control characters other than the tab may stand nowhere.
def isTextChar (c : Char) : Bool := c == '\t' || (32 ≤ c.toNat && c.toNat != 127)

-- The characters of the line break at the start of a text.
def newline? : List Char → Option Nat
  | '\n' :: _ => some 1
  | '\r' :: '\n' :: _ => some 2
  | _ => none

def afterNewline? (text : List Char) : Option (List Char) := (newline? text).map text.drop

def skipComment : List Char → List Char
  | '#' :: rest => rest.dropWhile isTextChar
  | text => text

-- The text after the end of a line on which nothing but a comment is left.
def lineEnd? (text : List Char) : Option (List Char) :=
  match skipComment (skipSpaces text) with
  | [] => some []
  | rest => afterNewline? rest

def hexValue? (c : Char) : Option Nat :=
  if c.isDigit then some (c.toNat - 48)
  else if 'a' ≤ c ∧ c ≤ 'f' then some (c.toNat - 87)
  else if 'A' ≤ c ∧ c ≤ 'F' then some (c.toNat - 55)
  else none

def codePoint? (digits : List Char) : Option Char := do
  let values ← digits.mapM hexValue?
  let n := values.foldl (fun n v => n * 16 + v) 0
  if h : n.isValidChar then some (Char.ofNatAux n h) else none

-- The character that an escape stands for, and its characters after the backslash.
def escape? : List Char → Option (Char × Nat)
  | [] => none
  | c :: rest =>
      match c with
      | 'b' => some (Char.ofNat 8, 1)
      | 't' => some ('\t', 1)
      | 'n' => some ('\n', 1)
      | 'f' => some (Char.ofNat 12, 1)
      | 'r' => some ('\r', 1)
      | '\x22' => some (c, 1)
      | '\\' => some (c, 1)
      | 'u' => if rest.length < 4 then none else (codePoint? (rest.take 4)).map (·, 5)
      | 'U' => if rest.length < 8 then none else (codePoint? (rest.take 8)).map (·, 9)
      | _ => none

-- A text on one line, after its opening quote. Only double quotes know escapes.
def shortBody (quote : Char) : Reader (List Char)
  | [] => none
  | c :: rest =>
      if c = quote then some ([], rest)
      else if c = '\\' ∧ quote = '\x22' then do
        let (value, count) ← escape? rest
        let (more, after) ← shortBody quote (rest.drop count)
        return (value :: more, after)
      else if isTextChar c then do
        let (more, after) ← shortBody quote rest
        return (c :: more, after)
      else none
termination_by text => text.length
decreasing_by all_goals (simp only [List.length_cons, List.length_drop]; omega)

-- How many characters of spaces and line breaks a text starts with.
def blankCount : List Char → Nat
  | [] => 0
  | c :: rest =>
      if isSpace c || c == '\n' || (c == '\r' && rest.head? == some '\n') then
        blankCount rest + 1
      else 0

def skipLines (text : List Char) : List Char := text.drop (blankCount text)

-- The blanks after a backslash that ends a line, with those that start the next lines.
def joinedLine? (text : List Char) : Option Nat :=
  (newline? (skipSpaces text)).map fun _ => blankCount text

-- A text over several lines, after its three opening quotes. One or two quotes may stand inside,
-- also right before the three that close it.
def longBody (quote : Char) (text : List Char) : Option (List Char × List Char) :=
  match text with
  | [] => none
  | c :: rest =>
      if c = quote then
        let quotes := ((c :: rest).takeWhile (· == quote)).length
        if 3 ≤ quotes then
          let inside := min (quotes - 3) 2
          some (List.replicate inside quote, rest.drop (inside + 2))
        else do
          let (more, after) ← longBody quote rest
          return (c :: more, after)
      else if c = '\\' ∧ quote = '\x22' then
        match joinedLine? rest with
        | some size => longBody quote (rest.drop size)
        | none => do
            let (value, count) ← escape? rest
            let (more, after) ← longBody quote (rest.drop count)
            return (value :: more, after)
      else match newline? (c :: rest) with
        | some size => do
            let (more, after) ← longBody quote (rest.drop (size - 1))
            return ('\n' :: more, after)
        | none =>
            if isTextChar c then do
              let (more, after) ← longBody quote rest
              return (c :: more, after)
            else none
termination_by text.length
decreasing_by all_goals (simp only [List.length_cons, List.length_drop]; omega)

def isQuote (c : Char) : Bool := c == '\x22' || c == '\x27'

-- A quoted text. A line break right after three opening quotes is no part of it.
def text? : Reader (List Char)
  | [] => none
  | c :: rest =>
      if !isQuote c then none
      else match rest with
        | d :: e :: body =>
            if d = c ∧ e = c then longBody c ((afterNewline? body).getD body)
            else shortBody c rest
        | _ => shortBody c rest

def isBareChar (c : Char) : Bool := c.isAlphanum || c == '-' || c == '_'

def simpleKey? : Reader String
  | [] => none
  | c :: rest =>
      if isQuote c then (shortBody c rest).map fun (key, after) => (String.ofList key, after)
      else
        let key := (c :: rest).takeWhile isBareChar
        if key = [] then none else some (String.ofList key, (c :: rest).drop key.length)

-- A key with its dots: the names before the last one, and the last.
def keyFrom (before : List String) : (fuel : Nat) → Reader (List String × String)
  | 0, _ => none
  | fuel + 1, text => do
      let (name, rest) ← simpleKey? (skipSpaces text)
      match skipSpaces rest with
      | '.' :: more => keyFrom (before ++ [name]) fuel more
      | after => return ((before, name), after)

def key? : Reader (List String × String) := fun text => keyFrom [] (text.length + 1) text

end LiveDoc.Toml
