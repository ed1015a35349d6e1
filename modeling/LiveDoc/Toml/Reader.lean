import LiveDoc.Toml.Table
import LiveDoc.Toml.Text

namespace LiveDoc.Toml

-- Digits with single underscores between them.
def digits? (isDigit : Char → Bool) : Reader (List Char)
  | [] => none
  | c :: rest =>
      if !isDigit c then none
      else match rest with
        | '_' :: more => (digits? isDigit more).map fun (ds, after) => (c :: ds, after)
        | d :: tail =>
            if isDigit d then (digits? isDigit (d :: tail)).map fun (ds, after) => (c :: ds, after)
            else some ([c], d :: tail)
        | [] => some ([c], [])

def numeral (base : Nat) (digits : List Char) : Nat :=
  digits.foldl (fun n c => n * base + (hexValue? c).getD 0) 0

def isDigitBelow (base : Nat) (c : Char) : Bool := (hexValue? c).any (· < base)

def based (base : Nat) (text : List Char) : Option (Int × List Char) :=
  (digits? (isDigitBelow base) text).map fun (ds, after) => ((numeral base ds : Int), after)

-- A decimal number has no leading zeros.
def decimal : Reader Int
  | '0' :: rest => some (0, rest)
  | text => based 10 text

def anyInteger : Reader Int
  | '0' :: 'x' :: rest => based 16 rest
  | '0' :: 'o' :: rest => based 8 rest
  | '0' :: 'b' :: rest => based 2 rest
  | '+' :: rest => decimal rest
  | '-' :: rest => (decimal rest).map fun (n, after) => (-n, after)
  | text => decimal text

-- Integers have 64 bits.
def maxInteger : Int := 9223372036854775807

def integer? (text : List Char) : Option (Int × List Char) := do
  let (n, rest) ← anyInteger text
  if -maxInteger - 1 ≤ n ∧ n ≤ maxInteger then some (n, rest) else none

-- Blanks, line breaks and comments between the items of a list.
def skipBetween : (fuel : Nat) → List Char → List Char
  | 0, text => text
  | fuel + 1, text =>
      let rest := skipLines text
      match rest with
      | '#' :: _ =>
          match afterNewline? (skipComment rest) with
          | some after => skipBetween fuel after
          | none => rest
      | _ => rest

def between (text : List Char) : List Char := skipBetween (text.length + 1) text

-- The items of a list up to its closing bracket. A comma may follow the last one.
def listItems (item : Reader Value) : (fuel : Nat) → Reader (List Value)
  | 0, _ => none
  | fuel + 1, text =>
      match between text with
      | ']' :: after => some ([], after)
      | start => do
          let (first, rest) ← item start
          match between rest with
          | ',' :: more =>
              let (others, after) ← listItems item fuel more
              return (first :: others, after)
          | ']' :: after => return ([first], after)
          | _ => none

-- The entries of a table on one line, up to its closing brace. No comma follows the last one.
def inlineEntries (item : Reader Value) (entries : Entries) : (fuel : Nat) → Reader Entries
  | 0, _ => none
  | fuel + 1, text => do
      let ((path, name), rest) ← key? text
      match rest with
      | '=' :: body =>
          let (value, after) ← item (skipSpaces body)
          let (_, entries) ← insert path name value .inline entries
          match skipSpaces after with
          | ',' :: more => inlineEntries item entries fuel more
          | '\x7d' :: more => return (entries, more)
          | _ => none
      | _ => none

def inlineTable (item : Reader Value) (text : List Char) : Option (Value × List Char) :=
  match skipSpaces text with
  | '\x7d' :: after => some (.table .inline [], after)
  | _ => (inlineEntries item [] (text.length + 1) text).map fun (entries, after) =>
      (.table .inline entries, after)

-- A value that holds no others.
def scalar? : Reader Value
  | [] => none
  | c :: rest =>
      if isQuote c then (text? (c :: rest)).map fun (s, after) => (.text (String.ofList s), after)
      else (integer? (c :: rest)).map fun (n, after) => (.integer n, after)

-- A value whose lists and tables are nested at most `budget` deep.
def valueWithin : (budget : Nat) → Reader Value
  | 0, text => scalar? text
  | budget + 1, text =>
      match text with
      | '[' :: rest =>
          (listItems (valueWithin budget) (rest.length + 1) rest).map fun (items, after) =>
            (.list items, after)
      | '\x7b' :: rest => inlineTable (valueWithin budget) rest
      | _ => scalar? text

def maxNesting : Nat := 79

def value? : Reader Value := valueWithin maxNesting

-- What has been read, and the table that the next keys belong to.
structure Reading where
  entries : Entries
  here : List String

def Reading.apply (r : Reading) (change : Change) : Option Reading :=
  (change .header r.entries).map fun (_, entries) => { r with entries }

-- The text after a header, and the table that it opens.
def header? (close : List Char) (start : List String → String → Change) (r : Reading)
    (text : List Char) : Option (Reading × List Char) := do
  let ((path, name), rest) ← key? text
  let after ← lineEnd? (← Text.after? close rest)
  let opened ← r.apply (start path name)
  return (⟨opened.entries, path ++ [name]⟩, after)

def entry? (r : Reading) (text : List Char) : Option (Reading × List Char) := do
  let ((path, name), rest) ← key? text
  let body ← Text.after? ['='] rest
  let (value, rest) ← value? (skipSpaces body)
  let after ← lineEnd? rest
  let next ← r.apply (changeAt false (insert path name value) r.here)
  return (next, after)

-- One line, or several when a value runs over them.
def line? (r : Reading) (text : List Char) : Option (Reading × List Char) :=
  match skipSpaces text with
  | [] => some (r, [])
  | '[' :: '[' :: rest => header? [']', ']'] openItem r rest
  | '[' :: rest => header? [']'] openTable r rest
  | c :: rest =>
      if c = '#' ∨ c = '\n' ∨ c = '\r' then (lineEnd? (c :: rest)).map (r, ·)
      else entry? r (c :: rest)

def linesFrom (r : Reading) : (fuel : Nat) → List Char → Option Reading
  | _, [] => some r
  | 0, _ => none
  | fuel + 1, text => do
      let (next, rest) ← line? r text
      linesFrom next fuel rest

def byteOrderMark : Char := Char.ofNat 0xFEFF

-- The root table of a document, if the text is one.
def parse? (text : List Char) : Option Entries :=
  let body := match text with
    | c :: rest => if c = byteOrderMark then rest else text
    | [] => []
  (linesFrom ⟨[], []⟩ (body.length + 1) body).map (·.entries)

end LiveDoc.Toml
