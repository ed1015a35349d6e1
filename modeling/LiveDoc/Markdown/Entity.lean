import LiveDoc.Markdown.EntityTable
import LiveDoc.Markdown.Scan

namespace LiveDoc.Markdown

def hexValue? (c : Char) : Option Nat :=
  if c.isDigit then some (c.toNat - 48)
  else if 'a' ≤ c ∧ c ≤ 'f' then some (c.toNat - 87)
  else if 'A' ≤ c ∧ c ≤ 'F' then some (c.toNat - 55)
  else none

def isHexDigit (c : Char) : Bool := (hexValue? c).isSome

def numeral (base : Nat) (digits : List Char) : Nat :=
  digits.foldl (fun n c => n * base + (hexValue? c).getD 0) 0

-- A code point as a character. Zero gives the replacement character.
def codePoint? (n : Nat) : Option Char :=
  if n = 0 then some (Char.ofNat 0xFFFD)
  else if h : n.isValidChar then some (Char.ofNatAux n h)
  else none

def namedEntity? (name : String) : Option (List Char) :=
  let key := name ++ "="
  entityRows.findSome? fun row =>
    if !Text.contains key.toList row.toList then none
    else (row.splitOn " ").findSome? fun entry =>
      (Text.after? key.toList entry.toList).map fun points =>
        ((String.ofList points).splitOn "+").map fun p => Char.ofNat (numeral 16 p.toList)

-- A character reference after its ampersand: its text and its characters, semicolon included.
def entity? (text : List Char) : Option (List Char × Nat) :=
  match text with
  | '#' :: rest =>
      let (lead, base, limit, body) := match rest with
        | 'x' :: more => (2, 16, 6, more)
        | 'X' :: more => (2, 16, 6, more)
        | _ => (1, 10, 7, rest)
      let isDigit (c : Char) : Bool := if base = 16 then isHexDigit c else c.isDigit
      let digits := (body.takeWhile isDigit).take limit
      match digits, body.drop digits.length with
      | _ :: _, ';' :: _ =>
          (codePoint? (numeral base digits)).map fun c => ([c], lead + digits.length + 1)
      | _, _ => none
  | _ =>
      let name := text.takeWhile Char.isAlphanum
      match text.drop name.length with
      | ';' :: _ => (namedEntity? (String.ofList name)).map fun value => (value, name.length + 1)
      | _ => none

-- Text outside code: escapes lose their backslash, character references become characters and
-- carriage returns go.
def unescape : List Char → List Char
  | [] => []
  | c :: rest =>
      if c = '\r' then unescape rest
      else if c = '\\' then
        match rest with
        | d :: more =>
            if Text.isAsciiPunctuation d then d :: unescape more else c :: unescape (d :: more)
        | [] => [c]
      else if c = '&' then
        match entity? rest with
        | some (value, size) => value ++ unescape (rest.drop size)
        | none => c :: unescape rest
      else c :: unescape rest
termination_by text => text.length
decreasing_by all_goals (simp only [List.length_cons, List.length_drop]; omega)

end LiveDoc.Markdown
