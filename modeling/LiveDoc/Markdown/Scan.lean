import LiveDoc.Markdown.Margin

namespace LiveDoc.Markdown

-- Blanks that do not end a line.
def isInlineBlank (c : Char) : Bool :=
  c == ' ' || c == '\t' || c.toNat == 11 || c.toNat == 12

def isAsciiBlank (c : Char) : Bool := isInlineBlank c || c == '\n' || c == '\r'

def isLineEnd (c : Char) : Bool := c == '\n' || c == '\r'

def count (keep : Char → Bool) (text : List Char) : Nat := (text.takeWhile keep).length

def run (c : Char) (text : List Char) : Nat := count (· == c) text

-- The characters of the line break at the start of a text, none at its end.
def lineBreak? : List Char → Option Nat
  | [] => some 0
  | '\n' :: _ => some 1
  | '\r' :: '\n' :: _ => some 2
  | '\r' :: _ => some 1
  | _ => none

-- The characters of a blank line with its break.
def blankLine? (text : List Char) : Option Nat :=
  let blanks := count isInlineBlank text
  (lineBreak? (text.drop blanks)).map (blanks + ·)

-- The characters up to and with the next line feed.
def lineLength (text : List Char) : Nat :=
  let front := count (· != '\n') text
  if front < text.length then front + 1 else front

-- Three or more of one of `*`, `-` and `_`, with spaces anywhere between them.
def themeBreakFrom (mark : Char) (marks read : Nat) : List Char → Option Nat
  | [] => if 3 ≤ marks then some read else none
  | c :: rest =>
      if isLineEnd c then
        if 3 ≤ marks then (lineBreak? (c :: rest)).map (read + ·) else none
      else if c = mark then themeBreakFrom mark (marks + 1) (read + 1) rest
      else if c = ' ' ∨ c = '\t' then themeBreakFrom mark marks (read + 1) rest
      else none

def themeBreak? : List Char → Option Nat
  | [] => none
  | c :: rest =>
      if c = '*' ∨ c = '-' ∨ c = '_' then themeBreakFrom c 0 0 (c :: rest) else none

-- The level of a heading that starts with number signs.
def hashLevel? (text : List Char) : Option Nat :=
  let level := run '#' text
  let ends := match text.drop level with
    | [] => true
    | c :: _ => isAsciiBlank c
  if ends && 1 ≤ level && level ≤ 6 then some level else none

-- The line below a heading: its characters and the level it gives.
def underline? : List Char → Option (Nat × Nat)
  | [] => none
  | c :: rest =>
      let level := if c = '=' then 1 else 2
      if c = '=' ∨ c = '-' then
        let marks := run c rest + 1
        (blankLine? ((c :: rest).drop marks)).map fun tail => (marks + tail, level)
      else none

def backtick : Char := Char.ofNat 96

-- The opening of a fenced block: its mark and how many there are. Backticks cannot stand on the
-- rest of a line that backticks open.
def fence? : List Char → Option (Nat × Char)
  | [] => none
  | c :: rest =>
      let marks := run c rest + 1
      if (c = backtick ∨ c = '~') ∧ 3 ≤ marks then
        let line := ((c :: rest).drop marks).takeWhile (· != '\n')
        if c = backtick ∧ line.contains backtick then none else some (marks, c)
      else none

-- The closing of a fence, without the line break. The end of the text closes every fence.
def closingFence? (mark : Char) (least : Nat) (text : List Char) : Option Nat :=
  if text.isEmpty then some 0
  else
    let marks := run mark text
    if marks < least then none
    else
      let spaces := run ' ' (text.drop marks)
      (lineBreak? (text.drop (marks + spaces))).map fun _ => marks + spaces

-- A list marker is a bullet, or a number with its delimiter. `start` is the number.
structure ListMarker where
  mark : Char
  start : Nat
  indent : Nat

def isBullet (c : Char) : Bool := c == '-' || c == '+' || c == '*'

-- The content of an item starts after one to four columns, or one column after the marker when
-- the line ends there or an indented block follows.
def finishMarker (mark : Char) (start indent : Nat) (m : Margin) : ListMarker × Margin :=
  if (blankLine? m.rest).isSome then (⟨mark, start, indent⟩, m)
  else
    let (columns, next) := m.indent 4
    if columns < 4 then (⟨mark, start, indent + columns⟩, next) else (⟨mark, start, indent⟩, m)

def markerSpace (m : Margin) : Option Margin :=
  let (missing, next) := m.spaces 1
  if missing = 0 ∨ next.atLineEnd then some next else none

def listMarker? (indent : Nat) (m : Margin) : Option (ListMarker × Margin) :=
  match m.rest with
  | [] => none
  | c :: _ =>
      if isBullet c then
        if (themeBreak? m.rest).isSome then none
        else (markerSpace (m.advance 1)).map fun next => finishMarker c 0 (indent + 2) next
      else
        let digits := m.rest.takeWhile Char.isDigit
        let size := digits.length
        if size = 0 ∨ 9 < size then none
        else match m.rest.drop size with
          | d :: _ =>
              if d = '.' ∨ d = ')' then
                (markerSpace (m.advance (size + 1))).map fun next =>
                  let value := digits.foldl (fun n c => n * 10 + (c.toNat - 48)) 0
                  finishMarker d value (indent + (next.read - m.read)) next
              else none
          | [] => none

def quoteMarker? (m : Margin) : Option Margin :=
  match m.rest with
  | '>' :: _ => some ((m.advance 1).spaces 1).2
  | _ => none

end LiveDoc.Markdown
