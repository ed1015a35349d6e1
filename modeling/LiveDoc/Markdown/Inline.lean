import LiveDoc.Markdown.Emphasis
import LiveDoc.Markdown.Html
import LiveDoc.Markdown.Link

namespace LiveDoc.Markdown

-- The text up to the next run of exactly `marks` backticks, and the text after it.
def untilTicks (marks : Nat) : List Char → Option (List Char × List Char)
  | [] => none
  | c :: rest =>
      let size := run backtick (c :: rest)
      if size = 0 then (untilTicks marks rest).map fun (code, after) => (c :: code, after)
      else if size = marks then some ([], rest.drop (size - 1))
      else (untilTicks marks (rest.drop (size - 1))).map fun (code, after) =>
        (List.replicate size backtick ++ code, after)
termination_by text => text.length
decreasing_by all_goals (simp only [List.length_cons, List.length_drop]; omega)

-- Code loses one space at each end, unless it is all spaces. Line breaks are spaces.
def codeText (code : List Char) : List Char :=
  let flat := code.map fun c => if isLineEnd c then ' ' else c
  if flat.head? == some ' ' && flat.getLast? == some ' ' && flat.any (· != ' ') then
    (flat.drop 1).dropLast
  else flat

def isSchemeChar (c : Char) : Bool := c.isAlphanum || c == '.' || c == '-' || c == '+'

-- An address between angle brackets, after the opening one: the address and its characters.
def uri? (text : List Char) : Option (List Char) :=
  let scheme := text.takeWhile isSchemeChar
  let starts := text.head?.any Char.isAlpha
  if !starts ∨ scheme.length < 2 ∨ 32 < scheme.length ∨
      (text.drop scheme.length).head? ≠ some ':' then
    none
  else
    let body := text.takeWhile fun c => c != '>' && c != '<' && 32 < c.toNat
    if (text.drop body.length).head? = some '>' then some body else none

def isMailChar (c : Char) : Bool :=
  c.isAlphanum ||
    ['.', '!', '#', '$', '%', '&', '\x27', '*', '+', '/', '=', '?', '^', '_', backtick, '\x7b',
      '|', '\x7d', '~', '-'].contains c

def isMailLabel (label : List Char) : Bool :=
  !label.isEmpty && label.length ≤ 63 && label.head? != some '-' && label.getLast? != some '-' &&
    label.all fun c => c.isAlphanum || c == '-'

def mail? (text : List Char) : Option (List Char) :=
  let user := text.takeWhile isMailChar
  match user, text.drop user.length with
  | _ :: _, '@' :: rest =>
      let host := rest.takeWhile fun c => c.isAlphanum || c == '-' || c == '.'
      let labels := ((String.ofList host).splitOn ".").map String.toList
      if labels.all isMailLabel ∧ (rest.drop host.length).head? = some '>' then
        some (user ++ '@' :: host)
      else none
  | _, _ => none

-- The text after a comment whose `<!--` has been read.
def afterComment? (text : List Char) : Option (List Char) :=
  match text with
  | '>' :: rest => some rest
  | '-' :: '>' :: rest => some rest
  | _ => (Text.cutAt? "-->".toList text).map (·.2)

-- The text after a piece of HTML whose `<` has been read.
def afterHtml? (text : List Char) : Option (List Char) :=
  match text with
  | '!' :: '-' :: '-' :: rest => afterComment? rest
  | '?' :: rest => (Text.cutAt? "?>".toList rest).map (·.2)
  | '!' :: c :: rest =>
      if c.isAlpha then (Text.cutAt? ['>'] rest).map (·.2)
      else (Text.after? "[CDATA[".toList (c :: rest)).bind fun body =>
        (Text.cutAt? "]]>".toList body).map (·.2)
  | _ => Html.afterTag? true text

-- An opening bracket of a link or an image with the text after it and the pieces before it.
structure Bracket where
  image : Bool
  active : Bool
  text : List Char
  before : List Piece

-- The pieces since the innermost bracket, last one first.
structure InlineScan where
  brackets : List Bracket
  pieces : List Piece

namespace InlineScan

def add (s : InlineScan) (text : List Char) : InlineScan :=
  { s with pieces := .text text :: s.pieces }

def push (s : InlineScan) (image : Bool) (text : List Char) : InlineScan :=
  ⟨⟨image, true, text, s.pieces⟩ :: s.brackets, []⟩

def Bracket.mark (b : Bracket) : List Char := if b.image then ['!', '['] else ['[']

-- Brackets that are never closed are text.
def flatten (pieces : List Piece) : List Bracket → List Piece
  | [] => pieces
  | b :: outer => flatten (pieces ++ .text (Bracket.mark b) :: b.before) outer

def text (s : InlineScan) : List Char := visible (flatten s.pieces s.brackets).reverse

end InlineScan

def defined (labels : List (List Char)) (label : List Char) : Bool :=
  labels.contains (Link.labelKey label)

def labelHere (text : List Char) : Option (List Char × Nat) := Link.label? (fun _ => some 0) text

-- Whether the text between the brackets is itself the label of a definition.
def isShortcut (labels : List (List Char)) (inside rest : List Char) : Bool :=
  match labelHere inside with
  | some (label, size) => size + rest.length == inside.length && defined labels label
  | none => false

-- What belongs to a link after its closing bracket: a target, a label, or nothing. The result
-- counts characters.
def linkTail? (labels : List (List Char)) (inside rest : List Char) : Option Nat :=
  match Link.afterInline? rest with
  | some after => some (rest.length - after.length)
  | none =>
      match rest with
      | '[' :: ']' :: _ => if isShortcut labels inside rest then some 2 else none
      | '[' :: more =>
          match labelHere more with
          | some (label, size) => if defined labels label then some (size + 1) else none
          | none => if isShortcut labels inside rest then some 0 else none
      | _ => if isShortcut labels inside rest then some 0 else none

-- A link holds no other link, so the brackets around it can no longer become one.
def Bracket.disable (b : Bracket) : Bracket := if b.image then b else { b with active := false }

-- A closing bracket with the text after it.
def closeBracket (labels : List (List Char)) (rest : List Char) (s : InlineScan) :
    Nat × InlineScan :=
  match s.brackets with
  | [] => (1, s.add [']'])
  | b :: outer =>
      match if b.active then linkTail? labels b.text rest else none with
      | some size =>
          let around := if b.image then outer else outer.map Bracket.disable
          (size + 1, ⟨around, .text (visible s.pieces.reverse) :: b.before⟩)
      | none =>
          (1, ⟨outer, .text [']'] :: s.pieces ++ .text (InlineScan.Bracket.mark b) :: b.before⟩)

def angleStep (rest : List Char) (s : InlineScan) : Nat × InlineScan :=
  match (uri? rest).or (mail? rest) with
  | some address => (address.length + 2, s.add address)
  | none =>
      match afterHtml? rest with
      | some after => (rest.length - after.length + 1, s)
      | none => (1, s.add ['<'])

def ticksStep (text : List Char) (s : InlineScan) : Nat × InlineScan :=
  let marks := run backtick text
  let rest := text.drop marks
  match untilTicks marks rest with
  | some (code, after) => (text.length - after.length, s.add (codeText code))
  | none => (marks, s.add (List.replicate marks backtick))

def marksStep (before : Option Char) (mark : Char) (text : List Char) (s : InlineScan) :
    Nat × InlineScan :=
  let size := run mark text
  let next := (text.drop size).head?
  let canOpen := opensEmphasis mark size before next
  let canClose := closesEmphasis mark size before next
  if (canOpen || canClose) && (mark != '~' || size ≤ 2) then
    (size, { s with pieces := .marks ⟨mark, size, canOpen, canClose⟩ :: s.pieces })
  else (size, s.add (List.replicate size mark))

-- One step through the text `c :: rest`: the characters it takes, at least one.
def inlineStep (labels : List (List Char)) (before : Option Char) (c : Char) (rest : List Char)
    (s : InlineScan) : Nat × InlineScan :=
  if c = '*' ∨ c = '_' ∨ c = '~' then marksStep before c (c :: rest) s
  else if c = backtick then ticksStep (c :: rest) s
  else if c = '<' then angleStep rest s
  else if c = ']' then closeBracket labels rest s
  else if c = '[' then (1, s.push false rest)
  else match c, rest with
    | '!', '[' :: more => (2, s.push true more)
    | '\\', d :: _ =>
        if isLineEnd d then (1, s)
        else if Text.isAsciiPunctuation d then (2, s.add [d])
        else (1, s.add [c])
    | '&', _ =>
        match entity? rest with
        | some (value, size) => (size + 1, s.add value)
        | none => (1, s.add [c])
    | _, _ =>
        -- Blanks at the end of a line go with the line break.
        let blanks := count isInlineBlank (c :: rest)
        if isLineEnd c then (1, s)
        else if 0 < blanks ∧ ((rest.drop (blanks - 1)).head?.any isLineEnd) then (blanks, s)
        else if c.toNat = 0 then (1, s.add [Char.ofNat 0xFFFD])
        else (1, s.add [c])

def inlineFrom (labels : List (List Char)) (before : Option Char) (s : InlineScan) :
    List Char → InlineScan
  | [] => s
  | c :: rest =>
      let (size, next) := inlineStep labels before c rest s
      inlineFrom labels ((c :: rest).take size).getLast? next (rest.drop (size - 1))
termination_by text => text.length
decreasing_by simp only [List.length_cons, List.length_drop]; omega

-- The text that a reader sees: markup goes, and lines join without a blank. `labels` are the
-- link definitions of the document.
def inlineText (labels : List (List Char)) (text : List Char) : List Char :=
  (inlineFrom labels none ⟨[], []⟩ text).text

end LiveDoc.Markdown
