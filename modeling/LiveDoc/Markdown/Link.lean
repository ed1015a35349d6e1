import LiveDoc.Markdown.Entity
import LiveDoc.Text.LetterCase

namespace LiveDoc.Markdown.Link

-- Labels match when they are equal up to case and the amount of blank between words.
def labelKey (label : List Char) : List Char :=
  Text.lower ([' '].intercalate (Text.fields isAsciiBlank label))

-- Reads blanks inside a label, with at most one line break among them. `skip` says how many
-- characters belong to the containers at the start of the next line, if the label may go on there.
def labelBlanks (skip : List Char → Option Nat) (broken : Bool) (read : Nat) :
    (fuel : Nat) → List Char → Option Nat
  | 0, _ => none
  | _, [] => some read
  | fuel + 1, c :: rest =>
      if isInlineBlank c then labelBlanks skip broken (read + 1) fuel rest
      else if isLineEnd c then
        if broken then none
        else
          let size := (lineBreak? (c :: rest)).getD 1
          let next := (c :: rest).drop size
          (skip next).bind fun lead =>
            labelBlanks skip true (read + size + lead) fuel (next.drop lead)
      else some read

def maxLabel : Nat := 1000

-- The label after its opening bracket, and its characters up to and with the closing one.
def labelFrom (skip : List Char → Option Nat) (label : List Char) (read : Nat) :
    (fuel : Nat) → List Char → Option (List Char × Nat)
  | 0, _ => none
  | _, [] => none
  | fuel + 1, c :: rest =>
      if maxLabel ≤ label.length then none
      else if c = '[' then none
      else if c = ']' then
        if label.all isAsciiBlank then none else some (label.reverse, read + 1)
      else if c = '\\' then
        match rest with
        | [] => none
        | d :: more => labelFrom skip (d :: c :: label) (read + 2) fuel more
      else if isAsciiBlank c then
        match labelBlanks skip false 0 (rest.length + 2) (c :: rest) with
        | none => none
        | some blanks =>
            labelFrom skip (' ' :: label) (read + blanks) fuel ((c :: rest).drop blanks)
      else labelFrom skip (c :: label) (read + 1) fuel rest

def label? (skip : List Char → Option Nat) (text : List Char) : Option (List Char × Nat) :=
  labelFrom skip [] 0 (text.length + 1) text

-- A target between angle brackets, after the opening one: its characters with the closing one.
def bracketed (read : Nat) : List Char → Option Nat
  | [] => none
  | '>' :: _ => some (read + 1)
  | '\\' :: d :: rest =>
      if Text.isAsciiPunctuation d then bracketed (read + 2) rest
      else bracketed (read + 1) (d :: rest)
  | c :: rest => if isLineEnd c ∨ c = '<' then none else bracketed (read + 1) rest

def maxParens : Nat := 32

-- A bare target ends at a blank or control character, or at a parenthesis it did not open.
def bare (depth read : Nat) : List Char → Option Nat
  | [] => if depth = 0 then some read else none
  | '\\' :: d :: rest =>
      if Text.isAsciiPunctuation d then bare depth (read + 2) rest
      else bare depth (read + 1) (d :: rest)
  | c :: rest =>
      if c.toNat ≤ 0x20 then if depth = 0 then some read else none
      else if c = '(' then if maxParens < depth then none else bare (depth + 1) (read + 1) rest
      else if c = ')' then
        match depth with
        | 0 => some read
        | inner + 1 => bare inner (read + 1) rest
      else bare depth (read + 1) rest

-- The characters of a link target.
def target? : List Char → Option Nat
  | '<' :: rest => bracketed 1 rest
  | text => bare 0 0 text

def titleEnd? : Char → Option Char
  | '\x22' => some '\x22'
  | '\x27' => some '\x27'
  | '(' => some ')'
  | _ => none

-- The characters of a title after its opening mark, closing mark included. `nested` tells
-- whether the opening mark may occur inside.
def titleBody (nested : Bool) (start stop : Char) (read : Nat) : List Char → Option Nat
  | [] => none
  | '\\' :: d :: rest =>
      if Text.isAsciiPunctuation d then titleBody nested start stop (read + 2) rest
      else titleBody nested start stop (read + 1) (d :: rest)
  | c :: rest =>
      if c = stop then some (read + 1)
      else if c = start ∧ !nested then none
      else titleBody nested start stop (read + 1) rest

def title? : List Char → Option Nat
  | [] => none
  | c :: rest => (titleEnd? c).bind fun stop => titleBody false c stop 1 rest

-- Blanks with at most one line break among them.
def skipSeparator (text : List Char) : List Char :=
  let rest := text.dropWhile isInlineBlank
  let next := rest.drop ((lineBreak? rest).getD 0)
  next.dropWhile isInlineBlank

-- What follows the parenthesis of an inline link: the text after the closing one.
def afterInline? (text : List Char) : Option (List Char) :=
  match text with
  | '(' :: rest =>
      let start := skipSeparator rest
      match target? start with
      | none => none
      | some size =>
          let next := skipSeparator (start.drop size)
          let tail := match title? next with
            | some width => skipSeparator (next.drop width)
            | none => next
          match tail with
          | ')' :: more => some more
          | _ => none
  | _ => none

end LiveDoc.Markdown.Link
