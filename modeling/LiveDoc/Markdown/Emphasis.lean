import LiveDoc.Markdown.Scan

namespace LiveDoc.Markdown

-- A run of `*`, `_` or `~` with what its neighbours let it do.
structure MarkRun where
  mark : Char
  length : Nat
  canOpen : Bool
  canClose : Bool
  deriving DecidableEq, Repr

-- Text without markup, except for marks that may still be emphasis.
inductive Piece where
  | text (text : List Char)
  | marks (run : MarkRun)
  deriving DecidableEq, Repr

-- Whether a run can open emphasis, from the characters around it. An underscore or a single
-- tilde cannot inside a word.
def opensEmphasis (mark : Char) (length : Nat) (before next : Option Char) : Bool :=
  match next, before with
  | none, _ => false
  | some n, none => !Text.isBlank n
  | some n, some b =>
      !Text.isBlank n &&
        ((mark == '*' && !Text.isPunctuation n) || (mark == '~' && 1 < length) ||
          (mark == '~' && b == '~' && !Text.isPunctuation n) ||
          Text.isBlank b || Text.isPunctuation b)

def closesEmphasis (mark : Char) (length : Nat) (before next : Option Char) : Bool :=
  match before, next with
  | none, _ => false
  | some b, none => !Text.isBlank b
  | some b, some n =>
      !Text.isBlank b &&
        (((mark == '*' || (mark == '~' && 1 < length)) && !Text.isPunctuation b) ||
          (mark == '~' && b == '~') || Text.isBlank n || Text.isPunctuation n)

def MarkRun.both (run : MarkRun) : Bool := run.canOpen && run.canClose

-- Two runs of a kind match. If one of them could do both, their lengths must not add up to a
-- multiple of three, unless the closing one is a multiple itself. Tildes match the same number.
def MarkRun.closes (closer opener : MarkRun) : Bool :=
  closer.mark == opener.mark &&
    (closer.mark != '~' || closer.length == opener.length) &&
    ((!closer.both && !opener.both) || (closer.length + opener.length) % 3 != 0 ||
      closer.length % 3 == 0)

-- An opening run, how many of its marks are not yet matched, and the text since.
structure OpenRun where
  run : MarkRun
  left : Nat
  after : List Char

-- The open runs, innermost first, after the text in front of them all. The outermost `barred`
-- of them close no tildes: a run of tildes has already failed to find its match there.
structure Openers where
  front : List Char
  runs : List OpenRun
  barred : Nat

namespace Openers

def empty : Openers := ⟨[], [], 0⟩

def add (o : Openers) (text : List Char) : Openers :=
  match o.runs with
  | [] => { o with front := o.front ++ text }
  | run :: outer => { o with runs := { run with after := run.after ++ text } :: outer }

def OpenRun.text (o : OpenRun) : List Char := List.replicate o.left o.run.mark ++ o.after

def textOf (runs : List OpenRun) : List Char := (runs.reverse.map OpenRun.text).flatten

def text (o : Openers) : List Char := o.front ++ textOf o.runs

-- The innermost run that the closing one matches, between the runs inside and outside of it.
def find? (closer : MarkRun) : List OpenRun → Option (List OpenRun × OpenRun × List OpenRun)
  | [] => none
  | run :: outer =>
      if closer.closes run.run then some ([], run, outer)
      else (find? closer outer).map fun (inner, found, rest) => (run :: inner, found, rest)

def reachable (o : Openers) (closer : MarkRun) : List OpenRun :=
  if closer.mark = '~' then o.runs.take (o.runs.length - o.barred) else o.runs

-- Matches up to `count` marks of a closing run and leaves out what has matched. The runs
-- inside a match become text.
def close (closer : MarkRun) (count : Nat) (o : Openers) : Nat × Openers :=
  match count with
  | 0 => (0, o)
  | more + 1 =>
      match find? closer (o.reachable closer) with
      | none =>
          (more + 1, if closer.mark = '~' then { o with barred := o.runs.length } else o)
      | some (inner, found, _) =>
          let outer := o.runs.drop (inner.length + 1)
          let used := min (more + 1) found.left
          let body := found.after ++ textOf inner
          let kept := { o with runs := outer, barred := min o.barred outer.length }
          let next :=
            if used < found.left then
              { kept with runs := { found with left := found.left - used, after := body } :: outer }
            else kept.add body
          close closer (more + 1 - max used 1) next
termination_by count
decreasing_by omega

def readMarks (o : Openers) (run : MarkRun) : Openers :=
  let (left, o) := if run.canClose then o.close run run.length else (run.length, o)
  if left = 0 then o
  else if run.canOpen then { o with runs := ⟨run, left, []⟩ :: o.runs }
  else o.add (List.replicate left run.mark)

def read (o : Openers) : Piece → Openers
  | .text text => o.add text
  | .marks run => o.readMarks run

end Openers

-- The text of pieces once emphasis is found: marks that match no others stay.
def visible (pieces : List Piece) : List Char := (pieces.foldl Openers.read .empty).text

end LiveDoc.Markdown
