import LiveDoc.Markdown.Scan

namespace LiveDoc.Markdown

-- What can hold other blocks. The content of an item is indented.
inductive Container where
  | quote
  | list (mark : Char) (tight : Bool)
  | item (indent : Nat)
  deriving DecidableEq, Repr

-- Reads a container's own mark at the start of a later line.
def Container.enter? : Container → Margin → Option Margin
  | .quote, m => quoteMarker? (m.spaces 3).2
  | .list _ _, m => some m
  | .item indent, m =>
      let (missing, next) := m.spaces indent
      if missing = 0 ∨ next.atLineEnd then some next else none

-- The containers of a line, outermost first, up to the first one it leaves.
def enterAll : List Container → Margin → Nat × Margin
  | [], m => (0, m)
  | container :: inner, m =>
      match container.enter? m with
      | none => (0, m)
      | some next =>
          let (count, last) := enterAll inner next
          (count + 1, last)

-- The margin of a line that stays in all containers.
def within? (containers : List Container) (text : List Char) : Option Margin :=
  let (count, m) := enterAll containers (Margin.ofText text)
  if count = containers.length then some m else none

-- The containers that are open, innermost first, with what the lines before have left to
-- decide. An item that starts with a blank line is `unfilled` until its first block.
structure Frame where
  stack : List Container
  unfilled : Bool
  blankBefore : Bool
  deriving DecidableEq, Repr

namespace Frame

def start : Frame := ⟨[], false, false⟩

def containers (f : Frame) : List Container := f.stack.reverse

def push (f : Frame) (container : Container) : Frame :=
  { f with stack := container :: f.stack }

def pop (f : Frame) : Frame :=
  match f.stack with
  | [] => f
  | .list _ true :: rest => { f with stack := rest, unfilled := false }
  | _ :: rest => { f with stack := rest }

def popTimes : Nat → Frame → Frame
  | 0, f => f
  | n + 1, f => popTimes n f.pop

def keep (f : Frame) (count : Nat) : Frame := popTimes (f.stack.length - count) f

-- An item cannot begin with two blank lines: after them it is over.
def closeUnfilled (f : Frame) : Frame :=
  let closed := match f.stack with
    | .item _ :: _ => if f.unfilled && f.blankBefore then f.pop else f
    | _ => f
  { closed with unfilled := false }

def loosen : List Container → List Container
  | inner :: .list mark _ :: rest => inner :: .list mark false :: rest
  | stack => stack

-- Ends the list, if the innermost container is one, before a block that is no item of it.
def leaveList (f : Frame) : Frame :=
  let f := f.closeUnfilled
  let f := match f.stack with
    | .list _ _ :: _ => f.pop
    | _ => f
  if f.blankBefore then { f with stack := loosen f.stack, blankBefore := false } else f

-- Goes on with the list that the mark belongs to, or starts a new one.
def enterList (f : Frame) (mark : Char) : Frame :=
  let f := f.closeUnfilled
  match f.stack with
  | .list own tight :: rest =>
      if own = mark then
        { f with stack := .list own (tight && !f.blankBefore) :: rest, blankBefore := false }
      else { f.leaveList.push (.list mark true) with blankBefore := false }
  | [] => { f.push (.list mark true) with blankBefore := false }
  | _ => { f.leaveList.push (.list mark true) with blankBefore := false }

-- A blank line. An item that holds nothing yet takes no later line by its indentation.
def blank (f : Frame) : Frame :=
  match f.stack with
  | .quote :: _ => f
  | .item _ :: rest =>
      if f.unfilled then { f with stack := .item 0 :: rest, blankBefore := true }
      else { f with blankBefore := true }
  | _ => { f with blankBefore := true }

-- Opens the containers whose marks follow. The last component tells that an item starts with
-- a blank line, which ends the line's reading.
def openNew (f : Frame) (m : Margin) : Frame × Margin × Bool :=
  let (columns, inner) := m.indent 4
  if 4 ≤ columns then (f, m, false)
  else match listMarker? columns inner with
    | some (marker, next) =>
        let f := (f.enterList marker.mark).push (.item marker.indent)
        if (blankLine? next.rest).isSome then ({ f with unfilled := true }, next, true)
        else if next.rest.length < m.rest.length then openNew f next
        else (f, next, false)
    | none =>
        match quoteMarker? inner with
        | some next =>
            let f := f.leaveList.push .quote
            if next.rest.length < m.rest.length then openNew f next else (f, next, false)
        | none => (f, m, false)
termination_by m.rest.length

end Frame

end LiveDoc.Markdown
