import LiveDoc.Run.Error
import LiveDoc.Source.Map
import LiveDoc.Text.Display

namespace LiveDoc.Report

-- The lines of a text with their breaks. What follows the last break is a line too, if empty.
def rows : List Char → List (List Char)
  | [] => [[]]
  | c :: rest =>
      if c = '\n' then [c] :: rows rest
      else match rows rest with
        | row :: more => (c :: row) :: more
        | [] => [[c]]

-- Where an offset lies: the index of its line, and how far into it, in bytes and characters.
structure Position where
  line : Nat
  bytes : Nat
  characters : Nat
  deriving DecidableEq, Repr

def Position.of (text : List Char) (offset : Nat) : Position :=
  let before := Text.takeBytes offset text
  let own := before.reverse.takeWhile (· != '\n')
  ⟨before.count '\n', Text.byteCount own, own.length⟩

def tabWidth : Nat := 4

-- A character of a line with its first byte and its columns. A tab reaches to the next stop.
structure Cell where
  character : Char
  start : Nat
  width : Nat

def cellsFrom (start column : Nat) : List Char → List Cell
  | [] => []
  | c :: rest =>
      let width := if c = '\t' then tabWidth - column % tabWidth else Text.columns c
      ⟨c, start, width⟩ :: cellsFrom (start + c.utf8Size) (column + width) rest

def cells (row : List Char) : List Cell := cellsFrom 0 0 row

def Cell.shown (cell : Cell) : List Char :=
  if cell.character = '\t' then List.replicate cell.width ' ' else [cell.character]

def shownRow (row : List Char) : String :=
  String.ofList ((cells row).map Cell.shown).flatten

-- A line of one character, as long as the cells before a byte.
def ruled (fill : Char) (row : List Char) (stop : Nat) : String :=
  String.ofList (((cells row).takeWhile fun cell => cell.start < stop).map fun cell =>
    List.replicate cell.width fill).flatten

-- Carets under the bytes from `start` to `stop`. One cell stands past the end of the line.
def carets (row : List Char) (start stop : Nat) : String :=
  let past : Cell := ⟨' ', Text.byteCount row, 1⟩
  String.ofList ((cells row ++ [past]).map fun cell =>
    if max start cell.start < min stop (cell.start + cell.character.utf8Size) then
      List.replicate cell.width '^'
    else if cell.start < stop then List.replicate cell.width ' '
    else []).flatten

def withMessage (line message : String) : String :=
  if message.isEmpty then line else line ++ " " ++ message

-- What a snippet needs to know of its source.
structure Excerpt where
  rows : List (List Char)
  start : Position
  stop : Position
  message : String

namespace Excerpt

def of (text : List Char) (label : Label) : Excerpt :=
  ⟨Report.rows text, .of text label.range.start, .of text label.range.stop, label.message⟩

def row (e : Excerpt) (line : Nat) : List Char :=
  Text.trimEnd (fun c => c == '\n' || c == '\r' || c.toNat == 0) (e.rows[line]?.getD [])

-- Line numbers share the width of the last one.
def width (e : Excerpt) : Nat := (toString (e.stop.line + 1)).length

def gutter (e : Excerpt) : String := "".pushn ' ' e.width ++ " │"

def numbered (e : Excerpt) (line : Nat) : String :=
  Text.padded ' ' e.width (toString (line + 1)) ++ " │"

def isMultiline (e : Excerpt) : Bool := e.start.line != e.stop.line

def border (e : Excerpt) : String := if e.isMultiline then e.gutter ++ "  " else e.gutter

def singleLine (e : Excerpt) : List String :=
  let row := e.row e.start.line
  let stop := max e.stop.bytes (e.start.bytes + 1)
  [e.numbered e.start.line ++ " " ++ shownRow row,
    withMessage (e.gutter ++ " " ++ carets row e.start.bytes stop) e.message]

-- The bracket starts beside the line if only blanks stand before the range, else below it.
def topLines (e : Excerpt) : List String :=
  let row := e.row e.start.line
  let lead := Text.byteCount (row.takeWhile Text.isBlank)
  if e.start.bytes ≤ lead then [e.numbered e.start.line ++ " ╭ " ++ shownRow row]
  else
    [e.numbered e.start.line ++ "   " ++ shownRow row,
      e.gutter ++ " ╭" ++ ruled '─' row (e.start.bytes + 1) ++ "^"]

def innerLine (e : Excerpt) (line : Nat) : String :=
  e.numbered line ++ " │ " ++ shownRow (e.row line)

-- Of the lines between the first and the last one, three after the first and one before the
-- last are shown, and one more that would be left out alone.
def innerLines (e : Excerpt) : List String :=
  let first := e.start.line + 1
  let count := e.stop.line - first
  let all := (List.range count).map fun i => e.innerLine (first + i)
  if count ≤ 5 then all
  else
    all.take 3 ++ ["".pushn ' ' e.width ++ " · │"] ++ all.drop (count - 1)

def bottomLines (e : Excerpt) : List String :=
  let row := e.row e.stop.line
  [e.innerLine e.stop.line,
    withMessage (e.gutter ++ " ╰" ++ ruled '─' row e.stop.bytes ++ "^") e.message]

def lines (e : Excerpt) (name : String) (closed : Bool) : List String :=
  let place := name ++ ":" ++ toString (e.start.line + 1) ++ ":" ++
    toString (e.start.characters + 1)
  let body := if e.isMultiline then e.topLines ++ e.innerLines ++ e.bottomLines else e.singleLine
  ["".pushn ' ' e.width ++ " ┌─ " ++ place, e.border] ++ body ++
    (if closed then [e.border] else [])

end Excerpt

-- The lines of a note below a snippet whose line numbers have a given width.
def noteLines (width : Nat) (note : String) : List String :=
  let pieces := (Text.lines note.toList).map fun line =>
    let bare := Text.trimEnd (· == '\n') line
    String.ofList (if bare.getLast? = some '\r' ∧ bare.length < line.length then
      bare.dropLast else bare)
  let lead := "".pushn ' ' width
  match pieces with
  | [] => []
  | first :: rest => (lead ++ " = " ++ first) :: rest.map fun line => lead ++ "   " ++ line

-- A diagnostic for people, with the part of the source that it is about.
def render (map : SourceMap) (d : Diagnostic) : String :=
  let excerpt := d.label?.map fun label =>
    let (name, text) := map.page label.source
    (Excerpt.of text.toList label, name)
  let snippet := match excerpt with
    | some (e, name) => e.lines name (!d.notes.isEmpty)
    | none => []
  let width := match excerpt with
    | some (e, _) => e.width
    | none => 0
  let notes := (d.notes.map (noteLines width)).flatten
  String.join ((("error: " ++ d.message) :: snippet ++ notes ++ [""]).map (· ++ "\n"))

end LiveDoc.Report
