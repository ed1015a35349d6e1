import LiveDoc.Text.CharClass

namespace LiveDoc

inductive Keyword where
  | insert
  | endIf
  | startIf
  deriving DecidableEq, Repr

def Keyword.word : Keyword → List Char
  | .insert => "!include".toList
  | .endIf => "!endif".toList
  | .startIf => "!if".toList

-- A line that is a mark: what stands before the argument, and the argument without the blanks
-- around it.
structure Marker where
  keyword : Keyword
  front : List Char
  argument : List Char
  deriving DecidableEq, Repr

-- The mark on a line, if the line starts with the keyword and then a blank or its end.
def Keyword.marker? (keyword : Keyword) (line : List Char) : Option Marker :=
  let body := Text.trimEnd (fun c => c == '\n' || c == '\r') line
  let lead := body.takeWhile Text.isBlank
  match Text.after? keyword.word (body.dropWhile Text.isBlank) with
  | none => none
  | some tail =>
      if tail.head?.all Text.isBlank then
        some
          { keyword
            front := lead ++ keyword.word ++ tail.takeWhile Text.isBlank
            argument := Text.trimBlanks tail }
      else none

def marker? (line : List Char) : Option Marker :=
  [Keyword.insert, .endIf, .startIf].findSome? (·.marker? line)

end LiveDoc
