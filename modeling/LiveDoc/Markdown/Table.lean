import LiveDoc.Markdown.Scan

namespace LiveDoc.Markdown.Table

-- The row of dashes below the header of a table, as far as it has been read. A column counts
-- once a bar or the end of the line closes it, and it holds a dash.
structure Rule where
  columns : Nat
  opened : Bool
  bar : Bool
  dash : Bool
  dashHere : Bool

def Rule.step (rule : Rule) : Char → Option Rule
  | ' ' => some rule
  | ':' => some { rule with opened := true }
  | '-' => some { rule with opened := true, dash := true, dashHere := true }
  | '|' =>
      if rule.dashHere then
        let columns := rule.columns + 1
        some { rule with columns, opened := false, bar := true, dashHere := false }
      else none
  | _ => none

-- The number of columns that a line of dashes rules off.
def columns? (text : List Char) : Option Nat :=
  let (missing, m) := (Margin.ofText text).spaces 4
  let line := m.rest.takeWhile fun c => !isLineEnd c
  if missing = 0 ∨ m.rest = [] then none
  else
    let (start, body) := match line with
      | '|' :: rest => (true, rest)
      | _ => (false, line)
    match body.foldlM Rule.step ⟨0, false, start, false, false⟩ with
    | none => none
    | some rule =>
        if rule.bar && rule.dash then
          some (if rule.opened then rule.columns + 1 else rule.columns)
        else none

-- Where the bars of a line stand. A bar after a backslash is text.
def barsFrom (index : Nat) (escaped : Bool) : List Char → List Nat
  | [] => []
  | c :: rest =>
      let more := barsFrom (index + 1) (c == '\\') rest
      if c = '|' ∧ !escaped then index :: more else more

def bars (line : List Char) : List Nat := barsFrom 0 false line

-- The cells of a header line. A bar at either end of the line separates nothing.
def headerCells (line : List Char) : Nat :=
  let places := bars line
  let leading := (line.dropWhile isInlineBlank).head? == some '|'
  let inner := if leading then places.length - 1 else places.length
  match places.getLast? with
  | none => inner + 1
  | some last => if (line.drop (last + 1)).all isInlineBlank then inner else inner + 1

-- Whether a row holds a cell.
def hasCell (line : List Char) : Bool :=
  match line with
  | '|' :: rest => rest.any fun c => !isInlineBlank c
  | _ => line.any fun c => !isInlineBlank c

end LiveDoc.Markdown.Table
