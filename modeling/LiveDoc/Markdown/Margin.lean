import LiveDoc.Text.CharClass

namespace LiveDoc.Markdown

-- How far the start of a line has been read. A tab reaches to the next multiple of four after
-- the last tab; the columns of a tab that are not yet used are `pending`.
structure Margin where
  rest : List Char
  read : Nat
  tabStart : Nat
  pending : Nat

namespace Margin

def ofText (text : List Char) : Margin := ⟨text, 0, 0, 0⟩

def advance (m : Margin) (count : Nat) : Margin :=
  { m with rest := m.rest.drop count, read := m.read + count }

-- Reads up to `want` columns of spaces; the result counts the columns that are missing.
def spacesAhead (want : Nat) (m : Margin) : Nat × Margin :=
  match want with
  | 0 => (0, m)
  | missing + 1 =>
      match m.rest with
      | ' ' :: _ => spacesAhead missing (m.advance 1)
      | '\t' :: _ =>
          let columns := 4 - (m.read - m.tabStart) % 4
          let used := min columns (missing + 1)
          let next := m.advance 1
          spacesAhead (missing + 1 - used)
            { next with tabStart := next.read, pending := columns - used }
      | _ => (missing + 1, m)
termination_by want
decreasing_by all_goals omega

def spaces (want : Nat) (m : Margin) : Nat × Margin :=
  let first := min m.pending want
  spacesAhead (want - first) { m with pending := m.pending - first }

-- Reads at most `limit` columns and says how many there were.
def indent (limit : Nat) (m : Margin) : Nat × Margin :=
  let (missing, next) := m.spaces limit
  (limit - missing, next)

def skipSpaces (m : Margin) : Margin :=
  let count := (m.rest.takeWhile fun c => c == ' ' || c == '\t').length
  { m.advance count with pending := 0 }

def atLineEnd (m : Margin) : Bool :=
  match m.rest with
  | [] => true
  | c :: _ => c == '\n' || c == '\r'

end Margin

end LiveDoc.Markdown
