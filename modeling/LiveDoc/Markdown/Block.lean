import LiveDoc.Markdown.Container
import LiveDoc.Source.Span
import LiveDoc.Markdown.Html
import LiveDoc.Markdown.Link
import LiveDoc.Markdown.Table

namespace LiveDoc.Markdown

-- The blocks that matter outside this folder. Positions are bytes from the start of the text.
inductive Leaf where
  | fenced (range : ByteRange) (info content : List Char)
  | indented (range : ByteRange)
  | heading (start level : Nat) (content : List Char)
  deriving DecidableEq, Repr

def breakLength (text : List Char) : Nat := (lineBreak? text).getD 0

def lineOf (text : List Char) : List Char := text.takeWhile fun c => !isLineEnd c

-- A line of code as content: a carriage return before its last byte, the line feed, goes.
def codeLine (line : List Char) : List Char :=
  match line.reverse with
  | last :: '\r' :: front => if last.utf8Size = 1 then (last :: front).reverse else line
  | _ => line

-- The lines of a fenced block up to its closing fence or the end of its containers: the
-- characters they take, the content, and whether there is a closing fence. A line loses as much
-- indentation as the fence has.
def fencedLines (containers : List Container) (indent : Nat) (mark : Char) (least : Nat) :
    List Char → Nat × List Char × Bool
  | [] => (0, [], false)
  | c :: rest =>
      match within? containers (c :: rest) with
      | none => (0, [], false)
      | some m =>
          let inner := (m.spaces indent).2
          let (missing, close) := inner.spaces (4 - indent)
          match if missing = 0 then none else closingFence? mark least close.rest with
          | some tail => (close.read + tail, [], true)
          | none =>
              let line := inner.rest.take (lineLength inner.rest)
              let size := inner.read + line.length
              let (more, content, closed) :=
                fencedLines containers indent mark least (rest.drop (size - 1))
              let lead := List.replicate inner.pending ' '
              (size + more, lead ++ codeLine line ++ content, closed)
termination_by text => text.length
decreasing_by simp only [List.length_cons, List.length_drop]; omega

-- The lines of an indented block, each without its indentation: the characters up to the end
-- of the last line that is not blank, the characters read, and whether blank lines end them.
def indentedLines (containers : List Container) (isBlank : Bool) :
    List Char → Nat × Nat × Bool
  | [] => (0, 0, isBlank)
  | c :: rest =>
      let size := lineLength (c :: rest)
      let own := if isBlank then 0 else size
      let after := rest.drop (size - 1)
      match within? containers after with
      | none => (own, size, isBlank)
      | some m =>
          let (missing, next) := m.spaces 4
          let body := after.drop next.read
          if (missing ≠ 0 ∧ !next.atLineEnd) ∨ body = [] then (own, size, isBlank)
          else
            let (stop, read, blank) := indentedLines containers (blankLine? body).isSome body
            let lead := size + next.read
            (if stop = 0 then own else lead + stop, lead + read, blank)
termination_by text => text.length
decreasing_by simp only [List.length_cons, List.length_drop]; omega

-- A block of HTML that runs to the line with its end mark.
def htmlUntil (containers : List Container) (mark : List Char) : List Char → Nat
  | [] => 0
  | c :: rest =>
      let size := lineLength (c :: rest)
      let after := rest.drop (size - 1)
      match within? containers after with
      | none => size
      | some m =>
          let body := after.drop m.read
          if Text.contains mark ((c :: rest).take size) ∨ body = [] then size
          else size + m.read + htmlUntil containers mark body
termination_by text => text.length
decreasing_by simp only [List.length_cons, List.length_drop]; omega

-- A block of HTML that runs to the next blank line.
def htmlParagraph (containers : List Container) : List Char → Nat
  | [] => 0
  | c :: rest =>
      let size := lineLength (c :: rest)
      let after := rest.drop (size - 1)
      match within? containers after with
      | none => size
      | some m =>
          let body := after.drop m.read
          if body = [] ∨ (blankLine? body).isSome then size
          else size + m.read + htmlParagraph containers body
termination_by text => text.length
decreasing_by simp only [List.length_cons, List.length_drop]; omega

-- The text of a heading after its number signs, without the signs that close it.
def hashContent (line : List Char) : List Char :=
  let trimmed := Text.trimEnd (· == ' ') (line.dropWhile isInlineBlank)
  let open_ := Text.trimEnd (· == '#') trimmed
  let bare := Text.trimEnd (· == ' ') open_
  if open_ = [] then [] else if bare.length < open_.length then bare else trimmed

-- Whether a text at the start of a list item can end a paragraph. A bullet or the number one
-- can, unless nothing follows on two lines; with `anyList` every marker can.
def startsList (anyList : Bool) (text : List Char) : Bool :=
  let digits := (text.takeWhile Char.isDigit).take 9
  let marker : Option (Nat × Bool) :=
    match text with
    | [] => none
    | c :: _ =>
        if isBullet c then some (1, true)
        else if digits = [] then none
        else match text.drop digits.length with
          | d :: _ =>
              if d = '.' ∨ d = ')' then
                some (digits.length + 1,
                  digits.foldl (fun n c => n * 10 + (c.toNat - 48)) 0 == 1)
              else none
          | [] => none
  match marker with
  | none => false
  | some (size, ordinary) =>
      let tail := text.drop size
      let spaced := match tail with
        | [] => true
        | c :: _ => c == ' ' || c == '\t' || isLineEnd c
      let empty := match blankLine? tail with
        | none => false
        | some first => (blankLine? (tail.drop first)).isSome
      spaced && (anyList || (ordinary && !empty))

def interruptsParagraph (anyList : Bool) (text : List Char) : Bool :=
  (lineBreak? text).isSome || (themeBreak? text).isSome || (hashLevel? text).isSome ||
    (fence? text).isSome || text.head? == some '>' || startsList anyList text ||
    match text with
    | '<' :: rest => (Html.endMark? rest).isSome || Html.startsBlock rest
    | _ => false

-- The line below the given one rules off as many columns as the given one has cells. The
-- result is the number of characters that the containers and the rule take on that line.
def tableRule? (containers : List Container) (text : List Char) : Option Nat :=
  let line := lineOf text
  let after := text.drop (line.length + breakLength (text.drop line.length))
  if Table.bars line = [] ∨ line.length = text.length then none
  else match within? containers after with
    | none => none
    | some m =>
        if Table.columns? m.rest = some (Table.headerCells line) then
          let rule := lineOf m.rest
          some (m.read + rule.length + breakLength (m.rest.drop rule.length))
        else none

-- A header line that starts with a bar interrupts a paragraph too.
def interrupts (containers : List Container) (anyList : Bool) (text : List Char) : Bool :=
  interruptsParagraph anyList text ||
    (text.head? == some '|' && (tableRule? containers text).isSome)

-- The rows below the rule of a table.
def tableRows (containers : List Container) : List Char → Nat
  | [] => 0
  | c :: rest =>
      match within? containers (c :: rest) with
      | none => 0
      | some m =>
          let m := m.skipSpaces
          let line := lineOf m.rest
          if interruptsParagraph true m.rest ∨ !Table.hasCell line then 0
          else
            let size := m.read + line.length + breakLength (m.rest.drop line.length)
            size + tableRows containers (rest.drop (size - 1))
termination_by text => text.length
decreasing_by simp only [List.length_cons, List.length_drop]; omega

-- The lines of a paragraph, without indentation: the characters they take, the lines, and the
-- level when a line of signs below makes them a heading.
def paragraphLines (containers : List Container) :
    List Char → Nat × List (List Char) × Option Nat
  | [] => (0, [], none)
  | c :: rest =>
      let line := lineOf (c :: rest)
      let size := line.length + breakLength ((c :: rest).drop line.length)
      let after := rest.drop (size - 1)
      let (count, m) := enterAll containers (Margin.ofText after)
      let inside := count == containers.length
      let (missing, next) := m.spaces 4
      let level := if missing ≠ 0 ∧ inside then underline? next.rest else none
      match level with
      | some (width, level) => (size + next.read + width, [line], some level)
      | none =>
          let body := next.skipSpaces
          if (missing ≠ 0 ∧ interrupts containers (!inside) next.rest) ∨ body.atLineEnd then
            (size, [line], none)
          else
            let (more, lines, level) := paragraphLines containers (after.drop body.read)
            (size + body.read + more, line :: lines, level)
termination_by text => text.length
decreasing_by simp only [List.length_cons, List.length_drop]; omega

-- Where the label of a definition goes on after a line break.
def labelSkip (containers : List Container) (text : List Char) : Option Nat :=
  let (count, m) := enterAll containers (Margin.ofText text)
  let inside := count == containers.length
  let (missing, next) := m.spaces 4
  if missing ≠ 0 ∧
      (interrupts containers (!inside) next.rest ∨ (inside ∧ (underline? next.rest).isSome)) then
    none
  else some next.read

-- Blanks with at most one line break: how many characters, and whether there is a break.
def definitionGap (containers : List Container) (text : List Char) : Option (Nat × Bool) :=
  let blanks := count isInlineBlank text
  match lineBreak? (text.drop blanks) with
  | none => some (blanks, false)
  | some size =>
      match within? containers (text.drop (blanks + size)) with
      | none => none
      | some m =>
          let more := count isInlineBlank m.rest
          if (lineBreak? (m.rest.drop more)).isSome then none
          else some (blanks + size + m.read + more, true)

-- The title of a definition after its opening mark. It holds no blank line.
def definitionTitle (containers : List Container) (stop : Char) (read : Nat) :
    (fuel : Nat) → List Char → Option Nat
  | 0, _ => none
  | _, [] => none
  | fuel + 1, c :: rest =>
      if c = stop then some (read + 1)
      else if c = '\\' then
        match rest with
        | [] => none
        | _ :: more => definitionTitle containers stop (read + 2) fuel more
      else if c = '\n' then
        match within? containers rest with
        | none => none
        | some m =>
            let next := m.skipSpaces
            if next.atLineEnd then none
            else definitionTitle containers stop (read + 1 + next.read) fuel next.rest
      else definitionTitle containers stop (read + 1) fuel rest

-- The target and title of a definition, after its colon.
def definitionBody (containers : List Container) (text : List Char) : Option Nat :=
  match definitionGap containers text with
  | none => none
  | some (lead, _) =>
      match Link.target? (text.drop lead) with
      | none => none
      | some width =>
          let stop := lead + width
          if width = 0 then none
          else match definitionGap containers (text.drop stop) with
            | none => some stop
            | some (gap, broken) =>
                if gap = 0 then none
                else
                  let start := text.drop (stop + gap)
                  let title := match start with
                    | [] => none
                    | c :: rest => (Link.titleEnd? c).bind fun mark =>
                        definitionTitle containers mark 1 (rest.length + 1) rest
                  let whole := title.bind fun size =>
                    (blankLine? (start.drop size)).map fun tail => stop + gap + size + tail
                  match whole with
                  | some size => some size
                  | none => if broken then some stop else none

-- A link definition: the characters it takes and its label.
def definition? (containers : List Container) (text : List Char) : Option (Nat × List Char) :=
  match text with
  | '[' :: rest =>
      match Link.label? (labelSkip containers) rest with
      | none => none
      | some (label, size) =>
          match rest.drop size with
          | ':' :: body =>
              (definitionBody containers body).map fun width => (size + 2 + width, label)
          | _ => none
  | _ => none

structure Scanner where
  frame : Frame
  labels : List (List Char)
  leaves : List Leaf

def Scanner.start : Scanner := ⟨.start, [], []⟩

def Scanner.emit (s : Scanner) (leaf : Leaf) : Scanner := { s with leaves := leaf :: s.leaves }

def withBlankTail (text : List Char) (size : Nat) : Nat :=
  size + (blankLine? (text.drop size)).getD 0

-- What the first line of a block makes of it.
inductive Opening where
  | html (size : Nat)
  | themeBreak (size : Nat)
  | heading (level : Nat)
  | fence (marks : Nat) (mark : Char)
  | definition (size : Nat) (label : List Char)
  | paragraph

def htmlSize? (containers : List Container) : List Char → Option Nat
  | '<' :: rest =>
      match Html.endMark? rest with
      | some mark => some (htmlUntil containers mark.toList ('<' :: rest))
      | none =>
          if Html.startsBlock rest || Html.isLoneTag rest then
            some (htmlParagraph containers ('<' :: rest))
          else none
  | _ => none

def opening (containers : List Container) (text : List Char) : Opening :=
  match htmlSize? containers text with
  | some size => .html size
  | none =>
      match themeBreak? text with
      | some size => .themeBreak size
      | none =>
          match hashLevel? text with
          | some level => .heading level
          | none =>
              match fence? text with
              | some (marks, mark) => .fence marks mark
              | none =>
                  match definition? containers text with
                  | some (size, label) => .definition size label
                  | none => .paragraph

def headingBlock (s : Scanner) (offset level : Nat) (text : List Char) : Nat × Scanner :=
  let line := lineOf (text.drop level)
  let size := level + line.length
  (size + breakLength (text.drop size), s.emit (.heading offset level (hashContent line)))

def fencedBlock (s : Scanner) (offset indent marks : Nat) (mark : Char) (text : List Char) :
    Nat × Scanner :=
  let head := lineLength text
  let info := (text.take head).drop marks
  let trimmed := Text.trimEnd isAsciiBlank (info.dropWhile isInlineBlank)
  let (size, content, closed) := fencedLines s.frame.containers indent mark marks (text.drop head)
  let stop := head + size
  let range := ⟨offset, offset + Text.byteCount (text.take stop)⟩
  let next := s.emit (.fenced range (unescape trimmed) content)
  (if closed then withBlankTail text stop else stop, next)

-- A paragraph, or the table or heading that its later lines make of it. A backslash that ends
-- the first line keeps it from being the header of a table.
def paragraphBlock (s : Scanner) (offset : Nat) (text : List Char) : Nat × Scanner :=
  let containers := s.frame.containers
  let line := lineOf text
  let hard := (line.reverse.takeWhile (· == '\\')).length % 2 = 1
  match if hard then none else tableRule? containers text with
  | some rule =>
      let head := line.length + breakLength (text.drop line.length) + rule
      (head + tableRows containers (text.drop head), s)
  | none =>
      match paragraphLines containers text with
      | (size, lines, some level) =>
          (size, s.emit (.heading offset level (['\n'].intercalate lines)))
      | (size, _, none) => (size, s)

-- Reads one block that is no container. `text` starts at byte `offset`, after `indent` columns.
def leafBlock (s : Scanner) (offset indent : Nat) (text : List Char) : Nat × Scanner :=
  match opening s.frame.containers text with
  | .html size => (size, s)
  | .themeBreak size => (size, s)
  | .heading level => headingBlock s offset level text
  | .fence marks mark => fencedBlock s offset indent marks mark text
  | .definition size label =>
      (withBlankTail text size, { s with labels := Link.labelKey label :: s.labels })
  | .paragraph => paragraphBlock s offset text

def indentedBlock (s : Scanner) (offset : Nat) (text : List Char) : Nat × Scanner :=
  let (stop, size, blank) := indentedLines s.frame.containers false text
  let range := ⟨offset, offset + Text.byteCount (text.take stop)⟩
  (size, { s with frame := { s.frame with blankBefore := blank } }.emit (.indented range))

-- Reads from the start of a line to the end of the block that the line starts or goes on with.
def block (s : Scanner) (offset : Nat) (text : List Char) : Nat × Scanner :=
  let (count, m) := enterAll s.frame.containers (Margin.ofText text)
  let (frame, m, done) := (s.frame.keep count).openNew m
  let opened := { s with frame }
  if done then (m.read + (blankLine? m.rest).getD 0, opened)
  else match blankLine? m.rest with
    | some size => (m.read + size, { opened with frame := frame.blank })
    | none =>
        let (columns, inner) := m.indent 4
        let left := { opened with frame := frame.leaveList }
        let (size, next) :=
          if columns = 4 then indentedBlock left (offset + inner.read) inner.rest
          else leafBlock left (offset + inner.read) columns inner.rest
        (inner.read + size, next)

-- Every block takes a character, so the rest gets shorter.
def blocksFrom (s : Scanner) (offset : Nat) : List Char → Scanner
  | [] => s
  | c :: rest =>
      let (size, next) := block s offset (c :: rest)
      blocksFrom next (offset + Text.byteCount ((c :: rest).take size)) (rest.drop (size - 1))
termination_by text => text.length
decreasing_by simp only [List.length_cons, List.length_drop]; omega

-- The leaves of a text in order, and the labels that its link definitions give.
def blocks (text : List Char) : List Leaf × List (List Char) :=
  let s := blocksFrom .start 0 text
  (s.leaves.reverse, s.labels)

end LiveDoc.Markdown
