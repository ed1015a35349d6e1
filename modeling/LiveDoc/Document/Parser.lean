import LiveDoc.Calc.Parser
import LiveDoc.Document.Error
import LiveDoc.Document.Marker
import LiveDoc.Document.Node
import LiveDoc.Markdown.Block

namespace LiveDoc

-- A code block as Markdown finds it. Indented code has no info and stays prose.
inductive Region where
  | fenced (range : ByteRange) (info content : List Char)
  | indented (range : ByteRange)
  deriving DecidableEq, Repr

def Region.range : Region → ByteRange
  | .fenced range _ _ => range
  | .indented range => range

-- A block owns the rest of the line that it closes on, when nothing but blanks is left there.
def closingLine (text : List Char) (stop limit : Nat) : Nat :=
  let rest := Text.slice text stop limit
  let line := rest.takeWhile (· != '\n')
  if stop = 0 ∨ limit ≤ stop ∨ (Text.takeBytes stop text).getLast? = some '\n' then stop
  else if !line.all Text.isBlank then stop
  else if line.length = rest.length then limit
  else stop + Text.byteCount line + 1

def regionOf (text : List Char) (window : ByteRange) : Markdown.Leaf → Option Region
  | .fenced range info content =>
      let range := range.shift window.start
      some (.fenced ⟨range.start, closingLine text range.stop window.stop⟩ info content)
  | .indented range =>
      let range := range.shift window.start
      some (.indented ⟨range.start, closingLine text range.stop window.stop⟩)
  | .heading _ _ _ => none

-- The code blocks of a window. Markdown sees only the text inside it.
def regions (text : List Char) (window : ByteRange) : List Region :=
  (Markdown.blocks (Text.slice text window.start window.stop)).1.filterMap (regionOf text window)

-- A piece of a source, before its marks are read.
inductive Segment where
  | prose (start : Nat) (text : List Char)
  | mark (start : Nat) (line : List Char) (marker : Marker)
  | fenced (range : ByteRange) (info content : List Char)
  deriving DecidableEq, Repr

-- Lines outside code. Lines that are no marks join; the first line may start in the middle of
-- a line of the source, and is then no mark.
def splitProse (start : Nat) (whole : Bool) : List (List Char) → List Segment
  | [] => []
  | line :: rest =>
      let more := splitProse (start + Text.byteCount line) true rest
      match if whole then marker? line else none with
      | some marker => .mark start line marker :: more
      | none =>
          match more with
          | .prose _ text :: tail => .prose start (line ++ text) :: tail
          | _ => .prose start line :: more

def startsLine (text : List Char) (position : Nat) : Bool :=
  position == 0 || (Text.takeBytes position text).getLast? == some '\n'

def proseBetween (text : List Char) (start stop : Nat) : List Segment :=
  splitProse start (startsLine text start) (Text.lines (Text.slice text start stop))

def codeSegments (text : List Char) : Region → List Segment
  | .fenced range info content => [.fenced range info content]
  | .indented range =>
      if range.start < range.stop then [.prose range.start (Text.slice text range.start range.stop)]
      else []

def segmentsFrom (text : List Char) (stop position : Nat) : List Region → List Segment
  | [] => proseBetween text position stop
  | region :: rest =>
      proseBetween text position region.range.start ++ codeSegments text region ++
        segmentsFrom text stop region.range.stop rest

def segments (text : List Char) (window : ByteRange) : List Segment :=
  segmentsFrom text window.stop window.start (regions text window)

-- The info text and its tags, as in `calc {hide-output, silent}`.
def splitInfo (info : List Char) : Except Problem (List Char × List (List Char)) :=
  match Text.cutAt? ['{'] info with
  | none => .ok (Text.trimBlanks info, [])
  | some (front, rest) =>
      match Text.cutAt? ['}'] rest with
      | none => .error .openTags
      | some (tags, tail) =>
          if !Text.isAllBlank tail then .error .textAfterTags
          else .ok (Text.trimBlanks front, Text.fields (fun c => c == ',' || Text.isBlank c) tags)

-- Quote marks and blanks are repeated on later lines; a list marker becomes spaces.
def containerLead (lead : List Char) : List Char :=
  lead.map fun c => if c == '>' || Text.isBlank c then c else ' '

def lineLead (text : List Char) (position : Nat) : List Char :=
  ((Text.takeBytes position text).reverse.takeWhile (· != '\n')).reverse

def fenceAt (text : List Char) (position : Nat) : List Char :=
  match Text.dropBytes position text with
  | [] => []
  | c :: rest => c :: rest.takeWhile (· == c)

def codeBlock (text : List Char) (source : Nat) (range : ByteRange) (info content : List Char) :
    Except DocumentError CodeBlock :=
  let span := Span.of text source range
  match splitInfo info with
  | .error problem => .error (.malformed problem span)
  | .ok (info, tags) => .ok
      { language := (Text.words info).head?.map String.ofList
        info := String.ofList info
        tags := tags.map String.ofList
        modifiers := .empty
        index := 0
        fence := String.ofList (fenceAt text range.start)
        content := String.ofList content
        lead := String.ofList (containerLead (lineLead text range.start))
        span }

-- The target of an `!include`: the section follows the last `#`.
def includeTarget (argument : List Char) : Except Problem (List Char × Option (List Char)) :=
  if argument = [] then .error .includeWithoutPath
  else
    let back := (argument.reverse.takeWhile (· != '#')).reverse
    if back.length = argument.length then .ok (argument, none)
    else
      let part := Text.trimBlanks back
      let path := Text.trimBlanks (argument.take (argument.length - back.length - 1))
      if part = [] then .error .includeWithoutSection
      else if path = [] then .error .includeOnlySection
      else .ok (path, some part)

-- An `!if` whose `!endif` is still to come, with the nodes before it, last one first.
structure OpenIf where
  guard : Calc.Guard
  source : String
  span : Span
  before : List Node

structure Building where
  opened : List OpenIf
  nodes : List Node

def Building.push (b : Building) (node : Node) : Building := { b with nodes := node :: b.nodes }

def applyMark (text : List Char) (source start : Nat) (line : List Char) (marker : Marker)
    (b : Building) : Except DocumentError Building :=
  let stop := start + Text.byteCount (Text.trimEnd Text.isBlank line)
  let span := Span.of text source ⟨start, stop⟩
  match marker.keyword with
  | .insert =>
      match includeTarget marker.argument with
      | .error problem => .error (.malformed problem span)
      | .ok (path, part) =>
          .ok (b.push (.directive ⟨String.ofList path, part.map String.ofList, span⟩))
  | .startIf =>
      if marker.argument = [] then .error (.malformed .ifWithoutGuard span)
      else match Calc.parseGuard marker.argument (start + Text.byteCount marker.front) with
        | .error e => .error (.malformed (.badGuard e.fault) (Span.of text source e.range))
        | .ok guard =>
            .ok ⟨⟨guard, String.ofList marker.argument, span, b.nodes⟩ :: b.opened, []⟩
  | .endIf =>
      if marker.argument ≠ [] then .error (.malformed .textAfterEndif span)
      else match b.opened with
        | [] => .error (.malformed .endifWithoutIf span)
        | top :: rest =>
            .ok ⟨rest, .conditional top.guard top.source b.nodes.reverse top.span :: top.before⟩

def applySegment (text : List Char) (source : Nat) (b : Building) :
    Segment → Except DocumentError Building
  | .prose start piece =>
      let span := Span.of text source ⟨start, start + Text.byteCount piece⟩
      .ok (b.push (.prose ⟨String.ofList piece, span⟩))
  | .mark start line marker => applyMark text source start line marker b
  | .fenced range info content =>
      (codeBlock text source range info content).map fun block => b.push (.code block)

-- Reads the segments in order, the first problem winning. An `!if` left open comes last.
def buildNodes (text : List Char) (source : Nat) (segments : List Segment) :
    Except DocumentError (List Node) := do
  let b ← segments.foldlM (applySegment text source) ⟨[], []⟩
  match b.opened with
  | [] => .ok b.nodes.reverse
  | top :: _ => .error (.malformed .ifWithoutEndif top.span)

def parseWindow (text : List Char) (source : Nat) (window : ByteRange) :
    Except DocumentError Document :=
  (buildNodes text source (segments text window)).map fun nodes => ⟨source, nodes⟩

def parseDocument (text : List Char) (source : Nat) : Except DocumentError Document :=
  parseWindow text source ⟨0, Text.byteCount text⟩

end LiveDoc
