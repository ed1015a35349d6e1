import LiveDoc.Markdown.Block
import LiveDoc.Markdown.Inline

namespace LiveDoc

-- A heading with what stands below it.
structure Section where
  name : String
  level : Nat
  range : ByteRange
  deriving DecidableEq, Repr

structure Heading where
  name : List Char
  level : Nat
  start : Nat
  deriving DecidableEq, Repr

-- The headings of a text, in order, with the blanks in their names squeezed.
def headings (text : List Char) : List Heading :=
  let (leaves, labels) := Markdown.blocks text
  leaves.filterMap fun
    | .heading start level content =>
        some ⟨Text.squeezeBlanks (Markdown.inlineText labels content), level, start⟩
    | _ => none

-- A section runs to the next heading that is no deeper than its own, or to `stop`.
def sectionsOf (stop : Nat) : List Heading → List Section
  | [] => []
  | heading :: rest =>
      let finish := match rest.find? fun later => later.level ≤ heading.level with
        | some later => later.start
        | none => stop
      ⟨String.ofList heading.name, heading.level, ⟨heading.start, finish⟩⟩ ::
        sectionsOf stop rest

def sections (text : List Char) : List Section :=
  sectionsOf (Text.byteCount text) (headings text)

-- The first section of that name, else the first whose name differs only in case.
def findSection? (found : List Section) (name : List Char) : Option Section :=
  let wanted := Text.squeezeBlanks name
  match found.find? fun s => s.name.toList == wanted with
  | some s => some s
  | none => found.find? fun s => Text.lower s.name.toList == Text.lower wanted

end LiveDoc
