import LiveDoc.Calc.Error
import LiveDoc.Document.Error
import LiveDoc.Text.CharClass

namespace LiveDoc

-- Why a run ends without a result.
inductive RunError where
  | document (error : DocumentError)
  | block (index : Nat) (span : Span) (line : Option Nat) (output : String)
      (cause : Calc.ScriptError)
  | undefined (name source : String) (span : Span)
  | guard (source : String) (cause : Calc.ScriptError) (span : Span)
  | language (wanted own : String)
  | unwritable (path : String)
  deriving BEq, Repr

-- A place with what is said about it there.
structure Label where
  source : Nat
  range : ByteRange
  message : String
  deriving DecidableEq, Repr

structure Diagnostic where
  message : String
  label? : Option Label
  notes : List String
  deriving DecidableEq, Repr

def Label.of (span : Span) (message : String) : Label := ⟨span.source, span.range, message⟩

def DocumentError.diagnostic (error : DocumentError) : Diagnostic :=
  ⟨error.message, error.span?.map (Label.of · ""), error.notes⟩

namespace RunError

def message : RunError → String
  | .document error => error.message
  | .block index _ _ _ cause => "block " ++ toString index ++ " failed: " ++ cause.message
  | .undefined name source _ => "undefined reference `" ++ name ++ "` in guard `" ++ source ++ "`"
  | .guard source cause _ => "guard `" ++ source ++ "` failed: " ++ cause.message
  | .language wanted own =>
      "document was classified for `" ++ wanted ++ "` but the executor runs `" ++ own ++ "`"
  | .unwritable path => "cannot write " ++ path

def span? : RunError → Option Span
  | .document error => error.span?
  | .block _ span _ _ _ => some span
  | .undefined _ _ span => some span
  | .guard _ _ span => some span
  | .language _ _ => none
  | .unwritable _ => none

def blockNotes (line : Option Nat) (output : String) : List String :=
  let place := line.toList.map fun n => "failing statement is on line " ++ toString n
  let before :=
    if output.isEmpty then []
    else ["output before the failure:\n" ++
      String.ofList (Text.trimEnd Text.isBlank output.toList)]
  place ++ before

def diagnostic (error : RunError) : Diagnostic :=
  match error with
  | .document inner => inner.diagnostic
  | .block _ span line output _ =>
      ⟨error.message, Label.of span "this block failed", blockNotes line output⟩
  | .undefined name _ span =>
      ⟨error.message, Label.of span ("`" ++ name ++ "` is not bound yet"),
        ["guards only see variables bound by blocks that appear before them"]⟩
  | .guard _ _ span => ⟨error.message, Label.of span "", []⟩
  | .language _ _ => ⟨error.message, none, []⟩
  | .unwritable _ => ⟨error.message, none, []⟩

end RunError

end LiveDoc
