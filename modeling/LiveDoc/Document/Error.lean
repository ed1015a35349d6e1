import LiveDoc.Calc.Token
import LiveDoc.FileTree.Basic

namespace LiveDoc

-- What is wrong with the marks of a document.
inductive Problem where
  | includeWithoutPath
  | includeWithoutSection
  | includeOnlySection
  | ifWithoutGuard
  | badGuard (fault : Calc.Fault)
  | textAfterEndif
  | endifWithoutIf
  | ifWithoutEndif
  | openTags
  | textAfterTags
  deriving DecidableEq, Repr

def Problem.message : Problem → String
  | .includeWithoutPath => "`!include` requires a path"
  | .includeWithoutSection => "empty section name after `#`"
  | .includeOnlySection => "`!include` requires a path before `#`"
  | .ifWithoutGuard => "`!if` requires a guard expression"
  | .badGuard fault => "invalid guard: " ++ fault.message
  | .textAfterEndif => "unexpected text after `!endif`"
  | .endifWithoutIf => "`!endif` without matching `!if`"
  | .ifWithoutEndif => "unterminated `!if` (missing `!endif`)"
  | .openTags => "unterminated modifier list (missing `\x7d`)"
  | .textAfterTags => "unexpected text after modifier list"

-- What a tag conflicts with: an earlier tag, or a language that is not run.
inductive Opponent where
  | tag (name : String)
  | language (name : Option String)
  deriving DecidableEq, Repr

def Opponent.text : Opponent → String
  | .tag name => name
  | .language (some name) => "no-exec (implied by language `" ++ name ++ "`)"
  | .language none => "no-exec (implied by a block without a language)"

-- Why a document is refused before any of its code runs.
inductive DocumentError where
  | unreadable (path : String) (cause : PathError)
  | malformed (problem : Problem) (span : Span)
  | circular (chain : List String) (span : Span)
  | noSection (name path : String) (available : List String) (span : Span)
  | tooDeep (limit : Nat) (span : Span)
  | notIncluded (path : String) (cause : PathError) (span : Span)
  | unresolved (path : String) (span : Span)
  | unknownModifier (tag : String) (known : List String) (span : Span)
  | conflict (first : Opponent) (second : String) (span : Span)
  deriving DecidableEq, Repr

namespace DocumentError

def chainText (chain : List String) : String := Text.joined " -> " chain

def message : DocumentError → String
  | .unreadable path cause => "cannot read " ++ path ++ ": " ++ cause.message
  | .malformed problem _ => problem.message
  | .circular chain _ => "circular include: " ++ chainText chain
  | .noSection name path _ _ => "section `" ++ name ++ "` not found in " ++ path
  | .tooDeep limit _ => "include depth exceeds the limit of " ++ toString limit
  | .notIncluded path cause _ => "cannot include " ++ path ++ ": " ++ cause.message
  | .unresolved path _ => "include directive `" ++ path ++ "` was not resolved"
  | .unknownModifier tag _ _ => "unknown modifier `" ++ tag ++ "`"
  | .conflict first second _ =>
      "modifier `" ++ first.text ++ "` conflicts with `" ++ second ++ "`"

def span? : DocumentError → Option Span
  | .unreadable _ _ => none
  | .malformed _ span => some span
  | .circular _ span => some span
  | .noSection _ _ _ span => some span
  | .tooDeep _ span => some span
  | .notIncluded _ _ span => some span
  | .unresolved _ span => some span
  | .unknownModifier _ _ span => some span
  | .conflict _ _ span => some span

def notes : DocumentError → List String
  | .circular chain _ => ["include chain: " ++ chainText chain]
  | .noSection _ _ [] _ => ["the target file has no headings"]
  | .noSection _ _ available _ => ["available sections: " ++ Text.joined ", " available]
  | .tooDeep _ _ => ["raise `max_include_depth` if the nesting is intentional"]
  | .unknownModifier _ known _ => ["known modifiers: " ++ Text.joined ", " known]
  | _ => []

end DocumentError

end LiveDoc
