import LiveDoc.Decimal.General
import LiveDoc.Document.Node
import LiveDoc.Text.Display

namespace LiveDoc.Report

-- A nested value for people: one line, or items between two marks. An item may have a name.
inductive Outline where
  | leaf (text : String)
  | group (start stop : String) (items : List (String × Outline))

-- An item ends with a comma and is indented below the line that opens its group.
def indented : List String → List String
  | [] => []
  | [last] => ["    " ++ last ++ ","]
  | line :: rest => ("    " ++ line) :: indented rest

def named (name : String) : List String → List String
  | [] => []
  | line :: rest => (if name.isEmpty then line else name ++ ": " ++ line) :: rest

mutual

def Outline.lines : Outline → List String
  | .leaf text => [text]
  | .group start stop [] => [start ++ stop]
  | .group start stop (item :: rest) => start :: itemLines (item :: rest) ++ [stop]

def itemLines : List (String × Outline) → List String
  | [] => []
  | (name, item) :: rest => indented (named name item.lines) ++ itemLines rest

end

def Outline.render (outline : Outline) : String := Text.joined "\n" outline.lines

namespace Outline

def text (value : String) : Outline := .leaf (Text.quoted value)

def number (value : Nat) : Outline := .leaf (toString value)

def applied (name : String) (items : List Outline) : Outline :=
  .group (name ++ "(") ")" (items.map ("", ·))

def record (name : String) (fields : List (String × Outline)) : Outline :=
  .group (name ++ " \x7b") "\x7d" fields

def list (items : List Outline) : Outline := .group "[" "]" (items.map ("", ·))

def set (items : List Outline) : Outline := .group "\x7b" "\x7d" (items.map ("", ·))

def optionalText : Option String → Outline
  | none => .leaf "None"
  | some value => applied "Some" [text value]

def ofRange (range : ByteRange) : Outline :=
  .leaf (toString range.start ++ ".." ++ toString range.stop)

def ofSpan (span : Span) : Outline :=
  record "Span" [("file_id", number span.source), ("range", ofRange span.range),
    ("line", number span.line)]

def binaryName : Calc.BinaryOp → String
  | .add => "Addition"
  | .subtract => "Subtraction"
  | .multiply => "Multiplication"
  | .divide => "Division"
  | .modulo => "Modulo"
  | .and => "LogicalAnd"
  | .or => "LogicalOr"
  | .equal => "Equality"
  | .notEqual => "Inequality"
  | .greater => "GreaterThan"
  | .less => "LessThan"
  | .greaterEqual => "GreaterThanOrEqual"
  | .lessEqual => "LessThanOrEqual"

def unaryName : Calc.UnaryOp → String
  | .negate => "Negation"
  | .not => "LogicalNot"

mutual

def ofExpr : Calc.Expr → Outline
  | .text value => applied "StringLiteral" [text value]
  | .number value => applied "NumberLiteral" [.leaf (Decimal.general value)]
  | .bool value => applied "BooleanLiteral" [.leaf (if value then "true" else "false")]
  | .unit => .leaf "UnitLiteral"
  | .var name place => applied "Variable" [text name, ofRange place]
  | .call function place arguments =>
      record "Call" [("function", text function), ("arguments", list (ofExprs arguments)),
        ("span", ofRange place)]
  | .unary op operand =>
      record "UnaryOperation" [("operator", .leaf (unaryName op)), ("operand", ofExpr operand)]
  | .binary op left right =>
      record "BinaryOperation" [("operator", .leaf (binaryName op)), ("left", ofExpr left),
        ("right", ofExpr right)]

def ofExprs : List Calc.Expr → List Outline
  | [] => []
  | e :: rest => ofExpr e :: ofExprs rest

end

def modifierName : Modifier → String
  | .noExec => "NoExec"
  | .hideOutput => "HideOutput"
  | .outputOnly => "OutputOnly"
  | .artifactOnly => "ArtifactOnly"
  | .silent => "Silent"

def ofModifiers (modifiers : ModifierSet) : Outline :=
  record "ModifierSet" [("flags", set (modifiers.members.map fun m => .leaf (modifierName m)))]

def ofBlock (block : CodeBlock) : Outline :=
  record "CodeBlock"
    [("language", optionalText block.language), ("info", text block.info),
      ("tags", list (block.tags.map text)), ("modifiers", ofModifiers block.modifiers),
      ("index", number block.index), ("fence", text block.fence),
      ("content", text block.content), ("prefix", text block.lead),
      ("span", ofSpan block.span)]

mutual

def ofNode : Node → Outline
  | .prose prose =>
      applied "Prose" [record "Prose" [("text", text prose.text), ("span", ofSpan prose.span)]]
  | .directive directive =>
      applied "Directive" [record "Directive"
        [("path", text directive.path), ("section", optionalText directive.part),
          ("span", ofSpan directive.span)]]
  | .code block => applied "CodeBlock" [ofBlock block]
  | .conditional guard source children span =>
      applied "Conditional" [record "Conditional"
        [("guard", record "Guard" [("expr", ofExpr guard.expr)]), ("source", text source),
          ("children", list (ofNodes children)), ("span", ofSpan span)]]

def ofNodes : List Node → List Outline
  | [] => []
  | node :: rest => ofNode node :: ofNodes rest

end

def ofDocument (document : Document) : Outline :=
  record "Document" [("nodes", list (ofNodes document.nodes)),
    ("source_id", number document.source)]

end Outline

end LiveDoc.Report
