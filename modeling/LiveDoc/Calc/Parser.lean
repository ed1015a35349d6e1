import LiveDoc.Calc.Lexer

namespace LiveDoc.Calc

-- What the parser knows of the text beside its tokens: where errors at its end point.
structure Place where
  whole : ByteRange
  line : Nat

-- A tree and the tokens after it. Every tree takes at least one token.
structure Parsed (α : Type) (input : List Located) where
  tree : α
  rest : List Located
  shorter : rest.length < input.length

abbrev Result (α : Type) (input : List Located) := Except SyntaxError (Parsed α input)

abbrev ExprParser := (input : List Located) → Result Expr input

def Place.error (place : Place) (input : List Located) (fault : Fault) : SyntaxError :=
  match input with
  | [] => ⟨fault, place.whole, place.line⟩
  | t :: _ => ⟨fault, t.range, place.line⟩

theorem Parsed.shorter_of_rest {α : Type} {input : List Located} (p : Parsed α input)
    {t : Located} {more : List Located} (h : p.rest = t :: more) :
    more.length < input.length := by
  have hp := p.shorter
  rw [h, List.length_cons] at hp
  exact Nat.lt_of_succ_lt hp

-- The operators of one chain, each with its right operand. `operand level` reads a right
-- operand whose own operators bind at least as tightly as `level`.
def chain (operand : Nat → ExprParser) (level : Nat) (left : Expr) (input : List Located) :
    Except SyntaxError (Expr × { rest : List Located // rest.length ≤ input.length }) :=
  match input with
  | [] => .ok (left, ⟨[], Nat.le_refl _⟩)
  | t :: more =>
      match t.token with
      | .symbol symbol =>
          match symbol.binary? with
          | none => .ok (left, ⟨t :: more, Nat.le_refl _⟩)
          | some (op, own) =>
              if own < level then .ok (left, ⟨t :: more, Nat.le_refl _⟩)
              else do
                let right ← operand (own + 1) more
                let (tree, ⟨rest, h⟩) ← chain operand level (.binary op left right.tree) right.rest
                .ok (tree, ⟨rest, by have := right.shorter; simp only [List.length_cons]; omega⟩)
      | _ => .ok (left, ⟨t :: more, Nat.le_refl _⟩)
termination_by input.length
decreasing_by
  have := right.shorter
  simp only [List.length_cons]
  omega

-- Call arguments up to the closing parenthesis. The opening one is already read, and at least
-- one argument follows.
def arguments (place : Place) (argument : ExprParser) (input : List Located) :
    Result (List Expr) input := do
  let first ← argument input
  match hr : first.rest with
  | ⟨.symbol .comma, _⟩ :: more =>
      have hs := first.shorter_of_rest hr
      let others ← arguments place argument more
      .ok ⟨first.tree :: others.tree, others.rest, Nat.lt_trans others.shorter hs⟩
  | ⟨.symbol .close, _⟩ :: more => .ok ⟨[first.tree], more, first.shorter_of_rest hr⟩
  | rest => .error (place.error rest .badArguments)
termination_by input.length
decreasing_by exact hs

-- A literal, a name, a call or a parenthesised expression. `inner` reads what stands inside
-- parentheses.
def primary (place : Place) (inner : ExprParser) : ExprParser
  | [] => .error (place.error [] .unexpectedEnd)
  | t :: more =>
      match t.token with
      | .number value => .ok ⟨.number value, more, by simp⟩
      | .text value => .ok ⟨.text value, more, by simp⟩
      | .bool value => .ok ⟨.bool value, more, by simp⟩
      | .name name =>
          match more with
          | ⟨.symbol .open, _⟩ :: ⟨.symbol .close, _⟩ :: rest =>
              .ok ⟨.call name t.range [], rest, by simp only [List.length_cons]; omega⟩
          | ⟨.symbol .open, _⟩ :: rest => do
              let list ← arguments place inner rest
              .ok ⟨.call name t.range list.tree, list.rest, by
                have := list.shorter; simp only [List.length_cons]; omega⟩
          | rest => .ok ⟨.var name t.range, rest, by simp⟩
      | .symbol .open =>
          match more with
          | ⟨.symbol .close, _⟩ :: rest => .ok ⟨.unit, rest, by simp only [List.length_cons]; omega⟩
          | rest => do
              let body ← inner rest
              match hr : body.rest with
              | ⟨.symbol .close, _⟩ :: rest' =>
                  .ok ⟨body.tree, rest', by
                    have := body.shorter_of_rest hr
                    simp only [List.length_cons] at *; omega⟩
              | rest' => .error (place.error rest' .missingClose)
      | .symbol symbol => .error (place.error (t :: more) (.unexpectedSymbol symbol))

-- Operators in sight of an expression: the level they must reach, or none for an operand that
-- stands alone after a sign.
structure Readers where
  operand : ExprParser
  expression : Nat → ExprParser

def Readers.tooDeep (place : Place) : Readers where
  operand input := .error (place.error input .tooDeep)
  expression _ input := .error (place.error input .tooDeep)

-- An operand with its signs. `below` reads one nesting level further in.
def operand (place : Place) (below : Readers) : ExprParser
  | [] => primary place (below.expression 0) []
  | t :: more =>
      match t.token with
      | .symbol symbol =>
          match symbol.unary? with
          | some op => do
              let inner ← below.operand more
              .ok ⟨.unary op inner.tree, inner.rest, by
                have := inner.shorter; simp only [List.length_cons]; omega⟩
          | none => primary place (below.expression 0) (t :: more)
      | _ => primary place (below.expression 0) (t :: more)

def isAssign (t : Located) : Bool := t.token == .symbol .assign

def expression (place : Place) (below : Readers) (level : Nat) : ExprParser := fun input => do
  let first ← operand place below input
  let (tree, ⟨rest, h⟩) ← chain below.expression level first.tree first.rest
  if rest.head?.any isAssign then .error (place.error rest .misplacedAssign)
  else .ok ⟨tree, rest, by have := first.shorter; omega⟩

-- Readers that may nest `budget` levels deep.
def readers (place : Place) : Nat → Readers
  | 0 => .tooDeep place
  | budget + 1 =>
      let below := readers place budget
      ⟨operand place below, expression place below⟩

def maxNesting : Nat := 128

def whole (place : Place) (trailing : Fault) (input : List Located) :
    Except SyntaxError Expr := do
  let parsed ← (readers place maxNesting).expression 0 input
  if parsed.rest = [] then .ok parsed.tree else .error (place.error parsed.rest trailing)

-- Parses one expression whose first byte is at `offset` of its source.
def parseExpr (text : List Char) (offset : Nat) : Except SyntaxError Expr := do
  let located ← tokens 1 offset text
  whole ⟨⟨offset, offset + Text.byteCount text⟩, 1⟩ .afterExpression located

-- A guard is an expression without calls.
def parseGuard (text : List Char) (offset : Nat) : Except SyntaxError Guard := do
  let expr ← parseExpr text offset
  match h : expr.firstCall? with
  | none => .ok ⟨expr, h⟩
  | some (function, range) => .error ⟨.callInGuard function, range, 1⟩

def isLineEnd (c : Char) : Bool := c == '\n' || c == '\r'

-- One line of a script. A line of blanks and comments holds no statement.
def parseStatement (line offset : Nat) (text : List Char) :
    Except SyntaxError (Option Statement) := do
  let place : Place := ⟨⟨offset, offset + Text.byteCount text⟩, line⟩
  match ← tokens line offset text with
  | [] => .ok none
  | ⟨.name name, _⟩ :: ⟨.symbol .assign, _⟩ :: rest =>
      (whole place .afterAssignment rest).map fun value => some (.assign name value line)
  | located => (whole place .afterExpression located).map fun value => some (.run value line)

def parseLines (line offset : Nat) : List (List Char) → Except SyntaxError Script
  | [] => .ok []
  | text :: more => do
      let statement ← parseStatement line offset (Text.trimEnd isLineEnd text)
      let rest ← parseLines (line + 1) (offset + Text.byteCount text) more
      .ok (statement.toList ++ rest)

-- One statement a line, the first fault winning.
def parseScript (text : List Char) : Except SyntaxError Script :=
  parseLines 1 0 (Text.lines text)

end LiveDoc.Calc
