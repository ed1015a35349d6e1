import LiveDoc.Calc.Token
import LiveDoc.Decimal.Read
import LiveDoc.Text.CharClass

namespace LiveDoc.Calc

-- A failed reading: what is wrong and how many bytes from its start it covers.
structure Misread where
  fault : Fault
  width : Nat

-- A token and the number of characters it takes after its first one.
abbrev Lexeme := Except Misread (Token × Nat)

def escaped : Char → Char
  | 'n' => '\n'
  | 't' => '\t'
  | c => c

-- A text literal after its opening quote: its value and its characters, closing quote included.
def textBody? : List Char → Option (List Char × Nat)
  | [] => none
  | '\x22' :: _ => some ([], 1)
  | '\\' :: c :: rest => (textBody? rest).map fun (value, count) => (escaped c :: value, count + 2)
  | c :: rest => (textBody? rest).map fun (value, count) => (c :: value, count + 1)

def isNumberChar (c : Char) : Bool := c.isDigit || c == '.'

def isNameStart (c : Char) : Bool := Text.isLetter c || c == '_'

def isNameChar (c : Char) : Bool := Text.isLetterOrDigit c || c == '_'

def wordToken (word : List Char) : Token :=
  if word = "true".toList then .bool true
  else if word = "false".toList then .bool false
  else .name (String.ofList word)

-- A symbol followed by `second` is the longer one.
def eitherSymbol (second : Char) (long short : Symbol) (rest : List Char) : Lexeme :=
  if rest.head? = some second then .ok (.symbol long, 1) else .ok (.symbol short, 0)

def doubledSymbol (c : Char) (symbol : Symbol) (rest : List Char) : Lexeme :=
  if rest.head? = some c then .ok (.symbol symbol, 1) else .error ⟨.loneSymbol c, 1⟩

def symbolLexeme (c : Char) (rest : List Char) : Lexeme :=
  match c with
  | '=' => eitherSymbol '=' .equal .assign rest
  | '!' => eitherSymbol '=' .notEqual .not rest
  | '>' => eitherSymbol '=' .greaterEqual .greater rest
  | '<' => eitherSymbol '=' .lessEqual .less rest
  | '&' => doubledSymbol '&' .and rest
  | '|' => doubledSymbol '|' .or rest
  | '+' => .ok (.symbol .plus, 0)
  | '-' => .ok (.symbol .minus, 0)
  | '*' => .ok (.symbol .star, 0)
  | '/' => .ok (.symbol .slash, 0)
  | '%' => .ok (.symbol .percent, 0)
  | ',' => .ok (.symbol .comma, 0)
  | '(' => .ok (.symbol .open, 0)
  | ')' => .ok (.symbol .close, 0)
  | other => .error ⟨.badCharacter other, other.utf8Size⟩

-- The longest token at the start of a text that starts with neither a blank nor a comment.
def lexeme (c : Char) (rest : List Char) : Lexeme :=
  if c = '\x22' then
    match textBody? rest with
    | some (value, count) => .ok (.text (String.ofList value), count)
    | none => .error ⟨.unterminatedText, Text.byteCount (c :: rest)⟩
  else if c.isDigit then
    let tail := rest.takeWhile isNumberChar
    match Decimal.read? (c :: tail) with
    | some value => .ok (.number value, tail.length)
    | none => .error ⟨.badNumber (String.ofList (c :: tail)), Text.byteCount (c :: tail)⟩
  else if isNameStart c then
    let tail := rest.takeWhile isNameChar
    .ok (wordToken (c :: tail), tail.length)
  else symbolLexeme c rest

-- The tokens of a text whose first byte is at `offset`. A `#` outside a literal ends the text.
def tokens (line offset : Nat) : List Char → Except SyntaxError (List Located)
  | [] => .ok []
  | c :: rest =>
      if Text.isBlank c then tokens line (offset + c.utf8Size) rest
      else if c = '#' then .ok []
      else match lexeme c rest with
        | .error misread => .error ⟨misread.fault, ⟨offset, offset + misread.width⟩, line⟩
        | .ok (token, count) =>
            let stop := offset + Text.byteCount (c :: rest.take count)
            (tokens line stop (rest.drop count)).map (⟨token, ⟨offset, stop⟩⟩ :: ·)
termination_by text => text.length
decreasing_by all_goals (simp only [List.length_cons, List.length_drop]; omega)

end LiveDoc.Calc
