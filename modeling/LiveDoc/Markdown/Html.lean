import LiveDoc.Markdown.Scan

namespace LiveDoc.Markdown.Html

def lowerAscii (text : List Char) : List Char := text.map Char.toLower

def startsWith (text : List Char) (mark : String) : Bool := mark.toList.isPrefixOf text

-- Elements whose block runs to their own closing tag.
def verbatimTags : List (String × String) :=
  [("pre", "</pre>"), ("style", "</style>"), ("script", "</script>"),
    ("textarea", "</textarea>")]

def blockTags : List String :=
  ["address", "article", "aside", "base", "basefont", "blockquote", "body", "caption", "center",
    "col", "colgroup", "dd", "details", "dialog", "dir", "div", "dl", "dt", "fieldset",
    "figcaption", "figure", "footer", "form", "frame", "frameset", "h1", "h2", "h3", "h4", "h5",
    "h6", "head", "header", "hr", "html", "iframe", "legend", "li", "link", "main", "menu",
    "menuitem", "nav", "noframes", "ol", "optgroup", "option", "p", "param", "search", "section",
    "summary", "table", "tbody", "td", "tfoot", "th", "thead", "title", "tr", "track", "ul"]

def verbatimEnd? (text : List Char) : Option String :=
  verbatimTags.findSome? fun (tag, close) =>
    let size := tag.length
    if lowerAscii (text.take size) = tag.toList then
      match text.drop size with
      | [] => some close
      | c :: _ => if isAsciiBlank c ∨ c = '>' then some close else none
    else none

-- The text that ends the block of HTML which starts with `<` and then `text`, for the kinds
-- of block that blank lines do not end.
def endMark? (text : List Char) : Option String :=
  match verbatimEnd? text with
  | some close => some close
  | none =>
      if startsWith text "!--" then some "-->"
      else if startsWith text "?" then some "?>"
      else if startsWith text "![CDATA[" then some "]]>"
      else match text with
        | '!' :: c :: _ => if c.isAlpha then some ">" else none
        | _ => none

-- Whether `<` and then `text` starts a block by the name of its element.
def startsBlock (text : List Char) : Bool :=
  let open_ := match text with
    | '/' :: rest => rest
    | _ => text
  let tag := open_.takeWhile Char.isAlphanum
  let known := blockTags.contains (String.ofList (lowerAscii tag))
  let ends := match open_.drop tag.length with
    | [] => true
    | c :: more =>
        c == ' ' || c == '\t' || c == '\r' || c == '\n' || c == '>' ||
          (c == '/' && more.head? == some '>')
  known && ends

def isTagChar (c : Char) : Bool := c.isAlphanum || c == '-'

def isNameStart (c : Char) : Bool := c.isAlpha || c == '_' || c == ':'

def isNameChar (c : Char) : Bool := c.isAlphanum || c == '_' || c == '.' || c == ':' || c == '-'

def isBareValueChar (c : Char) : Bool :=
  !(c == '\x27' || c == '\x22' || c == ' ' || c == '=' || c == '>' || c == '<' ||
    c == backtick || c == '\n' || c == '\r')

-- Skips blanks, and line breaks too when a tag may run over lines. The end of the text ends
-- the tag in the middle.
def skipBlanks (multiline : Bool) (text : List Char) : Option (List Char) :=
  let rest := text.dropWhile isInlineBlank
  match rest with
  | [] => none
  | c :: _ =>
      if !isLineEnd c then some rest
      else if multiline then
        let more := rest.dropWhile isAsciiBlank
        if more = [] then none else some more
      else none

def quotedValue (multiline : Bool) (quote : Char) (text : List Char) : Option (List Char) :=
  let body := text.takeWhile (· != quote)
  if !multiline ∧ body.any isLineEnd then none
  else match text.drop body.length with
    | _ :: rest => some rest
    | [] => none

def value (multiline : Bool) : List Char → Option (List Char)
  | [] => none
  | c :: rest =>
      if c = '\x22' ∨ c = '\x27' then quotedValue multiline c rest
      else if c = ' ' ∨ c = '=' ∨ c = '>' ∨ c = '<' ∨ c = backtick ∨ isLineEnd c then none
      else some ((c :: rest).dropWhile isBareValueChar)

-- The text after one attribute. Blanks after an attribute without a value are left for the next.
def property (multiline : Bool) : List Char → Option (List Char)
  | [] => none
  | c :: rest =>
      if !isNameStart c then none
      else
        let named := rest.dropWhile isNameChar
        match skipBlanks multiline named with
        | some ('=' :: more) => (skipBlanks multiline more).bind (value multiline)
        | some _ => some named
        | none => none

-- The text after the attributes of an opening tag, at the `>` or `/` that ends it. Each
-- attribute follows a blank.
def properties (multiline : Bool) : (fuel : Nat) → List Char → Option (List Char)
  | 0, _ => none
  | fuel + 1, text =>
      match skipBlanks multiline text with
      | none => none
      | some rest =>
          match rest with
          | '/' :: _ => some rest
          | '>' :: _ => some rest
          | _ =>
              if rest.length = text.length then none
              else (property multiline rest).bind (properties multiline fuel)

-- What follows a complete opening or closing tag whose text after `<` is given.
def afterTag? (multiline : Bool) (text : List Char) : Option (List Char) :=
  let (closing, body) := match text with
    | '/' :: rest => (true, rest)
    | _ => (false, text)
  match body with
  | [] => none
  | c :: rest =>
      if !c.isAlpha then none
      else
        let named := rest.dropWhile isTagChar
        let inside := if closing then some named else properties multiline (named.length + 1) named
        match inside.map (·.dropWhile isInlineBlank) with
        | none => none
        | some tail =>
            let bare := match tail with
              | '/' :: more => if closing then tail else more
              | _ => tail
            match bare with
            | '>' :: more => some more
            | _ => none

-- A tag alone on its line starts a block of HTML too.
def isLoneTag (text : List Char) : Bool :=
  match afterTag? false text with
  | some rest => (blankLine? rest).isSome
  | none => false

end LiveDoc.Markdown.Html
