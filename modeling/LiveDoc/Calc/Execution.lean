import LiveDoc.Calc.Chart
import LiveDoc.Calc.Eval
import LiveDoc.Calc.Parser
import LiveDoc.Data.Bytes

namespace LiveDoc.Calc

-- A file that a block declares, before it has a name.
structure Payload where
  extension : String
  bytes : ByteArray
  deriving DecidableEq

-- What a block has produced so far.
structure Captured where
  output : String
  artifacts : List Payload
  deriving DecidableEq

def Captured.none : Captured := ⟨"", []⟩

def Captured.print (captured : Captured) (text : String) : Captured :=
  { captured with output := captured.output ++ text }

def Captured.declare (captured : Captured) (payload : Payload) : Captured :=
  { captured with artifacts := captured.artifacts ++ [payload] }

-- Extensions become part of file names, so only ASCII letters and digits pass.
def checkedExtension (extension : String) : Except ScriptError String :=
  if !extension.isEmpty && extension.toList.all Char.isAlphanum then
    .ok (String.ofList (extension.toList.map Char.toLower))
  else .error (.badExtension extension)

def single (function : String) : List Value → Except ScriptError Value
  | [value] => .ok value
  | values => .error (.arity function (.exactly 1) values.length)

def pair (function : String) : List Value → Except ScriptError (Value × Value)
  | [first, second] => .ok (first, second)
  | values => .error (.arity function (.exactly 2) values.length)

def chart (function : String) : List Value → Except ScriptError Payload
  | [] => .error (.arity function (.atLeast 2) 0)
  | title :: rest => do
      let numbers ← rest.mapM Value.asNumber
      if numbers.isEmpty then throw (.arity function (.atLeast 2) 1)
      match numbers.find? fun value => !value.isFinite with
      | some value => throw (.notFinite value)
      | none => pure ⟨"svg", (Chart.svg title.display numbers).toUTF8⟩

def builtins : Calls Captured := fun function values =>
  match function with
  | "print" => do
      modify (·.print (Text.joined " " (values.map Value.display) ++ "\n"))
      pure .unit
  | "str" => do
      let value ← single function values
      pure (.text value.display)
  | "len" => do
      let value ← single function values
      let text ← value.asText
      pure (.number (Float.ofNat text.length))
  | "save" => do
      let (extension, content) ← pair function values
      let name ← extension.asText
      let checked ← checkedExtension name
      modify (·.declare ⟨checked, content.display.toUTF8⟩)
      pure .unit
  | "bar_chart" => do
      let payload ← chart function values
      modify (·.declare payload)
      pure .unit
  | "fail" => do
      let message ← single function values
      throw (.failed message.display)
  | other => throw (.unknownFunction other)

-- Everything one block produced. A failing block keeps what it produced before the failure.
structure Execution where
  captured : Captured
  failure : Option Failure

def runStatement (session : Session) (captured : Captured) (statement : Statement) :
    Except ScriptError Session × Captured :=
  match statement with
  | .assign name value _ =>
      let (result, captured) := (evaluate builtins session value).run captured
      (result.map (session.bind name), captured)
  | .run value _ =>
      let (result, captured) := (evaluate builtins session value).run captured
      (result.map fun _ => session, captured)

-- The statements up to the first failing one, which binds nothing.
def runStatements (session : Session) (captured : Captured) : Script → Execution × Session
  | [] => (⟨captured, none⟩, session)
  | statement :: rest =>
      match runStatement session captured statement with
      | (.ok session, captured) => runStatements session captured rest
      | (.error error, captured) => (⟨captured, some ⟨some statement.line, error⟩⟩, session)

-- A block with a syntax error on any line runs no statement.
def execute (code : String) (session : Session) : Execution × Session :=
  match parseScript code.toList with
  | .ok script => runStatements session .none script
  | .error e => (⟨.none, some ⟨some e.line, .badSyntax e.fault⟩⟩, session)

def language : String := "calc"

end LiveDoc.Calc
