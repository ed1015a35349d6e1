namespace LiveDoc.Command

-- What a flag takes. A path is never empty.
inductive Takes where
  | nothing
  | path
  | text
  | number
  | oneOf (choices : List String)
  deriving DecidableEq, Repr

-- A flag by its long name, its letter if it has one, and whether it may be repeated.
structure Flag where
  long : String
  letter : Option Char
  takes : Takes
  many : Bool
  deriving DecidableEq, Repr

-- Why the reading of arguments ends early.
inductive Stop where
  | help
  | version
  | unknown (argument : String)
  | missingValue (flag : String)
  | strayValue (flag : String)
  | badValue (flag value : String)
  | repeated (flag : String)
  | tooMany (argument : String)
  | missing (name : String)
  deriving DecidableEq, Repr

-- The values of the flags, in the order given, and what stands beside them.
structure Given where
  flags : List (String × String)
  words : List String
  deriving DecidableEq, Repr

namespace Given

def nothing : Given := ⟨[], []⟩

def has (given : Given) (long : String) : Bool := given.flags.any fun entry => entry.1 == long

def values (given : Given) (long : String) : List String :=
  given.flags.filterMap fun (name, value) => if name = long then some value else none

def value? (given : Given) (long : String) : Option String := (given.values long).head?

end Given

def maxNumber : Nat := 18446744073709551615

-- A number of 64 bits, with an optional plus sign.
def natural? (text : String) : Option Nat :=
  let digits := match text.toList with
    | '+' :: rest => rest
    | all => all
  if digits = [] ∨ !digits.all Char.isDigit then none
  else
    let n := digits.foldl (fun n c => n * 10 + (c.toNat - 48)) 0
    if n ≤ maxNumber then some n else none

def Takes.accepts : Takes → String → Bool
  | .nothing, _ => true
  | .path, value => !value.isEmpty
  | .text, _ => true
  | .number, value => (natural? value).isSome
  | .oneOf choices, value => choices.contains value

def Flag.give (flag : Flag) (value : String) (given : Given) : Except Stop Given :=
  if !flag.many && given.has flag.long then .error (.repeated flag.long)
  else if !flag.takes.accepts value then .error (.badValue flag.long value)
  else .ok { given with flags := given.flags ++ [(flag.long, value)] }

-- Where arguments are read: the flags in force, whether the version may be asked for, and
-- whether the first word names a command that reads the rest itself.
structure Level where
  flags : List Flag
  version : Bool
  stopAtWord : Bool

-- The text before and after the first equals sign.
def splitValue (text : List Char) : List Char × Option (List Char) :=
  let name := text.takeWhile (· != '=')
  match text.drop name.length with
  | [] => (name, none)
  | _ :: value => (name, some value)

-- A run of letters behind one dash. The result has the flag whose value is the next argument.
def letters (level : Level) (given : Given) : List Char → Except Stop (Given × Option Flag)
  | [] => .ok (given, none)
  | c :: rest =>
      if c = 'h' then .error .help
      else if c = 'V' ∧ level.version then .error .version
      else match level.flags.find? fun flag => flag.letter == some c with
        | none => .error (.unknown ("-" ++ String.singleton c))
        | some flag =>
            if flag.takes = .nothing then do letters level (← flag.give "" given) rest
            else match rest with
              | [] => .ok (given, some flag)
              | '=' :: value => do .ok (← flag.give (String.ofList value) given, none)
              | value => do .ok (← flag.give (String.ofList value) given, none)

def longFlag (level : Level) (given : Given) (text : List Char) :
    Except Stop (Given × Option Flag) :=
  let (name, value) := splitValue text
  let long := String.ofList name
  if long = "help" ∧ value = none then .error .help
  else if long = "version" ∧ value = none ∧ level.version then .error .version
  else match level.flags.find? fun flag => flag.long == long with
    | none => .error (.unknown ("--" ++ long))
    | some flag =>
        match value with
        | some value =>
            if flag.takes = .nothing then .error (.strayValue long)
            else do .ok (← flag.give (String.ofList value) given, none)
        | none =>
            if flag.takes = .nothing then do .ok (← flag.give "" given, none)
            else .ok (given, some flag)

-- A word beside the flags: a path, and at most one of them.
def addWord (given : Given) (word : String) : Except Stop Given :=
  if !given.words.isEmpty then .error (.tooMany word)
  else if word.isEmpty then .error (.badValue "path" word)
  else .ok { given with words := [word] }

-- The flags at the start of an argument with what follows the dash, if it is no word. A dash
-- alone is one.
def flagsOf (level : Level) (given : Given) (argument : String) :
    Option (Except Stop (Given × Option Flag)) :=
  match argument.toList with
  | '-' :: '-' :: name => some (longFlag level given name)
  | '-' :: c :: more => some (letters level given (c :: more))
  | _ => none

def isDashed (argument : String) : Bool := argument.startsWith "-" && argument != "-"

-- Reads arguments from left to right, the first fault ending it. After two dashes alone every
-- argument is a word. The second component holds what a command is left to read.
def readArguments (level : Level) (given : Given) :
    List String → Except Stop (Given × List String)
  | [] => .ok (given, [])
  | "--" :: rest =>
      if level.stopAtWord then
        match rest with
        | [] => .ok (given, [])
        | word :: _ => .error (.unknown word)
      else do .ok (← rest.foldlM addWord given, [])
  | argument :: rest =>
      match flagsOf level given argument with
      | none =>
          if level.stopAtWord then .ok (given, argument :: rest)
          else do readArguments level (← addWord given argument) rest
      | some outcome => do
          match ← outcome with
          | (given, none) => readArguments level given rest
          | (given, some flag) =>
              match rest with
              | [] => .error (.missingValue flag.long)
              | value :: more =>
                  if isDashed value then .error (.missingValue flag.long)
                  else do readArguments level (← flag.give value given) more

end LiveDoc.Command
