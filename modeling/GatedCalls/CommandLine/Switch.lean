/-!
# Switches

The switches of the command line, with their spellings: `--input app`, `--input=app`, `-i app`,
`-iapp`, `-i=app`. Switches of one letter that take no value may share one hyphen.
-/

namespace GatedCalls.CommandLine

/-- A switch of the command line. -/
inductive Switch where
  | help
  | version
  | verbose
  | input
  | output
  | permissionTable
  | library
  | permission
  | keepVoid
  | report
  deriving DecidableEq, Repr

namespace Switch

/-- The word behind two hyphens. -/
def word : Switch → String
  | help => "help"
  | version => "version"
  | verbose => "verbose"
  | input => "input"
  | output => "output"
  | permissionTable => "permission-table"
  | library => "custom"
  | permission => "permission"
  | keepVoid => "no-auto-remove-void"
  | report => "report"

/-- The letter behind one hyphen. -/
def letter? : Switch → Option Char
  | help => some 'h'
  | version => some 'V'
  | verbose => some 'v'
  | input => some 'i'
  | output => some 'o'
  | permissionTable => some 't'
  | library => some 'c'
  | permission => some 'p'
  | keepVoid => none
  | report => none

/-- Whether a value belongs to the switch. -/
def takesValue : Switch → Bool
  | help | version | verbose | keepVoid => false
  | input | output | permissionTable | library | permission | report => true

/-- Whether the value is a path, which must not be empty. -/
def takesPath (s : Switch) : Bool :=
  s.takesValue && s != permission

/-- Whether the switch may be given several times. -/
def isRepeatable : Switch → Bool
  | verbose | library | permission => true
  | _ => false

end Switch

/-- What is wrong with a command line. -/
inductive UsageFault where
  | noCommand
  | unknownCommand (word : String)
  | unexpectedArgument (argument : String)
  | missingValue (s : Switch)
  | unexpectedValue (s : Switch)
  | repeated (s : Switch)
  | missing (s : Switch)
  deriving DecidableEq, Repr

/-- The wording of a fault of usage. -/
def UsageFault.message : UsageFault → String
  | noCommand => "no command given"
  | unknownCommand word => "unknown command " ++ word
  | unexpectedArgument argument => "unexpected argument " ++ argument
  | missingValue s => "--" ++ s.word ++ " needs a value"
  | unexpectedValue s => "--" ++ s.word ++ " takes no value"
  | repeated s => "--" ++ s.word ++ " is given more than once"
  | missing s => "--" ++ s.word ++ " is missing"

/-- Why the arguments are not read to their end. -/
inductive Interruption where
  | help
  | version
  | wrong (fault : UsageFault)
  deriving DecidableEq, Repr

/-- The switches that have been read, with their values, in order. -/
abbrev Given : Type :=
  List (Switch × String)

namespace Given

/-- Notes one more switch with its value. -/
def add (given : Given) (s : Switch) (value : String) : Except Interruption Given :=
  if s = .help then .error .help
  else if s = .version then .error .version
  else if given.any (·.1 = s) ∧ !s.isRepeatable then .error (.wrong (.repeated s))
  else if s.takesPath ∧ value = "" then .error (.wrong (.missingValue s))
  else .ok (given ++ [(s, value)])

/-- The values of a switch. -/
def values (given : Given) (s : Switch) : List String :=
  (given.filter (·.1 = s)).map (·.2)

/-- The value of a switch that has to be given. -/
def value (given : Given) (s : Switch) : Except Interruption String :=
  match given.values s with
  | v :: _ => .ok v
  | [] => .error (.wrong (.missing s))

/-- How often a switch is given. -/
def count (given : Given) (s : Switch) : Nat :=
  (given.values s).length

end Given

/-- What kind of word an argument is. -/
inductive Argument where
  /-- Two hyphens alone: no switch follows. -/
  | stop
  /-- The word of a switch, perhaps with a value. -/
  | word (word : String) (value : Option String)
  /-- The letters of switches, and what follows them. -/
  | letters (text : List Char)
  /-- Anything else. -/
  | plain (text : String)

/-- The kind of an argument. A hyphen alone is no switch. -/
def Argument.ofText (text : String) : Argument :=
  match text.toList with
  | ['-', '-'] => .stop
  | '-' :: '-' :: s =>
    .word (String.ofList (s.takeWhile (· != '=')))
      (match s.dropWhile (· != '=') with
        | [] => none
        | _ :: value => some (String.ofList value))
  | '-' :: c :: s => .letters (c :: s)
  | _ => .plain text

/-- Reads letters of switches. The last one may take a value that is the next argument. -/
def readLetters (known : List Switch) (given : Given) :
    List Char → Except Interruption (Given × Option Switch)
  | [] => .ok (given, none)
  | c :: rest =>
    match known.find? (·.letter? = some c) with
    | none => .error (.wrong (.unexpectedArgument (String.ofList ['-', c])))
    | some s =>
      if s.takesValue then
        match rest with
        | [] => .ok (given, some s)
        | '=' :: value => (given.add s (String.ofList value)).map (·, none)
        | value => (given.add s (String.ofList value)).map (·, none)
      else do
        readLetters known (← given.add s "") rest

/-- The argument as the value of a switch, if it can be one. -/
def Argument.value? : Argument → Option String
  | plain text => some text
  | _ => none

/-- Reads switches up to the first argument that is none. -/
def readSwitches (known : List Switch) (given : Given) :
    List String → Except Interruption (Given × List String)
  | [] => .ok (given, [])
  | argument :: rest =>
    match Argument.ofText argument with
    | .plain _ => .ok (given, argument :: rest)
    | .stop =>
      -- What follows two hyphens is no switch, and no argument of another kind is known.
      match rest with
      | [] => .ok (given, [])
      | next :: _ => .error (.wrong (.unexpectedArgument next))
    | .word word value? =>
      match known.find? (·.word = word), value? with
      | none, _ => .error (.wrong (.unexpectedArgument argument))
      | some s, some value =>
        if s.takesValue then do
          readSwitches known (← given.add s value) rest
        else .error (.wrong (.unexpectedValue s))
      | some s, none =>
        if s.takesValue then readValue s rest given
        else do
          readSwitches known (← given.add s "") rest
    | .letters text => do
      match ← readLetters known given text with
      | (given, none) => readSwitches known given rest
      | (given, some s) => readValue s rest given
where
  /-- Reads the value of a switch that stands in the next argument, then further switches. -/
  readValue (s : Switch) (rest : List String) (given : Given) :
      Except Interruption (Given × List String) :=
    match rest with
    | [] => .error (.wrong (.missingValue s))
    | next :: rest =>
      match (Argument.ofText next).value? with
      | none => .error (.wrong (.missingValue s))
      | some value => do
        readSwitches known (← given.add s value) rest

end GatedCalls.CommandLine
