import GatedCalls.Text.Control
import GatedCalls.Text.Split

/-!
# Log records

What a run reports besides its result. The functions of this library return their records, in order;
printing them is the business of the command line.
-/

namespace GatedCalls

namespace Log

/-- How much a record matters. -/
inductive Level where
  | debug
  | info
  | warn
  | error
  deriving DecidableEq, Repr

/-- The name of a level. -/
def Level.name : Level → String
  | debug => "DEBUG"
  | info => "INFO"
  | warn => "WARN"
  | error => "ERROR"

/-- The place of a level: the more a record matters, the higher. -/
def Level.rank : Level → Nat
  | debug => 0
  | info => 1
  | warn => 2
  | error => 3

/-- What a record is about. -/
inductive Topic where
  | table
  | directory
  | library
  | resolution
  | usage
  | removal
  deriving DecidableEq, Repr

/-- The name of a topic in printed records. -/
def Topic.name : Topic → String
  | table => "rmperm::permissions"
  | directory => "rmperm::module"
  | library => "rmperm::redirections"
  | resolution => "rmperm::customizer"
  | usage => "rmperm::usage"
  | removal => "rmperm::pipeline"

/-- A record of the log. -/
structure Record where
  level : Level
  topic : Topic
  text : String
  deriving DecidableEq, Repr

/-- The line that names the level and the topic of a record before its text: level names are filled
up to five characters, and further lines are set in by four blanks. -/
def Record.line (r : Record) : String :=
  "[" ++ r.level.name ++ String.ofList (List.replicate (5 - r.level.name.length) ' ') ++ " " ++
    r.topic.name ++ "] " ++ "\n    ".intercalate (Text.splitOf '\n' r.text) ++ "\n"

/-- The text that a record prints as, in which nothing is an order to a terminal. -/
def Record.print (r : Record) : String :=
  String.ofList (Text.withoutControls r.line.toList)

end Log

/-- A value together with what was reported on the way to it. -/
structure Logged (α : Type) where
  value : α
  log : List Log.Record

end GatedCalls
