/-!
Log events: a level, the part of the program that speaks, a message, and named values.
-/

namespace Workbench

/-- How urgent an event is, the most urgent first. -/
inductive LogLevel where
  | error
  | warn
  | info
  | debug
  | trace
  deriving DecidableEq, Repr

namespace LogLevel

/-- The place of a level in their order; the larger, the more verbose. -/
def rank : LogLevel → Nat
  | error => 1
  | warn => 2
  | info => 3
  | debug => 4
  | trace => 5

def label : LogLevel → String
  | error => "ERROR"
  | warn => "WARN"
  | info => "INFO"
  | debug => "DEBUG"
  | trace => "TRACE"

/-- All levels, the most urgent first. -/
def all : List LogLevel := [error, warn, info, debug, trace]

end LogLevel

/-- One event. -/
structure LogEvent where
  level : LogLevel
  target : String
  message : String
  fields : List (String × String) := []
  deriving DecidableEq, Repr

namespace LogEvent

/-- The part of the program that looks after projects. -/
def workspaceTarget : String := "grove.workspace"

/-- The names of what an event carries; the message is one of the fields. -/
def fieldNames (e : LogEvent) : List String := "message" :: e.fields.map Prod.fst

/-- The event without its values, as one line. -/
def summary (e : LogEvent) : String := e.level.label ++ " " ++ e.target ++ ": " ++ e.message

end LogEvent

end Workbench
