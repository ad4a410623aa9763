import Workbench.Sorting
import Workbench.Text.Position

/-!
Diagnostics of a compiler. They are compared in all their fields, which decides whether the set
published for a file has changed.
-/

namespace Workbench

/-- How serious a diagnostic is, the most serious first. -/
inductive Severity where
  | error
  | warning
  | information
  | hint
  deriving DecidableEq, Repr

namespace Severity

def rank : Severity → Nat
  | error => 0
  | warning => 1
  | information => 2
  | hint => 3

def name : Severity → String
  | error => "error"
  | warning => "warning"
  | information => "information"
  | hint => "hint"

end Severity

/-- A remark of the compiler on a range of a file. -/
structure Diagnostic where
  range : Range
  severity : Severity
  message : String
  code : Option String := none
  deriving DecidableEq, Repr

namespace Diagnostic

/-- A missing text comes before every text. -/
def compareCode : Option String → Option String → Ordering
  | none, none => .eq
  | none, some _ => .lt
  | some _, none => .gt
  | some a, some b => compare a b

/-- Diagnostics are ordered by range, severity, message and code. -/
instance : Ord Diagnostic where
  compare a b :=
    (compare a.range b.range).then <|
    (compare a.severity.rank b.severity.rank).then <|
    (compare a.message b.message).then <|
    compareCode a.code b.code

/-- Diagnostics in order, each once. -/
def tidy (diagnostics : List Diagnostic) : List Diagnostic := sortUnique compare diagnostics

end Diagnostic

end Workbench
