/-!
Messages about stored records may quote paths of the user. What stands between quotes is replaced,
and everything else, such as a line and a column, is kept.
-/

namespace Workbench

def redacted : List Char := "<redacted>".toList

/-- Where a reader of a message is. -/
inductive QuoteState where
  | outside
  | inside
  /-- Inside quotes, right behind a backslash. -/
  | escaped
  deriving DecidableEq, Repr

/-- The redaction of a message from a state on. An unfinished quotation is redacted too. -/
def redactFrom : QuoteState → List Char → List Char
  | .outside, [] => []
  | .outside, '"' :: cs => '"' :: redactFrom .inside cs
  | .outside, c :: cs => c :: redactFrom .outside cs
  | .inside, [] => redacted
  | .inside, '"' :: cs => redacted ++ '"' :: redactFrom .outside cs
  | .inside, '\\' :: cs => redactFrom .escaped cs
  | .inside, _ :: cs => redactFrom .inside cs
  | .escaped, [] => redacted
  | .escaped, _ :: cs => redactFrom .inside cs

/-- A message with every quoted text replaced. -/
def redactQuoted (message : String) : String :=
  String.ofList (redactFrom .outside message.toList)

end Workbench
