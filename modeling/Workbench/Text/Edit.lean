import Workbench.Text.Lines

/-!
Edits of a text: a byte span and what stands there afterwards.
-/

namespace Workbench

open Text

/-- Replaces a span of bytes by a text. -/
structure TextEdit where
  span : Span
  replacement : String
  deriving DecidableEq, Repr

namespace TextEdit

/-- The edit that inserts a text at an offset. -/
def insertAt (offset : Nat) (text : String) : TextEdit := ⟨Span.point offset, text⟩

/-- The edited text; there is none when an end of the span is no character boundary of it. -/
def applyTo? (e : TextEdit) (text : String) : Option String := do
  let (before, rest) ← cut? Char.utf8Size text.toList e.span.start
  let (_, after) ← cut? Char.utf8Size rest (e.span.stop - e.span.start)
  return String.ofList (before ++ e.replacement.toList ++ after)

end TextEdit

/-- The mark that stands for the caret in a sample text. -/
def caretMark : String := "/*caret*/"

/-- Takes the first caret mark out of a sample and says where it stood. -/
def extractCaret? (sample : String) : Option (String × Position) := do
  let (before, after) ← splitOnce? caretMark.toList sample.toList
  let text := String.ofList (before ++ after)
  let position ← (LineTable.ofText text).position? (byteSize before)
  return (text, position)

end Workbench
