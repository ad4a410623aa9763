import Workbench.Text.Measure
import Workbench.Text.Position

/-!
The line table of a text. A line ends at a line feed, at a carriage return, or at the two together;
the pair is taken as one terminator. The table converts between byte offsets and editor positions.
An offset inside a terminator counts as the end of the line before it, and an offset past the end
as the end of the text.
-/

namespace Workbench

open Text

/-- What stands behind the content of a line. -/
inductive LineEnding where
  | lf
  | crlf
  | cr
  /-- Only the last line has no terminator. -/
  | endOfText
  deriving DecidableEq, Repr

def LineEnding.chars : LineEnding → List Char
  | lf => ['\n']
  | crlf => ['\r', '\n']
  | cr => ['\r']
  | endOfText => []

/-- One line: its content with the bytes where this starts and stops, and what ends it. -/
structure Line where
  start : Nat
  stop : Nat
  content : List Char
  ending : LineEnding
  deriving DecidableEq, Repr

/-- The line with its terminator, as it stands in the text. -/
def Line.chars (line : Line) : List Char := line.content ++ line.ending.chars

/-- The lines from a byte on, read character by character. The first of them has started before,
and this much of its content has been read. -/
def scanLines : (byte start : Nat) → (content : List Char) → List Char → List Line
  | byte, start, content, [] => [⟨start, byte, content, .endOfText⟩]
  | byte, start, content, '\n' :: cs =>
    ⟨start, byte, content, .lf⟩ :: scanLines (byte + 1) (byte + 1) [] cs
  | byte, start, content, '\r' :: '\n' :: cs =>
    ⟨start, byte, content, .crlf⟩ :: scanLines (byte + 2) (byte + 2) [] cs
  | byte, start, content, '\r' :: cs =>
    ⟨start, byte, content, .cr⟩ :: scanLines (byte + 1) (byte + 1) [] cs
  | byte, start, content, c :: cs => scanLines (byte + c.utf8Size) start (content ++ [c]) cs

/-- All lines of one text, in order, and the size of the text in bytes. -/
structure LineTable where
  lines : List Line
  size : Nat
  deriving DecidableEq, Repr

namespace LineTable

def ofChars (cs : List Char) : LineTable :=
  ⟨scanLines 0 0 [] cs, byteSize cs⟩

def ofText (text : String) : LineTable := ofChars text.toList

def lineCount (t : LineTable) : Nat := t.lines.length

/-- The number of the last line that starts at or before an offset. -/
def lineNumberAt (t : LineTable) (offset : Nat) : Nat :=
  (t.lines.takeWhile fun line => line.start ≤ offset).length - 1

/-- The position of a byte offset; there is none for an offset inside a character. -/
def position? (t : LineTable) (offset : Nat) : Option Position := do
  let offset := min offset t.size
  let number := t.lineNumberAt offset
  let line ← t.lines[number]?
  let (before, _) ← cut? Char.utf8Size line.content (min offset line.stop - line.start)
  return ⟨number, unitCount before⟩

/-- The byte offset of a position; there is none when the line does not exist, the column lies
past its content, or the column splits a surrogate pair. -/
def offset? (t : LineTable) (p : Position) : Option Nat := do
  let line ← t.lines[p.line]?
  let (before, _) ← cut? unitSize line.content p.character
  return line.start + byteSize before

def range? (t : LineTable) (span : Span) : Option Range := do
  return ⟨← t.position? span.start, ← t.position? span.stop⟩

/-- The byte span of an editor range; there is none when an end has no offset or the ends are
reversed. -/
def span? (t : LineTable) (r : Range) : Option Span := do
  Span.ofEnds? (← t.offset? r.start) (← t.offset? r.stop)

end LineTable

end Workbench
