import Workbench.Path
import Workbench.Text.Letter
import Workbench.Text.Measure
import Workbench.Text.Position

/-!
Lines and words of the toy language. A line ends at a line feed, with a carriage return before it;
the code of a line is what stands before the first two slashes; words are runs of letters, numbers,
underscores and points. Places on a line count bytes; columns, which count sixteen-bit units, come in
with the ranges.
-/

namespace Workbench.Toy

open Text

def dropReturn (cs : List Char) : List Char :=
  if cs.getLast? = some '\r' then cs.dropLast else cs

/-- The lines of a text. A last line without a line feed counts if it is not empty, and it keeps a
carriage return at its end. -/
def sourceLines (cs : List Char) : List (List Char) :=
  let pieces := splitPieces '\n' cs
  let last := pieces.getLast?.getD []
  pieces.dropLast.map dropReturn ++ (if last.isEmpty then [] else [last])

/-- What stands before a comment. -/
def codeOf : List Char → List Char
  | [] => []
  | '/' :: '/' :: _ => []
  | c :: cs => c :: codeOf cs

/-- A word and the byte of its line where it starts. -/
structure Word where
  start : Nat
  chars : List Char
  deriving DecidableEq, Repr

/-- The column of a byte of a line: the units of what stands before it. A byte inside a character
has none, but nothing starts there. -/
def utf16Col (code : List Char) (byte : Nat) : Nat :=
  match cut? Char.utf8Size code byte with
  | some (before, _) => unitCount before
  | none => 0

namespace Word

def text (w : Word) : String := String.ofList w.chars

/-- The range of a word on a line with this code. -/
def range (w : Word) (line : Nat) (code : List Char) : Range :=
  Range.across line (utf16Col code w.start) (unitCount w.chars)

/-- Whether a word starts with a letter. -/
def startsWithLetter (w : Word) : Bool := w.chars.head?.any isLetter

def push (w : Word) (c : Char) : Word := { w with chars := w.chars ++ [c] }

end Word

/-- Whether a character belongs to a word. -/
def isWordChar (c : Char) : Bool := isLetterOrNumber c || c = '_' || c = '.'

/-- The words of a text whose first character stands at a byte; a word may have begun before it. -/
def wordsFrom : (byte : Nat) → (begun : Option Word) → List Char → List Word
  | _, begun, [] => begun.toList
  | byte, begun, c :: cs =>
    match begun, isWordChar c with
    | none, true => wordsFrom (byte + c.utf8Size) (some ⟨byte, [c]⟩) cs
    | some w, true => wordsFrom (byte + c.utf8Size) (some (w.push c)) cs
    | some w, false => w :: wordsFrom (byte + c.utf8Size) none cs
    | none, false => wordsFrom (byte + c.utf8Size) none cs

/-- The words of a piece of code that stands at a byte of its line. -/
def wordsAt (base : Nat) (piece : List Char) : List Word := wordsFrom base none piece

/-- Some pieces with a separator of one byte between them, each with the byte where it starts. -/
def placePieces (offset : Nat) : List (List Char) → List (Nat × List Char)
  | [] => []
  | piece :: rest => (offset, piece) :: placePieces (offset + byteSize piece + 1) rest

/-- The pieces between commas of what stands between the first opening parenthesis and the next
closing one; none if nothing opens. -/
def parameters? (code : List Char) : Option (List (Nat × List Char)) :=
  match code.dropWhile (· != '(') with
  | [] => none
  | _ :: inner =>
    let opening := byteSize (code.takeWhile (· != '('))
    some (placePieces (opening + 1) (splitPieces ',' (inner.takeWhile (· != ')'))))

end Workbench.Toy
