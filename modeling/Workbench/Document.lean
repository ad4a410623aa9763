import Workbench.Text.Bytes
import Workbench.Text.Edit

/-!
Documents an editor holds: a text, the version the editor gave it, and the line table of the text.
A change names a range of the current text, or the whole of it. A range that does not resolve in
the current text is taken for the whole text: the editor resynchronizes with its next full change.
-/

namespace Workbench

open Text

/-- A change as an editor sends it; without a range it replaces the whole text. -/
structure ContentChange where
  range : Option Range
  text : String
  deriving DecidableEq, Repr

/-- A text with its version and its line table. -/
structure Document where
  text : String
  version : Int
  lines : LineTable
  deriving DecidableEq, Repr

namespace Document

def ofText (text : String) (version : Int) : Document :=
  ⟨text, version, LineTable.ofText text⟩

def setText (d : Document) (text : String) : Document :=
  { d with text := text, lines := LineTable.ofText text }

/-- The edit that a change makes in the current text. -/
def editOf (d : Document) (change : ContentChange) : TextEdit :=
  ⟨(change.range.bind d.lines.span?).getD (Span.whole d.lines.size), change.text⟩

/-- The text with other bytes in the place of those of a span. There is none if an end of the span
is no boundary between characters. -/
def replaceSpan? (d : Document) (span : Span) (replacement : String) : Option String :=
  if String.Pos.Raw.isValid d.text ⟨span.start⟩ && String.Pos.Raw.isValid d.text ⟨span.stop⟩ then
    let bytes := encode d.text
    decode? (bytes.take span.start ++ encode replacement ++ bytes.drop span.stop)
  else none

/-- Carries out one change and returns it as an edit. The span of the edit ends at boundaries, so
that its bytes always can be replaced. -/
def applyChange (d : Document) (change : ContentChange) : Document × TextEdit :=
  let edit := d.editOf change
  (d.setText ((d.replaceSpan? edit.span change.text).getD change.text), edit)

/-- Carries out changes one after another, each in the text that the one before it left. -/
def applyEach : Document → List ContentChange → Document × List TextEdit
  | d, [] => (d, [])
  | d, change :: rest =>
    let (d, edit) := d.applyChange change
    let (d, edits) := applyEach d rest
    (d, edit :: edits)

/-- Carries out all changes of one message and takes over its version. -/
def applyChanges (d : Document) (version : Int) (changes : List ContentChange) :
    Document × List TextEdit :=
  let (d, edits) := d.applyEach changes
  ({ d with version := version }, edits)

end Document

end Workbench
