import Workbench.Scope.Refresh
import Workbench.Text.Edit

/-!
Reading a scope as if a token stood in an open document. The document is spliced, the scope is
brought up to date and read, and then the document is as the editor sees it again. It stays marked
as changed, so that the next compile takes the token out.
-/

namespace Workbench

/-- A text with a token inserted at a position, if the text has that position. -/
def insertToken? (text : String) (p : Position) (token : String) : Option String := do
  let offset ← (LineTable.ofText text).offset? p
  (TextEdit.insertAt offset token).applyTo? text

namespace Tracker

def spliceToken? (t : Tracker) (d : Disk) (p : Path) (position : Position) (token : String) :
    Option (Tracker × FileId) := do
  let (file, document) ← t.document? d p
  let spliced ← insertToken? document.served.text position token
  match t.beginSplice d p spliced with
  | (t, some _) => some (t, file)
  | (_, none) => none

end Tracker

namespace Scope

variable {κ : Type} [Compiler κ]

/-- Reads the scope with a token at a position of a document. There is no answer if the document is
not open, is spliced already, or has no such position. -/
def withPlaceholder {α : Type} (s : Scope) (c : CompileConfig) (d : Disk) (b : Bench κ) (p : Path)
    (position : Position) (token : String) (read : Bench κ → Scope → FileId → Bench κ × α) :
    Option (Bench κ × Scope × CompileReport × α) := do
  let (tracker, file) ← b.tracker.spliceToken? d p position token
  let (b, s, report) := s.refresh c d { b with tracker } (some file)
  let (b, answer) := read b s file
  return ({ b with tracker := (b.tracker.endSplice d p).1 }, s, report, answer)

end Scope

end Workbench
