import Std.Data.ExtTreeMap
import Std.Data.ExtTreeSet
import Workbench.Disk.Basic
import Workbench.Document
import Workbench.Tracker.ClosedTexts

/-!
The tracker is the authority on what text a file has. Open documents are served from memory;
closed files are read from the disk and kept for a while. Every open, edit, close and watcher
notification marks the file as changed until a compile clears the mark.

A document may be spliced: readers then see another text, while the editor's document, its version
and the edits it receives stay apart from that text and come back when the splice ends.
-/

namespace Workbench

/-- An open document. While it is spliced, `editor` holds what the editor sees. -/
structure OpenDocument where
  served : Document
  editor : Option Document := none
  deriving DecidableEq

namespace OpenDocument

/-- The document as the editor sees it. -/
def editorDocument (o : OpenDocument) : Document := o.editor.getD o.served

def setEditorDocument (o : OpenDocument) (d : Document) : OpenDocument :=
  match o.editor with
  | some _ => { o with editor := some d }
  | none => { o with served := d }

end OpenDocument

/-- What a file watcher saw happen to a path. -/
inductive FileChangeKind where
  | created
  | modified
  | deleted
  deriving DecidableEq, Repr

/-- A notification of a file watcher. -/
structure FileChange where
  path : Path
  kind : FileChangeKind
  deriving DecidableEq, Repr

/-- A move is seen as the old path going away and the new one coming up. -/
def FileChange.moved (source target : Path) : List FileChange :=
  [⟨source, .deleted⟩, ⟨target, .created⟩]

/-- An edit of a document that is not open. -/
inductive DocumentError where
  | notOpen (path : Path)
  deriving DecidableEq, Repr

def DocumentError.message : DocumentError → String
  | notOpen path => "document not open: " ++ path.text

/-- Open documents, kept texts of closed files, and the files marked as changed. -/
structure Tracker where
  registry : Registry := ∅
  documents : Std.ExtTreeMap FileId OpenDocument := ∅
  changed : Std.ExtTreeSet FileId := ∅
  closed : ClosedTexts
  /-- For how many milliseconds the text of a closed file is kept. -/
  timeToLive : Nat
  /-- Milliseconds since the tracker was made. -/
  clock : Nat := 0

namespace Tracker

/-- A tracker that has seen nothing. -/
def ofLimits (timeToLive capacity : Nat) : Tracker :=
  { closed := .ofCapacity capacity, timeToLive }

variable (t : Tracker) (d : Disk)

/-! ### Ids and marks -/

/-- The id of a path, if its normal form is registered. -/
def id? (p : Path) : Option FileId := t.registry.id? (d.normalize p)

/-- The id of a path, whose normal form is registered if it is new. -/
def register (p : Path) : Tracker × FileId :=
  let (registry, id) := t.registry.register (d.normalize p)
  ({ t with registry }, id)

/-- The normal path of an id. -/
def path? (id : FileId) : Option Path := t.registry.path? id

def mark (id : FileId) : Tracker := { t with changed := t.changed.insert id }

def clearMarks (ids : List FileId) : Tracker := { t with changed := t.changed.eraseMany ids }

/-- The marked files, in order. -/
def changedFiles : List FileId := t.changed.toList

/-- The marked files at or below a path, in order. -/
def changedUnder (root : Path) : List FileId :=
  t.changedFiles.filter fun id => (t.path? id).any root.isWithin

def forget (id : FileId) : Tracker := { t with closed := t.closed.erase id }

/-- Keeps a text for a closed file from now on. -/
def keep (id : FileId) (text : String) : Tracker :=
  { t with closed := t.closed.put id ⟨text, t.clock⟩ }

def wait (milliseconds : Nat) : Tracker := { t with clock := t.clock + milliseconds }

/-! ### Documents -/

def isOpenId (id : FileId) : Bool := t.documents.contains id

/-- Opens a document; it takes the place of one that is open for the same file. -/
def openDocument (p : Path) (text : String) (version : Int) : Tracker × FileId :=
  let (t, id) := t.register d p
  let t := { t with documents := t.documents.insert id ⟨.ofText text version, none⟩ }
  ((t.forget id).mark id, id)

def document? (p : Path) : Option (FileId × OpenDocument) := do
  let id ← t.id? d p
  let document ← t.documents[id]?
  return (id, document)

def change (p : Path) (version : Int) (changes : List ContentChange) :
    Tracker × Except DocumentError (List TextEdit) :=
  match t.document? d p with
  | none => (t, .error (.notOpen p))
  | some (id, document) =>
    let (edited, edits) := document.editorDocument.applyChanges version changes
    let documents := t.documents.insert id (document.setEditorDocument edited)
    (({ t with documents } : Tracker).mark id, .ok edits)

/-- Closes a document; its last text is kept like the text of any closed file. -/
def closeDocument (p : Path) : Tracker × Option FileId :=
  match t.document? d p with
  | none => (t, none)
  | some (id, document) =>
    let t := { t with documents := t.documents.erase id }
    ((t.keep id document.editorDocument.text).mark id, some id)

def isOpen (p : Path) : Bool := (t.document? d p).isSome

def version? (p : Path) : Option Int :=
  (t.document? d p).map fun (_, document) => document.editorDocument.version

/-- The paths of all open documents, in order. -/
def openPaths : List Path :=
  Path.sort (t.documents.keys.filterMap t.path?)

/-! ### Texts -/

/-- The kept text of a closed file, if it is not too old. Looking at it counts as use; one that is
too old is dropped. -/
def keptText? (id : FileId) : Tracker × Option String :=
  match t.closed.get? id with
  | none => (t, none)
  | some kept =>
    if t.clock - kept.cachedAt < t.timeToLive then
      ({ t with closed := t.closed.promote id }, some kept.text)
    else (t.forget id, none)

/-- The text of a file that the disk knows by the path `p`: that of its open document, else its
kept text, else what the disk holds, which is then kept. -/
def textOf (id : FileId) (p : Path) : Tracker × Option String :=
  match t.documents[id]? with
  | some document => (t, some document.served.text)
  | none =>
    match t.keptText? id with
    | (t, some text) => (t, some text)
    | (t, none) =>
      match d.text? p with
      | some text => (t.keep id text, some text)
      | none => (t, none)

/-- The text of a path, which is registered if it is new. -/
def contents (p : Path) : Tracker × Option String :=
  let (t, id) := t.register d p
  t.textOf d id p

def contentsOfId (id : FileId) : Tracker × Option String :=
  match t.path? id with
  | some p => t.textOf d id p
  | none => (t, none)

/-- Serves another text for an open document until the splice ends; answers with the text that the
editor sees. Does nothing if the document is not open or already spliced. -/
def beginSplice (p : Path) (text : String) : Tracker × Option String :=
  match t.document? d p with
  | some (id, ⟨served, none⟩) =>
    let documents := t.documents.insert id ⟨served.setText text, some served⟩
    (({ t with documents } : Tracker).mark id, some served.text)
  | _ => (t, none)

/-- Serves the editor's document again, with the edits it received meanwhile. -/
def endSplice (p : Path) : Tracker × Bool :=
  match t.document? d p with
  | some (id, ⟨_, some editor⟩) =>
    let documents := t.documents.insert id ⟨editor, none⟩
    (({ t with documents } : Tracker).mark id, true)
  | _ => (t, false)

/-! ### The disk -/

/-- Takes a watcher's notification: drops the kept text and marks the file. -/
def applyFileChange (change : FileChange) : Tracker × FileId :=
  let (t, id) := t.register d change.path
  ((t.forget id).mark id, id)

/-- Takes several notifications, one after another. -/
def applyFileChanges : Tracker → Disk → List FileChange → Tracker × List FileId
  | t, _, [] => (t, [])
  | t, d, change :: rest =>
    let (t, id) := t.applyFileChange d change
    let (t, ids) := applyFileChanges t d rest
    (t, id :: ids)

/-- Drops the kept text of a path without marking it. -/
def invalidate (p : Path) : Tracker :=
  match t.id? d p with
  | some id => t.forget id
  | none => t

end Tracker

end Workbench
