import Workbench.Tracker.Basic

/-!
What can happen to a tracker, one action at a time: an editor opens, edits and closes documents, a
watcher reports changes, somebody reads a file or clears marks, and time passes. The answers of the
operations are left out here; only the tracker goes on.
-/

namespace Workbench.Tracker

/-- One thing that happens to a tracker. -/
inductive Action where
  | openDocument (p : Path) (text : String) (version : Int)
  | change (p : Path) (version : Int) (changes : List ContentChange)
  | closeDocument (p : Path)
  | beginSplice (p : Path) (text : String)
  | endSplice (p : Path)
  | register (p : Path)
  | read (p : Path)
  | readId (file : FileId)
  /-- A watcher saw a change. -/
  | notify (change : FileChange)
  | invalidate (p : Path)
  | clearMarks (files : List FileId)
  | wait (milliseconds : Nat)

def act (t : Tracker) (d : Disk) : Action → Tracker
  | .openDocument p text version => (t.openDocument d p text version).1
  | .change p version changes => (t.change d p version changes).1
  | .closeDocument p => (t.closeDocument d p).1
  | .beginSplice p text => (t.beginSplice d p text).1
  | .endSplice p => (t.endSplice d p).1
  | .register p => (t.register d p).1
  | .read p => (t.contents d p).1
  | .readId file => (t.contentsOfId d file).1
  | .notify change => (t.applyFileChange d change).1
  | .invalidate p => t.invalidate d p
  | .clearMarks files => t.clearMarks files
  | .wait milliseconds => t.wait milliseconds

/-- The tracker after several actions, while the disk stays as it is. -/
def run (t : Tracker) (d : Disk) (actions : List Action) : Tracker :=
  actions.foldl (fun t action => t.act d action) t

end Workbench.Tracker
