import Workbench.Cache.Root
import Workbench.Disk.Change

/-!
Writing records. A staged file is made beside the record, filled and then moved into place, so that a
reader sees either the record before or the record after and never a part of it. Writers of one
record take turns by a lock file.
-/

namespace Workbench

def stagedName (name : String) (number : Nat) : String :=
  name ++ ".1-" ++ toString number ++ ".staged"

/-- A new file beside a record: the path that it was made under, and the place where it is open. -/
structure Staged where
  path : Path
  file : Place
  deriving DecidableEq

namespace Disk

/-- Makes a file where nothing stands, and opens it. -/
def createNew (d : Disk) (p : Path) : Except DiskError (Disk × Staged) :=
  match d.entry p with
  | .error e => .error e
  | .ok (dir, name) =>
    match d.node? (dir ++ [name]) with
    | some _ => .error .alreadyExists
    | none => .ok (d.put (dir ++ [name]) (.file ⟨[]⟩ writeTime), ⟨p, dir ++ [name]⟩)

/-- Makes a staged file in a directory under the first number that is free, counting from
`number`. -/
def stage (d : Disk) (dir : Path) (name : String) :
    (tries number : Nat) → Except DiskError (Disk × Staged)
  | 0, _ => .error .alreadyExists
  | tries + 1, number =>
    match d.createNew (dir.child (stagedName name number)) with
    | .ok staged => .ok staged
    | .error .alreadyExists => d.stage dir name tries (number + 1)
    | .error e => .error e

/-- Writes all bytes of a content to an open file and flushes them. -/
def fill (d : Disk) (file : Place) (content : Content) : Disk × Option DiskError :=
  match d.fault with
  | none => (d.put file (.file content writeTime), none)
  | some (.full room) =>
    if content.size ≤ room then (d.put file (.file content writeTime), none)
    else (d.put file (.file ⟨content.bytes.take room⟩ writeTime), some .noSpace)
  | some .unflushed => (d.put file (.file content writeTime), some .inputOutput)

/-- The disk without a staged file that did not get to its place. -/
def discard (d : Disk) (staged : Staged) : Disk :=
  match d.removeFile staged.path with
  | .ok d => d
  | .error _ => d

/-- Fills a staged file and moves it to its place. Wherever this fails, the staged file is
discarded. -/
def commit (d : Disk) (staged : Staged) (p : Path) (content : Content) :
    Disk × Option CacheError :=
  match d.fill staged.file content with
  | (d, some e) => (d.discard staged, some (.disk e))
  | (d, none) =>
    match d.rename staged.path p with
    | .error e => (d.discard staged, some (.disk e))
    | .ok d => (d, none)

/-- The directory in which a path is written; a bare name stands in the working directory. -/
def writeDir? (p : Path) : Option Path :=
  p.parent?.map fun dir => if dir.text.isEmpty then ⟨"."⟩ else dir

/-- Replaces the content of a record; staged files are numbered from `number`. There are fewer
staged files than entries on the disk, so some number is free. -/
def atomicWriteFrom (d : Disk) (number : Nat) (p : Path) (content : Content) :
    Disk × Option CacheError :=
  match writeDir? p with
  | none => (d, some .noParent)
  | some dir =>
    match d.makeDirs dir with
    | (d, some e) => (d, some (.disk e))
    | (d, none) =>
      match p.fileName? with
      | none => (d, some .noFileName)
      | some name =>
        match d.stage dir name (d.nodes.size + 1) number with
        | .error e => (d, some (.disk e))
        | .ok (d, staged) => d.commit staged p content

/-- Replaces the content of a record. -/
def atomicWrite (d : Disk) (p : Path) (content : Content) : Disk × Option CacheError :=
  d.atomicWriteFrom 0 p content

/-- Takes the lock of a lock file, which is made with its directory if it is missing. Operations
follow one another, so nobody else ever holds it. -/
def lock (d : Disk) (p : Path) : Disk × Option CacheError :=
  let (d, refused) := match p.parent? with
    | some dir => d.makeDirs dir
    | none => (d, none)
  match refused with
  | some e => (d, some (.disk e))
  | none =>
    match d.ensureFile p with
    | .ok d => (d, none)
    | .error e => (d, some (.disk e))

end Disk

end Workbench
