import Workbench.Disk.Change

/-!
What others do on the disk: an editor saves, a build tool writes archives, a user moves directories
about. An action that the disk refuses does nothing.
-/

namespace Workbench

/-- An action of others on the disk. Times are in milliseconds since 1970. -/
inductive OutsideAction where
  | write (path : Path) (content : Content) (modified : Int)
  | append (path : Path) (more : List UInt8) (modified : Int)
  | touch (path : Path) (modified : Int)
  | makeDir (path : Path)
  | removeFile (path : Path)
  | removeDir (path : Path)
  | rename (source target : Path)
  | link (path : Path) (target : String)

namespace Disk

/-- The disk after an action that may be refused. -/
def orKeep (d : Disk) : Except DiskError Disk → Disk
  | .ok d => d
  | .error _ => d

/-- Makes the directories above a path. -/
def makeParents (d : Disk) (p : Path) : Disk :=
  match p.parent? with
  | some dir => (d.makeDirs dir).1
  | none => d

def perform (d : Disk) : OutsideAction → Disk
  | .write path content modified =>
    let d := d.makeParents path
    d.orKeep (d.modify path fun _ => (content, modified))
  | .append path more modified =>
    d.orKeep (d.modify path fun file =>
      match file with
      | some (content, _) => (content.append more, modified)
      | none => (⟨more⟩, modified))
  | .touch path modified =>
    if d.isFile path then
      d.orKeep (d.modify path fun file =>
        match file with
        | some (content, _) => (content, modified)
        | none => (⟨[]⟩, modified))
    else d
  | .makeDir path => (d.makeDirs path).1
  | .removeFile path => d.orKeep (d.removeFile path)
  | .removeDir path =>
    match d.entry (Path.ofComponents path.components) with
    | .ok (dir, name) => d.prune (dir ++ [name])
    | .error _ => d
  | .rename source target =>
    d.orKeep (d.rename (Path.ofComponents source.components) (Path.ofComponents target.components))
  | .link path target =>
    let d := d.makeParents path
    d.orKeep (d.makeLink path target)

end Disk

end Workbench
