import Workbench.Log.Event
import Workbench.Scope.Territory

/-!
Which sources a full compile takes. The disk gives at most as many as are configured; in a larger
project the directories of open documents go first. Open documents come on top of that bound.
-/

namespace Workbench

/-- The regular files that a walk from a path meets, by their normal paths. Links below the path are
not followed. -/
def Disk.regularFiles (d : Disk) (root : Path) : List Path :=
  match d.resolve root, d.lstat? root with
  | .ok _, some (.file _ _) => [d.normalize root]
  | .ok top, some _ =>
    (d.walk top entersDir).filterMap fun (place, node) =>
      match node with
      | .file _ _ => some (d.normalize ((place.drop top.length).foldl Path.child root))
      | _ => none
  | _, _ => []

namespace Territory

variable (t : Territory) (c : CompileConfig) (d : Disk)

/-- The source files of the project on the disk, in the order in which they are met. -/
def sourcesOnDisk : List Path := (d.regularFiles t.root).filter (t.ownsSource c)

/-- The source files of the project among the open documents. -/
def openSources (documents : List Path) : List Path :=
  (documents.map d.normalize).filter (t.ownsSource c)

/-- Whether the directory of a path is also that of one of the given sources. -/
def sharesDir (sources : List Path) (p : Path) : Bool :=
  p.parent?.any fun dir => sources.any fun source => source.parent?.any dir.same

/-- The paths in the directories of the given sources, and then the others. -/
def preferDirs (sources paths : List Path) : List Path :=
  paths.filter (sharesDir sources) ++ paths.filter fun p => !sharesDir sources p

/-- Whether the disk has more sources than a full compile takes. -/
def isOversized : Bool := decide (c.maxCompileFiles < (t.sourcesOnDisk c d).length)

/-- The sources that are taken from the disk. -/
def keptSources (documents : List Path) : List Path :=
  let found := t.sourcesOnDisk c d
  if t.isOversized c d then
    (preferDirs (t.openSources c d documents) found).take c.maxCompileFiles
  else found

/-- The sources of a full compile, in order. -/
def admittedSources (documents : List Path) : List Path :=
  Path.sortUnique (t.keptSources c d documents ++ t.openSources c d documents)

def admissionWarnings : List LogEvent :=
  if t.isOversized c d then
    [⟨.warn, LogEvent.workspaceTarget,
      "project exceeds max compile files; compiling a prioritized subset",
      [("root", t.root.text), ("total", toString (t.sourcesOnDisk c d).length),
        ("admitted", toString c.maxCompileFiles)]⟩]
  else []

end Territory

end Workbench
