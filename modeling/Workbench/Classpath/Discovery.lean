import Workbench.Disk.Basic

/-!
Finding projects: every directory of a workspace that holds a build file. Hidden directories and
those that build tools write are not entered.
-/

namespace Workbench

/-- The build files that are looked for when none are configured. -/
def defaultBuildFileNames : List String :=
  ["build.gradle", "build.gradle.kts", "settings.gradle", "settings.gradle.kts",
    "gradle.properties", "pom.xml"]

/-- The directories that build tools write. -/
def outputDirs : List String := ["build", "target", "out", "node_modules"]

/-- Whether a walk through sources enters a directory of this name. -/
def entersDir (name : String) : Bool :=
  name.toList.head? != some '.' && !outputDirs.contains name

namespace Disk

/-- What stands at a path when a link at its end is not followed. -/
def lstat? (d : Disk) (p : Path) : Option Node :=
  match p.steps.getLast? with
  | some (.into name) =>
    match d.follow p (p.steps.dropLast ++ [.stay]) with
    | .ok (.found dir) => d.node? (dir ++ [name])
    | _ => none
  | _ => (d.stat p).toOption

def isProject (d : Disk) (buildFileNames : List String) (dir : Path) : Bool :=
  buildFileNames.any fun name => d.isFile (dir.child name)

/-- The directories of a walk from a path, by their paths. A link at the start is walked through
but is no directory itself. -/
def walkedDirs (d : Disk) (root : Path) : List Path :=
  match d.resolve root with
  | .error _ => []
  | .ok top =>
    let below := (d.walk top entersDir).filterMap fun (place, node) =>
      match node with
      | .dir => some ((place.drop top.length).foldl Path.child root)
      | _ => none
    match d.lstat? root with
    | some .dir => root :: below
    | _ => below

/-- The projects of a workspace by their normal paths, in order. -/
def discoverProjects (d : Disk) (root : Path) (buildFileNames : List String) : List Path :=
  Path.sortUnique (((d.walkedDirs root).filter (d.isProject buildFileNames)).map d.normalize)

end Disk

end Workbench
