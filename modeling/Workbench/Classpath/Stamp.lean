import Std.Data.ExtTreeMap
import Workbench.Disk.Basic

/-!
Stamps stand for the contents of build files: the modification time and the size of the file.
-/

namespace Workbench

/-- The stamps of build files by the texts of their paths. -/
abbrev StampMap := Std.ExtTreeMap String String

namespace Disk

/-- The stamp of a file; a time before 1970 counts as 1970. -/
def stamp? (d : Disk) (p : Path) : Option String :=
  (d.file? p).map fun (content, modified) =>
    toString modified.toNat ++ ":" ++ toString content.size

/-- The stamps of the build files directly in a project. -/
def projectStamps (d : Disk) (project : Path) (buildFileNames : List String) : StampMap :=
  buildFileNames.foldl (fun stamps name =>
    let file := project.child name
    match d.stamp? file with
    | some stamp => stamps.insert file.text stamp
    | none => stamps) ∅

end Disk

end Workbench
