import Workbench.Disk.Basic
import Workbench.Json.Basic

/-!
The entries of a classpath: directories of class files and archives.
-/

namespace Workbench

/-- What an entry of a classpath is, in the order of kinds. -/
inductive EntryKind where
  | classDir
  | jar
  deriving DecidableEq, Repr

def EntryKind.name : EntryKind → String
  | classDir => "class_dir"
  | jar => "jar"

def EntryKind.ofName? : String → Option EntryKind
  | "class_dir" => some classDir
  | "jar" => some jar
  | _ => none

/-- One entry of a classpath. -/
structure ClasspathEntry where
  kind : EntryKind
  path : Path
  deriving DecidableEq, Repr

namespace ClasspathEntry

/-- The extensions of archives, in lower case. -/
def archiveExtensions : List String := ["jar", "zip"]

/-- Whether a path has the extension of an archive, in any case. -/
def looksLikeArchive (p : Path) : Bool :=
  p.extension?.any fun extension =>
    archiveExtensions.contains (String.ofList (extension.toList.map Char.toLower))

/-- Takes a path for an archive or for a directory, by its extension. -/
def ofPath (p : Path) : ClasspathEntry :=
  ⟨if looksLikeArchive p then .jar else .classDir, p⟩

/-- Whether the disk has the entry, with its kind. -/
def existsOn (d : Disk) (e : ClasspathEntry) : Bool :=
  match e.kind with
  | .classDir => d.isDir e.path
  | .jar => d.isFile e.path

def toJson (e : ClasspathEntry) : Json :=
  .obj [("kind", .str e.kind.name), ("path", .str e.path.text)]

end ClasspathEntry

/-- What resolving the classpath of a project yields. -/
structure ResolvedClasspath where
  entries : List ClasspathEntry := []
  /-- The version of the language runtime on the classpath, if one was found. -/
  runtimeVersion : Option String := none
  deriving DecidableEq, Repr

end Workbench
