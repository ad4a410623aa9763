import Workbench.DependencyGraph
import Workbench.Scope.Report
import Workbench.Scope.Territory
import Workbench.Scope.Unit
import Workbench.Snapshot

/-!
A scope: what is known about one project after its last compile. It holds the unit, the trees and
the dependencies between their files, the diagnostics that were published, and the environment that
names are resolved against.
-/

namespace Workbench

/-- The state of one project. -/
structure Scope where
  territory : Territory
  unit : Option CompilationUnit := none
  trees : SyntaxIndex := {}
  graph : DependencyGraph := {}
  /-- Whether the project was compiled since its territory last changed. -/
  compiled : Bool := false
  classpathResolved : Bool := false
  /-- The file that the last compile was asked for. -/
  previousContext : Option FileId := none
  /-- The diagnostics published last, of the files that have some. -/
  diagnostics : DiagnosticMap := ∅
  environment : CompileEnvironment := {}
  /-- Whether the environment changed since the unit was built. -/
  environmentStale : Bool := false
  /-- Whether the last full compile stopped at broken sources. -/
  sourceErrors : Bool := false
  classpath : Option (SnapshotHandle ClasspathIndex) := none
  /-- The message of the compiler's last failure, until a compile goes through. -/
  lastError : Option String := none

namespace Scope

def ofRoot (d : Disk) (root : Path) : Scope := { territory := ⟨d.normalize root, []⟩ }

def root (s : Scope) : Path := s.territory.root

/-- Whether the scope owns a file and it is a source. -/
def ownsSourceFile (s : Scope) (c : CompileConfig) (t : Tracker) (file : FileId) : Bool :=
  (t.path? file).any (s.territory.ownsSource c)

/-- Sets the roots of the nested projects. If they change, the project has to be compiled again. -/
def setExcluded (s : Scope) (roots : List Path) : Scope :=
  let roots := Path.sort roots
  if roots = s.territory.excluded then s
  else { s with territory := { s.territory with excluded := roots }, compiled := false }

/-- Installs a classpath. The next compile builds the unit anew. -/
def setClasspath (s : Scope) (handle : SnapshotHandle ClasspathIndex)
    (runtimeVersion : Option String) : Scope :=
  { s with
    environment := { classpath := handle.snapshot.value, runtimeVersion }
    classpath := some handle
    classpathResolved := true
    environmentStale := true }

/-- Gives up the handle to the classpath; names are still resolved against it. -/
def releaseClasspath (s : Scope) : Scope := { s with classpath := none }

end Scope

end Workbench
