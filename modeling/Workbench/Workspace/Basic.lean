import Workbench.Classpath.Cache
import Workbench.Classpath.Resolver
import Workbench.Scope.Placeholder
import Workbench.Workspace.Event

/-!
A workspace: the scopes of its projects and what they share. Projects are known by their normal
paths, and a path belongs to the project with the deepest root above it.
-/

namespace Workbench

/-- Work that is done in the background, in the order in which it was asked for. -/
inductive Job where
  /-- Resolve the classpath of a project, and then compile it. -/
  | resolve (project : Path)
  | compile (project : Path)
  deriving DecidableEq, Repr

/-- A root directory, its projects, and what they share. -/
structure Workspace (κ ρ : Type) where
  root : Path
  config : Config
  disk : Disk
  bench : Bench κ
  resolver : ρ
  /-- Stored classpaths, if there is a place for them. -/
  cache : Option ClasspathCache
  snapshots : SnapshotStore ClasspathIndex := ∅
  /-- The scopes by the components of their projects' normal paths. -/
  scopes : Std.ExtTreeMap (List Component) Scope := ∅
  events : EventBus := {}
  /-- All that was published, last first. -/
  history : List Notice := []
  /-- Work that waits to be done. -/
  jobs : List Job := []

/-- Why a workspace cannot be opened. -/
inductive OpenError where
  | unreachable (root : Path) (error : DiskError)
  | notDirectory (root : Path)
  /-- A directive of the configured log filter would be cut inside a character. -/
  | tornFilter
  /-- More texts of closed files are to be kept than there can be room for. -/
  | noRoom
  deriving DecidableEq, Repr

def OpenError.message : OpenError → String
  | unreachable root error =>
    "failed to open workspace root " ++ root.text ++ ": " ++ error.message
  | notDirectory root => "workspace root " ++ root.text ++ " is not a directory"
  | tornFilter => FilterError.torn.message
  | noRoom => "no room for so many closed files"

namespace Workspace

variable {κ ρ : Type}

def warning (message : String) (fields : List (String × String)) : LogEvent :=
  ⟨.warn, LogEvent.workspaceTarget, message, fields⟩

/-- The stored classpaths of a configuration, or the warning that there is no place for them. -/
def cacheFor (env : Environment) (c : ClasspathConfig) : Option ClasspathCache × List LogEvent :=
  match env.cacheRoot c.cacheDir with
  | .ok dir => (some { dir, sampleSize := c.sampleSize, buildFileNames := c.buildFileNames }, [])
  | .error e =>
    (none, [warning "no cache directory; classpaths will not be cached" [("error", e.message)]])

def openAt (disk : Disk) (env : Environment) (config : Config) (compiler : κ) (resolver : ρ)
    (root : Path) : Except OpenError (Workspace κ ρ) :=
  let root := disk.normalize root
  match disk.stat root with
  | .error e => .error (.unreachable root e)
  | .ok .dir =>
    let (cache, missing) := cacheFor env config.classpath
    let tracker := Tracker.ofLimits config.documents.closedFileTtlMs
      config.documents.closedFileCapacity
    let warnings := config.warnings.map fun w => warning w.message [("key", w.field)]
    if config.logging.configuredFilter?.isNone then .error .tornFilter
    else if !ClosedTexts.isPossible config.documents.closedFileCapacity then .error .noRoom
    else .ok
      { root, config, disk, resolver, cache, bench := ⟨tracker, compiler, warnings ++ missing⟩ }
  | .ok _ => .error (.notDirectory root)

/-! ### Projects and scopes -/

/-- The roots of all projects, in order. -/
def projects (w : Workspace κ ρ) : List Path := w.scopes.keys.map Path.ofComponents

/-- The key of a project. -/
def keyOf (w : Workspace κ ρ) (project : Path) : List Component :=
  (w.disk.normalize project).components

def scope? (w : Workspace κ ρ) (project : Path) : Option Scope := w.scopes[w.keyOf project]?

/-- The deeper of two scopes; of equally deep ones the second. -/
def deeper (a b : List Component × Scope) : List Component × Scope :=
  if b.2.root.components.length < a.2.root.components.length then a else b

/-- The key and the scope of the project that owns a path: the deepest one above it. -/
def owner? (w : Workspace κ ρ) (p : Path) : Option (List Component × Scope) :=
  let p := w.disk.normalize p
  match w.scopes.toList.filter fun (_, scope) => scope.root.isWithin p with
  | [] => none
  | first :: rest => some (rest.foldl deeper first)

def putScope (w : Workspace κ ρ) (key : List Component) (scope : Scope) : Workspace κ ρ :=
  { w with scopes := w.scopes.insert key scope }

def note (w : Workspace κ ρ) (events : List LogEvent) : Workspace κ ρ :=
  { w with bench := w.bench.note events }

def publish (w : Workspace κ ρ) (project : List Component) (event : WorkspaceEvent) :
    Workspace κ ρ :=
  { w with events := w.events.publish event, history := ⟨project, event⟩ :: w.history }

def releaseHandle (w : Workspace κ ρ) (scope : Scope) : Workspace κ ρ :=
  match scope.classpath with
  | some handle => { w with snapshots := w.snapshots.release handle.key }
  | none => w

/-- Gives up the handle to a project's classpath. Answers whether the scope held one, if the
project is known. -/
def releaseClasspath (w : Workspace κ ρ) (project : Path) : Workspace κ ρ × Option Bool :=
  match w.scope? project with
  | none => (w, none)
  | some scope =>
    ((w.releaseHandle scope).putScope (w.keyOf project) scope.releaseClasspath,
      some scope.classpath.isSome)

/-- Drops the scope of a project, and its classpath with it; answers whether there was one. -/
def evict (w : Workspace κ ρ) (project : Path) : Workspace κ ρ × Bool :=
  let project := w.disk.normalize project
  match w.scopes[project.components]? with
  | none => (w, false)
  | some scope =>
    let w := w.releaseHandle scope
    let w := { w with scopes := w.scopes.erase project.components }
    (w.publish project.components (.scopeEvicted project), true)

/-! ### Documents -/

def track {α : Type} (w : Workspace κ ρ) (act : Tracker → Disk → Tracker × α) :
    Workspace κ ρ × α :=
  let (tracker, answer) := act w.bench.tracker w.disk
  ({ w with bench := { w.bench with tracker } }, answer)

def openDocument (w : Workspace κ ρ) (p : Path) (text : String) (version : Int) :
    Workspace κ ρ × FileId :=
  w.track fun t d => t.openDocument d p text version

def changeDocument (w : Workspace κ ρ) (p : Path) (version : Int) (changes : List ContentChange) :
    Workspace κ ρ × Except DocumentError (List TextEdit) :=
  w.track fun t d => t.change d p version changes

def closeDocument (w : Workspace κ ρ) (p : Path) : Workspace κ ρ × Option FileId :=
  w.track fun t d => t.closeDocument d p

end Workspace

end Workbench
