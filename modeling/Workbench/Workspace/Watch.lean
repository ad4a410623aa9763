import Workbench.Workspace.Classpaths
import Workbench.Workspace.Freshness
import Workbench.Workspace.Projects

/-!
Work in the background, and the notifications of a file watcher that ask for it.
-/

namespace Workbench.Workspace

variable {κ ρ : Type}

def spawn (w : Workspace κ ρ) (jobs : List Job) : Workspace κ ρ := { w with jobs := w.jobs ++ jobs }

def resolveAllInBackground (w : Workspace κ ρ) : Workspace κ ρ :=
  w.spawn (w.projects.map .resolve)

def scheduleCompile (w : Workspace κ ρ) (project : Path) : Workspace κ ρ :=
  w.spawn [.compile project]

/-- Does one stage of a job, and says what is left of it. -/
def runStage [Compiler κ] [Resolver ρ] (w : Workspace κ ρ) : Job → Workspace κ ρ × Option Job
  | .resolve project =>
    match w.resolveLogged project with
    | (w, true) => (w, some (.compile project))
    | (w, false) => (w, none)
  | .compile project => ((w.ensureProjectFresh project).1, none)

/-- One of the jobs gets on by a stage. -/
def advance [Compiler κ] [Resolver ρ] (w : Workspace κ ρ) (number : Nat) : Workspace κ ρ :=
  match w.jobs[number]? with
  | some job =>
    let (w', left) := w.runStage job
    { w' with jobs := w.jobs.take number ++ left.toList ++ w.jobs.drop (number + 1) }
  | none => w

/-- Does all jobs in order. None has more than two stages. -/
def runJobs [Compiler κ] [Resolver ρ] (w : Workspace κ ρ) : Workspace κ ρ :=
  (List.range (2 * w.jobs.length)).foldl (fun w _ => w.advance 0) w

/-! ### Watching -/

def isBuildFile (w : Workspace κ ρ) (p : Path) : Bool :=
  p.fileName?.any w.config.classpath.buildFileNames.contains

/-- Takes a notification. A source is marked as changed; of any other file only the kept text is
dropped. -/
def takeChange (w : Workspace κ ρ) (change : FileChange) : Workspace κ ρ :=
  let p := w.disk.normalize change.path
  if !w.isBuildFile p && w.config.compile.isSourceFile p then
    (w.track fun t d => t.applyFileChange d change).1
  else (w.track fun t d => (t.invalidate d p, ())).1

/-- Whether a build file appears or goes away with a change. -/
def movesProjects (w : Workspace κ ρ) (change : FileChange) : Bool :=
  w.isBuildFile (w.disk.normalize change.path) && change.kind != .modified

def concerned? (w : Workspace κ ρ) (change : FileChange) : Option Path := do
  let p := w.disk.normalize change.path
  if w.isBuildFile p then
    let dir ← p.parent?
    let scope ← w.scope? dir
    return scope.root
  else none

/-- Takes the notifications of a file watcher. A changed build file asks for the classpath of its
project in the background; if build files appear or go away, the projects are found again before,
without trust in the stored ones. Answers with the projects to be resolved. -/
def applyFileChanges (w : Workspace κ ρ) (changes : List FileChange) :
    Workspace κ ρ × List Path :=
  let concerned := changes.filterMap w.concerned?
  let moved := changes.any w.movesProjects
  let w := changes.foldl takeChange w
  let before := w.projects
  let (w, found) := if moved then w.findProjects false else (w, before)
  let fresh := found.filter fun root => !before.any root.same
  let scheduled := (Path.sortUnique (concerned ++ fresh)).filter fun root => (w.scope? root).isSome
  (w.spawn (scheduled.map .resolve), scheduled)

end Workbench.Workspace
