import Workbench.Workspace.Basic

/-!
The classpaths of a workspace's projects. A stored classpath is taken if it can be trusted;
otherwise the resolver is asked and its answer is stored. Projects with the same entries share one
index of their classes.
-/

namespace Workbench.Workspace

variable {κ ρ : Type}

/-- The stored classpath of a project, if it can be trusted. -/
def storedClasspath? (w : Workspace κ ρ) (project : Path) : Option ResolvedClasspath := do
  let cache ← w.cache
  let record ← cache.load? w.disk w.root
  if cache.isValid w.disk record project then
    (record.project? project).map ProjectRecord.resolved
  else none

/-- Stores the classpath of a project. A failure is only logged. -/
def storeClasspath (w : Workspace κ ρ) (project : Path) (resolved : ResolvedClasspath) :
    Workspace κ ρ :=
  match w.cache with
  | none => w
  | some cache =>
    let (disk, failure) := cache.mergeProject w.disk w.root project resolved (some w.projects)
    ({ w with disk } : Workspace κ ρ).note (failure.toList.map fun e =>
      warning "failed to write classpath cache"
        [("project", project.text), ("error", e.message)])

def acquireIndex (w : Workspace κ ρ) (entries : List ClasspathEntry) :
    Workspace κ ρ × SnapshotHandle ClasspathIndex :=
  let acquired := w.snapshots.acquire (SnapshotStore.keyFor (entries.map ClasspathEntry.toJson))
    fun store => (store, ClasspathIndex.build w.disk entries)
  let w := { w with snapshots := acquired.store }
  (if acquired.built then w.note (ClasspathIndex.buildWarnings w.disk entries) else w,
    acquired.handle)

/-- Installs a classpath in the scope of a project. The handle that the scope held is given back
once it has the new one. -/
def installClasspath (w : Workspace κ ρ) (key : List Component) (project : Path) (scope : Scope)
    (resolved : ResolvedClasspath) (fromCache : Bool) : Workspace κ ρ :=
  let (w, handle) := w.acquireIndex resolved.entries
  let w := w.putScope key (scope.setClasspath handle resolved.runtimeVersion)
  (w.releaseHandle scope).publish key (.classpathResolved project fromCache)

variable [Resolver ρ]

/-- Resolves the classpath of a project and installs it; answers whether it was stored already. -/
def resolveClasspath (w : Workspace κ ρ) (project : Path) :
    Workspace κ ρ × Except ResolveError Bool :=
  let project := w.disk.normalize project
  let key := w.keyOf project
  match w.scopes[key]? with
  | none => (w, .error ⟨project, "unknown project"⟩)
  | some scope =>
    match w.storedClasspath? project with
    | some resolved => (w.installClasspath key project scope resolved true, .ok true)
    | none =>
      let (resolver, answer) := Resolver.resolve w.resolver w.disk project
      let w := { w with resolver }
      match answer with
      | .error e => (w, .error e)
      | .ok resolved =>
        let w := w.storeClasspath project resolved
        (w.installClasspath key project scope resolved false, .ok false)

/-- The warning about a classpath that could not be resolved. -/
def unresolvedWarning (project : Path) (e : ResolveError) : LogEvent :=
  warning "failed to resolve classpath" [("project", project.text), ("error", e.message)]

/-- Resolves the classpath of a project; a failure is only logged. Answers whether it succeeded. -/
def resolveLogged (w : Workspace κ ρ) (project : Path) : Workspace κ ρ × Bool :=
  match w.resolveClasspath project with
  | (w, .ok _) => (w, true)
  | (w, .error e) => (w.note [unresolvedWarning project e], false)

/-- Resolves the classpaths of some projects and counts those resolved. -/
def resolveEach (w : Workspace κ ρ) : List Path → Workspace κ ρ × Nat
  | [] => (w, 0)
  | project :: rest =>
    let (w, resolved) := w.resolveLogged project
    let (w, count) := resolveEach w rest
    (w, if resolved then count + 1 else count)

/-- Resolves the classpaths of all projects and counts those resolved. -/
def resolveAll (w : Workspace κ ρ) : Workspace κ ρ × Nat := w.resolveEach w.projects

end Workbench.Workspace
