import Workbench.Workspace.Basic

/-!
Finding the projects of a workspace. Stored projects are taken if all of them can be trusted;
otherwise the workspace is walked through. A workspace without a build file is one project.
-/

namespace Workbench.Workspace

variable {κ ρ : Type}

/-- The stored projects, if they can be trusted. -/
def storedProjects? (w : Workspace κ ρ) : Option (List Path) :=
  w.cache.bind fun cache => cache.freshProjects? w.disk w.root

/-- The projects on the disk. -/
def projectsOnDisk (w : Workspace κ ρ) : List Path :=
  w.disk.discoverProjects w.root w.config.classpath.buildFileNames

/-- The projects to be registered, in order. -/
def foundProjects (w : Workspace κ ρ) (trustStored : Bool) : List Path :=
  let stored := if trustStored then w.storedProjects? else none
  match stored.getD w.projectsOnDisk with
  | [] => [w.root]
  | found => Path.sortUnique found

def addScopes (w : Workspace κ ρ) (projects : List Path) : Workspace κ ρ :=
  { w with
    scopes := projects.foldl (fun scopes project =>
      scopes.insertIfNew project.components (Scope.ofRoot w.disk project)) w.scopes }

/-- Drops the scopes of all projects but the given ones. -/
def evictOthers (w : Workspace κ ρ) (projects : List Path) : Workspace κ ρ :=
  let gone := w.projects.filter fun root => !projects.any root.same
  gone.foldl (fun w root => (w.evict root).1) w

/-- The projects strictly inside another. -/
def nestedIn (projects : List Path) (root : Path) : List Path :=
  projects.filter fun other => !other.same root && root.isWithin other

/-- Tells every scope which projects are nested in its own. -/
def divide (w : Workspace κ ρ) (projects : List Path) : Workspace κ ρ :=
  { w with scopes := w.scopes.map fun _ scope => scope.setExcluded (nestedIn projects scope.root) }

/-- Registers the projects of the workspace, and drops the scopes of those that are gone. -/
def findProjects (w : Workspace κ ρ) (trustStored : Bool) : Workspace κ ρ × List Path :=
  let found := w.foundProjects trustStored
  (((w.addScopes found).evictOthers found).divide found, found)

/-- Finds the projects of the workspace; stored ones are taken if they can be trusted. -/
def discover (w : Workspace κ ρ) : Workspace κ ρ × List Path := w.findProjects true

end Workbench.Workspace
