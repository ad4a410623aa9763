import Std.Data.ExtTreeMap
import Workbench.Classpath.Resolver

/-!
A resolver that answers from a script. Projects without a line of their own get the default
classpath, which is empty at first. It remembers the projects it was asked for.
-/

namespace Workbench.Toy

/-- A script, and the questions so far. -/
structure ResolverState where
  /-- The answers by the components of normal paths; a text is the reason of a failure. -/
  scripted : Std.ExtTreeMap (List Component) (Except String ResolvedClasspath) := ∅
  fallback : ResolvedClasspath := {}
  /-- The projects asked for, in order. -/
  calls : List Path := []

namespace ResolverState

def script (s : ResolverState) (d : Disk) (project : Path)
    (answer : Except String ResolvedClasspath) : ResolverState :=
  { s with scripted := s.scripted.insert (d.normalize project).components answer }

/-- Sets the classpath of projects without an answer of their own. -/
def setFallback (s : ResolverState) (resolved : ResolvedClasspath) : ResolverState :=
  { s with fallback := resolved }

def resolve (s : ResolverState) (d : Disk) (project : Path) :
    ResolverState × Except ResolveError ResolvedClasspath :=
  let project := d.normalize project
  ({ s with calls := s.calls ++ [project] },
    match s.scripted[project.components]? with
    | some (.ok resolved) => .ok resolved
    | some (.error reason) => .error ⟨project, reason⟩
    | none => .ok s.fallback)

end ResolverState

instance : Resolver ResolverState := ⟨ResolverState.resolve⟩

end Workbench.Toy
