import Workbench.Classpath.Entry

/-!
The seam to a build tool. Finding out the classpath of a project is slow, so a resolver is asked
only if no stored classpath can be trusted.
-/

namespace Workbench

/-- A classpath that could not be found out. -/
structure ResolveError where
  project : Path
  reason : String
  deriving DecidableEq, Repr

def ResolveError.message (e : ResolveError) : String :=
  "failed to resolve classpath for " ++ e.project.text ++ ": " ++ e.reason

/-- A resolver, as a state that every question moves on. -/
class Resolver (ρ : Type) where
  resolve : ρ → Disk → Path → ρ × Except ResolveError ResolvedClasspath

end Workbench
