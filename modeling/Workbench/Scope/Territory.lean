import Workbench.Config.Basic
import Workbench.Path

/-!
What a project owns: the paths at or below its root, without those that belong to a project nested
in it.
-/

namespace Workbench

/-- The root of a project and the roots of the projects nested in it. -/
structure Territory where
  root : Path
  excluded : List Path := []
  deriving DecidableEq, Repr, Inhabited

namespace Territory

def isNested (t : Territory) (p : Path) : Bool := t.excluded.any fun nested => nested.isWithin p

def owns (t : Territory) (p : Path) : Bool := t.root.isWithin p && !t.isNested p

/-- Whether a path is a source file of the project. -/
def ownsSource (t : Territory) (c : CompileConfig) (p : Path) : Bool :=
  t.owns p && c.isSourceFile p

end Territory

end Workbench
