import Workbench.Proofs.Workspace.Run

/-!
All that can be asked of a workspace, one operation after another. Work that an operation leaves to
the background is done whenever a job gets on.
-/

namespace Workbench.Workspace

/-- One thing that is asked of a workspace or happens around it. -/
inductive Operation (κ ρ : Type) where
  | act (action : Action κ ρ)
  /-- Anything that is asked of the tracker. -/
  | track (action : Tracker.Action)
  | resolveClasspath (project : Path)
  | resolveAll
  | resolveAllInBackground
  | scheduleCompile (project : Path)
  | releaseClasspath (project : Path)
  | evict (project : Path)
  | withPlaceholder (p : Path) (position : Position) (token : String)
      (read : Bench κ → Scope → FileId → Bench κ × Unit)

variable {κ ρ : Type} [Compiler κ] [Resolver ρ]

def perform (w : Workspace κ ρ) : Operation κ ρ → Workspace κ ρ
  | .act action => w.step action
  | .track action => (w.track fun t d => (t.act d action, ())).1
  | .resolveClasspath project => (w.resolveClasspath project).1
  | .resolveAll => w.resolveAll.1
  | .resolveAllInBackground => w.resolveAllInBackground
  | .scheduleCompile project => w.scheduleCompile project
  | .releaseClasspath project => (w.releaseClasspath project).1
  | .evict project => (w.evict project).1
  | .withPlaceholder p position token read => (w.withPlaceholder p position token read).1

def performAll (w : Workspace κ ρ) (operations : List (Operation κ ρ)) : Workspace κ ρ :=
  operations.foldl perform w

end Workbench.Workspace
