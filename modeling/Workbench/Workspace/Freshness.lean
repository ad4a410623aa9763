import Workbench.Workspace.Basic

/-!
Bringing the scopes of a workspace up to date, and telling the subscribers what changed.
-/

namespace Workbench.Workspace

variable {κ ρ : Type} [Compiler κ]

/-- Tells the subscribers about the files of a report on a project. -/
def publishReport (w : Workspace κ ρ) (project : List Component) (report : CompileReport) :
    Workspace κ ρ :=
  report.published.foldl (fun w (file, diagnostics) =>
    match w.bench.tracker.path? file with
    | some p => w.publish project (.diagnosticsUpdated p diagnostics)
    | none => w) w

def refreshScope (w : Workspace κ ρ) (key : List Component) (scope : Scope)
    (asked : Option FileId) : Workspace κ ρ × CompileReport :=
  let (bench, scope, report) := scope.refresh w.config.compile w.disk w.bench asked
  ((({ w with bench } : Workspace κ ρ).putScope key scope).publishReport key report, report)

/-- Brings the project that owns a path up to date, for the file at that path. -/
def ensureFresh (w : Workspace κ ρ) (p : Path) : Workspace κ ρ × Option CompileReport :=
  match w.owner? p with
  | none => (w, none)
  | some (key, scope) =>
    let (w, file) := w.track fun t d => t.register d p
    let (w, report) := w.refreshScope key scope (some file)
    (w, some report)

def ensureProjectFresh (w : Workspace κ ρ) (project : Path) :
    Workspace κ ρ × Option CompileReport :=
  match w.scope? project with
  | none => (w, none)
  | some scope =>
    let (w, report) := w.refreshScope (w.keyOf project) scope none
    (w, some report)

/-- Reads the scope that owns a document as if a token stood in it. -/
def withPlaceholder {α : Type} (w : Workspace κ ρ) (p : Path) (position : Position)
    (token : String) (read : Bench κ → Scope → FileId → Bench κ × α) :
    Workspace κ ρ × Option α :=
  match w.owner? p with
  | none => (w, none)
  | some (key, scope) =>
    match scope.withPlaceholder w.config.compile w.disk w.bench p position token read with
    | none => (w, none)
    | some (bench, scope, report, answer) =>
      ((({ w with bench } : Workspace κ ρ).putScope key scope).publishReport key report, some answer)

end Workbench.Workspace
