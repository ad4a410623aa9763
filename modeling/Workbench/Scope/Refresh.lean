import Workbench.Scope.Full

/-!
Bringing a scope up to date. If nothing changed, nothing is compiled. If little changed in a scope
that was compiled, an incremental compile is tried. Otherwise, or if that does not count, all
sources are compiled.
-/

namespace Workbench

namespace Scope

variable {κ : Type} [Compiler κ]

/-- The marked files that the scope owns, in order. -/
def marked (s : Scope) (t : Tracker) : List FileId :=
  (t.changedUnder s.root).filter fun file => (t.path? file).any s.territory.owns

/-- The marked files of the scope that are sources. -/
def pending (s : Scope) (c : CompileConfig) (t : Tracker) : List FileId :=
  (s.marked t).filter fun file => (t.path? file).any c.isSourceFile

/-- The marked files of the scope that are none. -/
def ignored (s : Scope) (c : CompileConfig) (t : Tracker) : List FileId :=
  (s.marked t).filter fun file => !(t.path? file).any c.isSourceFile

/-- The file that a compile is for: the one asked for if it is a source of the scope, else the one
of the compile before. -/
def contextFor (s : Scope) (c : CompileConfig) (t : Tracker) (asked : Option FileId) :
    Option FileId :=
  asked.filter (s.ownsSourceFile c t) <|> s.previousContext

/-- Compiles all sources; if the compiler fails, the changed files are marked again. -/
def compileAll (s : Scope) (c : CompileConfig) (d : Disk) (b : Bench κ) (changed : List FileId)
    (context : Option FileId) (reason : FullCompileReason) : Bench κ × Scope × CompileReport :=
  match s.fullCompile c d b changed context reason with
  | (b, s, some report) => (b, s, report)
  | (b, s, none) => (b.markAll changed, s, ⟨.failed, []⟩)

/-- Compiles what changed, incrementally if that is possible. -/
def compileChanged (s : Scope) (c : CompileConfig) (d : Disk) (b : Bench κ) (changed : List FileId)
    (context : Option FileId) : Bench κ × Scope × CompileReport :=
  match s.blocker? c changed with
  | some reason => s.compileAll c d b changed context reason
  | none =>
    match s.tryIncremental c d b changed context with
    | (b, s, .ok report) => (b, s, report)
    | (b, s, .error reason) => s.compileAll c d b changed context reason

/-- Brings the scope up to date with the files marked as changed, whose marks are cleared. The file
`asked` for is compiled along with them. -/
def refresh (s : Scope) (c : CompileConfig) (d : Disk) (b : Bench κ) (asked : Option FileId) :
    Bench κ × Scope × CompileReport :=
  let context := s.contextFor c b.tracker asked
  let changed := s.pending c b.tracker
  let b := b.clearMarks (s.ignored c b.tracker)
  if s.compiled && !s.environmentStale && changed.isEmpty then
    (b, { s with previousContext := context }, ⟨.upToDate, []⟩)
  else s.compileChanged c d (b.clearMarks changed) changed context

end Scope

end Workbench
