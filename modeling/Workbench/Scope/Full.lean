import Workbench.Scope.Admission
import Workbench.Scope.Incremental

/-!
Full compiles: all admitted sources of the project at once. A unit that is still good is patched,
and then only the files downstream of a change are visited again; otherwise the unit is built anew
and every file is visited. Nothing of the scope changes before the compiler has answered.
-/

namespace Workbench

namespace Scope

variable {κ : Type} [Compiler κ]

/-- The files that a full compile reads and visits again: those changed, the one asked for, and all
that depend on the changed ones. -/
def affected (s : Scope) (changed : List FileId) (context : Option FileId) :
    Std.ExtTreeSet FileId :=
  (s.graph.transitiveDependents changed).insertMany (changed ++ context.toList)

def nextUnit (s : Scope) (d : Disk) (b : Bench κ) (admitted : List (FileId × Path))
    (stale : Std.ExtTreeSet FileId) : Bench κ × CompilationUnit × UnitUpdate :=
  match s.unit, s.environmentStale with
  | some unit, false =>
    let (b, patch) := unit.patch b d admitted stale
    (b, patch.unit, .patched patch.added patch.removed)
  | _, _ =>
    let (b, unit) := CompilationUnit.build b d admitted
    (b, unit, .rebuilt)

/-- The files whose trees are taken from a full compile, in order. -/
def revisited (unit : CompilationUnit) (affected : Std.ExtTreeSet FileId) :
    UnitUpdate → List FileId
  | .rebuilt => unit.files
  | .patched added _ => (affected.insertMany added.toList).toList.filter unit.contains

/-- The trees after a full compile. A visited file without a new tree keeps the one it had. -/
def nextTrees (s : Scope) (visited : List FileId) (output : CompileOutput) :
    UnitUpdate → SyntaxIndex
  | .rebuilt =>
    SyntaxIndex.insertAll {} (visited.filterMap fun file =>
      (output.trees[file]? <|> s.trees.get? file).map (Prod.mk file))
  | .patched _ removed =>
    (removed.toList.foldl SyntaxIndex.erase s.trees).insertAll (visited.filterMap fun file =>
      output.trees[file]?.map (Prod.mk file))

/-- The files with a tree that refers to a class which one of the given files declares. A class
that could not be resolved before it was declared has no edge yet. -/
def referringTo (trees : SyntaxIndex) (declaring : List FileId) : List FileId :=
  let names : Std.ExtTreeSet String :=
    .ofList ((declaring.flatMap trees.classesIn).map ClassSignature.name)
  let referring := trees.files.filter fun _ tree => tree.references.toList.any names.contains
  referring.keys

def nextGraph (s : Scope) (trees : SyntaxIndex) (visited : List FileId) :
    UnitUpdate → DependencyGraph
  | .rebuilt => DependencyGraph.relink {} trees visited
  | .patched _ removed =>
    (removed.toList.foldl DependencyGraph.removeFile s.graph).relink trees
      (Std.ExtTreeSet.ofList (visited ++ referringTo trees visited)).toList

/-- The files whose diagnostics a full compile replaces: those of the unit and those that have
some, in order. -/
def diagnosed (s : Scope) (unit : CompilationUnit) : List FileId :=
  (Std.ExtTreeSet.ofList (unit.files ++ s.diagnostics.keys)).toList

/-- The scope after a full compile, and its report. -/
def commit (s : Scope) (unit : CompilationUnit) (update : UnitUpdate)
    (affected : Std.ExtTreeSet FileId) (output : CompileOutput) (sourceErrors : Bool)
    (context : Option FileId) (reason : FullCompileReason) : Scope × CompileReport :=
  let visited := revisited unit affected update
  let trees := s.nextTrees visited output update
  let (diagnostics, published) := s.diagnostics.replace output.diagnostics (s.diagnosed unit)
  ({ s with
      unit := some unit
      trees
      graph := s.nextGraph trees visited update
      diagnostics
      compiled := true
      environmentStale := false
      sourceErrors
      previousContext := context
      lastError := none },
    ⟨.full unit.size reason, published⟩)

/-- The event of a compiler's failure. A failure with the message of the last one is not logged
again. -/
def failureEvents (s : Scope) (message : String) : List LogEvent :=
  if s.lastError = some message then []
  else [⟨.error, LogEvent.workspaceTarget, "compile failed; keeping previous results",
    [("root", s.root.text), ("error", message)]⟩]

/-- Compiles all sources of the project. Broken sources give diagnostics and no trees; if the
compiler fails there is no report. -/
def fullCompile (s : Scope) (c : CompileConfig) (d : Disk) (b : Bench κ) (changed : List FileId)
    (context : Option FileId) (reason : FullCompileReason) :
    Bench κ × Scope × Option CompileReport :=
  let affected := s.affected changed context
  let admitted := s.territory.admittedSources c d b.tracker.openPaths
  let b := b.note (s.territory.admissionWarnings c d)
  let (b, admitted) := b.registerAll d admitted
  let (b, unit, update) := s.nextUnit d b admitted affected
  match b.compile unit.sources s.environment with
  | (b, .ok output) =>
    let (s, report) := s.commit unit update affected output false context reason
    (b, s, some report)
  | (b, .error (.source errors)) =>
    let output : CompileOutput := { diagnostics := errors }
    let (s, report) := s.commit unit update affected output true context reason
    (b, s, some report)
  | (b, .error (.crashed message)) =>
    (b.note (s.failureEvents message), { s with lastError := some message }, none)

end Scope

end Workbench
