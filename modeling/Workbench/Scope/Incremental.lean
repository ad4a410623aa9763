import Workbench.Scope.Basic

/-!
Incremental compiles. The changed files, the file asked for and what they depend on nearby are
compiled by themselves, against the classes of the rest of the project. The result counts only if
no class of these files changed its surface; otherwise it is thrown away, and the scope is as
before.
-/

namespace Workbench

/-- The surface of the classes in a compile's output. -/
def CompileOutput.surface (output : CompileOutput) : Surface :=
  Surface.ofClasses (output.trees.toList.flatMap fun (_, tree) => tree.classes)

def CompileOutput.restrict (output : CompileOutput) (files : List FileId) : CompileOutput :=
  { output with trees := output.trees.filter fun file _ => files.contains file }

/-- Takes the trees of a compile, in the order of their files. -/
def SyntaxIndex.insertAll (x : SyntaxIndex) (trees : List (FileId × FileSyntax)) : SyntaxIndex :=
  trees.foldl (fun x (file, tree) => x.insert file tree) x

def DependencyGraph.relink (g : DependencyGraph) (trees : SyntaxIndex) (files : List FileId) :
    DependencyGraph :=
  files.foldl (fun g file => g.update file (trees.dependenciesOf file).toList) g

namespace Scope

variable {κ : Type} [Compiler κ]

def blocker? (s : Scope) (c : CompileConfig) (changed : List FileId) : Option FullCompileReason :=
  if !s.compiled then some .notCompiled
  else if s.environmentStale then some .environmentChanged
  else if s.sourceErrors then some .sourceErrors
  else if c.maxIncrementalChanges < changed.length then some .tooManyChanges
  else if s.graph.isEmpty || s.trees.files.isEmpty || s.unit.isNone then some .noDependencyGraph
  else none

/-- The files of an incremental compile: those changed, the one asked for if it has a tree, and
what these depend on within the configured distance. -/
def workingSet (s : Scope) (c : CompileConfig) (changed : List FileId) (context : Option FileId) :
    Std.ExtTreeSet FileId :=
  let seeds := changed ++ (context.filter fun file => (s.trees.get? file).isSome).toList
  (s.graph.transitiveDependencies seeds c.forwardDepth).insertMany seeds

/-- The environment of an incremental compile, which knows the classes that the rest of the project
declares. -/
def outerEnvironment (s : Scope) (working : List FileId) : CompileEnvironment :=
  let here := s.trees.surfaceOf working
  { s.environment with
    projectClasses := .ofList (s.trees.classNames.filter fun name => !here.contains name) }

/-- The scope after an incremental compile that counts, and its report. -/
def accept (s : Scope) (working : List FileId) (sources : List SourceFile)
    (output : CompileOutput) (context : Option FileId) : Scope × CompileReport :=
  let trees := s.trees.insertAll output.trees.toList
  let (diagnostics, published) := s.diagnostics.replace output.diagnostics working
  ({ s with
      trees
      graph := s.graph.relink trees working
      unit := s.unit.map fun unit => unit.insertAll sources
      diagnostics
      previousContext := context
      lastError := none },
    ⟨.incremental working.length, published⟩)

/-- Tries an incremental compile. Whether it counts or is refused, the bench and the scope are left
in some state; what of them changed before a refusal stays changed. -/
def tryIncremental (s : Scope) (c : CompileConfig) (d : Disk) (b : Bench κ)
    (changed : List FileId) (context : Option FileId) :
    Bench κ × Scope × Except FullCompileReason CompileReport :=
  let working := (s.workingSet c changed context).toList
  if c.maxWorkingSet < working.length then (b, s, .error .workingSetTooLarge)
  else match b.readAll d working with
    | (b, none) => (b, s, .error .unreadableSource)
    | (b, some sources) =>
      match b.compile (.ofList sources) (s.outerEnvironment working) with
      | (b, .error (.source _)) => (b, s, .error .sourceErrors)
      | (b, .error (.crashed _)) => (b, s, .error .incrementalFailed)
      | (b, .ok output) =>
        let output := output.restrict working
        if ((s.trees.surfaceOf working).drift output.surface).isEmpty then
          let (s, report) := s.accept working sources output context
          (b, s, .ok report)
        else (b, s, .error .signatureDrift)

end Scope

end Workbench
