import Workbench.Compiler.Basic
import Workbench.Toy.Parser

/-!
The compiler of the toy language. A file with unmatched braces fails the whole compile; otherwise
every file gets its tree, and a warning for each class that resolves neither in the sources nor in
the environment. It counts its runs, remembers the files of the last one, and can be told to fail.
-/

namespace Workbench.Toy

/-- What the compiler remembers between runs. -/
structure CompilerState where
  runs : Nat := 0
  /-- The paths of the last run, in order. -/
  lastFiles : List Path := []
  /-- Fail once with this message. -/
  failNext : Option String := none
  /-- Fail with this message until told otherwise. -/
  failing : Option String := none

def unresolvedCode : String := "unresolved-class"

def unresolved (use : String × Range) : Diagnostic :=
  ⟨use.2, .warning, "unable to resolve class " ++ use.1, some unresolvedCode⟩

def firstUses : List (String × Range) → List (String × Range)
  | [] => []
  | use :: rest => use :: (firstUses rest).filter fun other => other.1 != use.1

def warnings (declared : Std.ExtTreeSet String) (env : CompileEnvironment) (p : Parsed) :
    List Diagnostic :=
  (firstUses (p.typeUses.filter fun (name, _) =>
    !declared.contains name && !env.knowsClass name)).map unresolved

/-- The syntax errors of some sources, by file. -/
def syntaxErrors (sources : SourceSet) : DiagnosticMap :=
  sources.filterMap fun _ source =>
    match parse source.text with
    | .ok _ => none
    | .error errors => some errors

def parsedFiles (sources : SourceSet) : Std.ExtTreeMap FileId Parsed :=
  sources.filterMap fun _ source => (parse source.text).toOption

/-- The names of all classes that some files declare. -/
def declaredNames (parsed : Std.ExtTreeMap FileId Parsed) : Std.ExtTreeSet String :=
  .ofList (parsed.toList.flatMap fun (_, p) => p.tree.classes.map ClassSignature.name)

/-- Compiles sources. The result depends on nothing that the compiler remembers. -/
def compileSources (sources : SourceSet) (env : CompileEnvironment) :
    Except CompileError CompileOutput :=
  let errors := syntaxErrors sources
  if errors.isEmpty then
    let parsed := parsedFiles sources
    let declared := declaredNames parsed
    .ok
      { trees := parsed.map fun _ p => p.tree
        diagnostics := parsed.filterMap fun _ p =>
          let found := warnings declared env p
          if found.isEmpty then none else some found }
  else .error (.source errors)

/-- One run. A failure asked for once is used up by it. -/
def run (s : CompilerState) (sources : SourceSet) (env : CompileEnvironment) :
    CompilerState × Except CompileError CompileOutput :=
  let after : CompilerState :=
    { s with
      runs := s.runs + 1
      lastFiles := Path.sort (sources.toList.map fun (_, source) => source.path)
      failNext := none }
  match s.failNext <|> s.failing with
  | some message => (after, .error (.crashed message))
  | none => (after, compileSources sources env)

instance : Compiler CompilerState := ⟨run⟩

end Workbench.Toy
