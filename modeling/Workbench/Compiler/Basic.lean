import Workbench.Classpath.Index
import Workbench.Diagnostic
import Workbench.Syntax.Index

/-!
The seam to a compiler. The workspace parses nothing itself: it hands sources and an environment to
a compiler and takes the trees and diagnostics that come back.
-/

namespace Workbench

/-- One source file with its text. -/
structure SourceFile where
  file : FileId
  path : Path
  text : String
  deriving DecidableEq, Repr

/-- The sources of one compile, by file. -/
abbrev SourceSet := Std.ExtTreeMap FileId SourceFile

/-- The set of some sources; a later one replaces an earlier one of the same file. -/
def SourceSet.ofList (sources : List SourceFile) : SourceSet :=
  sources.foldl (fun set source => set.insert source.file source) ∅

/-- What a compile resolves names against besides its sources. -/
structure CompileEnvironment where
  classpath : ClasspathIndex := {}
  /-- Classes of the project that are declared outside the sources. -/
  projectClasses : Std.ExtTreeSet String := ∅
  runtimeVersion : Option String := none

/-- Whether a binary or simple name resolves outside the sources. -/
def CompileEnvironment.knowsClass (env : CompileEnvironment) (name : String) : Bool :=
  env.projectClasses.contains name || env.classpath.contains name ||
    env.classpath.containsSimpleName name

/-- Diagnostics by file. -/
abbrev DiagnosticMap := Std.ExtTreeMap FileId (List Diagnostic)

/-- The result of a compile. -/
structure CompileOutput where
  trees : Std.ExtTreeMap FileId FileSyntax := ∅
  diagnostics : DiagnosticMap := ∅

/-- Why a compile has no result. -/
inductive CompileError where
  /-- The sources are broken; these are diagnostics, not a failure. -/
  | source (errors : DiagnosticMap)
  /-- The compiler itself failed. -/
  | crashed (message : String)

def CompileError.message : CompileError → String
  | source errors =>
    "compilation failed with source errors in " ++ toString errors.size ++ " file(s)"
  | crashed message => "internal compiler failure: " ++ message

/-- A compiler, as a state that every compile moves on. -/
class Compiler (κ : Type) where
  compile : κ → SourceSet → CompileEnvironment → κ × Except CompileError CompileOutput

end Workbench
