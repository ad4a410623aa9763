import Workbench.Compiler.Basic

/-!
What bringing a scope up to date reports: how the compile went, and the files whose diagnostics
changed.
-/

namespace Workbench

/-- Why a compile took all sources. -/
inductive FullCompileReason where
  | notCompiled
  | environmentChanged
  | tooManyChanges
  | noDependencyGraph
  | workingSetTooLarge
  | unreadableSource
  | signatureDrift
  | incrementalFailed
  /-- The last full compile stopped at broken sources, so that what the scope holds does not
  describe them; or an incremental one did. -/
  | sourceErrors
  deriving DecidableEq, Repr

/-- How bringing a scope up to date went. -/
inductive CompileOutcome where
  | upToDate
  | incremental (files : Nat)
  | full (files : Nat) (reason : FullCompileReason)
  /-- The compiler failed; the scope is as before and its changes stay pending. -/
  | failed
  deriving DecidableEq, Repr

/-- A file and its new diagnostics; none of them clears the file. -/
abbrev Publication := FileId × List Diagnostic

/-- An outcome and what it publishes. -/
structure CompileReport where
  outcome : CompileOutcome
  published : List Publication := []
  deriving DecidableEq, Repr

namespace CompileReport

def isIncremental (r : CompileReport) : Bool :=
  match r.outcome with
  | .incremental _ => true
  | _ => false

/-- Why the compile was full, if it was. -/
def fullReason? (r : CompileReport) : Option FullCompileReason :=
  match r.outcome with
  | .full _ reason => some reason
  | _ => none

end CompileReport

namespace DiagnosticMap

def ofFile (m : DiagnosticMap) (file : FileId) : List Diagnostic := m.getD file []

/-- Stores the diagnostics of a file; a file without any has no entry. -/
def set (m : DiagnosticMap) (file : FileId) (diagnostics : List Diagnostic) : DiagnosticMap :=
  if diagnostics.isEmpty then m.erase file else m.insert file diagnostics

/-- Replaces the stored diagnostics of some files by fresh ones, tidied, and lists those files
whose diagnostics changed. -/
def replace (stored fresh : DiagnosticMap) : List FileId → DiagnosticMap × List Publication
  | [] => (stored, [])
  | file :: rest =>
    let next := Diagnostic.tidy (fresh.ofFile file)
    if stored.ofFile file = next then replace stored fresh rest
    else
      let (stored, published) := replace (stored.set file next) fresh rest
      (stored, (file, next) :: published)

end DiagnosticMap

end Workbench
