import Workbench.Compiler.Basic
import Workbench.Log.Event
import Workbench.Tracker.Basic

/-!
What the scopes of a workspace share while they compile: the tracker, which knows the text of every
file, the compiler, and the log.
-/

namespace Workbench

/-- A tracker, a compiler and a log. -/
structure Bench (κ : Type) where
  tracker : Tracker
  compiler : κ
  /-- What was logged so far. -/
  log : List LogEvent := []

namespace Bench

variable {κ : Type}

def note (b : Bench κ) (events : List LogEvent) : Bench κ := { b with log := b.log ++ events }

def clearMarks (b : Bench κ) (files : List FileId) : Bench κ :=
  { b with tracker := b.tracker.clearMarks files }

def markAll (b : Bench κ) (files : List FileId) : Bench κ :=
  { b with tracker := files.foldl Tracker.mark b.tracker }

def registerAll (b : Bench κ) (d : Disk) : List Path → Bench κ × List (FileId × Path)
  | [] => (b, [])
  | p :: rest =>
    let (tracker, file) := b.tracker.register d p
    let (b, registered) := registerAll { b with tracker } d rest
    (b, (file, p) :: registered)

def read (b : Bench κ) (d : Disk) (file : FileId) (p : Path) : Bench κ × Option SourceFile :=
  let (tracker, text) := b.tracker.contentsOfId d file
  ({ b with tracker }, text.map fun text => ⟨file, p, text⟩)

def readSome (b : Bench κ) (d : Disk) : List (FileId × Path) → Bench κ × List SourceFile
  | [] => (b, [])
  | (file, p) :: rest =>
    let (b, source) := b.read d file p
    let (b, sources) := readSome b d rest
    (b, source.toList ++ sources)

/-- Reads files up to the first one that cannot be read. -/
def readAll (b : Bench κ) (d : Disk) : List FileId → Bench κ × Option (List SourceFile)
  | [] => (b, some [])
  | file :: rest =>
    match b.tracker.path? file with
    | none => (b, none)
    | some p =>
      match b.read d file p with
      | (b, none) => (b, none)
      | (b, some source) =>
        let (b, sources) := readAll b d rest
        (b, sources.map (source :: ·))

def compile [Compiler κ] (b : Bench κ) (sources : SourceSet) (env : CompileEnvironment) :
    Bench κ × Except CompileError CompileOutput :=
  let (compiler, result) := Compiler.compile b.compiler sources env
  ({ b with compiler }, result)

end Bench

end Workbench
