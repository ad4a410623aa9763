import Std.Data.ExtTreeMap
import Std.Data.ExtTreeSet
import Workbench.Registry

/-!
Which file compiles against which. An edge leads from a file to one whose declarations it uses. The
graph keeps both directions, bears cycles, and keeps edges to files that are no longer compiled, so
that their dependents are found when they come back.
-/

namespace Workbench

/-- The neighbours of every file that has some. -/
abbrev Adjacency := Std.ExtTreeMap FileId (Std.ExtTreeSet FileId)

namespace Adjacency

/-- The neighbours of a file. -/
def neighbours (edges : Adjacency) (file : FileId) : Std.ExtTreeSet FileId :=
  edges.getD file ∅

def edgeCount (edges : Adjacency) : Nat :=
  edges.toList.foldr (fun (_, targets) count => targets.size + count) 0

/-- Sets the neighbours of a file; a file without any has no entry. -/
def set (edges : Adjacency) (file : FileId) (targets : Std.ExtTreeSet FileId) : Adjacency :=
  if targets.isEmpty then edges.erase file else edges.insert file targets

def link (edges : Adjacency) (source target : FileId) : Adjacency :=
  edges.set source ((edges.neighbours source).insert target)

def unlink (edges : Adjacency) (source target : FileId) : Adjacency :=
  edges.set source ((edges.neighbours source).erase target)

/-- The neighbours of some files that are not in `seen`, each once. -/
def newNeighbours (edges : Adjacency) (files : List FileId) (seen : Std.ExtTreeSet FileId) :
    Std.ExtTreeSet FileId :=
  .ofList ((files.flatMap fun file => (edges.neighbours file).toList).filter
    fun file => !seen.contains file)

/-- Adds to `seen` what is reached from `frontier` in at most `rounds` steps. -/
def spread (edges : Adjacency) :
    (rounds : Nat) → (frontier : List FileId) → (seen : Std.ExtTreeSet FileId) →
      Std.ExtTreeSet FileId
  | 0, _, seen => seen
  | rounds + 1, frontier, seen =>
    let fresh := (edges.newNeighbours frontier seen).toList
    if fresh.isEmpty then seen
    else spread edges rounds fresh (seen.insertMany fresh)

/-- The files outside `seeds` that are reached from them in at most `depth` steps. -/
def within (edges : Adjacency) (depth : Nat) (seeds : List FileId) : Std.ExtTreeSet FileId :=
  (edges.spread depth seeds ∅).filter fun file => !seeds.contains file

/-- The files outside `seeds` that are reached from them. Each round reaches a new end of an edge,
so there are at most as many rounds as edges. -/
def closure (edges : Adjacency) (seeds : List FileId) : Std.ExtTreeSet FileId :=
  edges.within edges.edgeCount seeds

end Adjacency

/-- Both directions of the dependencies between files. -/
structure DependencyGraph where
  /-- What a file depends on. -/
  forward : Adjacency := ∅
  /-- What depends on a file. -/
  reverse : Adjacency := ∅

namespace DependencyGraph

def dependencies (g : DependencyGraph) (file : FileId) : Std.ExtTreeSet FileId :=
  g.forward.neighbours file

def dependents (g : DependencyGraph) (file : FileId) : Std.ExtTreeSet FileId :=
  g.reverse.neighbours file

/-- Replaces what a file depends on. A file does not depend on itself. -/
def update (g : DependencyGraph) (file : FileId) (targets : List FileId) : DependencyGraph :=
  let targets : Std.ExtTreeSet FileId := .ofList (targets.filter (· != file))
  let dropped := (g.dependencies file).toList.filter fun old => !targets.contains old
  let reverse := dropped.foldl (fun edges old => edges.unlink old file) g.reverse
  { forward := g.forward.set file targets
    reverse := targets.toList.foldl (fun edges target => edges.link target file) reverse }

/-- Takes away what a file depends on. What depends on the file stays. -/
def removeFile (g : DependencyGraph) (file : FileId) : DependencyGraph := g.update file []

def isEmpty (g : DependencyGraph) : Bool := g.forward.isEmpty

def edgeCount (g : DependencyGraph) : Nat := g.forward.edgeCount

/-- Every file downstream of the given ones, without these. -/
def transitiveDependents (g : DependencyGraph) (seeds : List FileId) : Std.ExtTreeSet FileId :=
  g.reverse.closure seeds

/-- Every file that the given ones reach in at most `depth` steps, without these. -/
def transitiveDependencies (g : DependencyGraph) (seeds : List FileId) (depth : Nat) :
    Std.ExtTreeSet FileId :=
  g.forward.within depth seeds

end DependencyGraph

end Workbench
