import Workbench.Compiler.Bench

/-!
The compilation unit: the sources of a project that full compiles take, with the texts they had
when they were last read. A unit is built anew, or patched when only some of its files are stale.
-/

namespace Workbench

/-- The sources of a project. -/
structure CompilationUnit where
  sources : SourceSet := ∅

/-- How a unit was brought up to date. -/
inductive UnitUpdate where
  | rebuilt
  /-- The unit before was patched; these files came in and went out. -/
  | patched (added removed : Std.ExtTreeSet FileId)

namespace CompilationUnit

variable {κ : Type}

/-- The files of a unit, in order. -/
def files (u : CompilationUnit) : List FileId := u.sources.keys

def contains (u : CompilationUnit) (file : FileId) : Bool := u.sources.contains file

def size (u : CompilationUnit) : Nat := u.sources.size

def insert (u : CompilationUnit) (source : SourceFile) : CompilationUnit :=
  ⟨u.sources.insert source.file source⟩

def erase (u : CompilationUnit) (file : FileId) : CompilationUnit := ⟨u.sources.erase file⟩

def insertAll (u : CompilationUnit) (sources : List SourceFile) : CompilationUnit :=
  sources.foldl insert u

/-- A new unit of the admitted files that can be read. -/
def build (b : Bench κ) (d : Disk) (admitted : List (FileId × Path)) : Bench κ × CompilationUnit :=
  let (b, sources) := b.readSome d admitted
  (b, ⟨SourceSet.ofList sources⟩)

/-- A unit on its way from one state to the next. -/
structure Patch where
  unit : CompilationUnit
  added : Std.ExtTreeSet FileId := ∅
  removed : Std.ExtTreeSet FileId := ∅

/-- Takes away the files that are no longer admitted. -/
def Patch.start (u : CompilationUnit) (admitted : List (FileId × Path)) : Patch :=
  let gone := u.files.filter fun file => !(admitted.map Prod.fst).contains file
  { unit := gone.foldl erase u, removed := .ofList gone }

/-- Reads an admitted file, unless the unit has it and it is not stale. A file that cannot be read
is no longer in the unit. -/
def Patch.visit (b : Bench κ) (d : Disk) (stale : Std.ExtTreeSet FileId) (patch : Patch)
    (file : FileId) (p : Path) : Bench κ × Patch :=
  let known := patch.unit.contains file
  if known && !stale.contains file then (b, patch)
  else match b.read d file p with
    | (b, some source) =>
      (b, { patch with
        unit := patch.unit.insert source
        added := if known then patch.added else patch.added.insert file })
    | (b, none) =>
      (b, { patch with
        unit := patch.unit.erase file
        removed := if known then patch.removed.insert file else patch.removed })

def Patch.visitAll (b : Bench κ) (d : Disk) (stale : Std.ExtTreeSet FileId) (patch : Patch) :
    List (FileId × Path) → Bench κ × Patch
  | [] => (b, patch)
  | (file, p) :: rest =>
    let (b, patch) := patch.visit b d stale file p
    visitAll b d stale patch rest

/-- Brings a unit up to date: files that are no longer admitted go, stale ones are read again, and
those newly admitted come in. -/
def patch (u : CompilationUnit) (b : Bench κ) (d : Disk) (admitted : List (FileId × Path))
    (stale : Std.ExtTreeSet FileId) : Bench κ × Patch :=
  (Patch.start u admitted).visitAll b d stale admitted

end CompilationUnit

end Workbench
