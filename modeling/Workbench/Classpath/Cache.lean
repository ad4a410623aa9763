import Workbench.Cache.Write
import Workbench.Classpath.Discovery
import Workbench.Classpath.Record
import Workbench.Digest.Fingerprint

/-!
The stored classpaths of workspaces: one record file for each workspace, named after its root. A
stored classpath is trusted while the build files of its project keep their stamps and a sample of
its entries is still on the disk.
-/

namespace Workbench

/-- A directory of record files, and how far stored classpaths are trusted. -/
structure ClasspathCache where
  dir : Path
  /-- How many entries of a stored classpath are looked for on the disk. -/
  sampleSize : Nat := 3
  buildFileNames : List String := defaultBuildFileNames
  /-- Which entries are looked for: any choice of so many of them. -/
  sample : Nat → List ClasspathEntry → List ClasspathEntry := fun size entries => entries.take size

namespace ClasspathCache

/-- Digits of a workspace's fingerprint in the name of its record. -/
def fingerprintDigits : Nat := 16

variable (c : ClasspathCache) (d : Disk)

def isBuildFile (p : Path) : Bool := p.fileName?.any c.buildFileNames.contains

def recordPath (workspace : Path) : Path :=
  let fingerprint := Fingerprint.ofText (d.normalize workspace).text
  c.dir.child ("classpath-" ++ fingerprint.take fingerprintDigits ++ ".json")

def lockPath (workspace : Path) : Path := ⟨(c.recordPath d workspace).text ++ ".lock"⟩

/-- The record of a workspace. A file that is missing or unusable is no record. -/
def load? (workspace : Path) : Option ClasspathRecord :=
  (d.bytes? (c.recordPath d workspace)).bind ClasspathRecord.parse?

/-- Whether a record holds a classpath for a project that can be trusted. -/
def isValid (record : ClasspathRecord) (project : Path) : Bool :=
  let project := d.normalize project
  match record.project? project with
  | none => false
  | some stored =>
    (d.projectStamps project c.buildFileNames).toList == stored.stamps.toList &&
      (c.sample c.sampleSize stored.classpath).all fun entry => entry.existsOn d

/-- The stored projects of a workspace, if every one of them has a classpath to be trusted. -/
def freshProjects? (workspace : Path) : Option (List Path) := do
  let record ← c.load? d workspace
  if record.discovered.isEmpty then none
  else if record.discovered.all (c.isValid d record) then some record.discovered
  else none

/-- The record of a project as it is now. -/
def projectRecord (project : Path) (resolved : ResolvedClasspath) : ProjectRecord :=
  ⟨d.projectStamps project c.buildFileNames, resolved.entries, resolved.runtimeVersion⟩

/-- Adds a project to a record, under its normal path. -/
def addProject (record : ClasspathRecord) (project : Path) (resolved : ResolvedClasspath) :
    ClasspathRecord :=
  let project := d.normalize project
  { record with
    projects := record.projects.insert project.text (c.projectRecord d project resolved) }

/-- Normal paths in order, each once. -/
def normalizeAll (paths : List Path) : List Path := Path.sortUnique (paths.map d.normalize)

/-- The record of given projects; of several with the same normal path the last in path order
counts. -/
def recordOf (classpaths : List (Path × ResolvedClasspath)) (discovered : List Path) :
    ClasspathRecord :=
  (sortBy (fun a b => Path.order a.1 b.1) classpaths).foldl
    (fun record (project, resolved) => c.addProject d record project resolved)
    { ClasspathRecord.empty with discovered := normalizeAll d discovered }

def writeRecord (workspace : Path) (record : ClasspathRecord) : Disk × Option CacheError :=
  d.atomicWrite (c.recordPath d workspace) (.ofText record.render)

/-- Runs an operation on a workspace's record while its lock is held. -/
def locked (workspace : Path) (operation : Disk → Disk × Option CacheError) :
    Disk × Option CacheError :=
  match d.lock (c.lockPath d workspace) with
  | (d, some e) => (d, some e)
  | (d, none) => operation d

def save (workspace : Path) (classpaths : List (Path × ResolvedClasspath))
    (discovered : List Path) : Disk × Option CacheError :=
  let record := c.recordOf d classpaths discovered
  c.locked d workspace fun d => c.writeRecord d workspace record

/-- Replaces the entry of one project and keeps those of the others; the discovered projects are
replaced if they are given. -/
def mergeProject (workspace project : Path) (resolved : ResolvedClasspath)
    (discovered : Option (List Path)) : Disk × Option CacheError :=
  c.locked d workspace fun d =>
    let record := (c.load? d workspace).getD .empty
    let record := c.addProject d record project resolved
    let record := match discovered with
      | some projects => { record with discovered := normalizeAll d projects }
      | none => record
    c.writeRecord d workspace record

/-- Removes the record of a workspace, if there is one. -/
def invalidate (workspace : Path) : Disk × Option CacheError :=
  c.locked d workspace fun d =>
    match d.removeFile (c.recordPath d workspace) with
    | .ok d => (d, none)
    | .error .notFound => (d, none)
    | .error e => (d, some (.disk e))

end ClasspathCache

end Workbench
