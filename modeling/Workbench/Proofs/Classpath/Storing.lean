import Workbench.Classpath.Cache
import Workbench.Proofs.Classpath.Codec
import Workbench.Proofs.Disk.Ancestors
import Workbench.Proofs.Disk.Replacement
import Workbench.Proofs.Disk.Seat

/-!
Storing classpaths. An operation on the record of a workspace first takes the lock; on the disk as
it then is, the record has its seat. There a record is put whole or not at all, and the record that
is found next is the one that was put.
-/

namespace Workbench

namespace Fingerprint

theorem not_mem_take (text : String) (count : Nat) :
    '/' ∉ ((ofText text).take count).toList := by
  have hdigit : ∀ n < 16, Json.hexDigit n ≠ '/' := by decide
  intro hmem
  rw [take, String.toList_ofList] at hmem
  have hmem := List.mem_of_mem_take hmem
  rw [ofText, ofBytes, hex, String.toList_ofList] at hmem
  obtain ⟨byte, -, hbyte⟩ := List.mem_flatMap.mp hmem
  have hlt := byte.toNat_lt
  simp only [List.mem_cons, List.not_mem_nil, or_false] at hbyte
  rcases hbyte with heq | heq
  · exact hdigit _ (by omega) heq.symm
  · exact hdigit _ (by omega) heq.symm

end Fingerprint

theorem Content.bytes_ofText (text : String) : (ofText text).bytes = Text.encode text := rfl

namespace ClasspathCache

variable {c : ClasspathCache} {d d' : Disk} {ws : Path} {place : Place} {name : String}

/-! ### Records and their seats -/

/-- The name of the record of a workspace. -/
def recordName (d : Disk) (ws : Path) : String :=
  "classpath-" ++ (Fingerprint.ofText (d.normalize ws).text).take fingerprintDigits ++ ".json"

theorem isName_recordName (d : Disk) (ws : Path) : Path.IsName (recordName d ws) := by
  rw [recordName]
  refine Path.isName_of_length ?_ ?_
  · rw [String.toList_append, String.toList_append, List.length_append, List.length_append]
    have hprefix : "classpath-".toList.length = 10 := rfl
    omega
  · rw [String.toList_append, String.toList_append, List.mem_append, List.mem_append]
    exact not_or.mpr ⟨not_or.mpr ⟨by decide, Fingerprint.not_mem_take _ _⟩, by decide⟩

/-- The record of a workspace is a name in the cache directory. -/
theorem exists_recordPath (c : ClasspathCache) (d : Disk) (ws : Path) :
    ∃ name, Path.IsName name ∧ c.recordPath d ws = c.dir.child name :=
  ⟨recordName d ws, isName_recordName d ws, rfl⟩

/-- All records have a name that begins in the same way. -/
theorem ne_recordName {other : String} (h : other.toList.head? ≠ some 'c') (d : Disk) (ws : Path) :
    other ≠ recordName d ws := by
  rintro rfl
  exact h (by rw [recordName, String.toList_append, String.toList_append]; rfl)

theorem recordPath_congr (h : d'.normalize ws = d.normalize ws) :
    c.recordPath d' ws = c.recordPath d ws := by
  rw [recordPath, recordPath, h]

theorem lockPath_congr (h : d'.normalize ws = d.normalize ws) :
    c.lockPath d' ws = c.lockPath d ws := by
  rw [lockPath, lockPath, recordPath_congr h]

theorem lockPath_eq (hname : Path.IsName name) (h : c.recordPath d ws = c.dir.child name) :
    c.lockPath d ws = c.dir.child (Disk.lockName name) := by
  have hlock : '/' ∉ ".lock".toList := by decide
  rw [lockPath, h, Disk.lockName, Path.child_append hname.2 hlock]

theorem locked_eq_ok {operation : Disk → Disk × Option CacheError} :
    c.locked d ws operation = (d', none) ↔
      ∃ h, d.lock (c.lockPath d ws) = (h, none) ∧ operation h = (d', none) := by
  unfold locked
  generalize d.lock (c.lockPath d ws) = taken
  obtain ⟨locked, refused⟩ := taken
  cases refused <;> simp

theorem locked_of_lock {operation : Disk → Disk × Option CacheError}
    (h : d.lock (c.lockPath d ws) = (d', none)) : c.locked d ws operation = operation d' := by
  unfold locked
  rw [h]

/-- The lock of a workspace's record has been taken, and the record is a file or missing. -/
structure Seated (c : ClasspathCache) (d : Disk) (ws : Path) (place : Place) (name : String) :
    Prop where
  isName : Path.IsName name
  recordPath : c.recordPath d ws = c.dir.child name
  seat : d.Seat c.dir name place
  takesFile : d.TakesFile (place ++ [name])

namespace Seated

variable (h : c.Seated d ws place name)

include h

theorem lock_eq : d.lock (c.lockPath d ws) = (d, none) := by
  rw [lockPath_eq h.isName h.recordPath]
  exact h.seat.lock_eq h.isName

/-- A seated record is read from the file in its place. -/
theorem load?_eq : c.load? d ws = match d.node? (place ++ [name]) with
    | some (.file content _) => ClasspathRecord.parse? content.bytes
    | _ => none := by
  rw [load?, Disk.bytes?, Disk.file?, h.recordPath]
  cases hnode : d.node? (place ++ [name]) with
  | none =>
      simp only [Disk.stat_of_entry_free h.seat.entry hnode]
      rfl
  | some node =>
      obtain ⟨content, modified, rfl⟩ := h.takesFile node hnode
      simp only [Disk.stat_of_entry h.seat.entry hnode (Node.not_isLink_file content modified)]
      rfl

variable {content : Content}

theorem of_frame (hframe : d.Frame d') (hrecord : c.recordPath d' ws = c.recordPath d ws)
    (hlock : d'.HasFile (c.lockPath d ws)) (hfile : d'.TakesFile (place ++ [name])) :
    c.Seated d' ws place name := by
  rw [lockPath_eq h.isName h.recordPath] at hlock
  exact ⟨h.isName, hrecord.trans h.recordPath,
    ⟨hframe.entry h.seat.entry, hlock, h.seat.reachable⟩, hfile⟩

theorem hasFile_lockPath : d.HasFile (c.lockPath d ws) := by
  rw [lockPath_eq h.isName h.recordPath]
  exact h.seat.lockFile

theorem put (hrecord : c.recordPath (d.put (place ++ [name]) (.file content Disk.writeTime)) ws =
      c.recordPath d ws) :
    c.Seated (d.put (place ++ [name]) (.file content Disk.writeTime)) ws place name :=
  h.of_frame (h.takesFile.frame_put _ _) hrecord
    (h.takesFile.hasFile_put _ _ h.hasFile_lockPath) (h.takesFile.put _ _)

/-- A record that was put in its place is the one that is found. -/
theorem load?_put {record : ClasspathRecord}
    (hversion : record.version = ClasspathRecord.currentVersion)
    (hrecord : c.recordPath (d.put (place ++ [name])
      (.file (.ofText record.render) Disk.writeTime)) ws = c.recordPath d ws) :
    c.load? (d.put (place ++ [name]) (.file (.ofText record.render) Disk.writeTime)) ws =
      some record := by
  rw [(h.put hrecord).load?_eq, Disk.node?_put (by simp), if_pos rfl]
  dsimp only
  rw [Content.bytes_ofText, ClasspathRecord.parse?_render hversion]

/-- A record is written in its place, or nothing is. -/
theorem writeRecord_eq (record : ClasspathRecord) :
    (∃ e, c.writeRecord d ws record = (d, some e)) ∨
      c.writeRecord d ws record =
        (d.put (place ++ [name]) (.file (.ofText record.render) Disk.writeTime), none) := by
  rw [writeRecord, h.recordPath]
  exact (h.seat.atomicWrite_eq h.isName _).imp_right And.left

end Seated

/-- What is written can be found again. The root has the same record before the lock is taken, when
the record is written and afterwards, and the record's path does not go through a link that it
replaces. If it replaces one, the lock file stays, and so do the normal path of a project and its
build files. -/
structure Findable (c : ClasspathCache) (d : Disk) (ws project : Path) (d' : Disk) : Prop where
  held : c.recordPath (d.lock (c.lockPath d ws)).1 ws = c.recordPath d ws
  after : c.recordPath d' ws = c.recordPath d ws
  way : ¬ (d.lock (c.lockPath d ws)).1.GoesThroughEntry (c.recordPath d ws)
  replaced : ∀ target, (d.lock (c.lockPath d ws)).1.lstat? (c.recordPath d ws) =
      some (.link target) →
    d'.HasFile (c.lockPath d ws) ∧
      (d.lock (c.lockPath d ws)).1.normalize project = project ∧
      ∀ file ∈ c.buildFileNames, d'.file? (project.child file) =
        (d.lock (c.lockPath d ws)).1.file? (project.child file)

/-- A record that is written while its lock is held is put in its place. -/
theorem exists_seat_of_writeRecord {locked : Disk} {record : ClasspathRecord}
    (hlock : d.lock (c.lockPath d ws) = (locked, none))
    (hheld : c.recordPath locked ws = c.recordPath d ws)
    (hwritten : c.writeRecord locked ws record = (d', none)) :
    ∃ place name, Path.IsName name ∧ c.recordPath d ws = c.dir.child name ∧
      locked.Seat c.dir name place ∧ locked.node? (place ++ [name]) ≠ some .dir ∧
      d' = locked.put (place ++ [name]) (.file (.ofText record.render) Disk.writeTime) := by
  obtain ⟨name, hname, hrecord⟩ := c.exists_recordPath d ws
  rw [lockPath_eq hname hrecord] at hlock
  obtain ⟨place, hseat⟩ := Disk.exists_seat hname hlock
  rw [writeRecord, hheld, hrecord] at hwritten
  rcases hseat.atomicWrite_eq hname (.ofText record.render) with ⟨e, heq⟩ | ⟨heq, hdir⟩
  · cases heq.symm.trans hwritten
  · cases heq.symm.trans hwritten
    exact ⟨place, name, hname, hrecord, hseat, hdir, rfl⟩

/-! ### What is stored -/

theorem projectStamps_congr {project : Path} {names : List String}
    (h : ∀ file ∈ names, d'.file? (project.child file) = d.file? (project.child file)) :
    d'.projectStamps project names = d.projectStamps project names := by
  rw [Disk.projectStamps, Disk.projectStamps]
  generalize (∅ : StampMap) = start
  induction names generalizing start with
  | nil => rw [List.foldl_nil, List.foldl_nil]
  | cons file rest ih =>
      have hstamp : d'.stamp? (project.child file) = d.stamp? (project.child file) := by
        rw [Disk.stamp?, Disk.stamp?, h file List.mem_cons_self]
      simp only [List.foldl_cons, hstamp]
      exact ih (fun other hother => h other (List.mem_cons_of_mem _ hother)) _

/-- A call that stores the classpath of one project, and the discovered projects if they are
given. -/
structure Merge where
  project : Path
  resolved : ResolvedClasspath
  discovered : Option (List Path)

def runMerge (c : ClasspathCache) (d : Disk) (ws : Path) (m : Merge) : Disk × Option CacheError :=
  c.mergeProject d ws m.project m.resolved m.discovered

/-- The record after a call, from the record before it. -/
def merged (c : ClasspathCache) (d : Disk) (previous : Option ClasspathRecord) (m : Merge) :
    ClasspathRecord :=
  let record := c.addProject d (previous.getD .empty) m.project m.resolved
  match m.discovered with
  | some projects => { record with discovered := normalizeAll d projects }
  | none => record

theorem mergeProject_eq_locked (m : Merge) : c.runMerge d ws m = c.locked d ws fun d =>
    c.writeRecord d ws (c.merged d (c.load? d ws) m) := by
  rw [runMerge, mergeProject]
  congr 1

/-- A call leaves everything that is not named like a record. -/
theorem node?_runMerge {last : String} {node : Node} (hlast : last.toList.head? ≠ some 'c')
    (hnode : d.node? (place ++ [last]) = some node) (m : Merge) :
    (c.runMerge d ws m).1.node? (place ++ [last]) = some node := by
  have hheld := (d.extends_lock (c.lockPath d ws)).node _ _ hnode
  rw [mergeProject_eq_locked]
  unfold locked
  generalize d.lock (c.lockPath d ws) = taken at hheld ⊢
  obtain ⟨held, refused⟩ := taken
  cases refused with
  | some e => exact hheld
  | none =>
      exact Disk.node?_atomicWrite (isName_recordName held ws) (ne_recordName hlast held ws) hheld _

/-! ### Calls at a known path -/

theorem eq_mk_of_done {outcome : Disk × Option CacheError} (h : outcome.2 = none) :
    outcome = (outcome.1, none) :=
  Prod.ext rfl h

/-- An operation that runs while the lock of a record is held. -/
def lockedAt (d : Disk) (record : Path) (operation : Disk → Disk × Option CacheError) :
    Disk × Option CacheError :=
  match d.lock ⟨record.text ++ ".lock"⟩ with
  | (d, some e) => (d, some e)
  | (d, none) => operation d

/-- An operation depends on the root of the workspace by the path of the record only. -/
theorem locked_eq_lockedAt {record : Path} {operation operation' : Disk → Disk × Option CacheError}
    (hroot : d.isDir ws.normal) (hpath : c.recordPath d ws = record)
    (hsame : ∀ held, c.recordPath held ws = record → operation held = operation' held) :
    c.locked d ws operation = lockedAt d record operation' := by
  have hlock : c.lockPath d ws = ⟨record.text ++ ".lock"⟩ := by rw [lockPath, hpath]
  have hextends := d.extends_lock (c.lockPath d ws)
  unfold locked lockedAt
  rw [hlock] at hextends ⊢
  generalize d.lock ⟨record.text ++ ".lock"⟩ = taken at hextends ⊢
  obtain ⟨held, refused⟩ := taken
  cases refused with
  | some e => rfl
  | none => exact hsame held ((recordPath_congr (hextends.frame.normalize hroot)).trans hpath)

def saveAt (c : ClasspathCache) (d : Disk) (record : Path)
    (classpaths : List (Path × ResolvedClasspath)) (discovered : List Path) :
    Disk × Option CacheError :=
  lockedAt d record fun held =>
    held.atomicWrite record (.ofText (c.recordOf d classpaths discovered).render)

def mergeAt (c : ClasspathCache) (d : Disk) (record : Path) (m : Merge) :
    Disk × Option CacheError :=
  lockedAt d record fun held => held.atomicWrite record
    (.ofText (c.merged held ((held.bytes? record).bind ClasspathRecord.parse?) m).render)

def invalidateAt (d : Disk) (record : Path) : Disk × Option CacheError :=
  lockedAt d record fun held =>
    match held.removeFile record with
    | .ok held => (held, none)
    | .error .notFound => (held, none)
    | .error e => (held, some (.disk e))

section

variable {record : Path} (hroot : d.isDir ws.normal) (hpath : c.recordPath d ws = record)

include hroot hpath

theorem save_eq_saveAt (classpaths : List (Path × ResolvedClasspath)) (discovered : List Path) :
    c.save d ws classpaths discovered = c.saveAt d record classpaths discovered := by
  rw [save, saveAt]
  refine locked_eq_lockedAt hroot hpath fun held hheld => ?_
  rw [writeRecord, hheld]

theorem runMerge_eq_mergeAt (m : Merge) : c.runMerge d ws m = c.mergeAt d record m := by
  rw [mergeProject_eq_locked, mergeAt]
  refine locked_eq_lockedAt hroot hpath fun held hheld => ?_
  simp only [writeRecord, load?, hheld]

theorem invalidate_eq_invalidateAt : c.invalidate d ws = invalidateAt d record := by
  rw [invalidate, invalidateAt]
  refine locked_eq_lockedAt hroot hpath fun held hheld => ?_
  cases hremoved : held.removeFile record with
  | ok rest => simp only [hheld, hremoved]
  | error e => cases e <;> simp only [hheld, hremoved]

end

section Merged

variable (c d) (previous : Option ClasspathRecord) (m : Merge)

theorem projects_merged : (c.merged d previous m).projects =
    ((previous.getD .empty).projects.insert (d.normalize m.project).text
      (c.projectRecord d (d.normalize m.project) m.resolved)) := by
  rw [merged]
  cases m.discovered <;> rfl

theorem discovered_merged : (c.merged d previous m).discovered =
    (m.discovered.map (normalizeAll d)).getD (previous.getD .empty).discovered := by
  rw [merged]
  cases m.discovered <;> rfl

theorem version_merged : (c.merged d previous m).version = (previous.getD .empty).version := by
  rw [merged]
  cases m.discovered <;> rfl

end Merged

theorem version_of_load? {record : ClasspathRecord} (h : c.load? d ws = some record) :
    record.version = ClasspathRecord.currentVersion := by
  obtain ⟨bytes, -, hparse⟩ := Option.bind_eq_some_iff.mp h
  exact ClasspathRecord.version_of_parse? hparse

end ClasspathCache

end Workbench
