import Mathlib.Data.List.Induction
import Workbench.Proofs.Classpath.Storing

/-!
The record of a workspace over time. Calls that store and drop classpaths, one after another, do
with the record on the disk what they say they do with a map from projects to classpaths, and the
record that is found is always the one that this map is.
-/

namespace Workbench

namespace ClasspathCache

variable {c : ClasspathCache} {d d' : Disk} {ws : Path} {place : Place} {name : String}
  {r r' : Option ClasspathRecord}

/-! ### What calls store -/

/-- The record of given projects has one entry for each normal path, from the last project in path
order that has it, and the discovered projects by their normal paths. -/
structure IsSaved (c : ClasspathCache) (d : Disk) (classpaths : List (Path × ResolvedClasspath))
    (discovered : List Path) (record : ClasspathRecord) : Prop where
  version : record.version = ClasspathRecord.currentVersion
  entry (key : String) : record.projects[key]? =
    ((sortBy (fun a b => Path.order a.1 b.1) classpaths).filter fun given =>
      (d.normalize given.1).text == key).getLast?.map fun given =>
        ⟨d.projectStamps (d.normalize given.1) c.buildFileNames, given.2.entries,
          given.2.runtimeVersion⟩
  discovered : record.discovered = Path.sortUnique (discovered.map d.normalize)

/-- A call for one project replaces its entry in the previous record or in the empty one, and the
discovered projects if they are given. -/
structure IsMerged (c : ClasspathCache) (d : Disk) (previous : Option ClasspathRecord) (m : Merge)
    (record : ClasspathRecord) : Prop where
  version : record.version = ClasspathRecord.currentVersion
  replaced : record.projects[(d.normalize m.project).text]? =
    some ⟨d.projectStamps (d.normalize m.project) c.buildFileNames, m.resolved.entries,
      m.resolved.runtimeVersion⟩
  kept (key : String) (h : key ≠ (d.normalize m.project).text) :
    record.projects[key]? = previous.bind fun record => record.projects[key]?
  discovered : record.discovered = match m.discovered with
    | some projects => Path.sortUnique (projects.map d.normalize)
    | none => (previous.map ClasspathRecord.discovered).getD []

theorem ext_record {a b : ClasspathRecord} (hversion : a.version = b.version)
    (hprojects : ∀ key : String, a.projects[key]? = b.projects[key]?)
    (hdiscovered : a.discovered = b.discovered) : a = b := by
  have hprojects : a.projects = b.projects := Std.ExtTreeMap.ext_getElem? fun key => hprojects key
  cases a
  cases b
  cases hversion
  cases hdiscovered
  cases hprojects
  rfl

/-- Of several projects with one normal path the last that is added counts. -/
theorem getElem?_foldl_addProject (c : ClasspathCache) (d : Disk)
    (given : List (Path × ResolvedClasspath)) (start : ClasspathRecord) (key : String) :
    (given.foldl (fun record (project, resolved) => c.addProject d record project resolved)
      start).projects[key]? =
      (((given.filter fun given => (d.normalize given.1).text == key).getLast?.map fun given =>
        c.projectRecord d (d.normalize given.1) given.2).or start.projects[key]?) := by
  induction given using List.reverseRecOn with
  | nil => rfl
  | append_singleton init last ih =>
      rw [List.foldl_append, List.filter_append, List.getLast?_append]
      generalize init.foldl (fun record (project, resolved) =>
        c.addProject d record project resolved) start = before at ih ⊢
      change (before.projects.insert (d.normalize last.1).text
        (c.projectRecord d (d.normalize last.1) last.2))[key]? = _
      rw [Std.ExtTreeMap.getElem?_insert, ih]
      by_cases hkey : (d.normalize last.1).text = key
      · simp [hkey]
      · simp [hkey]

theorem isSaved_recordOf (c : ClasspathCache) (d : Disk)
    (classpaths : List (Path × ResolvedClasspath)) (discovered : List Path) :
    c.IsSaved d classpaths discovered (c.recordOf d classpaths discovered) := by
  have hother (given : List (Path × ResolvedClasspath)) (start : ClasspathRecord) :
      (given.foldl (fun record (project, resolved) => c.addProject d record project resolved)
        start).version = start.version ∧
      (given.foldl (fun record (project, resolved) => c.addProject d record project resolved)
        start).discovered = start.discovered := by
    induction given generalizing start with
    | nil => exact ⟨rfl, rfl⟩
    | cons first rest ih => exact ih _
  refine ⟨(hother _ _).1, fun key => ?_, (hother _ _).2⟩
  rw [recordOf, getElem?_foldl_addProject]
  have hempty : (ClasspathRecord.empty.projects[key]? : Option ProjectRecord) = none :=
    Std.ExtTreeMap.getElem?_empty
  exact Option.or_eq_left_of_none hempty

theorem IsSaved.eq_recordOf {classpaths : List (Path × ResolvedClasspath)} {discovered : List Path}
    {record : ClasspathRecord} (h : c.IsSaved d classpaths discovered record) :
    record = c.recordOf d classpaths discovered := by
  have hrecord := c.isSaved_recordOf d classpaths discovered
  exact ext_record (h.version.trans hrecord.version.symm)
    (fun key => (h.entry key).trans (hrecord.entry key).symm)
    (h.discovered.trans hrecord.discovered.symm)

theorem isMerged_merged (c : ClasspathCache) (d : Disk) {previous : Option ClasspathRecord}
    (hprevious : ∀ record, previous = some record →
      record.version = ClasspathRecord.currentVersion) (m : Merge) :
    c.IsMerged d previous m (c.merged d previous m) := by
  refine ⟨?_, ?_, fun key hkey => ?_, ?_⟩
  · rw [version_merged]
    cases previous with
    | none => rfl
    | some record => exact hprevious record rfl
  · rw [projects_merged]
    exact Std.ExtTreeMap.getElem?_insert_self
  · rw [projects_merged, Std.ExtTreeMap.getElem?_insert,
      if_neg fun heq => hkey (Std.LawfulEqOrd.eq_of_compare heq).symm]
    cases previous with
    | none => exact Std.ExtTreeMap.getElem?_empty
    | some record => rfl
  · rw [discovered_merged]
    cases m.discovered with
    | none => cases previous <;> rfl
    | some projects => rfl

theorem IsMerged.eq_merged {previous : Option ClasspathRecord}
    (hprevious : ∀ record, previous = some record →
      record.version = ClasspathRecord.currentVersion) {m : Merge} {record : ClasspathRecord}
    (h : c.IsMerged d previous m record) : record = c.merged d previous m := by
  have hrecord := c.isMerged_merged d hprevious m
  refine ext_record (h.version.trans hrecord.version.symm) (fun key => ?_)
    (h.discovered.trans hrecord.discovered.symm)
  by_cases hkey : key = (d.normalize m.project).text
  · subst hkey
    exact h.replaced.trans hrecord.replaced.symm
  · exact (h.kept key hkey).trans (hrecord.kept key hkey).symm

/-! ### Histories -/

/-- A path leads to the same place on both disks, and to the same there. -/
def KeepsAt (d d' : Disk) (p : Path) : Prop := d'.look p = d.look p ∧ d'.stat p = d.stat p

/-- What calls make of a disk and of the record of a workspace, beginning with a disk that has the
root and no record. There is no record if none stands at its path, also when the directories on the
way have been made for the lock. Once the lock file is there, anything may change outside between
two calls that leaves directories, links, the record and its lock file; the build files of projects
in particular. -/
inductive History (c : ClasspathCache) (ws : Path) : Disk → Option ClasspathRecord → Prop where
  | start {d : Disk} (hroot : d.isDir ws.normal)
      (hnone : (d.lock (c.lockPath d ws)).1.lstat? (c.recordPath d ws) = none) :
      History c ws d none
  | save {d d' : Disk} {r : Option ClasspathRecord} {record : ClasspathRecord}
      {classpaths : List (Path × ResolvedClasspath)} {discovered : List Path}
      (h : History c ws d r) (hcall : c.save d ws classpaths discovered = (d', none))
      (hrecord : c.IsSaved d classpaths discovered record) : History c ws d' (some record)
  | merge {d d' : Disk} {r : Option ClasspathRecord} {record : ClasspathRecord} {m : Merge}
      (h : History c ws d r) (hcall : c.runMerge d ws m = (d', none))
      (hrecord : c.IsMerged (d.lock (c.lockPath d ws)).1 r m record) :
      History c ws d' (some record)
  | invalidate {d d' : Disk} {r : Option ClasspathRecord} (h : History c ws d r)
      (hcall : c.invalidate d ws = (d', none)) : History c ws d' none
  | meanwhile {d d' : Disk} {r : Option ClasspathRecord} (h : History c ws d r)
      (hlocked : d.lock (c.lockPath d ws) = (d, none)) (hframe : d.Frame d')
      (hrecord : KeepsAt d d' (c.recordPath d ws)) (hlock : KeepsAt d d' (c.lockPath d ws)) :
      History c ws d' r

/-- What holds once the lock has been taken: the record has its seat, apart from the lock file, and
is the one expected. -/
structure Holds (c : ClasspathCache) (d : Disk) (ws : Path) (place : Place) (name : String)
    (r : Option ClasspathRecord) : Prop where
  root : d.isDir ws.normal
  seated : c.Seated d ws place name
  apart : d.look (c.lockPath d ws) ≠ .ok (.found (place ++ [name]))
  loaded : c.load? d ws = r

/-- What holds before and after every call. -/
structure Tracks (c : ClasspathCache) (ws : Path) (d : Disk) (r : Option ClasspathRecord) :
    Prop where
  root : d.isDir ws.normal
  loaded : c.load? d ws = r
  locked (h : Disk) (hlock : d.lock (c.lockPath d ws) = (h, none)) :
    ∃ place name, c.Holds h ws place name r

namespace Holds

theorem tracks (h : c.Holds d ws place name r) : c.Tracks ws d r := by
  refine ⟨h.root, h.loaded, fun locked hlock => ?_⟩
  cases h.seated.lock_eq.symm.trans hlock
  exact ⟨place, name, h⟩

variable (h : c.Holds d ws place name r)

include h

theorem of_frame (hframe : d.Frame d')
    (hlock : d'.look (c.lockPath d ws) = d.look (c.lockPath d ws))
    (hhas : d'.HasFile (c.lockPath d ws)) (hfile : d'.TakesFile (place ++ [name]))
    (hloaded : c.load? d' ws = r') : c.Holds d' ws place name r' := by
  have hnormal := hframe.normalize h.root
  refine ⟨hframe.isDir h.root, h.seated.of_frame hframe (recordPath_congr hnormal) hhas hfile, ?_, hloaded⟩
  rw [lockPath_congr hnormal, hlock]
  exact h.apart

/-- The lock file stays if nothing is changed but the record. -/
theorem keeps_lock (hframe : d.Frame d')
    (hkept : ∀ other, place ++ [name] ≠ other → d'.node? other = d.node? other) :
    d'.look (c.lockPath d ws) = d.look (c.lockPath d ws) ∧ d'.HasFile (c.lockPath d ws) := by
  obtain ⟨found, node, hfound, hnode, content, modified, rfl⟩ := h.seated.hasFile_lockPath
  have hne : place ++ [name] ≠ found := fun heq => h.apart (heq ▸ hfound)
  have hnode' := (hkept found hne).trans hnode
  have hfound' := hframe.look hfound fun _ _ _ => ⟨_, hnode', Node.not_isLink_file _ _⟩
  exact ⟨hfound'.trans hfound.symm, found, _, hfound', hnode', content, modified, rfl⟩

theorem put {record : ClasspathRecord}
    (hversion : record.version = ClasspathRecord.currentVersion) :
    c.Holds (d.put (place ++ [name]) (.file (.ofText record.render) Disk.writeTime)) ws place name
      (some record) := by
  have hframe := h.seated.takesFile.frame_put (.ofText record.render) Disk.writeTime
  have hlock := h.keeps_lock hframe fun other hne => by rw [Disk.node?_put (by simp), if_neg hne]
  exact h.of_frame hframe hlock.1 hlock.2 (h.seated.takesFile.put _ _)
    (h.seated.load?_put hversion (recordPath_congr (hframe.normalize h.root)))

theorem drop : c.Holds (d.drop (place ++ [name])) ws place name none := by
  have hframe := h.seated.takesFile.frame_drop
  have hlock := h.keeps_lock hframe fun other hne => by rw [Disk.node?_drop (by simp), if_neg hne]
  have hnone : (d.drop (place ++ [name])).node? (place ++ [name]) = none :=
    Disk.node?_drop_self (by simp)
  have hfile := Disk.takesFile_of_free hnone
  have hseated := h.seated.of_frame hframe (recordPath_congr (hframe.normalize h.root)) hlock.2 hfile
  exact h.of_frame hframe hlock.1 hlock.2 hfile (by rw [hseated.load?_eq, hnone])

/-- Whatever else changes outside, the record is found as before. -/
theorem meanwhile (hframe : d.Frame d') (hrecord : KeepsAt d d' (c.recordPath d ws))
    (hlock : KeepsAt d d' (c.lockPath d ws)) : c.Holds d' ws place name r := by
  have hnormal := hframe.normalize h.root
  have hhas : d'.HasFile (c.lockPath d ws) := by
    obtain ⟨found, node, hfound, hnode, hfile⟩ := h.seated.hasFile_lockPath
    have hstat : d.stat (c.lockPath d ws) = .ok node := by simp only [Disk.stat, hfound, hnode]
    exact ⟨found, node, hlock.1.trans hfound,
      Disk.node?_of_stat (hlock.1.trans hfound) (hlock.2.trans hstat), hfile⟩
  have hfile : d'.TakesFile (place ++ [name]) := by
    rw [KeepsAt, h.seated.recordPath] at hrecord
    cases hnode : d.node? (place ++ [name]) with
    | none =>
        have hfree := hrecord.1.trans (Disk.look_of_entry_free h.seated.seat.entry hnode)
        intro node hsome
        cases (Disk.node?_of_look_vacant hfree).symm.trans hsome
    | some node =>
        have hisfile := h.seated.takesFile node hnode
        have hlink : ¬ node.IsLink := by
          obtain ⟨_, _, rfl⟩ := hisfile
          exact Node.not_isLink_file _ _
        have hfound := hrecord.1.trans (Disk.look_of_entry_node h.seated.seat.entry hnode hlink)
        have hstat := hrecord.2.trans (Disk.stat_of_entry h.seated.seat.entry hnode hlink)
        intro node' hsome
        cases (Disk.node?_of_stat hfound hstat).symm.trans hsome
        exact hisfile
  refine h.of_frame hframe hlock.1 hhas hfile ?_
  rw [← h.loaded, load?, load?, recordPath_congr hnormal, Disk.bytes?, Disk.bytes?, Disk.file?,
    Disk.file?, hrecord.2]

end Holds

/-! ### Calls -/

theorem tracks_start (hroot : d.isDir ws.normal)
    (hnone : (d.lock (c.lockPath d ws)).1.lstat? (c.recordPath d ws) = none) :
    c.Tracks ws d none := by
  have hextends := d.extends_lock (c.lockPath d ws)
  have hnormal := hextends.frame.normalize hroot
  obtain ⟨name, hname, hrecord⟩ := c.exists_recordPath d ws
  obtain ⟨init, hsteps⟩ := c.dir.exists_steps_child
  -- A record that is found before the lock is taken would still be there after it.
  have hfree {found : Place} :
      (d.lock (c.lockPath d ws)).1.look (c.recordPath d ws) ≠ .ok (.found found) := fun hlook =>
    Disk.lstat?_ne_none (hrecord ▸ hsteps name hname) hlook hnone
  refine ⟨hroot, ?_, fun locked hlock => ?_⟩
  · cases hloaded : c.load? d ws with
    | none => rfl
    | some record =>
        obtain ⟨bytes, hbytes, -⟩ := Option.bind_eq_some_iff.mp hloaded
        obtain ⟨⟨content, modified⟩, hfile, -⟩ := Option.map_eq_some_iff.mp hbytes
        obtain ⟨found, hlook, -⟩ := Disk.file?_eq_some.mp hfile
        exact absurd (hextends.look_found hlook) hfree
  · rw [hlock] at hnone hextends hnormal hfree
    have hlock' := lockPath_eq hname hrecord
    rw [hlock'] at hlock
    obtain ⟨place, hseat⟩ := Disk.exists_seat hname hlock
    have hnode : locked.node? (place ++ [name]) = none := by
      rw [← Disk.lstat?_of_entry hseat.entry, ← hrecord, hnone]
    have hseated : c.Seated locked ws place name :=
      ⟨hname, (recordPath_congr hnormal).trans hrecord, hseat,
        fun node hsome => by cases hnode.symm.trans hsome⟩
    refine ⟨place, name, hextends.frame.isDir hroot, hseated, fun hlook => ?_, ?_⟩
    · obtain ⟨found, node, hfound, hsome, -⟩ := hseated.hasFile_lockPath
      cases hlook.symm.trans hfound
      cases hnode.symm.trans hsome
    · rw [hseated.load?_eq, hnode]

theorem Tracks.version (h : c.Tracks ws d r) (record : ClasspathRecord) (hr : r = some record) :
    record.version = ClasspathRecord.currentVersion :=
  version_of_load? (h.loaded.trans hr)

theorem Tracks.write {record : ClasspathRecord} (h : c.Tracks ws d r)
    (hversion : record.version = ClasspathRecord.currentVersion)
    (hcall : c.locked d ws (fun d => c.writeRecord d ws record) = (d', none)) :
    c.Tracks ws d' (some record) := by
  obtain ⟨locked, hlock, hwritten⟩ := locked_eq_ok.mp hcall
  obtain ⟨place, name, hholds⟩ := h.locked locked hlock
  rcases hholds.seated.writeRecord_eq record with ⟨e, heq⟩ | heq
  · cases heq.symm.trans hwritten
  · cases heq.symm.trans hwritten
    exact (hholds.put hversion).tracks

/-- A call for one project puts its record in the place of the one before. -/
theorem Holds.merge (h : c.Holds d ws place name r) {m : Merge}
    (hcall : c.runMerge d ws m = (d', none)) :
    d' = d.put (place ++ [name]) (.file (.ofText (c.merged d r m).render) Disk.writeTime) ∧
      c.Holds d' ws place name (some (c.merged d r m)) := by
  rw [mergeProject_eq_locked] at hcall
  obtain ⟨locked, hlock, hwritten⟩ := locked_eq_ok.mp hcall
  cases h.seated.lock_eq.symm.trans hlock
  rw [h.loaded] at hwritten
  have hversion : (c.merged d r m).version = ClasspathRecord.currentVersion := by
    rw [version_merged]
    cases r with
    | none => rfl
    | some record => exact version_of_load? h.loaded
  rcases h.seated.writeRecord_eq (c.merged d r m) with ⟨e, heq⟩ | heq
  · cases heq.symm.trans hwritten
  · cases heq.symm.trans hwritten
    exact ⟨rfl, h.put hversion⟩

theorem Tracks.exists_holds (h : c.Tracks ws d r) {m : Merge}
    (hcall : c.runMerge d ws m = (d', none)) :
    ∃ locked place name, d.lock (c.lockPath d ws) = (locked, none) ∧
      c.Holds locked ws place name r ∧ c.runMerge locked ws m = (d', none) := by
  rw [mergeProject_eq_locked] at hcall
  obtain ⟨locked, hlock, hwritten⟩ := locked_eq_ok.mp hcall
  obtain ⟨place, name, hholds⟩ := h.locked locked hlock
  refine ⟨locked, place, name, hlock, hholds, ?_⟩
  rw [mergeProject_eq_locked]
  exact locked_eq_ok.mpr ⟨locked, hholds.seated.lock_eq, hwritten⟩

theorem Tracks.merge (h : c.Tracks ws d r) {m : Merge} (hcall : c.runMerge d ws m = (d', none)) :
    c.Tracks ws d' (some (c.merged (d.lock (c.lockPath d ws)).1 r m)) := by
  obtain ⟨locked, place, name, hlock, hholds, hrun⟩ := h.exists_holds hcall
  rw [hlock]
  exact (hholds.merge hrun).2.tracks

theorem Tracks.invalidate (h : c.Tracks ws d r) (hcall : c.invalidate d ws = (d', none)) :
    c.Tracks ws d' none := by
  obtain ⟨locked, hlock, hremoved⟩ := locked_eq_ok.mp hcall
  obtain ⟨place, name, hholds⟩ := h.locked locked hlock
  simp only [hholds.seated.recordPath, Disk.removeFile, hholds.seated.seat.entry] at hremoved
  cases hnode : locked.node? (place ++ [name]) with
  | none =>
      simp only [hnode] at hremoved
      cases hremoved
      have hloaded : none = r := by
        rw [← hholds.loaded, hholds.seated.load?_eq, hnode]
      exact hloaded ▸ hholds.tracks
  | some node =>
      obtain ⟨content, modified, rfl⟩ := hholds.seated.takesFile node hnode
      simp only [hnode] at hremoved
      cases hremoved
      exact hholds.drop.tracks

/-- The record that is found is the one that the calls have made. -/
theorem History.tracks (h : c.History ws d r) : c.Tracks ws d r := by
  induction h with
  | start hroot hnone => exact tracks_start hroot hnone
  | save _ hcall hrecord ih =>
      rw [hrecord.eq_recordOf]
      exact ih.write (hrecord.eq_recordOf ▸ hrecord.version) hcall
  | merge _ hcall hrecord ih =>
      rw [hrecord.eq_merged ih.version]
      exact ih.merge hcall
  | invalidate _ hcall ih => exact ih.invalidate hcall
  | meanwhile _ hlocked hframe hrecord hlock ih =>
      obtain ⟨place, name, hholds⟩ := ih.locked _ hlocked
      exact (hholds.meanwhile hframe hrecord hlock).tracks

/-! ### Calls in either order -/

namespace Merge

/-- The project and the discovered projects of a call are directories. -/
def OnDirectories (m : Merge) (d : Disk) : Prop :=
  d.isDir m.project.normal ∧ ∀ listed, m.discovered = some listed → ∀ p ∈ listed, d.isDir p.normal

/-- No build file of the project is the record itself. -/
def ApartFrom (m : Merge) (c : ClasspathCache) (d : Disk) (record : Path) : Prop :=
  ∀ file ∈ c.buildFileNames, d.look ((d.normalize m.project).child file) ≠ d.look record

variable {m m' : Merge}

theorem OnDirectories.frame (h : m.OnDirectories d) (hframe : d.Frame d') : m.OnDirectories d' :=
  ⟨hframe.isDir h.1, fun listed hlisted p hp => hframe.isDir (h.2 listed hlisted p hp)⟩

theorem merged_congr (hframe : d.Frame d') (hdir : m.OnDirectories d)
    (hstamps : ∀ file ∈ c.buildFileNames, d'.file? ((d.normalize m.project).child file) =
      d.file? ((d.normalize m.project).child file)) (previous : Option ClasspathRecord) :
    c.merged d' previous m = c.merged d previous m := by
  have hnormal := hframe.normalize hdir.1
  have hdiscovered : m.discovered.map (normalizeAll d') = m.discovered.map (normalizeAll d) := by
    refine Option.map_congr fun listed hlisted => congrArg Path.sortUnique ?_
    exact List.map_congr_left fun p hp => hframe.normalize (hdir.2 listed hlisted p hp)
  refine ext_record ?_ (fun key => ?_) ?_
  · rw [version_merged, version_merged]
  · rw [projects_merged, projects_merged, hnormal, projectRecord, projectRecord,
      projectStamps_congr hstamps]
  · rw [discovered_merged, discovered_merged, hdiscovered]

/-- On one disk it does not matter in which order two projects are stored, unless both calls give
discovered projects and not the same. -/
theorem merged_comm (hkeys : d.normalize m.project ≠ d.normalize m'.project)
    (hdiscovered : m.discovered = none ∨ m'.discovered = none ∨ m.discovered = m'.discovered)
    (previous : Option ClasspathRecord) :
    c.merged d (some (c.merged d previous m)) m' = c.merged d (some (c.merged d previous m')) m := by
  refine ext_record ?_ (fun key => ?_) ?_
  · simp only [version_merged, Option.getD_some]
  · have hne : (d.normalize m.project).text ≠ (d.normalize m'.project).text := fun heq =>
      hkeys (congrArg Path.mk heq)
    simp only [projects_merged, Option.getD_some, Std.ExtTreeMap.getElem?_insert,
      Std.LawfulEqCmp.compare_eq_iff_eq]
    by_cases hfirst : (d.normalize m.project).text = key
    · rw [if_neg fun hsecond => hne (hfirst.trans hsecond.symm), if_pos hfirst, if_pos hfirst]
    · rw [if_neg hfirst, if_neg hfirst]
  · simp only [discovered_merged, Option.getD_some]
    rcases hdiscovered with hnone | hnone | heq
    · rw [hnone]
      rfl
    · rw [hnone]
      rfl
    · rw [heq]

end Merge

/-- Two calls lead to the same record in either order. -/
theorem Tracks.merge_comm {m m' : Merge} {d₁ d₂ e₁ e₂ : Disk} (h : c.Tracks ws d r)
    (hdir : m.OnDirectories d) (hdir' : m'.OnDirectories d)
    (hkeys : d.normalize m.project ≠ d.normalize m'.project)
    (hdiscovered : m.discovered = none ∨ m'.discovered = none ∨ m.discovered = m'.discovered)
    (hcall : c.runMerge d ws m = (d₁, none)) (hnext : c.runMerge d₁ ws m' = (d₂, none))
    (hcall' : c.runMerge d ws m' = (e₁, none)) (hnext' : c.runMerge e₁ ws m = (e₂, none))
    (hapart : m.ApartFrom c d₁ (c.recordPath d ws)) (hapart' : m'.ApartFrom c d₁ (c.recordPath d ws)) :
    c.load? d₂ ws = c.load? e₂ ws := by
  obtain ⟨locked, place, name, hlock, hholds, hrun⟩ := h.exists_holds hcall
  obtain ⟨locked', _, _, hlock', -, hrun'⟩ := h.exists_holds hcall'
  cases hlock.symm.trans hlock'
  have hlocked : d.Frame locked := by
    have hextends := d.extends_lock (c.lockPath d ws)
    rw [hlock] at hextends
    exact hextends.frame
  obtain ⟨hput, hholds₁⟩ := hholds.merge hrun
  obtain ⟨hput', hholds'⟩ := hholds.merge hrun'
  have htakes := hholds.seated.takesFile
  have hframe₁ : locked.Frame d₁ := hput ▸ htakes.frame_put _ _
  have hframe' : locked.Frame e₁ := hput' ▸ htakes.frame_put _ _
  have hdirs := hdir.frame hlocked
  have hdirs' := hdir'.frame hlocked
  -- The build files of both projects are the same whichever record stands at the record's place.
  have hplace : d₁.look (c.recordPath d ws) = .ok (.found (place ++ [name])) := by
    have hnormal := (hlocked.trans hframe₁).normalize h.root
    rw [← recordPath_congr hnormal, hholds₁.seated.recordPath]
    exact Disk.look_of_entry_node hholds₁.seated.seat.entry
      (by rw [hput, Disk.node?_put (by simp), if_pos rfl]) (Node.not_isLink_file _ _)
  have hfiles {other : Merge} (hother : other.OnDirectories locked)
      (haway : other.ApartFrom c d₁ (c.recordPath d ws)) (file : String)
      (hfile : file ∈ c.buildFileNames) :
      d₁.file? ((locked.normalize other.project).child file) =
          locked.file? ((locked.normalize other.project).child file) ∧
        e₁.file? ((locked.normalize other.project).child file) =
          locked.file? ((locked.normalize other.project).child file) := by
    have haway := haway file hfile
    rw [hframe₁.normalize hother.1, hplace, hput] at haway
    rw [hput, hput']
    exact ⟨htakes.file?_put haway, htakes.file?_put fun hlook => haway (htakes.leads_replaced.look _ _ hlook)⟩
  have hloaded := (hholds₁.merge hnext).2.loaded
  have hloaded' := (hholds'.merge hnext').2.loaded
  rw [hloaded, hloaded',
    Merge.merged_congr hframe₁ hdirs' fun file hfile => (hfiles hdirs' hapart' file hfile).1,
    Merge.merged_congr hframe' hdirs fun file hfile => (hfiles hdirs hapart file hfile).2,
    Merge.merged_comm _ hdiscovered r]
  rw [hlocked.normalize hdir.1, hlocked.normalize hdir'.1]
  exact hkeys

/-- The records of a workspace on the disk are a map from projects to classpaths: whatever calls
were made, the record that is found is the one they say; every record is read as it was written; and
two calls for different projects may change places, unless both give discovered projects and not the
same. -/
theorem refines_map (c : ClasspathCache) (ws : Path) :
    (∀ (d : Disk) (r : Option ClasspathRecord), c.History ws d r → c.load? d ws = r) ∧
    (∀ record : ClasspathRecord, record.version < 0x100000000 →
      (Json.read? (Text.encode record.render)).bind ClasspathRecord.ofJson? = some record) ∧
    ∀ (d d₁ d₂ e₁ e₂ : Disk) (r : Option ClasspathRecord) (m m' : Merge), c.History ws d r →
      m.OnDirectories d → m'.OnDirectories d →
      d.normalize m.project ≠ d.normalize m'.project →
      (m.discovered = none ∨ m'.discovered = none ∨ m.discovered = m'.discovered) →
      c.runMerge d ws m = (d₁, none) → c.runMerge d₁ ws m' = (d₂, none) →
      c.runMerge d ws m' = (e₁, none) → c.runMerge e₁ ws m = (e₂, none) →
      m.ApartFrom c d₁ (c.recordPath d ws) → m'.ApartFrom c d₁ (c.recordPath d ws) →
      c.load? d₂ ws = c.load? e₂ ws := by
  refine ⟨fun d r h => h.tracks.loaded, fun record h => ClasspathRecord.decode_render h, ?_⟩
  intro d d₁ d₂ e₁ e₂ r m m' h hdir hdir' hkeys hdiscovered hcall hnext hcall' hnext' hapart hapart'
  exact h.tracks.merge_comm hdir hdir' hkeys hdiscovered hcall hnext hcall' hnext' hapart hapart'

/-! Two projects of one workspace, saved together, stored one by one after each other, and in either
order. -/

def twoProjects : Disk where
  nodes := .ofList [(["ws"], .dir), (["ws", "app"], .dir), (["ws", "lib"], .dir),
    (["ws", "app", "build.gradle"], .file ⟨[]⟩ 1000),
    (["ws", "lib", "build.gradle"], .file ⟨[]⟩ 2000)] Place.order
  cwd := []

def plainCache : ClasspathCache where
  dir := ⟨"/cache"⟩
  buildFileNames := ["build.gradle"]

def storeApp (discovered : Option (List Path)) : Merge :=
  ⟨⟨"/ws/app"⟩, ⟨[⟨.jar, ⟨"/a.jar"⟩⟩], none⟩, discovered⟩

def storeLib (discovered : Option (List Path)) : Merge :=
  ⟨⟨"/ws/lib"⟩, ⟨[⟨.classDir, ⟨"/b"⟩⟩], some "4.0"⟩, discovered⟩

theorem history_twoProjects : plainCache.History ⟨"/ws"⟩ twoProjects none :=
  .start (by decide +kernel) (by decide +kernel)

theorem onDirectories_twoProjects {listed : Option (List Path)}
    (h : listed = none ∨ listed = some [⟨"/ws/app"⟩] ∨ listed = some [⟨"/ws/app"⟩, ⟨"/ws/lib"⟩]) :
    (storeApp listed).OnDirectories twoProjects ∧ (storeLib listed).OnDirectories twoProjects := by
  have hdirs : ∀ p ∈ [Path.mk "/ws/app", ⟨"/ws/lib"⟩], twoProjects.isDir p.normal := by
    decide +kernel
  have hlisted : ∀ paths, listed = some paths → ∀ p ∈ paths, twoProjects.isDir p.normal := by
    rintro paths rfl p hp
    refine hdirs p ?_
    rcases h with heq | heq | heq
    · cases heq
    · cases heq
      exact List.mem_cons.mpr (.inl (List.mem_singleton.mp hp))
    · cases heq
      exact hp
  exact ⟨⟨hdirs _ (by simp [storeApp]), hlisted⟩, ⟨hdirs _ (by simp [storeLib]), hlisted⟩⟩

def storedRecord : Path := ⟨"/cache/classpath-0c65a812b078db67.json"⟩

theorem recordPath_twoProjects : plainCache.recordPath twoProjects ⟨"/ws"⟩ = storedRecord := by
  decide +kernel

/-- The disk on which one project has been stored. -/
def storedOne (m : Merge) : Disk := (plainCache.mergeAt twoProjects storedRecord m).1

/-- The disk on which another project has been stored after one. -/
def storedBoth (m m' : Merge) : Disk := (plainCache.mergeAt (storedOne m) storedRecord m').1

/-- Both projects are stored in this order without a failure, and the root of the workspace stays
where it is. -/
def StoresBoth (m m' : Merge) : Prop :=
  (plainCache.mergeAt twoProjects storedRecord m).2 = none ∧
    (plainCache.mergeAt (storedOne m) storedRecord m').2 = none ∧
    (storedOne m).isDir (Path.mk "/ws").normal ∧ (storedOne m).normalize ⟨"/ws"⟩ = ⟨"/ws"⟩

instance (m m' : Merge) : Decidable (StoresBoth m m') := inferInstanceAs (Decidable (_ ∧ _))

theorem StoresBoth.recordPath {m m' : Merge} (h : StoresBoth m m') :
    plainCache.recordPath (storedOne m) ⟨"/ws"⟩ = storedRecord := by
  have hnormal : twoProjects.normalize ⟨"/ws"⟩ = ⟨"/ws"⟩ := by decide +kernel
  exact (recordPath_congr (h.2.2.2.trans hnormal.symm)).trans recordPath_twoProjects

theorem StoresBoth.lockPath {m m' : Merge} (h : StoresBoth m m') :
    plainCache.lockPath (storedOne m) ⟨"/ws"⟩ = ⟨storedRecord.text ++ ".lock"⟩ := by
  rw [ClasspathCache.lockPath, h.recordPath]

theorem StoresBoth.runMerge {m m' : Merge} (h : StoresBoth m m') :
    plainCache.runMerge twoProjects ⟨"/ws"⟩ m = (storedOne m, none) ∧
      plainCache.runMerge (storedOne m) ⟨"/ws"⟩ m' = (storedBoth m m', none) := by
  have hroot : twoProjects.isDir (Path.mk "/ws").normal := by decide +kernel
  rw [runMerge_eq_mergeAt hroot recordPath_twoProjects,
    runMerge_eq_mergeAt h.2.2.1 h.recordPath]
  refine ⟨?_, ?_⟩
  · rw [storedOne]
    exact eq_mk_of_done h.1
  · rw [storedBoth]
    exact eq_mk_of_done h.2.1

def givenBoth : List (Path × ResolvedClasspath) :=
  [(⟨"/ws/lib"⟩, (storeLib none).resolved), (⟨"/ws/app"⟩, (storeApp none).resolved)]

/-- The disks after both projects have been saved, after one of them has been stored again, after
the record has been dropped, and after the other project has been stored. -/
def savedBoth : Disk := (plainCache.saveAt twoProjects storedRecord givenBoth [⟨"/ws/app"⟩]).1

def mergedLib : Disk := (plainCache.mergeAt savedBoth storedRecord (storeLib none)).1

def invalidated : Disk := (invalidateAt mergedLib storedRecord).1

def mergedApp : Disk := (plainCache.mergeAt invalidated storedRecord (storeApp none)).1

theorem history_calls :
    plainCache.History ⟨"/ws"⟩ savedBoth
        (some (plainCache.recordOf twoProjects givenBoth [⟨"/ws/app"⟩])) ∧
      plainCache.History ⟨"/ws"⟩ invalidated none ∧
      plainCache.History ⟨"/ws"⟩ mergedApp (some (plainCache.merged
        (invalidated.lock (plainCache.lockPath invalidated ⟨"/ws"⟩)).1 none (storeApp none))) := by
  have hfacts : ((plainCache.saveAt twoProjects storedRecord givenBoth [⟨"/ws/app"⟩]).2 = none ∧
        (plainCache.mergeAt savedBoth storedRecord (storeLib none)).2 = none ∧
        (invalidateAt mergedLib storedRecord).2 = none ∧
        (plainCache.mergeAt invalidated storedRecord (storeApp none)).2 = none) ∧
      ∀ d ∈ [twoProjects, savedBoth, mergedLib, invalidated],
        d.isDir (Path.mk "/ws").normal ∧ d.normalize ⟨"/ws"⟩ = twoProjects.normalize ⟨"/ws"⟩ := by
    decide +kernel
  obtain ⟨⟨hsave, hlib, hdrop, happ⟩, hplaces⟩ := hfacts
  have hroot {d : Disk} (hd : d ∈ [twoProjects, savedBoth, mergedLib, invalidated]) :
      d.isDir (Path.mk "/ws").normal :=
    (hplaces d hd).1
  have hpath {d : Disk} (hd : d ∈ [twoProjects, savedBoth, mergedLib, invalidated]) :
      plainCache.recordPath d ⟨"/ws"⟩ = storedRecord :=
    (recordPath_congr (hplaces d hd).2).trans recordPath_twoProjects
  have hsaved : plainCache.History ⟨"/ws"⟩ savedBoth
      (some (plainCache.recordOf twoProjects givenBoth [⟨"/ws/app"⟩])) := by
    refine history_twoProjects.save ?_
      (plainCache.isSaved_recordOf twoProjects givenBoth [⟨"/ws/app"⟩])
    rw [save_eq_saveAt (hroot (by simp)) (hpath (by simp)), savedBoth]
    exact eq_mk_of_done hsave
  have hmerged : plainCache.History ⟨"/ws"⟩ mergedLib (some (plainCache.merged
      (savedBoth.lock (plainCache.lockPath savedBoth ⟨"/ws"⟩)).1
      (some (plainCache.recordOf twoProjects givenBoth [⟨"/ws/app"⟩])) (storeLib none))) := by
    refine hsaved.merge ?_ (plainCache.isMerged_merged _ hsaved.tracks.version (storeLib none))
    rw [runMerge_eq_mergeAt (hroot (by simp)) (hpath (by simp)), mergedLib]
    exact eq_mk_of_done hlib
  have hdropped : plainCache.History ⟨"/ws"⟩ invalidated none := by
    refine hmerged.invalidate ?_
    rw [invalidate_eq_invalidateAt (hroot (by simp)) (hpath (by simp)), invalidated]
    exact eq_mk_of_done hdrop
  refine ⟨hsaved, hdropped, hdropped.merge ?_
    (plainCache.isMerged_merged _ hdropped.tracks.version (storeApp none))⟩
  rw [runMerge_eq_mergeAt (hroot (by simp)) (hpath (by simp)), mergedApp]
  exact eq_mk_of_done happ

/-- A record of both projects. For one of them no version of the runtime is known. -/
def bothRecord : ClasspathRecord := plainCache.recordOf twoProjects givenBoth [⟨"/ws/app"⟩]

theorem refines_map_twoProjects :
    (plainCache.load? savedBoth ⟨"/ws"⟩ = some bothRecord ∧
      plainCache.load? invalidated ⟨"/ws"⟩ = none ∧
      plainCache.load? mergedApp ⟨"/ws"⟩ = some (plainCache.merged
        (invalidated.lock (plainCache.lockPath invalidated ⟨"/ws"⟩)).1 none (storeApp none))) ∧
    ((bothRecord.project? ⟨"/ws/app"⟩).map ProjectRecord.runtimeVersion = some none ∧
      (bothRecord.project? ⟨"/ws/lib"⟩).map ProjectRecord.runtimeVersion = some (some "4.0") ∧
      (Json.read? (Text.encode bothRecord.render)).bind ClasspathRecord.ofJson? =
        some bothRecord) ∧
    plainCache.load?
        (storedBoth (storeApp none) (storeLib (some [⟨"/ws/app"⟩, ⟨"/ws/lib"⟩]))) ⟨"/ws"⟩ =
      plainCache.load?
        (storedBoth (storeLib (some [⟨"/ws/app"⟩, ⟨"/ws/lib"⟩])) (storeApp none)) ⟨"/ws"⟩ := by
  have hfacts : StoresBoth (storeApp none) (storeLib (some [⟨"/ws/app"⟩, ⟨"/ws/lib"⟩])) ∧
      StoresBoth (storeLib (some [⟨"/ws/app"⟩, ⟨"/ws/lib"⟩])) (storeApp none) ∧
      ∀ file ∈ plainCache.buildFileNames, ∀ project ∈ [Path.mk "/ws/app", ⟨"/ws/lib"⟩],
        (storedOne (storeApp none)).look
            (((storedOne (storeApp none)).normalize project).child file) ≠
          (storedOne (storeApp none)).look storedRecord := by
    decide +kernel
  have hrecord : bothRecord.version < 0x100000000 ∧
      (bothRecord.project? ⟨"/ws/app"⟩).map ProjectRecord.runtimeVersion = some none ∧
      (bothRecord.project? ⟨"/ws/lib"⟩).map ProjectRecord.runtimeVersion = some (some "4.0") := by
    decide +kernel
  obtain ⟨hruns, hruns', hapart⟩ := hfacts
  rw [← recordPath_twoProjects] at hapart
  obtain ⟨hcurrent, happ, hlib⟩ := hrecord
  obtain ⟨hsaved, hdropped, hmerged⟩ := history_calls
  obtain ⟨hmaps, hreads, hcommute⟩ := plainCache.refines_map ⟨"/ws"⟩
  have hdirs := onDirectories_twoProjects (.inl rfl)
  have hdirs' := onDirectories_twoProjects (.inr (.inr rfl))
  refine ⟨⟨hmaps _ _ hsaved, hmaps _ _ hdropped, hmaps _ _ hmerged⟩,
    ⟨happ, hlib, hreads _ hcurrent⟩, ?_⟩
  exact hcommute _ _ _ _ _ none _ _ history_twoProjects hdirs.1 hdirs'.2 (by decide +kernel)
    (.inl rfl) hruns.runMerge.1 hruns.runMerge.2 hruns'.runMerge.1 hruns'.runMerge.2
    (fun file hfile => hapart file hfile _ (by simp [storeApp]))
    (fun file hfile => hapart file hfile _ (by simp [storeLib]))

/-- The discovered projects are those that were given last, so calls that give different ones may
not change places. -/
theorem discovered_by_last_call :
    plainCache.History ⟨"/ws"⟩ twoProjects none ∧
    twoProjects.normalize ⟨"/ws/app"⟩ ≠ twoProjects.normalize ⟨"/ws/lib"⟩ ∧
    StoresBoth (storeApp (some [⟨"/ws/app"⟩])) (storeLib (some [⟨"/ws/app"⟩, ⟨"/ws/lib"⟩])) ∧
    StoresBoth (storeLib (some [⟨"/ws/app"⟩, ⟨"/ws/lib"⟩])) (storeApp (some [⟨"/ws/app"⟩])) ∧
    plainCache.load? (storedBoth (storeApp (some [⟨"/ws/app"⟩]))
        (storeLib (some [⟨"/ws/app"⟩, ⟨"/ws/lib"⟩]))) ⟨"/ws"⟩ ≠
      plainCache.load? (storedBoth (storeLib (some [⟨"/ws/app"⟩, ⟨"/ws/lib"⟩]))
        (storeApp (some [⟨"/ws/app"⟩]))) ⟨"/ws"⟩ := by
  have hfacts : StoresBoth (storeApp (some [⟨"/ws/app"⟩]))
        (storeLib (some [⟨"/ws/app"⟩, ⟨"/ws/lib"⟩])) ∧
      StoresBoth (storeLib (some [⟨"/ws/app"⟩, ⟨"/ws/lib"⟩])) (storeApp (some [⟨"/ws/app"⟩])) ∧
      ∀ d ∈ [storedOne (storeApp (some [⟨"/ws/app"⟩])),
          storedOne (storeLib (some [⟨"/ws/app"⟩, ⟨"/ws/lib"⟩]))],
        normalizeAll (d.lock ⟨storedRecord.text ++ ".lock"⟩).1 [⟨"/ws/app"⟩] = [⟨"/ws/app"⟩] ∧
        normalizeAll (d.lock ⟨storedRecord.text ++ ".lock"⟩).1 [⟨"/ws/app"⟩, ⟨"/ws/lib"⟩] =
          [⟨"/ws/app"⟩, ⟨"/ws/lib"⟩] := by
    decide +kernel
  obtain ⟨hruns, hruns', hlists⟩ := hfacts
  refine ⟨history_twoProjects, by decide +kernel, hruns, hruns', fun heq => ?_⟩
  have hstored := (history_twoProjects.tracks.merge hruns.runMerge.1).merge hruns.runMerge.2
  have hstored' := (history_twoProjects.tracks.merge hruns'.runMerge.1).merge hruns'.runMerge.2
  rw [hstored.loaded, hstored'.loaded] at heq
  have hdiscovered := congrArg ClasspathRecord.discovered (Option.some.inj heq)
  rw [discovered_merged, discovered_merged, hruns.lockPath, hruns'.lockPath] at hdiscovered
  have hboth := (hlists _ (List.mem_cons_self)).2
  have hone := (hlists _ (List.mem_cons_of_mem _ List.mem_cons_self)).1
  simp only [storeApp, storeLib, Option.map_some, Option.getD_some] at hdiscovered hboth hone
  rw [hboth, hone] at hdiscovered
  cases hdiscovered

end ClasspathCache

end Workbench
