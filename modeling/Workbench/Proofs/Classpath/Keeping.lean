import Workbench.Proofs.Classpath.Storing

/-!
What a record keeps. Once the classpath of a project has been stored, the record has its place, and
there it stays: whatever is stored for other projects replaces it by a record that has the same for
this one. So the classpath is found again, and it is trusted as long as the build files of the
project and the entries are there as they were.
-/

namespace Workbench.ClasspathCache

variable {c c' : ClasspathCache} {d d' base : Disk} {ws ws' p : Path} {place : Place}
  {name : String} {stored : ProjectRecord} {m : Merge}

/-- The record of a workspace stands in its place, on a disk that is like another one but for the
record, and has the given for a project. -/
structure Keeps (c : ClasspathCache) (d : Disk) (ws : Path) (base : Disk) (place : Place)
    (name : String) (p : Path) (stored : ProjectRecord) : Prop where
  seated : c.Seated d ws place name
  takesFile : base.TakesFile (place ++ [name])
  record : ∃ record : ClasspathRecord, record.version = ClasspathRecord.currentVersion ∧
    record.project? p = some stored ∧
    d = base.put (place ++ [name]) (.file (.ofText record.render) Disk.writeTime)

namespace Keeps

variable (h : c.Keeps d ws base place name p stored)

include h

theorem exists_load? : ∃ record, c.load? d ws = some record ∧ record.project? p = some stored := by
  obtain ⟨record, hversion, hproject, hput⟩ := h.record
  refine ⟨record, ?_, hproject⟩
  rw [h.seated.load?_eq, hput, Disk.node?_put (by simp), if_pos rfl]
  dsimp only
  rw [Content.bytes_ofText, ClasspathRecord.parse?_render hversion]

/-- What is stored for another project leaves the record in its place. -/
theorem merge (hother : d.normalize m.project ≠ p) :
    c.Keeps (c.runMerge d ws m).1 ws base place name p stored := by
  have hrun : c.runMerge d ws m = c.writeRecord d ws (c.merged d (c.load? d ws) m) := by
    rw [mergeProject_eq_locked, locked_of_lock h.seated.lock_eq]
  obtain ⟨previous, hloaded, hproject⟩ := h.exists_load?
  obtain ⟨old, -, -, hput⟩ := h.record
  rw [hrun, hloaded]
  rcases h.seated.writeRecord_eq (c.merged d (some previous) m) with ⟨e, heq⟩ | heq
  · rw [heq]
    exact h
  · rw [heq]
    have hnormal : (d.put (place ++ [name]) (.file (.ofText (c.merged d (some previous) m).render)
        Disk.writeTime)).normalize ws = d.normalize ws := by
      rw [hput, Disk.put_put]
      exact h.takesFile.normalize_replaced ws
    refine ⟨h.seated.put (recordPath_congr hnormal), h.takesFile, c.merged d (some previous) m, ?_, ?_, ?_⟩
    · rw [version_merged]
      exact version_of_load? hloaded
    · have hne : (d.normalize m.project).text ≠ p.text := fun heq => hother (congrArg Path.mk heq)
      rw [ClasspathRecord.project?, projects_merged, Std.ExtTreeMap.getElem?_insert,
        if_neg fun heq => hne (Std.LawfulEqOrd.eq_of_compare heq)]
      exact hproject
    · rw [hput, Disk.put_put]

/-- The record is the same for all caches with this directory and for all ways to write the root. -/
theorem of_sameRecord (hdir : c'.dir = c.dir) (hroot : d.normalize ws' = d.normalize ws) :
    c'.Keeps d ws' base place name p stored := by
  have hpath : c'.recordPath d ws' = c.recordPath d ws := by
    rw [recordPath, recordPath, hdir, hroot]
  refine ⟨⟨h.seated.isName, ?_, hdir ▸ h.seated.seat, h.seated.takesFile⟩, h.takesFile, h.record⟩
  rw [hpath, h.seated.recordPath, hdir]

theorem look_recordPath : d.look (c.recordPath d ws) = .ok (.found (place ++ [name])) := by
  obtain ⟨record, -, -, hput⟩ := h.record
  have hnode : d.node? (place ++ [name]) = some (.file (.ofText record.render) Disk.writeTime) := by
    rw [hput, Disk.node?_put (by simp), if_pos rfl]
  rw [h.seated.recordPath]
  exact Disk.look_of_entry_node h.seated.seat.entry hnode (Node.not_isLink_file _ _)

/-- Paths that do not lead to the record name the same files as without it. -/
theorem file?_eq {file : Path} (hapart : d.look file ≠ d.look (c.recordPath d ws)) :
    d.file? file = base.file? file := by
  obtain ⟨record, -, -, hput⟩ := h.record
  rw [h.look_recordPath] at hapart
  rw [hput] at hapart ⊢
  exact h.takesFile.file?_put hapart

section Again

variable {p' : Path} {stored' : ProjectRecord} (h' : c'.Keeps d' ws' base place name p' stored')

include h'

/-- Whatever the record holds, all paths keep their normal forms. -/
theorem normalize_eq (other : Path) : d'.normalize other = d.normalize other := by
  obtain ⟨record, -, -, hput⟩ := h.record
  obtain ⟨record', -, -, hput'⟩ := h'.record
  rw [hput, hput']
  exact h.takesFile.normalize_replaced other

theorem look_ne {file : Path} (hapart : d.look file ≠ d.look (c.recordPath d ws)) :
    d'.look file ≠ d'.look (c'.recordPath d' ws') := by
  rw [h.look_recordPath] at hapart
  rw [h'.look_recordPath]
  obtain ⟨record, -, -, hput⟩ := h.record
  obtain ⟨record', -, -, hput'⟩ := h'.record
  rw [hput] at hapart
  rw [hput']
  exact fun hlook => hapart (h.takesFile.leads_replaced.look _ _ hlook)

theorem existsOn {e : ClasspathEntry} (hexists : e.existsOn d) : e.existsOn d' := by
  obtain ⟨record, -, -, hput⟩ := h.record
  obtain ⟨record', -, -, hput'⟩ := h'.record
  rw [hput] at hexists
  rw [hput']
  rw [ClasspathEntry.existsOn] at hexists ⊢
  cases hkind : e.kind with
  | classDir =>
      rw [hkind] at hexists
      exact h.takesFile.frame_replaced.isDir hexists
  | jar =>
      rw [hkind] at hexists
      exact h.takesFile.isFile_replaced hexists

end Again

/-- A kept classpath is trusted while the build files have their stamps and the entries are there. -/
theorem isValid {record : ClasspathRecord} (hproject : record.project? p = some stored)
    (hself : d.normalize p = p) (hstamps : stored.stamps = base.projectStamps p c.buildFileNames)
    (hapart : ∀ file ∈ c.buildFileNames, d.look (p.child file) ≠ d.look (c.recordPath d ws))
    (hsample : ∀ e ∈ c.sample c.sampleSize stored.classpath, e.existsOn d) :
    c.isValid d record p := by
  have hsame : d.projectStamps p c.buildFileNames = stored.stamps := by
    rw [hstamps]
    exact projectStamps_congr fun file hfile => h.file?_eq (hapart file hfile)
  simp only [ClasspathCache.isValid, hself, hproject, hsame, beq_self_eq_true, Bool.true_and]
  exact List.all_eq_true.mpr hsample

end Keeps

/-- A call that succeeds leaves a record that has the classpath of its project, with the stamps of
the build files beside it. -/
theorem exists_keeps (hfind : c.Findable d ws m.project d') (hcall : c.runMerge d ws m = (d', none))
    (hself : d'.normalize m.project = m.project) :
    ∃ base place name, c.Keeps d' ws base place name m.project
      ⟨base.projectStamps m.project c.buildFileNames, m.resolved.entries,
        m.resolved.runtimeVersion⟩ := by
  obtain ⟨hheld, hafter, hway, hreplaced⟩ := hfind
  rw [mergeProject_eq_locked] at hcall
  obtain ⟨locked, hlock, hwritten⟩ := locked_eq_ok.mp hcall
  rw [hlock] at hheld hway hreplaced
  dsimp only at hheld hway hreplaced
  generalize hmerged : c.merged locked (c.load? locked ws) m = record at hwritten
  have hversion : record.version = ClasspathRecord.currentVersion := by
    rw [← hmerged, version_merged]
    cases hloaded : c.load? locked ws with
    | none => rfl
    | some previous => exact version_of_load? hloaded
  have hproject (hself : locked.normalize m.project = m.project) : record.project? m.project =
      some ⟨locked.projectStamps m.project c.buildFileNames, m.resolved.entries,
        m.resolved.runtimeVersion⟩ := by
    rw [← hmerged, ClasspathRecord.project?, projects_merged, hself]
    exact Std.ExtTreeMap.getElem?_insert_self
  obtain ⟨place, name, hname, hrecord, hseat, hdir, rfl⟩ :=
    exists_seat_of_writeRecord hlock hheld hwritten
  have hentry := hseat.entry
  rw [hrecord] at hafter hway hreplaced
  rw [Disk.lstat?_of_entry hentry] at hreplaced
  rw [lockPath_eq hname hrecord] at hreplaced
  by_cases hlink : ∃ target, locked.node? (place ++ [name]) = some (.link target)
  · obtain ⟨target, hlink⟩ := hlink
    obtain ⟨hlocked, hself', hspared⟩ := hreplaced target hlink
    generalize hput : locked.put (place ++ [name]) (.file (.ofText record.render) Disk.writeTime) =
      d' at *
    have hnode : d'.node? (place ++ [name]) = some (.file (.ofText record.render) Disk.writeTime) :=
      hput ▸ Disk.node?_put_self (by simp) _
    have htakes : d'.TakesFile (place ++ [name]) := fun node hsome => by
      cases hnode.symm.trans hsome
      exact ⟨_, _, rfl⟩
    have hseated : c.Seated d' ws place name :=
      ⟨hname, hafter, ⟨hput ▸ Disk.entry_put_of_not_goesThroughEntry hentry _ hdir hway, hlocked,
        hseat.reachable⟩, htakes⟩
    refine ⟨d', place, name, hseated, htakes, record, hversion, ?_,
      (Disk.put_self (by simp) hnode).symm⟩
    rw [projectStamps_congr hspared]
    exact hproject hself'
  · have htakes : locked.TakesFile (place ++ [name]) :=
      Disk.takesFile_of_ne hdir (not_exists.mp hlink)
    have hseated : c.Seated locked ws place name :=
      ⟨hname, hheld.trans hrecord, hseat, htakes⟩
    refine ⟨locked, place, name, hseated.put (hafter.trans hseated.recordPath.symm), htakes, record,
      hversion, hproject ((htakes.leads_put _ _).normalize_eq_self hself), rfl⟩

end Workbench.ClasspathCache
