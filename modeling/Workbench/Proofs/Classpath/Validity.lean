import Mathlib.Data.List.Pairwise
import Mathlib.Data.List.Perm.Subperm
import Std.Data.String.ToNat
import Workbench.Proofs.Classpath.History
import Workbench.Proofs.Disk.Replacement
import Workbench.Proofs.Sorting

/-!
When stored classpaths are trusted. Two stamps of a file are the same just if the file has the same
time and size both times, and the stamps of a project hold nothing but those of the build files in
it. So a stored classpath stays trusted while the build files of its project keep time and size and
its entries are there, and what happens to the build files of other projects does not matter, though
they be below it.
-/

namespace Workbench

/-! ### Stamps -/

/-- The text of a stamp. -/
def stampText (time size : Nat) : String := toString time ++ ":" ++ toString size

theorem stampText_inj {time size time' size' : Nat} :
    stampText time size = stampText time' size' ↔ time = time' ∧ size = size' := by
  refine ⟨fun h => ?_, fun ⟨htime, hsize⟩ => htime ▸ hsize ▸ rfl⟩
  have hdigits (n : Nat) : ':' ∉ n.repr.toList := by
    rw [Nat.toList_repr]
    exact fun hmem => absurd (Nat.isDigit_of_mem_toDigits (by decide) (by decide) hmem) (by decide)
  have hpieces (time size : Nat) : splitPieces ':' (stampText time size).toList =
      [time.repr.toList, size.repr.toList] := by
    have htext : (stampText time size).toList = time.repr.toList ++ ':' :: size.repr.toList := by
      simp [stampText]
    rw [htext, splitPieces_append (hdigits time), splitPieces_of_not_mem (hdigits size)]
  have hsplit := hpieces time size
  rw [h, hpieces time' size', List.cons.injEq, List.cons.injEq, String.toList_inj,
    String.toList_inj, Nat.repr_inj, Nat.repr_inj] at hsplit
  exact ⟨hsplit.1.symm, hsplit.2.1.symm⟩

namespace Disk

variable {d d' : Disk} {p project : Path} {names : List String}

/-- What a stamp tells of a file: its time and its size. A time before 1970 counts as 1970. -/
def timeAndSize? (d : Disk) (p : Path) : Option (Nat × Nat) :=
  (d.file? p).map fun (content, modified) => (modified.toNat, content.size)

theorem stamp?_eq (d : Disk) (p : Path) :
    d.stamp? p = (d.timeAndSize? p).map fun known => stampText known.1 known.2 := by
  rw [stamp?, timeAndSize?, Option.map_map]
  rfl

theorem stamp?_eq_iff : d'.stamp? p = d.stamp? p ↔ d'.timeAndSize? p = d.timeAndSize? p := by
  rw [stamp?_eq, stamp?_eq]
  refine (Option.map_injective fun known other h => ?_).eq_iff
  have htexts : stampText known.1 known.2 = stampText other.1 other.2 := h
  exact Prod.ext_iff.mpr (stampText_inj.mp htexts)

theorem projectStamps_concat (d : Disk) (project : Path) (names : List String) (last : String) :
    d.projectStamps project (names ++ [last]) =
      ((d.stamp? (project.child last)).map fun stamp =>
        (d.projectStamps project names).insert (project.child last).text stamp).getD
        (d.projectStamps project names) := by
  rw [projectStamps, List.foldl_append, List.foldl_cons, List.foldl_nil, ← projectStamps]
  dsimp only
  cases d.stamp? (project.child last) <;> rfl

/-- The stamps of a project are those of the build files in it, by the texts of their paths. -/
theorem getElem?_projectStamps (d : Disk) (project : Path) (names : List String) (key : String) :
    (d.projectStamps project names)[key]? =
      if ∃ name ∈ names, (project.child name).text = key then d.stamp? ⟨key⟩ else none := by
  induction names using List.reverseRecOn with
  | nil => simp [projectStamps]
  | append_singleton init last ih =>
      rw [projectStamps_concat]
      simp only [List.mem_append, List.mem_singleton, or_and_right, exists_or, exists_eq_left]
      by_cases hkey : (project.child last).text = key
      · subst hkey
        rw [if_pos (.inr rfl)]
        cases hstamp : d.stamp? (project.child last) with
        | some stamp => exact Std.ExtTreeMap.getElem?_insert_self
        | none =>
            rw [Option.map_none, Option.getD_none, ih]
            split
            · exact hstamp
            · rfl
      · simp only [hkey, or_false]
        rw [← ih]
        cases d.stamp? (project.child last) with
        | some stamp =>
            rw [Option.map_some, Option.getD_some, Std.ExtTreeMap.getElem?_insert,
              if_neg (mt Std.LawfulEqOrd.eq_of_compare hkey)]
        | none => rfl

/-- A project has the same stamps on two disks just if its build files have the same times and
sizes. -/
theorem projectStamps_eq_iff :
    d'.projectStamps project names = d.projectStamps project names ↔
      ∀ name ∈ names,
        d'.timeAndSize? (project.child name) = d.timeAndSize? (project.child name) := by
  simp only [← stamp?_eq_iff]
  constructor
  · intro h name hname
    have hkey := congrArg (·[(project.child name).text]?) h
    simp only [getElem?_projectStamps] at hkey
    rwa [if_pos ⟨name, hname, rfl⟩, if_pos ⟨name, hname, rfl⟩] at hkey
  · intro h
    refine Std.ExtTreeMap.ext_getElem? fun key => ?_
    rw [getElem?_projectStamps, getElem?_projectStamps]
    split
    case isTrue hkey =>
      obtain ⟨name, hname, rfl⟩ := hkey
      exact h name hname
    case isFalse => rfl

/-- Between two disks a file was made or removed, or it got another size, or another time, if both
times are from 1970 on. -/
def Alters (d d' : Disk) (p : Path) : Prop :=
  (d.file? p).isSome ≠ (d'.file? p).isSome ∨
    ∃ content modified content' modified', d.file? p = some (content, modified) ∧
      d'.file? p = some (content', modified') ∧
      (content.size ≠ content'.size ∨ 0 ≤ modified ∧ 0 ≤ modified' ∧ modified ≠ modified')

theorem alters_of_size
    (h : (d.timeAndSize? p).map Prod.snd ≠ (d'.timeAndSize? p).map Prod.snd) : d.Alters d' p := by
  rw [timeAndSize?, timeAndSize?] at h
  unfold Alters
  cases hbefore : d.file? p with
  | none =>
      left
      rw [hbefore] at h
      cases hafter : d'.file? p with
      | none => exact absurd (by rw [hafter]) h
      | some file => exact Bool.false_ne_true
  | some file =>
      obtain ⟨content, modified⟩ := file
      rw [hbefore] at h
      cases hafter : d'.file? p with
      | none => exact .inl (by simp)
      | some file' =>
          obtain ⟨content', modified'⟩ := file'
          rw [hafter] at h
          exact .inr ⟨content, modified, content', modified', rfl, rfl,
            .inl fun hsize => h (congrArg some hsize)⟩

theorem Alters.timeAndSize?_ne (h : d.Alters d' p) : d'.timeAndSize? p ≠ d.timeAndSize? p := by
  intro heq
  rcases h with hsome | ⟨content, modified, content', modified', hbefore, hafter, hdiffers⟩
  · have hsame := congrArg Option.isSome heq
    rw [timeAndSize?, timeAndSize?, Option.isSome_map, Option.isSome_map] at hsame
    exact hsome hsame.symm
  · rw [timeAndSize?, timeAndSize?, hbefore, hafter] at heq
    simp only [Option.map_some, Option.some.injEq, Prod.mk.injEq] at heq
    omega

end Disk

namespace ClasspathCache

/-! ### Trust -/

/-- So many entries are looked for, all of them different ones, or all if there are no more. -/
def Samples (c : ClasspathCache) : Prop :=
  ∀ size entries, (c.sample size entries).Subperm entries ∧
    (c.sample size entries).length = min size entries.length

variable {c : ClasspathCache} {d d' d₁ : Disk} {ws p : Path}

theorem Samples.perm (h : c.Samples) {size : Nat} {entries : List ClasspathEntry}
    (hsize : entries.length ≤ size) : (c.sample size entries).Perm entries := by
  obtain ⟨hsub, hlength⟩ := h size entries
  exact hsub.perm_of_length_le (by omega)

/-- A stored classpath is trusted just if its build files have the stamps that are stored and its
entries are there, if so many are looked for. -/
theorem isValid_iff (hsamples : c.Samples) {record : ClasspathRecord} {stored : ProjectRecord}
    (hproject : record.project? (d.normalize p) = some stored)
    (hsize : stored.classpath.length ≤ c.sampleSize) :
    c.isValid d record p ↔ d.projectStamps (d.normalize p) c.buildFileNames = stored.stamps ∧
      ∀ e ∈ stored.classpath, e.existsOn d := by
  simp only [isValid, hproject, Bool.and_eq_true, beq_iff_eq, Std.ExtTreeMap.toList_inj,
    List.all_eq_true, (hsamples.perm hsize).mem_iff]

/-! ### Projects saved together -/

/-- Projects are saved together: they have different normal paths, and none has more entries than are
looked for. Writing the record leaves these normal paths and the build files alone. -/
structure Saves (c : ClasspathCache) (d : Disk) (ws : Path)
    (classpaths : List (Path × ResolvedClasspath)) (discovered : List Path) (d₁ : Disk) : Prop where
  distinct : classpaths.Pairwise fun given other => d.normalize given.1 ≠ d.normalize other.1
  sampled : ∀ given ∈ classpaths, given.2.entries.length ≤ c.sampleSize
  saved : c.save d ws classpaths discovered = (d₁, none)
  kept : ∀ given ∈ classpaths, d₁.normalize given.1 = d.normalize given.1
  spared : ∀ given ∈ classpaths, ∀ name ∈ c.buildFileNames,
    d₁.file? ((d.normalize given.1).child name) = d.file? ((d.normalize given.1).child name)

/-- Of several projects with different normal paths each has its own record. -/
theorem project?_recordOf {classpaths : List (Path × ResolvedClasspath)} {discovered : List Path}
    (hdistinct : classpaths.Pairwise fun given other => d.normalize given.1 ≠ d.normalize other.1)
    {given : Path × ResolvedClasspath} (hgiven : given ∈ classpaths) :
    (c.recordOf d classpaths discovered).project? (d.normalize given.1) =
      some ⟨d.projectStamps (d.normalize given.1) c.buildFileNames, given.2.entries,
        given.2.runtimeVersion⟩ := by
  rw [ClasspathRecord.project?, (c.isSaved_recordOf d classpaths discovered).entry]
  have hmem {other : Path × ResolvedClasspath} :
      other ∈ (sortBy (fun a b => Path.order a.1 b.1) classpaths).filter (fun other =>
        (d.normalize other.1).text == (d.normalize given.1).text) ↔
        other ∈ classpaths ∧ d.normalize other.1 = d.normalize given.1 := by
    rw [List.mem_filter, (sortBy_perm _ _).mem_iff, beq_iff_eq]
    exact and_congr_right fun _ => ⟨congrArg Path.mk, congrArg Path.text⟩
  cases hlast : ((sortBy (fun a b => Path.order a.1 b.1) classpaths).filter fun other =>
      (d.normalize other.1).text == (d.normalize given.1).text).getLast? with
  | none =>
      have hgiven := hmem.mpr ⟨hgiven, rfl⟩
      rw [List.getLast?_eq_none_iff.mp hlast] at hgiven
      contradiction
  | some last =>
      obtain ⟨hother, hsame⟩ := hmem.mp (List.mem_of_getLast? hlast)
      have hlast : last = given := by
        refine Decidable.of_not_not fun hne => ?_
        have : Std.Symm fun given other : Path × ResolvedClasspath =>
            d.normalize given.1 ≠ d.normalize other.1 := ⟨fun _ _ => Ne.symm⟩
        exact hdistinct.forall hother hgiven hne hsame
      rw [hlast, Option.map_some]

/-- A record that was saved is found where it was written, unless its path goes through a link that
the record replaced. -/
theorem load?_of_save {classpaths : List (Path × ResolvedClasspath)} {discovered : List Path}
    {locked : Disk} (hlock : d.lock (c.lockPath d ws) = (locked, none))
    (hsaved : c.save d ws classpaths discovered = (d₁, none))
    (hpath : c.recordPath d₁ ws = c.recordPath locked ws)
    (hway : ¬ locked.GoesThroughEntry (c.recordPath locked ws)) :
    c.load? d₁ ws = some (c.recordOf d classpaths discovered) := by
  obtain ⟨first, hfirst, hbefore⟩ := c.exists_recordPath d ws
  obtain ⟨name, hname, hwhere⟩ := c.exists_recordPath locked ws
  rw [save, locked_of_lock hlock, writeRecord, hwhere] at hsaved
  rw [lockPath_eq hfirst hbefore] at hlock
  obtain ⟨place, hseat⟩ := Disk.exists_seat hfirst hlock
  have hcases := locked.atomicWriteFrom_cases 0 (c.dir.child name)
    (.ofText (c.recordOf d classpaths discovered).render)
  rw [hseat.withParents_eq hfirst hname, ← Disk.atomicWrite] at hcases
  rcases hcases with ⟨e, heq⟩ | ⟨target, last, hentry, hother, heq⟩
  · cases heq.symm.trans hsaved
  · cases heq.symm.trans hsaved
    rw [hwhere] at hway hpath
    rw [load?, hpath, Disk.bytes?_put_of_not_goesThroughEntry hentry _ hother hway,
      Option.bind_some, Content.bytes_ofText,
      ClasspathRecord.parse?_render (c.isSaved_recordOf d classpaths discovered).version]

/-- Whenever a saved project is looked at again, its classpath is trusted just if its build files
have the times and sizes that they had when the project was saved, and its entries are there. -/
theorem Saves.isValid_iff {classpaths : List (Path × ResolvedClasspath)} {discovered : List Path}
    (h : c.Saves d ws classpaths discovered d₁) (hsamples : c.Samples) {d₂ : Disk}
    {given : Path × ResolvedClasspath} (hgiven : given ∈ classpaths)
    (hnormal : d₂.normalize given.1 = d₁.normalize given.1) :
    c.isValid d₂ (c.recordOf d classpaths discovered) given.1 ↔
      (∀ name ∈ c.buildFileNames,
        d₂.timeAndSize? ((d₁.normalize given.1).child name) =
          d₁.timeAndSize? ((d₁.normalize given.1).child name)) ∧
      ∀ e ∈ given.2.entries, e.existsOn d₂ := by
  have hproject : (c.recordOf d classpaths discovered).project? (d.normalize given.1) = _ :=
    project?_recordOf h.distinct hgiven
  rw [h.kept given hgiven] at hnormal ⊢
  rw [← hnormal] at hproject
  rw [ClasspathCache.isValid_iff hsamples hproject (h.sampled given hgiven), hnormal,
    Disk.projectStamps_eq_iff]
  refine and_congr_left fun _ => forall₂_congr fun name hname => ?_
  simp only [Disk.timeAndSize?, h.spared given hgiven name hname]

/-- A save is found again where it was written. By what it holds, stored classpaths are trusted
directly afterwards just if their entries are there. Whatever is done to a build file of a project
later makes its classpath untrusted, while the project keeps its normal path; and it does nothing to
the other projects that keep their normal paths, build files and entries. -/
theorem trust_of_saves (c : ClasspathCache) (d : Disk) (ws : Path)
    (classpaths : List (Path × ResolvedClasspath)) (discovered : List Path) (d₁ : Disk)
    (hsamples : c.Samples) (h : c.Saves d ws classpaths discovered d₁) :
    (∃ locked, d.lock (c.lockPath d ws) = (locked, none) ∧
      (c.recordPath d₁ ws = c.recordPath locked ws →
        ¬ locked.GoesThroughEntry (c.recordPath locked ws) →
        c.load? d₁ ws = some (c.recordOf d classpaths discovered))) ∧
    (∀ given ∈ classpaths,
      c.isValid d₁ (c.recordOf d classpaths discovered) given.1 ↔
        ∀ e ∈ given.2.entries, e.existsOn d₁) ∧
    ∀ d₂ : Disk,
      (∀ changed ∈ classpaths, d₂.normalize changed.1 = d₁.normalize changed.1 →
        (∃ name ∈ c.buildFileNames, d₁.Alters d₂ ((d₁.normalize changed.1).child name)) →
        c.isValid d₂ (c.recordOf d classpaths discovered) changed.1 = false) ∧
      ∀ other ∈ classpaths, d₂.normalize other.1 = d₁.normalize other.1 →
        (∀ name ∈ c.buildFileNames, d₂.file? ((d₁.normalize other.1).child name) =
          d₁.file? ((d₁.normalize other.1).child name)) →
        (∀ e ∈ other.2.entries, e.existsOn d₂ = e.existsOn d₁) →
        c.isValid d₂ (c.recordOf d classpaths discovered) other.1 =
          c.isValid d₁ (c.recordOf d classpaths discovered) other.1 := by
  refine ⟨?_, fun given hgiven => ?_, fun d₂ => ⟨fun changed hchanged hnormal halters => ?_,
    fun other hother hnormal hfiles hentries => ?_⟩⟩
  · have hsaved := h.saved
    rw [save] at hsaved
    obtain ⟨locked, hlock, -⟩ := locked_eq_ok.mp hsaved
    exact ⟨locked, hlock, load?_of_save hlock h.saved⟩
  · rw [h.isValid_iff hsamples hgiven rfl]
    exact and_iff_right fun name _ => rfl
  · obtain ⟨name, hname, haltered⟩ := halters
    rw [Bool.eq_false_iff]
    intro hvalid
    have hsame := ((h.isValid_iff hsamples hchanged hnormal).mp hvalid).1
    exact haltered.timeAndSize?_ne (hsame name hname)
  · rw [Bool.eq_iff_iff, h.isValid_iff hsamples hother hnormal, h.isValid_iff hsamples hother rfl]
    refine and_congr (forall₂_congr fun name hname => ?_) (forall₂_congr fun e he => ?_)
    · simp only [Disk.timeAndSize?, hfiles name hname]
    · rw [hentries e he]

/-! ### Two projects, one in the other -/

theorem save_of_saveAt {record : Path} {classpaths : List (Path × ResolvedClasspath)}
    (hroot : d.isDir ws.normal) (hpath : c.recordPath d ws = record)
    (hsaved : (c.saveAt d record classpaths []).2 = none) :
    c.save d ws classpaths [] = ((c.saveAt d record classpaths []).1, none) := by
  rw [save_eq_saveAt hroot hpath]
  exact eq_mk_of_done hsaved

/-- A cache may look for the first entries. -/
theorem samples_of_take (h : c.sample = fun size entries => entries.take size) : c.Samples := by
  intro size entries
  rw [h]
  exact ⟨(List.take_sublist size entries).subperm, List.length_take⟩

def outerProject : Path × ResolvedClasspath := (⟨"/ws"⟩, {})

def innerProject : Path × ResolvedClasspath :=
  (⟨"/ws/app"⟩, ⟨[⟨.classDir, ⟨"/ws/lib"⟩⟩], none⟩)

def nestedProjects : List (Path × ResolvedClasspath) := [outerProject, innerProject]

def savedNested : Disk := (plainCache.saveAt twoProjects storedRecord nestedProjects []).1

/-- The outer project gets a build file. -/
def builtNested : Disk := savedNested.put ["ws", "build.gradle"] (.file ⟨[]⟩ 3000)

theorem saves_nested : plainCache.Saves twoProjects ⟨"/ws"⟩ nestedProjects [] savedNested := by
  have hfacts : twoProjects.isDir (Path.mk "/ws").normal ∧
      (nestedProjects.Pairwise fun given other =>
        twoProjects.normalize given.1 ≠ twoProjects.normalize other.1) ∧
      (∀ given ∈ nestedProjects, given.2.entries.length ≤ plainCache.sampleSize) ∧
      (plainCache.saveAt twoProjects storedRecord nestedProjects []).2 = none ∧
      (∀ given ∈ nestedProjects,
        savedNested.normalize given.1 = twoProjects.normalize given.1) ∧
      ∀ given ∈ nestedProjects, ∀ name ∈ plainCache.buildFileNames,
        savedNested.file? ((twoProjects.normalize given.1).child name) =
          twoProjects.file? ((twoProjects.normalize given.1).child name) := by
    decide +kernel
  obtain ⟨hroot, hdistinct, hsampled, hsaved, hkept, hspared⟩ := hfacts
  exact ⟨hdistinct, hsampled, save_of_saveAt hroot recordPath_twoProjects hsaved, hkept, hspared⟩

/-- A build file of the outer project is made, and the inner one is trusted as before. -/
theorem trust_of_saves_nested :
    plainCache.Samples ∧ plainCache.Saves twoProjects ⟨"/ws"⟩ nestedProjects [] savedNested ∧
    ∃ record, plainCache.load? savedNested ⟨"/ws"⟩ = some record ∧
      (∀ given ∈ nestedProjects, plainCache.isValid savedNested record given.1 = true) ∧
      plainCache.isValid builtNested record ⟨"/ws"⟩ = false ∧
      plainCache.isValid builtNested record ⟨"/ws/app"⟩ = true := by
  have hfacts : (∀ d ∈ [savedNested, builtNested], ∀ given ∈ nestedProjects,
        ∀ e ∈ given.2.entries, e.existsOn d = true) ∧
      (∀ given ∈ nestedProjects,
        builtNested.normalize given.1 = savedNested.normalize given.1) ∧
      (∃ name ∈ plainCache.buildFileNames,
        (savedNested.file? ((savedNested.normalize outerProject.1).child name)).isSome ≠
          (builtNested.file? ((savedNested.normalize outerProject.1).child name)).isSome) ∧
      ∀ name ∈ plainCache.buildFileNames,
        builtNested.file? ((savedNested.normalize innerProject.1).child name) =
          savedNested.file? ((savedNested.normalize innerProject.1).child name) := by
    decide +kernel
  obtain ⟨hentries, hnormal, hbuilt, hinner⟩ := hfacts
  have hplaces : (∀ d ∈ [savedNested, (twoProjects.lock ⟨storedRecord.text ++ ".lock"⟩).1],
        d.normalize ⟨"/ws"⟩ = twoProjects.normalize ⟨"/ws"⟩) ∧
      (twoProjects.lock ⟨storedRecord.text ++ ".lock"⟩).1.lstat? storedRecord = none := by
    decide +kernel
  obtain ⟨hplaces, hfree⟩ := hplaces
  have hlockPath : plainCache.lockPath twoProjects ⟨"/ws"⟩ = ⟨storedRecord.text ++ ".lock"⟩ := by
    rw [lockPath, recordPath_twoProjects]
  have hmem : outerProject ∈ nestedProjects ∧ innerProject ∈ nestedProjects := by
    simp [nestedProjects]
  obtain ⟨⟨locked, hlock, hload⟩, hafter, hlater⟩ := trust_of_saves plainCache twoProjects ⟨"/ws"⟩
    nestedProjects [] savedNested (samples_of_take rfl) saves_nested
  have hlocked : locked = (twoProjects.lock ⟨storedRecord.text ++ ".lock"⟩).1 := by
    rw [← hlockPath, hlock]
  have hrecordPath (d : Disk) (hd : d ∈ [savedNested, locked]) :
      plainCache.recordPath d ⟨"/ws"⟩ = storedRecord :=
    (recordPath_congr (hplaces d (hlocked ▸ hd))).trans recordPath_twoProjects
  have hloaded := hload ((hrecordPath _ (by simp)).trans (hrecordPath locked (by simp)).symm)
    (Disk.not_goesThroughEntry fun target => by
      rw [hrecordPath locked (by simp), hlocked, hfree]
      exact (Option.some_ne_none _).symm)
  have hvalid (given : Path × ResolvedClasspath) (hgiven : given ∈ nestedProjects) :
      plainCache.isValid savedNested _ given.1 = true :=
    (hafter given hgiven).mpr (hentries savedNested (by simp) given hgiven)
  obtain ⟨hchanged, hkept⟩ := hlater builtNested
  refine ⟨samples_of_take rfl, saves_nested, _, hloaded, hvalid,
    hchanged outerProject hmem.1 (hnormal _ hmem.1)
      (hbuilt.imp fun name hname => ⟨hname.1, .inl hname.2⟩), ?_⟩
  refine (hkept innerProject hmem.2 (hnormal _ hmem.2) hinner fun e he => ?_).trans
    (hvalid innerProject hmem.2)
  rw [hentries builtNested (by simp) _ hmem.2 e he, hentries savedNested (by simp) _ hmem.2 e he]

/-! ### Records that are in the way -/

/-- Existing projects with different normal paths are saved together, for a cache that looks for
plain build files. -/
structure SavesDirectories (c : ClasspathCache) (d : Disk) (ws : Path)
    (classpaths : List (Path × ResolvedClasspath)) (d₁ : Disk) : Prop where
  samples : c.Samples
  names : ∀ name ∈ c.buildFileNames, Path.IsName name
  dirs : ∀ given ∈ classpaths, d.isDir given.1.normal
  distinct : classpaths.Pairwise fun given other => d.normalize given.1 ≠ d.normalize other.1
  sampled : ∀ given ∈ classpaths, given.2.entries.length ≤ c.sampleSize
  saved : c.save d ws classpaths [] = (d₁, none)

theorem SavesDirectories.saves {classpaths : List (Path × ResolvedClasspath)}
    (h : c.SavesDirectories d ws classpaths d₁)
    (hkept : ∀ given ∈ classpaths, d₁.normalize given.1 = d.normalize given.1)
    (hspared : ∀ given ∈ classpaths, ∀ name ∈ c.buildFileNames,
      d₁.file? ((d.normalize given.1).child name) = d.file? ((d.normalize given.1).child name)) :
    c.Saves d ws classpaths [] d₁ :=
  ⟨h.distinct, h.sampled, h.saved, hkept, hspared⟩

/-- A change after a save alters a build file of one project, and it touches no build file of the
others and no entry. -/
structure AltersOnly (c : ClasspathCache) (d₁ d₂ : Disk)
    (classpaths : List (Path × ResolvedClasspath)) (changed : Path × ResolvedClasspath) : Prop where
  mem : changed ∈ classpaths
  altered : ∃ name ∈ c.buildFileNames, d₁.Alters d₂ ((d₁.normalize changed.1).child name)
  spared : ∀ other ∈ classpaths, other ≠ changed → ∀ name ∈ c.buildFileNames,
    d₂.file? ((d₁.normalize other.1).child name) = d₁.file? ((d₁.normalize other.1).child name)
  entries : ∀ given ∈ classpaths, ∀ e ∈ given.2.entries, e.existsOn d₂ = e.existsOn d₁

/-- What can be checked of such a save where the path of the record is known. -/
def CanSaveAt (c : ClasspathCache) (d : Disk) (ws record : Path)
    (classpaths : List (Path × ResolvedClasspath)) : Prop :=
  (∀ name ∈ c.buildFileNames, 2 < name.toList.length ∧ '/' ∉ name.toList) ∧
    d.isDir ws.normal ∧ (∀ given ∈ classpaths, d.isDir given.1.normal) ∧
    (classpaths.Pairwise fun given other => d.normalize given.1 ≠ d.normalize other.1) ∧
    (∀ given ∈ classpaths, given.2.entries.length ≤ c.sampleSize) ∧
    (c.saveAt d record classpaths []).2 = none

instance (c : ClasspathCache) (d : Disk) (ws record : Path)
    (classpaths : List (Path × ResolvedClasspath)) :
    Decidable (c.CanSaveAt d ws record classpaths) :=
  inferInstanceAs (Decidable (_ ∧ _))

theorem CanSaveAt.savesDirectories {record : Path} {classpaths : List (Path × ResolvedClasspath)}
    (h : c.CanSaveAt d ws record classpaths) (hpath : c.recordPath d ws = record)
    (hsample : c.sample = fun size entries => entries.take size) :
    c.SavesDirectories d ws classpaths (c.saveAt d record classpaths []).1 := by
  obtain ⟨hnames, hroot, hdirs, hdistinct, hsampled, hsaved⟩ := h
  exact ⟨samples_of_take hsample, fun name hname => Path.isName_of_length (hnames name hname).1
    (hnames name hname).2, hdirs, hdistinct, hsampled, save_of_saveAt hroot hpath hsaved⟩

/-- A save where the path of the record is known is found again, if the root of the workspace keeps
its normal path and the path of the record does not go through its entry. -/
theorem load?_of_saveAt {record : Path} {classpaths : List (Path × ResolvedClasspath)}
    {dir : Place} {name : String} (h : c.CanSaveAt d ws record classpaths)
    (hpath : c.recordPath d ws = record)
    (hkept : (c.saveAt d record classpaths []).1.normalize ws = d.normalize ws)
    (hentry : (d.lock ⟨record.text ++ ".lock"⟩).1.entry record = .ok (dir, name))
    (hbare : ((d.lock ⟨record.text ++ ".lock"⟩).1.drop (dir ++ [name])).entry record =
      .ok (dir, name)) :
    c.load? (c.saveAt d record classpaths []).1 ws = some (c.recordOf d classpaths []) := by
  obtain ⟨-, hroot, -, -, -, hsaved⟩ := h
  have hsave := save_of_saveAt hroot hpath hsaved
  have hlockPath : c.lockPath d ws = ⟨record.text ++ ".lock"⟩ := by rw [lockPath, hpath]
  have hheld := hsave
  rw [save] at hheld
  obtain ⟨locked, hlock, -⟩ := locked_eq_ok.mp hheld
  have hextends := d.extends_lock (c.lockPath d ws)
  rw [← hlockPath, hlock] at hentry hbare
  rw [hlock] at hextends
  have hwhere : c.recordPath locked ws = record :=
    (recordPath_congr (hextends.frame.normalize hroot)).trans hpath
  refine load?_of_save hlock hsave ?_ ?_
  · rw [hwhere, recordPath_congr hkept, hpath]
  · rw [hwhere]
    exact Disk.not_goesThroughEntry_of_drop hentry hbare

/-- A cache in a project. -/
def innerCache : ClasspathCache where
  dir := ⟨"/ws"⟩
  buildFileNames := ["build.gradle"]

def rootRecord : String := "classpath-8a5edab282632443.json"

def ownRecord : Path := ⟨"/ws/classpath-8a5edab282632443.json"⟩

/-- The fingerprint of the root. -/
theorem recordPath_root (c : ClasspathCache) {d : Disk} {ws : Path} (h : d.normalize ws = ⟨"/"⟩) :
    c.recordPath d ws = c.dir.child rootRecord := by
  have hname : "classpath-" ++ (Fingerprint.ofText "/").take fingerprintDigits ++ ".json" =
      rootRecord := by
    decide +kernel
  rw [recordPath, h, hname]

/-- A cache that takes its own record for a build file. -/
def ownCache : ClasspathCache := { innerCache with buildFileNames := [rootRecord] }

def oneProject : Disk where
  nodes := .ofList [(["ws"], .dir)] Place.order
  cwd := []

def savedOwn : Disk := (ownCache.saveAt oneProject ownRecord [outerProject] []).1

theorem saves_own :
    ownCache.SavesDirectories oneProject ⟨"/"⟩ [outerProject] savedOwn ∧
      savedOwn.normalize ⟨"/ws"⟩ = oneProject.normalize ⟨"/ws"⟩ ∧
      ownCache.load? savedOwn ⟨"/"⟩ = some (ownCache.recordOf oneProject [outerProject] []) ∧
      ownCache.isValid savedOwn (ownCache.recordOf oneProject [outerProject] []) ⟨"/ws"⟩ =
        false := by
  have hfacts : ownCache.CanSaveAt oneProject ⟨"/"⟩ ownRecord [outerProject] ∧
      (∀ p ∈ [Path.mk "/", ⟨"/ws"⟩], savedOwn.normalize p = p ∧ oneProject.normalize p = p) ∧
      (oneProject.lock ⟨ownRecord.text ++ ".lock"⟩).1.entry ownRecord = .ok (["ws"], rootRecord) ∧
      ((oneProject.lock ⟨ownRecord.text ++ ".lock"⟩).1.drop (["ws"] ++ [rootRecord])).entry
        ownRecord = .ok (["ws"], rootRecord) ∧
      ownCache.isValid savedOwn (ownCache.recordOf oneProject [outerProject] []) ⟨"/ws"⟩ =
        false := by
    decide +kernel
  obtain ⟨hcan, hnormal, hentry, hbare, huntrusted⟩ := hfacts
  have hkept (p : Path) (hp : p ∈ [Path.mk "/", ⟨"/ws"⟩]) :
      savedOwn.normalize p = oneProject.normalize p :=
    (hnormal p hp).1.trans (hnormal p hp).2.symm
  have hpath : ownCache.recordPath oneProject ⟨"/"⟩ = ownRecord :=
    recordPath_root ownCache (hnormal _ (by simp)).2
  exact ⟨hcan.savesDirectories hpath rfl, hkept _ (by simp),
    load?_of_saveAt hcan hpath (hkept _ (by simp)) hentry hbare, huntrusted⟩

/-- A link to the root stands where the record of the root is to be. -/
def rootLink : Disk where
  nodes := .ofList [(["ws"], .dir), (["ws", rootRecord], .link "/")] Place.order
  cwd := []

def linkedProject : Path × ResolvedClasspath := (ownRecord, {})

def savedLinked : Disk := (innerCache.saveAt rootLink ownRecord [linkedProject] []).1

theorem saves_linked :
    innerCache.SavesDirectories rootLink ⟨"/"⟩ [linkedProject] savedLinked ∧
      savedLinked.file? ((rootLink.normalize ownRecord).child "build.gradle") =
        rootLink.file? ((rootLink.normalize ownRecord).child "build.gradle") ∧
      innerCache.load? savedLinked ⟨"/"⟩ =
        some (innerCache.recordOf rootLink [linkedProject] []) ∧
      innerCache.isValid savedLinked (innerCache.recordOf rootLink [linkedProject] []) ownRecord =
        false := by
  have hfacts : innerCache.CanSaveAt rootLink ⟨"/"⟩ ownRecord [linkedProject] ∧
      savedLinked.normalize ⟨"/"⟩ = ⟨"/"⟩ ∧ rootLink.normalize ⟨"/"⟩ = ⟨"/"⟩ ∧
      savedLinked.file? ((rootLink.normalize ownRecord).child "build.gradle") =
        rootLink.file? ((rootLink.normalize ownRecord).child "build.gradle") ∧
      (rootLink.lock ⟨ownRecord.text ++ ".lock"⟩).1.entry ownRecord = .ok (["ws"], rootRecord) ∧
      ((rootLink.lock ⟨ownRecord.text ++ ".lock"⟩).1.drop (["ws"] ++ [rootRecord])).entry
        ownRecord = .ok (["ws"], rootRecord) ∧
      innerCache.isValid savedLinked (innerCache.recordOf rootLink [linkedProject] []) ownRecord =
        false := by
    decide +kernel
  obtain ⟨hcan, hnormal', hnormal, hspared, hentry, hbare, huntrusted⟩ := hfacts
  have hpath : innerCache.recordPath rootLink ⟨"/"⟩ = ownRecord := recordPath_root innerCache hnormal
  exact ⟨hcan.savesDirectories hpath rfl, hspared,
    load?_of_saveAt hcan hpath (hnormal'.trans hnormal.symm) hentry hbare, huntrusted⟩

def savedOver : Disk := (innerCache.saveAt rootLink ownRecord [outerProject] []).1

/-- The link is the root of the workspace, and the record takes its place. -/
theorem saves_over :
    innerCache.SavesDirectories rootLink ownRecord [outerProject] savedOver ∧
      innerCache.Saves rootLink ownRecord [outerProject] [] savedOver ∧
      (∀ locked, rootLink.lock (innerCache.lockPath rootLink ownRecord) = (locked, none) →
        ¬ locked.GoesThroughEntry (innerCache.recordPath locked ownRecord)) ∧
      innerCache.load? savedOver ownRecord = none := by
  have hfacts : innerCache.CanSaveAt rootLink ownRecord ownRecord [outerProject] ∧
      (∀ given ∈ [outerProject], savedOver.normalize given.1 = rootLink.normalize given.1) ∧
      (∀ given ∈ [outerProject], ∀ name ∈ innerCache.buildFileNames,
        savedOver.file? ((rootLink.normalize given.1).child name) =
          rootLink.file? ((rootLink.normalize given.1).child name)) ∧
      rootLink.normalize ownRecord = ⟨"/"⟩ ∧
      (rootLink.lock ⟨ownRecord.text ++ ".lock"⟩).1.normalize ownRecord = ⟨"/"⟩ ∧
      (rootLink.lock ⟨ownRecord.text ++ ".lock"⟩).1.entry ownRecord = .ok (["ws"], rootRecord) ∧
      ((rootLink.lock ⟨ownRecord.text ++ ".lock"⟩).1.drop (["ws"] ++ [rootRecord])).entry
        ownRecord = .ok (["ws"], rootRecord) ∧
      innerCache.load? savedOver ownRecord = none := by
    decide +kernel
  obtain ⟨hcan, hkept, hspared, hnormal, hnormal', hentry, hbare, hlost⟩ := hfacts
  have hpath : innerCache.recordPath rootLink ownRecord = ownRecord :=
    recordPath_root innerCache hnormal
  have hsaves : innerCache.SavesDirectories rootLink ownRecord [outerProject] savedOver :=
    hcan.savesDirectories hpath rfl
  refine ⟨hsaves, hsaves.saves hkept hspared, fun locked hlock => ?_, hlost⟩
  rw [lockPath, hpath] at hlock
  rw [hlock] at hnormal' hentry hbare
  rw [show innerCache.recordPath locked ownRecord = ownRecord from
    recordPath_root innerCache hnormal']
  exact Disk.not_goesThroughEntry_of_drop hentry hbare

/-- A cache whose directory is found by way of the record. -/
def windingCache : ClasspathCache :=
  { innerCache with dir := ⟨"/ws/classpath-8a5edab282632443.json/.."⟩ }

def windingRecord : Path := windingCache.dir.child rootRecord

def innerLink : Disk where
  nodes := .ofList [(["ws"], .dir), (["ws", "app"], .dir), (["ws", rootRecord], .link "app")]
    Place.order
  cwd := []

def savedWinding : Disk := (windingCache.saveAt innerLink windingRecord [outerProject] []).1

theorem saves_winding :
    windingCache.SavesDirectories innerLink ⟨"/"⟩ [outerProject] savedWinding ∧
      windingCache.Saves innerLink ⟨"/"⟩ [outerProject] [] savedWinding ∧
      savedWinding.normalize ⟨"/"⟩ = innerLink.normalize ⟨"/"⟩ ∧
      windingCache.load? savedWinding ⟨"/"⟩ = none := by
  have hfacts : windingCache.CanSaveAt innerLink ⟨"/"⟩ windingRecord [outerProject] ∧
      (∀ given ∈ [outerProject], savedWinding.normalize given.1 = innerLink.normalize given.1) ∧
      (∀ given ∈ [outerProject], ∀ name ∈ windingCache.buildFileNames,
        savedWinding.file? ((innerLink.normalize given.1).child name) =
          innerLink.file? ((innerLink.normalize given.1).child name)) ∧
      innerLink.normalize ⟨"/"⟩ = ⟨"/"⟩ ∧ savedWinding.normalize ⟨"/"⟩ = ⟨"/"⟩ ∧
      savedWinding.bytes? windingRecord = none := by
    decide +kernel
  obtain ⟨hcan, hkept, hspared, hnormal, hnormal', hlost⟩ := hfacts
  have hpath (d : Disk) (h : d.normalize ⟨"/"⟩ = ⟨"/"⟩) :
      windingCache.recordPath d ⟨"/"⟩ = windingRecord :=
    recordPath_root windingCache h
  have hsaves : windingCache.SavesDirectories innerLink ⟨"/"⟩ [outerProject] savedWinding :=
    hcan.savesDirectories (hpath _ hnormal) rfl
  refine ⟨hsaves, hsaves.saves hkept hspared, hnormal'.trans hnormal.symm, ?_⟩
  rw [load?, hpath _ hnormal', hlost, Option.bind_none]

/-- A project is given by a link to it. -/
def aliased : Disk := twoProjects.put ["l"] (.link "/ws/app")

def aliasProject : Path × ResolvedClasspath := (⟨"/l"⟩, {})

def libProject : Path × ResolvedClasspath := (⟨"/ws/lib"⟩, {})

def savedAliased : Disk := (plainCache.saveAt aliased storedRecord [aliasProject, libProject] []).1

/-- The link leads elsewhere, and a build file is written. -/
def redirected (target : String) (project : Place) : Disk :=
  (savedAliased.put ["l"] (.link target)).put (project ++ ["build.gradle"]) (.file ⟨[1]⟩ 5000)

theorem saves_aliased :
    plainCache.SavesDirectories aliased ⟨"/ws"⟩ [aliasProject, libProject] savedAliased ∧
      plainCache.Saves aliased ⟨"/ws"⟩ [aliasProject, libProject] [] savedAliased ∧
      plainCache.load? savedAliased ⟨"/ws"⟩ =
        some (plainCache.recordOf aliased [aliasProject, libProject] []) := by
  have hfacts : plainCache.CanSaveAt aliased ⟨"/ws"⟩ storedRecord [aliasProject, libProject] ∧
      (∀ given ∈ [aliasProject, libProject],
        savedAliased.normalize given.1 = aliased.normalize given.1) ∧
      (∀ given ∈ [aliasProject, libProject], ∀ name ∈ plainCache.buildFileNames,
        savedAliased.file? ((aliased.normalize given.1).child name) =
          aliased.file? ((aliased.normalize given.1).child name)) ∧
      (∀ d ∈ [savedAliased, twoProjects], d.normalize ⟨"/ws"⟩ = aliased.normalize ⟨"/ws"⟩) ∧
      (aliased.lock ⟨storedRecord.text ++ ".lock"⟩).1.entry storedRecord =
        .ok (["cache"], "classpath-0c65a812b078db67.json") ∧
      ((aliased.lock ⟨storedRecord.text ++ ".lock"⟩).1.drop
        (["cache"] ++ ["classpath-0c65a812b078db67.json"])).entry storedRecord =
          .ok (["cache"], "classpath-0c65a812b078db67.json") := by
    decide +kernel
  obtain ⟨hcan, hkept, hspared, hnormal, hentry, hbare⟩ := hfacts
  have hpath : plainCache.recordPath aliased ⟨"/ws"⟩ = storedRecord :=
    (recordPath_congr (hnormal twoProjects (by simp)).symm).trans recordPath_twoProjects
  have hsaves : plainCache.SavesDirectories aliased ⟨"/ws"⟩ [aliasProject, libProject]
      savedAliased :=
    hcan.savesDirectories hpath rfl
  exact ⟨hsaves, hsaves.saves hkept hspared,
    load?_of_saveAt hcan hpath (hnormal savedAliased (by simp)) hentry hbare⟩

theorem aliasProject_ne : aliasProject ≠ libProject :=
  fun heq => absurd (congrArg Prod.fst heq) (by decide)

/-- What can be checked of a change that makes a build file longer. -/
theorem altersOnly_of_size {d₁ d₂ : Disk} {classpaths : List (Path × ResolvedClasspath)}
    {changed : Path × ResolvedClasspath} (hmem : changed ∈ classpaths)
    (h : (∃ name ∈ c.buildFileNames,
        (d₁.timeAndSize? ((d₁.normalize changed.1).child name)).map Prod.snd ≠
          (d₂.timeAndSize? ((d₁.normalize changed.1).child name)).map Prod.snd) ∧
      (∀ other ∈ classpaths, other ≠ changed → ∀ name ∈ c.buildFileNames,
        d₂.file? ((d₁.normalize other.1).child name) =
          d₁.file? ((d₁.normalize other.1).child name)) ∧
      ∀ given ∈ classpaths, given.2.entries = []) :
    c.AltersOnly d₁ d₂ classpaths changed := by
  obtain ⟨⟨name, hname, hsizes⟩, hspared, hentries⟩ := h
  refine ⟨hmem, ⟨name, hname, Disk.alters_of_size hsizes⟩, hspared, fun given hgiven e he => ?_⟩
  rw [hentries given hgiven] at he
  contradiction

theorem altersOnly_alias : plainCache.AltersOnly savedAliased (redirected "/ws/lib" ["ws", "app"])
    [aliasProject, libProject] aliasProject :=
  altersOnly_of_size (by simp) (by decide +kernel)

theorem altersOnly_lib : plainCache.AltersOnly savedAliased (redirected "/ws" ["ws", "lib"])
    [aliasProject, libProject] libProject :=
  altersOnly_of_size (by simp) (by decide +kernel)

theorem isValid_redirected :
    plainCache.isValid (redirected "/ws/lib" ["ws", "app"])
        (plainCache.recordOf aliased [aliasProject, libProject] []) aliasProject.1 = true ∧
      plainCache.isValid (redirected "/ws" ["ws", "lib"])
        (plainCache.recordOf aliased [aliasProject, libProject] []) aliasProject.1 = false := by
  decide +kernel

/-- Saved classpaths can be untrusted although their entries are there, if the record is a build
file or takes the place of a link to a project. The record is not found if it takes the place of a
link to the workspace or of one on its own way. When the link to a project is redirected later, the
project can stay trusted although its build file was altered, and it can lose trust although none
was. -/
theorem not_trust_of_saves :
    (¬ ∀ (c : ClasspathCache) (d d₁ : Disk) (ws : Path)
        (classpaths : List (Path × ResolvedClasspath)) (record : ClasspathRecord),
      c.SavesDirectories d ws classpaths d₁ →
      (∀ given ∈ classpaths, d₁.normalize given.1 = d.normalize given.1) →
      c.load? d₁ ws = some record →
      ∀ given ∈ classpaths, c.isValid d₁ record given.1 ↔ ∀ e ∈ given.2.entries, e.existsOn d₁) ∧
    (¬ ∀ (c : ClasspathCache) (d d₁ : Disk) (ws : Path)
        (classpaths : List (Path × ResolvedClasspath)) (record : ClasspathRecord),
      c.SavesDirectories d ws classpaths d₁ →
      (∀ given ∈ classpaths, ∀ name ∈ c.buildFileNames,
        d₁.file? ((d.normalize given.1).child name) =
          d.file? ((d.normalize given.1).child name)) →
      c.load? d₁ ws = some record →
      ∀ given ∈ classpaths, c.isValid d₁ record given.1 ↔ ∀ e ∈ given.2.entries, e.existsOn d₁) ∧
    (¬ ∀ (c : ClasspathCache) (d d₁ : Disk) (ws : Path)
        (classpaths : List (Path × ResolvedClasspath)),
      c.SavesDirectories d ws classpaths d₁ → c.Saves d ws classpaths [] d₁ →
      (∀ locked, d.lock (c.lockPath d ws) = (locked, none) →
        ¬ locked.GoesThroughEntry (c.recordPath locked ws)) →
      c.load? d₁ ws ≠ none) ∧
    (¬ ∀ (c : ClasspathCache) (d d₁ : Disk) (ws : Path)
        (classpaths : List (Path × ResolvedClasspath)),
      c.SavesDirectories d ws classpaths d₁ → c.Saves d ws classpaths [] d₁ →
      d₁.normalize ws = d.normalize ws → c.load? d₁ ws ≠ none) ∧
    (¬ ∀ (c : ClasspathCache) (d d₁ d₂ : Disk) (ws : Path)
        (classpaths : List (Path × ResolvedClasspath)) (record : ClasspathRecord)
        (changed : Path × ResolvedClasspath),
      c.SavesDirectories d ws classpaths d₁ → c.Saves d ws classpaths [] d₁ →
      c.load? d₁ ws = some record → c.AltersOnly d₁ d₂ classpaths changed →
      c.isValid d₂ record changed.1 = false) ∧
    ¬ ∀ (c : ClasspathCache) (d d₁ d₂ : Disk) (ws : Path)
        (classpaths : List (Path × ResolvedClasspath)) (record : ClasspathRecord)
        (changed : Path × ResolvedClasspath),
      c.SavesDirectories d ws classpaths d₁ → c.Saves d ws classpaths [] d₁ →
      c.load? d₁ ws = some record → c.AltersOnly d₁ d₂ classpaths changed →
      ∀ other ∈ classpaths, other ≠ changed →
        c.isValid d₂ record other.1 = c.isValid d₁ record other.1 := by
  refine ⟨fun h => ?_, fun h => ?_, fun h => ?_, fun h => ?_, fun h => ?_, fun h => ?_⟩
  · obtain ⟨hsaves, hkept, hloaded, huntrusted⟩ := saves_own
    have hvalid := h ownCache oneProject savedOwn ⟨"/"⟩ [outerProject] _ hsaves
      (List.forall_mem_singleton.mpr hkept) hloaded outerProject List.mem_cons_self
    exact Bool.false_ne_true (huntrusted.symm.trans (hvalid.mpr (List.forall_mem_nil _)))
  · obtain ⟨hsaves, hspared, hloaded, huntrusted⟩ := saves_linked
    have hvalid := h innerCache rootLink savedLinked ⟨"/"⟩ [linkedProject] _ hsaves
      (List.forall_mem_singleton.mpr (List.forall_mem_singleton.mpr hspared)) hloaded linkedProject
      List.mem_cons_self
    exact Bool.false_ne_true (huntrusted.symm.trans (hvalid.mpr (List.forall_mem_nil _)))
  · obtain ⟨hsaves, hsaved, hway, hlost⟩ := saves_over
    exact h innerCache rootLink savedOver ownRecord [outerProject] hsaves hsaved hway hlost
  · obtain ⟨hsaves, hsaved, hkept, hlost⟩ := saves_winding
    exact h windingCache innerLink savedWinding ⟨"/"⟩ [outerProject] hsaves hsaved hkept hlost
  · obtain ⟨hsaves, hsaved, hloaded⟩ := saves_aliased
    have hfalse := h plainCache aliased savedAliased _ ⟨"/ws"⟩ [aliasProject, libProject] _
      aliasProject hsaves hsaved hloaded altersOnly_alias
    exact Bool.false_ne_true (hfalse.symm.trans isValid_redirected.1)
  · obtain ⟨hsaves, hsaved, hloaded⟩ := saves_aliased
    have hsame := h plainCache aliased savedAliased _ ⟨"/ws"⟩ [aliasProject, libProject] _
      libProject hsaves hsaved hloaded altersOnly_lib aliasProject List.mem_cons_self
      aliasProject_ne
    have hvalid := (hsaved.isValid_iff hsaves.samples List.mem_cons_self rfl).mpr
      ⟨fun _ _ => rfl, List.forall_mem_nil _⟩
    exact Bool.false_ne_true (isValid_redirected.2.symm.trans (hsame.trans hvalid))

end ClasspathCache

end Workbench
