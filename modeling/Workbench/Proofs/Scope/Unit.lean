import Workbench.Scope.Unit

/-!
The sources of a unit after files were read. Sources that are taken in win over those that were
there. Patching divides the files of the new unit in three: the stale ones, which were read again;
those that came in, which are reported as added; and all others, which the patch leaves alone and
reports neither as added nor as removed.
-/

namespace Workbench

/-! ### Sources taken in -/

namespace SourceSet

theorem getElem?_foldl_insert (sources : List SourceFile) (set : SourceSet) (file : FileId) :
    (sources.foldl (fun set source => set.insert source.file source) set)[file]? =
      (ofList sources)[file]?.or set[file]? := by
  unfold ofList
  induction sources generalizing set with
  | nil => simp
  | cons source rest ih =>
      simp only [List.foldl_cons]
      rw [ih, ih (Std.ExtTreeMap.insert ∅ source.file source), Option.or_assoc]
      congr 1
      by_cases h : source.file = file <;> simp [Std.ExtTreeMap.getElem?_insert, h]

theorem mem_ofList {sources : List SourceFile} {file : FileId} :
    file ∈ ofList sources ↔ file ∈ sources.map SourceFile.file := by
  have hfold (set : SourceSet) :
      file ∈ sources.foldl (fun set source => set.insert source.file source) set ↔
        file ∈ sources.map SourceFile.file ∨ file ∈ set := by
    induction sources generalizing set with
    | nil => simp
    | cons source rest ih =>
        rw [List.foldl_cons, ih, Std.ExtTreeMap.mem_insert, Std.LawfulEqCmp.compare_eq_iff_eq,
          List.map_cons, List.mem_cons, or_left_comm, or_assoc, eq_comm]
  rw [ofList, hfold ∅]
  simp

theorem isSome_getElem?_ofList {sources : List SourceFile} {file : FileId} :
    (ofList sources)[file]?.isSome ↔ file ∈ sources.map SourceFile.file := by
  rw [Std.ExtTreeMap.isSome_getElem?_iff_mem, mem_ofList]

end SourceSet

namespace CompilationUnit

theorem contains_eq_isSome (u : CompilationUnit) (file : FileId) :
    u.contains file = u.sources[file]?.isSome :=
  Std.ExtTreeMap.contains_eq_isSome_getElem?

theorem sources_insertAll (u : CompilationUnit) (sources : List SourceFile) :
    (u.insertAll sources).sources =
      sources.foldl (fun set source => set.insert source.file source) u.sources := by
  induction sources generalizing u with
  | nil => rfl
  | cons source rest ih => exact ih (u.insert source)

/-- The sources that a unit takes in win over those it had. -/
theorem getElem?_insertAll (u : CompilationUnit) (sources : List SourceFile) (file : FileId) :
    (u.insertAll sources).sources[file]? =
      (SourceSet.ofList sources)[file]?.or u.sources[file]? := by
  rw [sources_insertAll, SourceSet.getElem?_foldl_insert]

section

variable {files : List FileId} {sources : List SourceFile}

/-- The files that were just read have the sources that were read. -/
theorem getElem?_insertAll_of_mem (hfiles : sources.map SourceFile.file = files)
    (unit : CompilationUnit) {file : FileId} (h : file ∈ files) :
    (unit.insertAll sources).sources[file]? = (SourceSet.ofList sources)[file]? := by
  have hsome := SourceSet.isSome_getElem?_ofList.mpr (hfiles ▸ h)
  rw [getElem?_insertAll, Option.or_of_isSome hsome]

/-- All other files have the sources they had. -/
theorem getElem?_insertAll_of_not_mem (hfiles : sources.map SourceFile.file = files)
    (unit : CompilationUnit) {file : FileId} (h : file ∉ files) :
    (unit.insertAll sources).sources[file]? = unit.sources[file]? := by
  have hnone : (SourceSet.ofList sources)[file]? = none :=
    Option.not_isSome_iff_eq_none.mp fun hsome =>
      h (hfiles ▸ SourceSet.isSome_getElem?_ofList.mp hsome)
  rw [getElem?_insertAll, hnone, Option.none_or]

end

end CompilationUnit

/-- Files that could all be read give their sources in order. -/
theorem Bench.file_of_readAll {κ : Type} {b b' : Bench κ} {d : Disk} {files : List FileId}
    {sources : List SourceFile} (h : b.readAll d files = (b', some sources)) :
    sources.map SourceFile.file = files := by
  induction files generalizing b b' sources with
  | nil =>
      simp only [readAll, Prod.mk.injEq, Option.some.injEq] at h
      simp [← h.2]
  | cons file rest ih =>
      rw [readAll] at h
      split at h
      · simp at h
      · rename_i p hp
        split at h
        · simp at h
        · rename_i b₁ source hread
          obtain ⟨more, hmore, rfl⟩ := Option.map_eq_some_iff.mp (Prod.mk.inj h).2
          have hsource : source.file = file := by
            obtain ⟨-, htext⟩ := Prod.mk.inj hread
            obtain ⟨text, -, rfl⟩ := Option.map_eq_some_iff.mp htext
            rfl
          rw [List.map_cons, hsource, ih (Prod.ext rfl hmore)]

/-- Only the files that were to be read give sources. -/
theorem Bench.file_of_readSome {κ : Type} (b : Bench κ) (d : Disk) (files : List (FileId × Path)) :
    ∀ source ∈ (b.readSome d files).2, source.file ∈ files.map Prod.fst := by
  induction files generalizing b with
  | nil => exact fun source h => absurd h List.not_mem_nil
  | cons entry rest ih =>
      intro source hsource
      rcases List.mem_append.mp hsource with hfirst | hrest
      · obtain ⟨text, -, rfl⟩ := Option.map_eq_some_iff.mp (Option.mem_toList.mp hfirst)
        exact List.mem_cons_self
      · exact List.mem_cons_of_mem _ (ih _ source hrest)

/-! ### Patches -/

namespace CompilationUnit

variable {κ : Type}

theorem getElem?_foldl_erase (files : List FileId) (u : CompilationUnit) (file : FileId) :
    (files.foldl erase u).sources[file]? = if file ∈ files then none else u.sources[file]? := by
  induction files generalizing u with
  | nil => simp
  | cons gone rest ih =>
      rw [List.foldl_cons, ih]
      by_cases hrest : file ∈ rest
      · simp [hrest]
      · by_cases hgone : file = gone
        · simp [hgone, erase]
        · simp [hrest, hgone, erase, Std.ExtTreeMap.getElem?_erase, Ne.symm hgone]

namespace Patch

/-- A patch as far as one file is concerned. -/
def view (patch : Patch) (file : FileId) : Option SourceFile × Bool × Bool :=
  (patch.unit.sources[file]?, patch.added.contains file, patch.removed.contains file)

/-- The start keeps the admitted files of the unit. -/
theorem view_start_of_mem {u : CompilationUnit} {admitted : List (FileId × Path)} {file : FileId}
    (h : file ∈ admitted.map Prod.fst) :
    (start u admitted).view file = (u.sources[file]?, false, false) := by
  have hgone : file ∉ u.files.filter fun file => !(admitted.map Prod.fst).contains file := by
    rw [List.mem_filter]
    rintro ⟨-, hnot⟩
    rw [List.contains_iff_mem.mpr h] at hnot
    contradiction
  have hremoved : (start u admitted).removed.contains file = false := by
    rw [Bool.eq_false_iff]
    intro hmem
    rw [start, Std.ExtTreeSet.contains_ofList] at hmem
    exact hgone (List.contains_iff_mem.mp hmem)
  rw [view, hremoved]
  simp only [start, getElem?_foldl_erase, if_neg hgone, Std.ExtTreeSet.contains_empty]

/-- What is not admitted has left the unit at the start. -/
theorem view_start_of_not_mem {u : CompilationUnit} {admitted : List (FileId × Path)}
    {file : FileId} (h : file ∉ admitted.map Prod.fst) :
    (start u admitted).unit.sources[file]? = none := by
  have hkept : (admitted.map Prod.fst).contains file = false := by
    rw [Bool.eq_false_iff]
    exact fun hmem => h (List.contains_iff_mem.mp hmem)
  simp only [start, getElem?_foldl_erase, List.mem_filter, hkept, Bool.not_false, and_true,
    files, Std.ExtTreeMap.mem_keys]
  split
  · rfl
  · rename_i hmem
    exact Std.ExtTreeMap.getElem?_eq_none hmem

/-- Visiting a file does nothing to the others. -/
theorem view_visit_of_ne (b : Bench κ) (d : Disk) (stale : Std.ExtTreeSet FileId) (patch : Patch)
    {visited file : FileId} (p : Path) (h : file ≠ visited) :
    ((patch.visit b d stale visited p).2).view file = patch.view file := by
  have hfile {b' : Bench κ} {source : SourceFile}
      (hread : b.read d visited p = (b', some source)) : source.file = visited := by
    obtain ⟨-, htext⟩ := Prod.mk.inj hread
    obtain ⟨text, -, rfl⟩ := Option.map_eq_some_iff.mp htext
    rfl
  simp only [visit]
  split
  · rfl
  · split
    · rename_i b' source hread
      simp only [view, insert, hfile hread]
      split <;> simp [Std.ExtTreeMap.getElem?_insert, Std.ExtTreeSet.contains_insert, Ne.symm h]
    · simp only [view, erase]
      split <;> simp [Std.ExtTreeMap.getElem?_erase, Std.ExtTreeSet.contains_insert, Ne.symm h]

/-- A file of the unit that is not stale is skipped. -/
theorem visit_of_known (b : Bench κ) (d : Disk) {stale : Std.ExtTreeSet FileId} {patch : Patch}
    {file : FileId} (p : Path) (hknown : patch.unit.contains file) (hstale : file ∉ stale) :
    patch.visit b d stale file p = (b, patch) := by
  have hfresh : stale.contains file = false := by
    rw [Bool.eq_false_iff]
    exact fun hmem => hstale (Std.ExtTreeSet.mem_iff_contains.mpr hmem)
  simp [visit, hknown, hfresh]

theorem view_visitAll_of_not_mem (b : Bench κ) (d : Disk) (stale : Std.ExtTreeSet FileId)
    (patch : Patch) {admitted : List (FileId × Path)} {file : FileId}
    (h : file ∉ admitted.map Prod.fst) :
    ((patch.visitAll b d stale admitted).2).view file = patch.view file := by
  induction admitted generalizing b patch with
  | nil => rfl
  | cons entry rest ih =>
      simp only [List.map_cons, List.mem_cons, not_or] at h
      rw [visitAll, ih _ _ h.2, view_visit_of_ne b d stale patch entry.2 h.1]

theorem view_visitAll_of_known (b : Bench κ) (d : Disk) {stale : Std.ExtTreeSet FileId}
    {patch : Patch} (admitted : List (FileId × Path)) {file : FileId}
    (hknown : patch.unit.contains file) (hstale : file ∉ stale) :
    ((patch.visitAll b d stale admitted).2).view file = patch.view file := by
  induction admitted generalizing b patch with
  | nil => rfl
  | cons entry rest ih =>
      rw [visitAll]
      by_cases h : file = entry.1
      · rw [visit_of_known b d entry.2 (h ▸ hknown) (h ▸ hstale)]
        exact ih b hknown
      · have hview := view_visit_of_ne b d stale patch entry.2 h
        have hstill : ((patch.visit b d stale entry.1 entry.2).2).unit.contains file := by
          rw [contains_eq_isSome] at hknown ⊢
          rw [(Prod.mk.inj hview).1, hknown]
        rw [ih _ hstill, hview]

/-- A file that comes into the unit by a visit is added. -/
theorem mem_added_of_visit (b : Bench κ) (d : Disk) (stale : Std.ExtTreeSet FileId)
    {patch : Patch} (visited : FileId) (p : Path) {file : FileId}
    (hpatch : patch.unit.contains file → file ∈ patch.added)
    (h : ((patch.visit b d stale visited p).2).unit.contains file) :
    file ∈ ((patch.visit b d stale visited p).2).added := by
  by_cases hfile : file = visited
  · subst file
    revert h
    simp only [visit]
    split
    case isTrue => exact hpatch
    case isFalse =>
      split
      · intro _
        dsimp only
        split
        · exact hpatch ‹_›
        · exact Std.ExtTreeSet.mem_insert_self
      · simp [contains_eq_isSome, erase]
  · have hview := view_visit_of_ne b d stale patch p hfile
    simp only [view, Prod.mk.injEq] at hview
    rw [contains_eq_isSome, hview.1, ← contains_eq_isSome] at h
    rw [Std.ExtTreeSet.mem_iff_contains, hview.2.1]
    exact hpatch h

theorem mem_added_of_visitAll (b : Bench κ) (d : Disk) (stale : Std.ExtTreeSet FileId)
    {patch : Patch} (admitted : List (FileId × Path)) {file : FileId}
    (hpatch : patch.unit.contains file → file ∈ patch.added)
    (h : ((patch.visitAll b d stale admitted).2).unit.contains file) :
    file ∈ ((patch.visitAll b d stale admitted).2).added := by
  induction admitted generalizing b patch with
  | nil => exact hpatch h
  | cons entry rest ih => exact ih _ (mem_added_of_visit b d stale entry.1 entry.2 hpatch) h

end Patch

/-- A file that stays in the unit and is not stale keeps its source, and the patch reports nothing
about it. -/
theorem view_patch_of_known (u : CompilationUnit) (b : Bench κ) (d : Disk)
    (admitted : List (FileId × Path)) {stale : Std.ExtTreeSet FileId} {file : FileId}
    (hknown : u.contains file) (hstale : file ∉ stale)
    (hstays : ((u.patch b d admitted stale).2).unit.contains file) :
    ((u.patch b d admitted stale).2).view file = (u.sources[file]?, false, false) := by
  rw [patch] at hstays ⊢
  by_cases hadmitted : file ∈ admitted.map Prod.fst
  · have hstart := Patch.view_start_of_mem (u := u) hadmitted
    have hkept : (Patch.start u admitted).unit.contains file := by
      rw [contains_eq_isSome] at hknown ⊢
      rw [(Prod.mk.inj hstart).1, hknown]
    rw [Patch.view_visitAll_of_known b d admitted hkept hstale, hstart]
  · -- What is not admitted leaves at the start and is not visited, so it cannot have stayed.
    have hview := Patch.view_visitAll_of_not_mem b d stale (Patch.start u admitted) hadmitted
    have hgone := Patch.view_start_of_not_mem (u := u) hadmitted
    rw [contains_eq_isSome, (Prod.mk.inj hview).1, hgone] at hstays
    contradiction

/-- A file that the unit did not have before a patch is added by it. -/
theorem mem_added_of_new (u : CompilationUnit) (b : Bench κ) (d : Disk)
    (admitted : List (FileId × Path)) {stale : Std.ExtTreeSet FileId} {file : FileId}
    (hnew : ¬ u.contains file) (hin : ((u.patch b d admitted stale).2).unit.contains file) :
    file ∈ ((u.patch b d admitted stale).2).added := by
  apply Patch.mem_added_of_visitAll b d stale admitted _ hin
  intro hstart
  rw [contains_eq_isSome, Patch.start, getElem?_foldl_erase] at hstart
  split at hstart
  · contradiction
  · rw [← contains_eq_isSome] at hstart
    exact absurd hstart hnew

/-! ### Files that leave -/

/-- In a patch on its way, the file is in the unit or among those removed. -/
def Patch.Accounts (patch : Patch) (file : FileId) : Prop :=
  patch.unit.contains file ∨ file ∈ patch.removed

theorem Patch.accounts_start {u : CompilationUnit} {admitted : List (FileId × Path)}
    {file : FileId} (hfile : u.contains file) : (Patch.start u admitted).Accounts file := by
  by_cases hadmitted : file ∈ admitted.map Prod.fst
  · left
    rw [contains_eq_isSome, (Prod.mk.inj (view_start_of_mem hadmitted)).1, ← contains_eq_isSome]
    exact hfile
  · right
    have hgone : file ∈ u.files.filter fun file => !(admitted.map Prod.fst).contains file := by
      rw [List.mem_filter, Bool.not_eq_true', ← Bool.not_eq_true, List.contains_iff_mem]
      exact ⟨Std.ExtTreeMap.mem_keys.mpr (Std.ExtTreeMap.mem_iff_contains.mpr hfile), hadmitted⟩
    rw [start, Std.ExtTreeSet.mem_ofList, List.contains_iff_mem]
    exact hgone

theorem Patch.Accounts.visit {patch : Patch} {file : FileId} (h : patch.Accounts file)
    (b : Bench κ) (d : Disk) (stale : Std.ExtTreeSet FileId) (visited : FileId) (p : Path) :
    ((patch.visit b d stale visited p).2).Accounts file := by
  by_cases hfile : file = visited
  · subst file
    simp only [Patch.visit]
    split
    · exact h
    · split
      · rename_i b' source hread
        left
        obtain ⟨-, htext⟩ := Prod.mk.inj hread
        obtain ⟨text, -, rfl⟩ := Option.map_eq_some_iff.mp htext
        exact Std.ExtTreeMap.contains_insert_self
      · right
        dsimp only
        split
        · exact Std.ExtTreeSet.mem_insert_self
        · exact h.resolve_left ‹_›
  · have hview := view_visit_of_ne b d stale patch p hfile
    simp only [view, Prod.mk.injEq] at hview
    rw [Accounts, contains_eq_isSome, Std.ExtTreeSet.mem_iff_contains] at h ⊢
    rwa [hview.1, hview.2.2]

/-- A file of the unit before a patch is in the unit after it or among those removed. -/
theorem accounts_patch {u : CompilationUnit} {file : FileId} (hfile : u.contains file)
    (b : Bench κ) (d : Disk) (admitted : List (FileId × Path)) (stale : Std.ExtTreeSet FileId) :
    ((u.patch b d admitted stale).2).Accounts file := by
  have hvisited (entries : List (FileId × Path)) (b : Bench κ) {patch : Patch}
      (h : patch.Accounts file) : ((patch.visitAll b d stale entries).2).Accounts file := by
    induction entries generalizing b patch with
    | nil => exact h
    | cons entry rest ih => exact ih _ (h.visit b d stale entry.1 entry.2)
  exact hvisited admitted b (Patch.accounts_start hfile)

end CompilationUnit

end Workbench
