import Workbench.Proofs.Scope.Unit
import Workbench.Proofs.Tracker.Provenance

/-!
A patched unit against a new one. Every admitted file is visited, and what a patch makes of a file
can be read off its visits alone. If the files that the patch passes over still have the sources
that the unit has of them, the unit is the one that would be built anew. This takes a tracker whose
answers do not change while files are read; they can change when a kept text is pushed out that the
disk no longer holds. What the patch reports as added and removed does not depend on that, as long
as no file is listed twice.
-/

namespace Workbench

/-! ### Answers that do not change -/

namespace Tracker

/-- Every kept text is what the disk holds. -/
def KeepsCurrent (t : Tracker) (d : Disk) : Prop :=
  ∀ entry ∈ t.closed.entries, ∀ p, t.path? entry.1 = some p → d.text? p = some entry.2.text

/-- The text of the open document of a file, or else what the disk holds. -/
def currentText? (t : Tracker) (d : Disk) (file : FileId) : Option String :=
  (t.path? file).bind fun p =>
    (t.documents[file]?.map fun document => document.served.text).or (d.text? p)

variable {t : Tracker} {d : Disk}

theorem registry_keptText? (t : Tracker) (file : FileId) :
    (t.keptText? file).1.registry = t.registry := by
  rcases t.keptText?_cases file with heq | heq | heq <;> rw [heq]
  rfl

theorem registry_textOf (t : Tracker) (d : Disk) (file : FileId) (p : Path) :
    (t.textOf d file p).1.registry = t.registry := by
  have hkept := t.registry_keptText? file
  rcases t.textOf_cases d file p with heq | heq | ⟨text, heq, -⟩ <;> rw [heq]
  · exact hkept
  · exact hkept

/-- Reading does not change which text is current. -/
theorem currentText?_contentsOfId (t : Tracker) (d : Disk) (read : FileId) :
    (t.contentsOfId d read).1.currentText? d = t.currentText? d := by
  have hdocuments := (t.consulted_contentsOfId d read).documents_eq
  have hregistry : (t.contentsOfId d read).1.registry = t.registry := by
    unfold contentsOfId
    split
    · exact t.registry_textOf d read _
    · rfl
  funext file
  rw [currentText?, path?, hregistry, hdocuments]
  rfl

namespace KeepsCurrent

theorem contentsOfId (h : t.KeepsCurrent d) (read : FileId) :
    (t.contentsOfId d read).1.KeepsCurrent d := by
  unfold Tracker.contentsOfId
  split
  case h_1 p hp =>
    intro entry hentry q hq
    rw [path?, t.registry_textOf d read p] at hq
    rcases mem_closed_textOf hentry with hbefore | ⟨rfl, -, htext⟩
    · exact h entry hbefore q hq
    · exact Option.some.inj (hp.symm.trans hq) ▸ htext
  case h_2 => exact h

theorem snd_contentsOfId (h : t.KeepsCurrent d) (file : FileId) :
    (t.contentsOfId d file).2 = t.currentText? d file := by
  unfold Tracker.contentsOfId currentText?
  split
  case h_1 p hp =>
    rw [textOf_eq, hp, Option.bind_some]
    congr 1
    cases hkept : (t.keptText? file).2 with
    | none => rfl
    | some text =>
        obtain ⟨kept, hfound, -, rfl⟩ := keptText?_eq_some.mp hkept
        exact (h _ (ClosedTexts.mem_of_get? hfound) p hp).symm
  case h_2 hnone => rw [hnone, Option.bind_none]

end KeepsCurrent

end Tracker

namespace Bench

variable {κ : Type} {b : Bench κ} {d : Disk} {files : List FileId}
  {answers : FileId → Option String}

/-- However many of some files are read, and in whichever order, every reading of one of them has
the answer given for it. -/
def AnswersBy (b : Bench κ) (d : Disk) (files : List FileId) (answers : FileId → Option String) :
    Prop :=
  ∀ readings : List (FileId × Path), (∀ entry ∈ readings, entry.1 ∈ files) → ∀ file ∈ files,
    ((b.readSome d readings).1.tracker.contentsOfId d file).2 = answers file

theorem readSome_append (b : Bench κ) (d : Disk) (first second : List (FileId × Path)) :
    (b.readSome d (first ++ second)).1 = ((b.readSome d first).1.readSome d second).1 := by
  induction first generalizing b with
  | nil => rfl
  | cons entry rest ih => exact ih (b.read d entry.1 entry.2).1

theorem AnswersBy.readSome (h : b.AnswersBy d files answers) {readings : List (FileId × Path)}
    (hreadings : ∀ entry ∈ readings, entry.1 ∈ files) :
    (b.readSome d readings).1.AnswersBy d files answers := by
  intro more hmore file hfile
  rw [← readSome_append]
  exact h _ (List.forall_mem_append.mpr ⟨hreadings, hmore⟩) file hfile

theorem AnswersBy.snd_read (h : b.AnswersBy d files answers) {file : FileId} (hfile : file ∈ files)
    (p : Path) : (b.read d file p).2 = (answers file).map (SourceFile.mk file p) := by
  rw [← h [] (List.forall_mem_nil _) file hfile]
  rfl

/-- A tracker that keeps only what the disk holds does not change its answers. -/
theorem answersBy_of_keepsCurrent (h : b.tracker.KeepsCurrent d) (files : List FileId) :
    b.AnswersBy d files (b.tracker.currentText? d) := by
  intro readings hreadings file hfile
  clear hreadings
  induction readings generalizing b with
  | nil => exact h.snd_contentsOfId file
  | cons entry rest ih =>
      rw [← b.tracker.currentText?_contentsOfId d entry.1]
      exact ih (b := (b.read d entry.1 entry.2).1) (h.contentsOfId entry.1)

end Bench

/-! ### New units -/

theorem SourceSet.getElem?_ofList_append (first second : List SourceFile) (file : FileId) :
    (ofList (first ++ second))[file]? = (ofList second)[file]?.or (ofList first)[file]? := by
  rw [ofList, List.foldl_append, getElem?_foldl_insert]
  rfl

namespace CompilationUnit

variable {κ : Type} {b : Bench κ} {d : Disk} {files : List FileId}
  {answers : FileId → Option String} {admitted : List (FileId × Path)} {file : FileId} {p : Path}

theorem getElem?_build_of_not_mem (b : Bench κ) (d : Disk) (h : file ∉ admitted.map Prod.fst) :
    (build b d admitted).2.sources[file]? = none := by
  refine Option.not_isSome_iff_eq_none.mp fun hsome => h ?_
  obtain ⟨source, hsource, rfl⟩ := List.mem_map.mp (SourceSet.isSome_getElem?_ofList.mp hsome)
  exact b.file_of_readSome d admitted source hsource

theorem getElem?_build (hanswers : b.AnswersBy d files answers)
    (hfiles : ∀ entry ∈ admitted, entry.1 ∈ files) (hnodup : (admitted.map Prod.fst).Nodup)
    (hmem : (file, p) ∈ admitted) :
    (build b d admitted).2.sources[file]? = (answers file).map (SourceFile.mk file p) := by
  induction admitted generalizing b with
  | nil => exact absurd hmem List.not_mem_nil
  | cons entry rest ih =>
      obtain ⟨hfirst, hrest⟩ := List.forall_mem_cons.mp hfiles
      obtain ⟨hnot, hnodup⟩ := List.nodup_cons.mp hnodup
      have hread := hanswers.snd_read hfirst entry.2
      have hlater : (b.readSome d [entry]).1.AnswersBy d files answers :=
        hanswers.readSome (List.forall_mem_singleton.mpr hfirst)
      have hsplit : (build b d (entry :: rest)).2.sources =
          SourceSet.ofList ((b.read d entry.1 entry.2).2.toList ++
            ((b.read d entry.1 entry.2).1.readSome d rest).2) := rfl
      rw [hsplit, SourceSet.getElem?_ofList_append, hread]
      rcases List.mem_cons.mp hmem with rfl | hmem
      · have hnone := getElem?_build_of_not_mem (b.read d file p).1 d hnot
        rw [build] at hnone
        rw [hnone, Option.none_or]
        cases answers file <;> simp [SourceSet.ofList]
      · have hfile : entry.1 ≠ file := by
          rintro rfl
          exact hnot (List.mem_map.mpr ⟨_, hmem, rfl⟩)
        have hothers := ih hlater hrest hnodup hmem
        rw [build] at hothers
        have hnone : (SourceSet.ofList
            ((answers entry.1).map (SourceFile.mk entry.1 entry.2)).toList)[file]? = none := by
          cases answers entry.1 <;> simp [SourceSet.ofList, hfile]
        rw [hnone, Option.or_none]
        exact hothers

/-! ### One visit -/

namespace Patch

variable {stale : Std.ExtTreeSet FileId} {patch : Patch} {u : CompilationUnit}

/-- What a visit makes of its file. -/
theorem view_visit_self (b : Bench κ) (d : Disk) (stale : Std.ExtTreeSet FileId) (patch : Patch)
    (file : FileId) (p : Path) :
    ((patch.visit b d stale file p).2).view file =
      if patch.unit.contains file ∧ file ∉ stale then patch.view file
      else ((b.read d file p).2,
        patch.added.contains file || (!patch.unit.contains file && (b.read d file p).2.isSome),
        patch.removed.contains file || (patch.unit.contains file && !(b.read d file p).2.isSome)) :=
    by
  by_cases hskipped : patch.unit.contains file ∧ file ∉ stale
  · rw [if_pos hskipped, visit_of_known b d p hskipped.1 hskipped.2]
  · rw [if_neg hskipped, visit]
    have hvisited : ¬ (patch.unit.contains file && !stale.contains file) := by
      rwa [Bool.and_eq_true, Bool.not_eq_true', Bool.eq_false_iff, ne_eq,
        Std.ExtTreeSet.contains_iff_mem]
    rw [if_neg hvisited]
    have hread : ∀ source, (b.read d file p).2 = some source → source.file = file := by
      intro source hsource
      obtain ⟨text, -, rfl⟩ := Option.map_eq_some_iff.mp hsource
      rfl
    cases hfound : b.read d file p with
    | mk b' source =>
        rw [hfound] at hread
        cases source with
        | some source =>
            cases hknown : patch.unit.contains file <;>
              simp [view, insert, hread source rfl]
        | none =>
            cases hknown : patch.unit.contains file <;> simp [view, erase]

/-- What a patch on its way reports about a file: whether it came in, and whether it went out. -/
structure Reports (patch : Patch) (u : CompilationUnit) (file : FileId) : Prop where
  mem_added : file ∈ patch.added ↔ patch.unit.contains file ∧ ¬ u.contains file
  mem_removed : file ∈ patch.removed ↔ u.contains file ∧ ¬ patch.unit.contains file

theorem reports_iff : patch.Reports u file ↔
    patch.added.contains file = (patch.unit.contains file && !u.contains file) ∧
      patch.removed.contains file = (u.contains file && !patch.unit.contains file) := by
  have hmem (set : Std.ExtTreeSet FileId) (yes no : Bool) :
      (file ∈ set ↔ yes ∧ ¬ no) ↔ set.contains file = (yes && !no) := by
    rw [← Std.ExtTreeSet.contains_iff_mem]
    cases set.contains file <;> cases yes <;> cases no <;> decide
  rw [← hmem, ← hmem]
  exact ⟨fun h => ⟨h.mem_added, h.mem_removed⟩, fun h => ⟨h.1, h.2⟩⟩

/-- What a patch reports about a file can be told from its view. -/
theorem Reports.of_view_eq {patch' : Patch} (h : patch.Reports u file)
    (hview : patch'.view file = patch.view file) : patch'.Reports u file := by
  simp only [view, Prod.mk.injEq] at hview
  rw [reports_iff, contains_eq_isSome, hview.1, ← contains_eq_isSome, hview.2.1, hview.2.2]
  exact reports_iff.mp h

/-- A visit keeps the reports right, if what it reads of a file that came in or went out before
agrees with that. -/
theorem Reports.visit (h : patch.Reports u file) (b : Bench κ) (d : Disk)
    (stale : Std.ExtTreeSet FileId) (p : Path)
    (hsettled : patch.unit.contains file ≠ u.contains file →
      patch.unit.contains file = (b.read d file p).2.isSome) :
    ((patch.visit b d stale file p).2).Reports u file := by
  have hview := patch.view_visit_self b d stale file p
  split at hview
  · exact h.of_view_eq hview
  · simp only [view, Prod.mk.injEq] at hview
    rw [reports_iff] at h ⊢
    rw [contains_eq_isSome (patch.visit b d stale file p).2.unit, hview.1, hview.2.1, hview.2.2,
      h.1, h.2]
    revert hsettled
    cases patch.unit.contains file <;> cases u.contains file <;>
      cases (b.read d file p).2.isSome <;> decide

/-- What came in can be read, and what went out cannot. -/
def Settled (patch : Patch) (u : CompilationUnit) (answers : FileId → Option String)
    (file : FileId) : Prop :=
  patch.unit.contains file ≠ u.contains file → patch.unit.contains file = (answers file).isSome

theorem Settled.of_view_eq {patch' : Patch} (h : patch.Settled u answers file)
    (hview : patch'.view file = patch.view file) : patch'.Settled u answers file := by
  rw [Settled, contains_eq_isSome, (Prod.mk.inj hview).1, ← contains_eq_isSome]
  exact h

theorem Settled.visit (h : patch.Settled u answers file) (stale : Std.ExtTreeSet FileId)
    (hread : (b.read d file p).2.isSome = (answers file).isSome) :
    ((patch.visit b d stale file p).2).Settled u answers file := by
  have hview := patch.view_visit_self b d stale file p
  split at hview
  · exact h.of_view_eq hview
  · intro _
    rw [contains_eq_isSome, (Prod.mk.inj hview).1, hread]

/-- The start has nothing of what is not admitted, and reports it as removed if it was there. -/
theorem reports_start_of_not_mem (h : file ∉ admitted.map Prod.fst) :
    (start u admitted).Reports u file := by
  have hkept : (admitted.map Prod.fst).contains file = false := by
    rwa [Bool.eq_false_iff, ne_eq, List.contains_iff_mem]
  rw [reports_iff, contains_eq_isSome, view_start_of_not_mem h]
  refine ⟨Std.ExtTreeSet.contains_empty, ?_⟩
  rw [start, Std.ExtTreeSet.contains_ofList, Bool.eq_iff_iff, List.contains_iff_mem,
    List.mem_filter, hkept]
  simp [files, contains]

theorem reports_start_of_mem (h : file ∈ admitted.map Prod.fst) :
    (start u admitted).Reports u file := by
  have hview := view_start_of_mem (u := u) h
  simp only [view, Prod.mk.injEq] at hview
  rw [reports_iff, contains_eq_isSome, hview.1, hview.2.1, hview.2.2, contains_eq_isSome]
  simp

/-! ### All visits -/

/-- A visit reads its file or nothing. -/
theorem fst_visit (b : Bench κ) (d : Disk) (stale : Std.ExtTreeSet FileId) (patch : Patch)
    (file : FileId) (p : Path) :
    ∃ readings, readings ⊆ [(file, p)] ∧
      (patch.visit b d stale file p).1 = (b.readSome d readings).1 := by
  simp only [visit]
  split
  · exact ⟨[], List.nil_subset _, rfl⟩
  · refine ⟨[(file, p)], List.Subset.refl _, ?_⟩
    have hread : (b.readSome d [(file, p)]).1 = (b.read d file p).1 := rfl
    rw [hread]
    split <;> simp_all

theorem append_subset_cons {entry : FileId × Path} {first later rest : List (FileId × Path)}
    (hfirst : first ⊆ [entry]) (hlater : later ⊆ rest) : first ++ later ⊆ entry :: rest := by
  refine List.append_subset.mpr ⟨fun reading hreading => ?_, List.subset_cons_of_subset _ hlater⟩
  rw [List.mem_singleton.mp (hfirst hreading)]
  exact List.mem_cons_self

/-- A file that is listed once is visited once, after some files were read, and in the state in
which it was at the start. -/
theorem exists_view_visitAll (b : Bench κ) (d : Disk) (stale : Std.ExtTreeSet FileId)
    (patch : Patch) (hnodup : (admitted.map Prod.fst).Nodup) (hmem : (file, p) ∈ admitted) :
    ∃ (readings : List (FileId × Path)) (before : Patch), readings ⊆ admitted ∧
      before.view file = patch.view file ∧
      (patch.visitAll b d stale admitted).2.view file =
        (before.visit (b.readSome d readings).1 d stale file p).2.view file := by
  induction admitted generalizing b patch with
  | nil => exact absurd hmem List.not_mem_nil
  | cons entry rest ih =>
      obtain ⟨hnot, hnodup⟩ := List.nodup_cons.mp hnodup
      rcases List.mem_cons.mp hmem with rfl | hmem
      · refine ⟨[], patch, List.nil_subset _, rfl, ?_⟩
        exact view_visitAll_of_not_mem _ d stale _ hnot
      · have hne : file ≠ entry.1 := by
          rintro rfl
          exact hnot (List.mem_map.mpr ⟨_, hmem, rfl⟩)
        obtain ⟨first, hfirst, hbench⟩ := fst_visit b d stale patch entry.1 entry.2
        obtain ⟨readings, before, hreadings, hbefore, hview⟩ :=
          ih (patch.visit b d stale entry.1 entry.2).1 (patch.visit b d stale entry.1 entry.2).2
            hnodup hmem
        refine ⟨first ++ readings, before, ?_, hbefore.trans ?_, ?_⟩
        · exact append_subset_cons hfirst hreadings
        · exact view_visit_of_ne b d stale patch entry.2 hne
        · rw [visitAll, hview, hbench, ← b.readSome_append]

theorem fst_visitAll (b : Bench κ) (d : Disk) (stale : Std.ExtTreeSet FileId) (patch : Patch)
    (admitted : List (FileId × Path)) :
    ∃ readings, readings ⊆ admitted ∧
      (patch.visitAll b d stale admitted).1 = (b.readSome d readings).1 := by
  induction admitted generalizing b patch with
  | nil => exact ⟨[], List.nil_subset _, rfl⟩
  | cons entry rest ih =>
      obtain ⟨first, hfirst, hbench⟩ := fst_visit b d stale patch entry.1 entry.2
      obtain ⟨later, hlater, hrest⟩ := ih (patch.visit b d stale entry.1 entry.2).1
        (patch.visit b d stale entry.1 entry.2).2
      refine ⟨first ++ later, ?_, ?_⟩
      · exact append_subset_cons hfirst hlater
      · rw [visitAll, hrest, hbench, ← b.readSome_append]

/-- Right reports stay right over all visits while the answers do not change. -/
theorem Reports.visitAll (h : patch.Reports u file) (hsettled : patch.Settled u answers file)
    (hanswers : b.AnswersBy d files answers) (hfiles : ∀ entry ∈ admitted, entry.1 ∈ files) :
    (patch.visitAll b d stale admitted).2.Reports u file := by
  induction admitted generalizing b patch with
  | nil => exact h
  | cons entry rest ih =>
      obtain ⟨hfirst, hrest⟩ := List.forall_mem_cons.mp hfiles
      obtain ⟨readings, hreadings, hbench⟩ := fst_visit b d stale patch entry.1 entry.2
      have hlater : (patch.visit b d stale entry.1 entry.2).1.AnswersBy d files answers := by
        rw [hbench]
        exact hanswers.readSome fun e he => List.mem_singleton.mp (hreadings he) ▸ hfirst
      rw [Patch.visitAll]
      by_cases hfile : file = entry.1
      · subst hfile
        have hread : (b.read d entry.1 entry.2).2.isSome = (answers entry.1).isSome := by
          rw [hanswers.snd_read hfirst, Option.isSome_map]
        have hvisited := h.visit b d stale entry.2 (hread ▸ hsettled)
        exact ih hvisited (hsettled.visit stale hread) hlater hrest
      · have hview := patch.view_visit_of_ne b d stale entry.2 hfile
        exact ih (h.of_view_eq hview) (hsettled.of_view_eq hview) hlater hrest

end Patch

/-! ### Patched units -/

variable {stale : Std.ExtTreeSet FileId} {u : CompilationUnit}

/-- An admitted file has what can be read of it after a patch, if it still has the source that the
unit has of it whenever the patch passes over it. -/
theorem getElem?_patch (hanswers : b.AnswersBy d (admitted.map Prod.fst) answers)
    (hnodup : (admitted.map Prod.fst).Nodup) (hmem : (file, p) ∈ admitted)
    (hkept : file ∉ stale → ∀ source, u.sources[file]? = some source →
      (answers file).map (SourceFile.mk file p) = some source) :
    (u.patch b d admitted stale).2.unit.sources[file]? =
      (answers file).map (SourceFile.mk file p) := by
  have hfile : file ∈ admitted.map Prod.fst := List.mem_map.mpr ⟨_, hmem, rfl⟩
  obtain ⟨readings, before, hreadings, hbefore, hview⟩ :=
    Patch.exists_view_visitAll b d stale (Patch.start u admitted) hnodup hmem
  rw [Patch.view_start_of_mem hfile] at hbefore
  rw [patch, (Prod.mk.inj hview).1]
  have hvisit := before.view_visit_self (b.readSome d readings).1 d stale file p
  split at hvisit
  case isTrue hskipped =>
    obtain ⟨hknown, hfresh⟩ := hskipped
    rw [contains_eq_isSome, (Prod.mk.inj hbefore).1] at hknown
    obtain ⟨source, hsource⟩ := Option.isSome_iff_exists.mp hknown
    rw [(Prod.mk.inj hvisit).1, (Prod.mk.inj hbefore).1, hkept hfresh source hsource, hsource]
  case isFalse =>
    have hlater : (b.readSome d readings).1.AnswersBy d (admitted.map Prod.fst) answers :=
      hanswers.readSome fun entry hentry => List.mem_map_of_mem (hreadings hentry)
    rw [(Prod.mk.inj hvisit).1, hlater.snd_read hfile]

theorem getElem?_patch_of_not_mem (b : Bench κ) (d : Disk) (h : file ∉ admitted.map Prod.fst) :
    (u.patch b d admitted stale).2.unit.sources[file]? = none := by
  have hview := Patch.view_visitAll_of_not_mem b d stale (Patch.start u admitted) h
  exact (Prod.mk.inj hview).1.trans (Patch.view_start_of_not_mem h)

theorem reports_patch_of_nodup (u : CompilationUnit) (b : Bench κ) (d : Disk)
    (stale : Std.ExtTreeSet FileId) (hnodup : (admitted.map Prod.fst).Nodup) (file : FileId) :
    (u.patch b d admitted stale).2.Reports u file := by
  by_cases hfile : file ∈ admitted.map Prod.fst
  · obtain ⟨⟨_, p⟩, hmem, rfl⟩ := List.mem_map.mp hfile
    obtain ⟨readings, before, -, hbefore, hview⟩ :=
      Patch.exists_view_visitAll b d stale (Patch.start u admitted) hnodup hmem
    have hstart := (Patch.reports_start_of_mem (u := u) hfile).of_view_eq hbefore
    rw [Patch.view_start_of_mem hfile] at hbefore
    refine (hstart.visit (b.readSome d readings).1 d stale p fun hne => absurd ?_ hne).of_view_eq
      hview
    rw [contains_eq_isSome, (Prod.mk.inj hbefore).1, contains_eq_isSome]
  · exact (Patch.reports_start_of_not_mem hfile).of_view_eq
      (Patch.view_visitAll_of_not_mem b d stale _ hfile)

theorem reports_patch_of_answersBy (u : CompilationUnit) (stale : Std.ExtTreeSet FileId)
    (hanswers : b.AnswersBy d (admitted.map Prod.fst) answers) (file : FileId) :
    (u.patch b d admitted stale).2.Reports u file := by
  by_cases hfile : file ∈ admitted.map Prod.fst
  · have hsettled : (Patch.start u admitted).Settled u answers file := by
      refine fun hne => absurd ?_ hne
      rw [contains_eq_isSome, (Prod.mk.inj (Patch.view_start_of_mem hfile)).1, contains_eq_isSome]
    exact (Patch.reports_start_of_mem hfile).visitAll hsettled hanswers
      fun entry => List.mem_map_of_mem
  · exact (Patch.reports_start_of_not_mem hfile).of_view_eq
      (Patch.view_visitAll_of_not_mem b d stale _ hfile)

/-- If the answers do not change and every file that a patch passes over still has the source that
the unit has of it, the patched unit is the one that is built anew, before the patch or after it.
If no file is listed twice, or the answers do not change, the patch reports exactly which files came
in and which went out. It never misses one of them, whatever is listed and whatever changes. -/
theorem patch_rebuilds (u : CompilationUnit) (b : Bench κ) (d : Disk)
    (admitted : List (FileId × Path)) (stale : Std.ExtTreeSet FileId) :
    (∀ answers, b.AnswersBy d (admitted.map Prod.fst) answers → (admitted.map Prod.fst).Nodup →
      (∀ entry ∈ admitted, entry.1 ∉ stale → ∀ source, u.sources[entry.1]? = some source →
        (answers entry.1).map (SourceFile.mk entry.1 entry.2) = some source) →
      (u.patch b d admitted stale).2.unit.sources = (build b d admitted).2.sources ∧
        (u.patch b d admitted stale).2.unit.sources =
          (build (u.patch b d admitted stale).1 d admitted).2.sources) ∧
    ((admitted.map Prod.fst).Nodup ∨ (∃ answers, b.AnswersBy d (admitted.map Prod.fst) answers) →
      ∀ file, (u.patch b d admitted stale).2.Reports u file) ∧
    ∀ file,
      ((u.patch b d admitted stale).2.unit.contains file → ¬ u.contains file →
        file ∈ (u.patch b d admitted stale).2.added) ∧
      (u.contains file → ¬ (u.patch b d admitted stale).2.unit.contains file →
        file ∈ (u.patch b d admitted stale).2.removed) := by
  refine ⟨fun answers hanswers hnodup hkept => ?_, ?_, fun file => ⟨fun hin hnew => ?_,
    fun hold hout => ?_⟩⟩
  · have hfiles : ∀ entry ∈ admitted, entry.1 ∈ admitted.map Prod.fst :=
      fun entry => List.mem_map_of_mem
    -- Whatever bench answers in this way builds what the patch leaves.
    have hbuild {b' : Bench κ} (hanswers' : b'.AnswersBy d (admitted.map Prod.fst) answers) :
        (u.patch b d admitted stale).2.unit.sources = (build b' d admitted).2.sources := by
      refine Std.ExtTreeMap.ext_getElem? fun file => ?_
      by_cases hfile : file ∈ admitted.map Prod.fst
      · obtain ⟨⟨_, p⟩, hmem, rfl⟩ := List.mem_map.mp hfile
        rw [getElem?_patch hanswers hnodup hmem (hkept _ hmem),
          getElem?_build hanswers' hfiles hnodup hmem]
      · rw [getElem?_patch_of_not_mem b d hfile, getElem?_build_of_not_mem b' d hfile]
    obtain ⟨readings, hreadings, hbench⟩ :=
      Patch.fst_visitAll b d stale (Patch.start u admitted) admitted
    refine ⟨hbuild hanswers, hbuild ?_⟩
    rw [patch, hbench]
    exact hanswers.readSome fun entry hentry => hfiles entry (hreadings hentry)
  · rintro (hnodup | ⟨answers, hanswers⟩) file
    · exact reports_patch_of_nodup u b d stale hnodup file
    · exact reports_patch_of_answersBy u stale hanswers file
  · exact mem_added_of_new u b d admitted hnew hin
  · exact (accounts_patch hold b d admitted stale).resolve_left hout

/-! A unit of four files: one stays as it is, one was edited, one was deleted and one is no longer
admitted. Of the two files newly admitted one can be read. -/

def patchedDisk : Disk :=
  (({ nodes := ∅, cwd := [] } : Disk).perform
    (.write ⟨"/Same.groovy"⟩ (.ofText "same") 0)).perform
      (.write ⟨"/New.groovy"⟩ (.ofText "new") 0)

def patchedBench : Bench Unit where
  tracker := (Tracker.ofLimits 5000 2).run patchedDisk
    [.register ⟨"/Same.groovy"⟩, .openDocument ⟨"/Edited.groovy"⟩ "after" 1,
      .register ⟨"/Deleted.groovy"⟩, .register ⟨"/Dropped.groovy"⟩, .register ⟨"/New.groovy"⟩,
      .register ⟨"/Missing.groovy"⟩]
  compiler := ()

def unpatched : CompilationUnit := ⟨.ofList
  [⟨0, ⟨"/Same.groovy"⟩, "same"⟩, ⟨1, ⟨"/Edited.groovy"⟩, "before"⟩,
    ⟨2, ⟨"/Deleted.groovy"⟩, "deleted"⟩, ⟨3, ⟨"/Dropped.groovy"⟩, "dropped"⟩]⟩

def readmitted : List (FileId × Path) :=
  [(5, ⟨"/Missing.groovy"⟩), (1, ⟨"/Edited.groovy"⟩), (0, ⟨"/Same.groovy"⟩),
    (2, ⟨"/Deleted.groovy"⟩), (4, ⟨"/New.groovy"⟩)]

theorem patch_rebuilds_unpatched :
    (readmitted.map Prod.fst).Nodup ∧
      patchedBench.AnswersBy patchedDisk (readmitted.map Prod.fst)
        (patchedBench.tracker.currentText? patchedDisk) ∧
      ∃ patch, (unpatched.patch patchedBench patchedDisk readmitted (.ofList [1, 2])).2 = patch ∧
        patch.unit.sources = (build patchedBench patchedDisk readmitted).2.sources ∧
        patch.unit.files = [0, 1, 4] ∧ patch.added.toList = [4] ∧ patch.removed.toList = [2, 3] ∧
        ∀ file, patch.Reports unpatched file := by
  have hnodup : (readmitted.map Prod.fst).Nodup := by decide
  have hkeeps : patchedBench.tracker.KeepsCurrent patchedDisk := List.forall_mem_nil _
  have hanswers := Bench.answersBy_of_keepsCurrent hkeeps (readmitted.map Prod.fst)
  obtain ⟨hrebuilds, hreports, -⟩ :=
    patch_rebuilds unpatched patchedBench patchedDisk readmitted (.ofList [1, 2])
  have hkept : ∀ entry ∈ readmitted, entry.1 ∉ Std.ExtTreeSet.ofList [1, 2] →
      ∀ source, unpatched.sources[entry.1]? = some source →
        (patchedBench.tracker.currentText? patchedDisk entry.1).map
          (SourceFile.mk entry.1 entry.2) = some source := by
    have hsame : ∀ entry ∈ readmitted, entry.1 ∉ Std.ExtTreeSet.ofList [1, 2] →
        unpatched.sources[entry.1]? = none ∨
          (patchedBench.tracker.currentText? patchedDisk entry.1).map
            (SourceFile.mk entry.1 entry.2) = unpatched.sources[entry.1]? := by
      decide +kernel
    intro entry hentry hfresh source hsource
    rcases hsame entry hentry hfresh with hnone | hsame
    · exact absurd (hnone.symm.trans hsource) (Option.some_ne_none source).symm
    · exact hsame.trans hsource
  have hresult :
      (unpatched.patch patchedBench patchedDisk readmitted (.ofList [1, 2])).2.unit.files =
          [0, 1, 4] ∧
        (unpatched.patch patchedBench patchedDisk readmitted (.ofList [1, 2])).2.added.toList =
          [4] ∧
        (unpatched.patch patchedBench patchedDisk readmitted (.ofList [1, 2])).2.removed.toList =
          [2, 3] := by
    decide +kernel
  obtain ⟨hfiles, hadded, hremoved⟩ := hresult
  exact ⟨hnodup, hanswers, _, rfl, (hrebuilds _ hanswers hnodup hkept).1, hfiles, hadded, hremoved,
    hreports (.inl hnodup)⟩

/-! A file that is listed twice. Its text is kept when it is first read, and it is pushed out before
the second time by that of another file. -/

def crowdingDisk : Disk :=
  ({ nodes := ∅, cwd := [] } : Disk).perform (.write ⟨"/M.groovy"⟩ (.ofText "other") 0)

def crowdedBench : Bench Unit where
  tracker := (Tracker.ofLimits 5000 1).run crowdingDisk
    [.openDocument ⟨"/A.groovy"⟩ "kept" 1, .closeDocument ⟨"/A.groovy"⟩, .register ⟨"/M.groovy"⟩]
  compiler := ()

def listedTwice : List (FileId × Path) :=
  [(0, ⟨"/A.groovy"⟩), (1, ⟨"/M.groovy"⟩), (0, ⟨"/x.groovy"⟩)]

/-- Such a file is reported as one that came in and as one that went out, and it was never in the
unit. -/
theorem not_reports_listedTwice :
    ¬ ∀ (u : CompilationUnit) (b : Bench Unit) (d : Disk) (admitted : List (FileId × Path))
        (stale : Std.ExtTreeSet FileId) (file : FileId),
      (u.patch b d admitted stale).2.Reports u file := by
  intro h
  have hreports := h {} crowdedBench crowdingDisk listedTwice (.ofList [0]) 0
  have hpatch :
      0 ∈ (patch {} crowdedBench crowdingDisk listedTwice (.ofList [0])).2.added ∧
        (patch {} crowdedBench crowdingDisk listedTwice (.ofList [0])).2.unit.contains 0 =
          false := by
    decide +kernel
  obtain ⟨hadded, hout⟩ := hpatch
  exact Bool.false_ne_true (hout.symm.trans (hreports.mem_added.mp hadded).1)

end CompilationUnit

end Workbench
