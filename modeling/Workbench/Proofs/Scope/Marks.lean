import Workbench.Proofs.Scope.Pass
import Workbench.Proofs.Tracker.Consultation
import Workbench.Proofs.Tracker.Marks

/-!
What a refresh does to the tracker. It clears the marks of the scope's files and then compiles, and
a compile only looks things up; if the compiler fails, the files to compile are marked again.
-/

namespace Workbench

namespace CompilationUnit

variable {κ : Type} (b : Bench κ) (d : Disk)

theorem Patch.lookedUp_visit (stale : Std.ExtTreeSet FileId) (patch : Patch) (file : FileId)
    (p : Path) : b.tracker.LookedUp d (patch.visit b d stale file p).1.tracker := by
  have hread := b.lookedUp_read d file p
  simp only [visit]
  split
  · exact .refl b.tracker d
  · cases h : b.read d file p with
    | mk b' source =>
        rw [h] at hread
        cases source <;> exact hread

theorem Patch.lookedUp_visitAll (stale : Std.ExtTreeSet FileId) (patch : Patch)
    (admitted : List (FileId × Path)) :
    b.tracker.LookedUp d (patch.visitAll b d stale admitted).1.tracker := by
  induction admitted generalizing b patch with
  | nil => exact .refl b.tracker d
  | cons entry rest ih =>
      exact (lookedUp_visit b d stale patch entry.1 entry.2).trans (ih _ _)

end CompilationUnit

namespace Scope

variable {κ : Type}

theorem lookedUp_nextUnit (s : Scope) (d : Disk) (b : Bench κ) (admitted : List (FileId × Path))
    (stale : Std.ExtTreeSet FileId) :
    b.tracker.LookedUp d (s.nextUnit d b admitted stale).1.tracker := by
  unfold nextUnit
  split
  · exact CompilationUnit.Patch.lookedUp_visitAll b d stale _ admitted
  · exact b.lookedUp_readSome d admitted

variable [Compiler κ]

theorem lookedUp_tryIncremental (s : Scope) (c : CompileConfig) (d : Disk) (b : Bench κ)
    (changed : List FileId) (context : Option FileId) :
    b.tracker.LookedUp d (s.tryIncremental c d b changed context).1.tracker := by
  rw [tryIncremental]
  split
  · exact .refl b.tracker d
  · split
    case h_1 b₁ hread => exact Bench.lookedUp_of_readAll hread
    case h_2 b₁ sources hread =>
      have hlooked := Bench.lookedUp_of_readAll hread
      split
      case h_1 b₂ errors hanswer => rwa [← Bench.tracker_of_compile hanswer] at hlooked
      case h_2 b₂ message hanswer => rwa [← Bench.tracker_of_compile hanswer] at hlooked
      case h_3 b₂ output hanswer =>
        rw [← Bench.tracker_of_compile hanswer] at hlooked
        dsimp only
        split <;> exact hlooked

/-- A full compile only looks things up, and if it has a report, it did not fail. -/
theorem fullCompile_spec (s : Scope) (c : CompileConfig) (d : Disk) (b : Bench κ)
    (changed : List FileId) (context : Option FileId) (reason : FullCompileReason) :
    b.tracker.LookedUp d (s.fullCompile c d b changed context reason).1.tracker ∧
      ∀ report, (s.fullCompile c d b changed context reason).2.2 = some report →
        report.outcome ≠ .failed := by
  rw [fullCompile]
  have hadmitted := (b.note (s.territory.admissionWarnings c d)).lookedUp_registerAll d
    (s.territory.admittedSources c d b.tracker.openPaths)
  dsimp only
  generalize Bench.registerAll _ d _ = registered at hadmitted ⊢
  obtain ⟨b₁, admitted⟩ := registered
  dsimp only at hadmitted ⊢
  have hunit := s.lookedUp_nextUnit d b₁ admitted (s.affected changed context)
  generalize s.nextUnit d b₁ admitted (s.affected changed context) = next at hunit
  obtain ⟨b₂, unit, update⟩ := next
  dsimp only at hunit ⊢
  -- The compiler itself has no access to the tracker.
  cases hanswer : b₂.compile unit.sources s.environment with
  | mk b₃ answer =>
      have hlooked := hadmitted.trans hunit
      rw [← Bench.tracker_of_compile hanswer] at hlooked
      cases answer with
      | ok output => exact ⟨hlooked, by simp [commit]⟩
      | error e =>
          cases e with
          | source errors => exact ⟨hlooked, by simp [commit]⟩
          | crashed message => exact ⟨hlooked, by simp⟩

/-! ### The tracker after a compile -/

/-- How a compile of changed files leaves the tracker: it was only consulted, and after a failure
these files are marked again. -/
def LeavesTracker (changed : List FileId) (outcome : CompileOutcome) (t t' : Tracker) : Prop :=
  ∃ t₁, t.Consulted t₁ ∧ t' = if outcome = .failed then changed.foldl Tracker.mark t₁ else t₁

section LeavesTracker

variable {changed : List FileId} {outcome : CompileOutcome} {t t' : Tracker}

omit [Compiler κ] in
theorem LeavesTracker.grows (h : LeavesTracker changed outcome t t') :
    t.registry.Grows t'.registry := by
  obtain ⟨t₁, hconsulted, rfl⟩ := h
  split
  · rw [Tracker.registry_foldl_mark]
    exact hconsulted.grows
  · exact hconsulted.grows

theorem LeavesTracker.mem_changed (h : LeavesTracker changed .failed t t') {file : FileId} :
    file ∈ t'.changed ↔ file ∈ t.changed ∨ file ∈ changed := by
  obtain ⟨t₁, hconsulted, rfl⟩ := h
  rw [if_pos rfl, Tracker.mem_changed_foldl_mark, hconsulted.changed_eq]

theorem LeavesTracker.changed_eq (h : LeavesTracker changed outcome t t')
    (hgood : outcome ≠ .failed) : t'.changed = t.changed := by
  obtain ⟨t₁, hconsulted, rfl⟩ := h
  rw [if_neg hgood]
  exact hconsulted.changed_eq

end LeavesTracker

theorem lookedUp_compileAll (s : Scope) (c : CompileConfig) (d : Disk) (b : Bench κ)
    (changed : List FileId) (context : Option FileId) (reason : FullCompileReason) :
    ∃ t, b.tracker.LookedUp d t ∧ (s.compileAll c d b changed context reason).1.tracker =
      if (s.compileAll c d b changed context reason).2.2.outcome = .failed then
        changed.foldl Tracker.mark t
      else t := by
  obtain ⟨hlooked, hreport⟩ := s.fullCompile_spec c d b changed context reason
  rw [compileAll]
  cases hcompile : s.fullCompile c d b changed context reason with
  | mk b' result =>
      obtain ⟨s', report⟩ := result
      rw [hcompile] at hlooked hreport
      cases report with
      | some report => exact ⟨b'.tracker, hlooked, (if_neg (hreport report rfl)).symm⟩
      | none => exact ⟨b'.tracker, hlooked, rfl⟩

theorem lookedUp_compileChanged (s : Scope) (c : CompileConfig) (d : Disk) (b : Bench κ)
    (changed : List FileId) (context : Option FileId) :
    ∃ t, b.tracker.LookedUp d t ∧ (s.compileChanged c d b changed context).1.tracker =
      if (s.compileChanged c d b changed context).2.2.outcome = .failed then
        changed.foldl Tracker.mark t
      else t := by
  have hlooked := s.lookedUp_tryIncremental c d b changed context
  rw [compileChanged]
  split
  case h_1 => exact s.lookedUp_compileAll c d b changed context _
  case h_2 =>
    split
    case h_1 b' s' report hincremental =>
      rw [hincremental] at hlooked
      -- An incremental compile that counts reports itself and no failure.
      obtain ⟨_, sources, output, -, -, -, hresult⟩ := tryIncremental_ok hincremental
      obtain ⟨-, rfl⟩ := Prod.mk.inj hresult
      exact ⟨b'.tracker, hlooked, rfl⟩
    case h_2 b' s' reason hrefused =>
      obtain rfl := scope_of_tryIncremental_error hrefused
      rw [hrefused] at hlooked
      obtain ⟨t, hthen, hleft⟩ := s'.lookedUp_compileAll c d b' changed context reason
      exact ⟨t, hlooked.trans hthen, hleft⟩

/-! ### Marks of a refresh -/

theorem mem_marked {s : Scope} {t : Tracker} {file : FileId} :
    file ∈ s.marked t ↔
      file ∈ t.changed ∧ ∃ p, t.path? file = some p ∧ s.territory.owns p := by
  simp only [marked, Tracker.changedUnder, Tracker.changedFiles, List.mem_filter,
    Std.ExtTreeSet.mem_toList, Option.any_eq_true]
  constructor
  · rintro ⟨⟨hchanged, -⟩, howned⟩
    exact ⟨hchanged, howned⟩
  · rintro ⟨hchanged, p, hp, howns⟩
    refine ⟨⟨hchanged, p, hp, ?_⟩, p, hp, howns⟩
    rw [Territory.owns, Bool.and_eq_true] at howns
    exact howns.1

theorem mem_pending {s : Scope} {c : CompileConfig} {t : Tracker} {file : FileId} :
    file ∈ s.pending c t ↔
      file ∈ t.changed ∧ ∃ p, t.path? file = some p ∧ s.territory.owns p ∧ c.isSourceFile p := by
  rw [pending, List.mem_filter, mem_marked, Option.any_eq_true]
  constructor
  · rintro ⟨⟨hchanged, p, hp, howns⟩, p', hp', hsource⟩
    cases hp.symm.trans hp'
    exact ⟨hchanged, p, hp, howns, hsource⟩
  · rintro ⟨hchanged, p, hp, howns, hsource⟩
    exact ⟨⟨hchanged, p, hp, howns⟩, p, hp, hsource⟩

theorem mem_ignored {s : Scope} {c : CompileConfig} {t : Tracker} {file : FileId} :
    file ∈ s.ignored c t ↔
      file ∈ t.changed ∧ ∃ p, t.path? file = some p ∧ s.territory.owns p ∧ ¬ c.isSourceFile p := by
  rw [ignored, List.mem_filter, mem_marked]
  constructor
  · rintro ⟨⟨hchanged, p, hp, howns⟩, hnot⟩
    rw [hp, Option.any_some, Bool.not_eq_true', ← Bool.not_eq_true] at hnot
    exact ⟨hchanged, p, hp, howns, hnot⟩
  · rintro ⟨hchanged, p, hp, howns, hnot⟩
    refine ⟨⟨hchanged, p, hp, howns⟩, ?_⟩
    rw [hp, Option.any_some, Bool.not_eq_true', ← Bool.not_eq_true]
    exact hnot

/-- A refresh clears the marks of the scope's files, then it looks things up, and after a failure it
marks the sources among these files again. -/
theorem lookedUp_refresh (s : Scope) (c : CompileConfig) (d : Disk) (b : Bench κ)
    (asked : Option FileId) :
    ∃ t, ((b.clearMarks (s.ignored c b.tracker)).clearMarks
        (s.pending c b.tracker)).tracker.LookedUp d t ∧
      (s.refresh c d b asked).1.tracker =
        if (s.refresh c d b asked).2.2.outcome = .failed then
          (s.pending c b.tracker).foldl Tracker.mark t
        else t := by
  rw [refresh]
  split
  case isTrue hready =>
    simp only [Bool.and_eq_true, List.isEmpty_iff] at hready
    obtain ⟨-, hnothing⟩ := hready
    refine ⟨_, .refl _ d, ?_⟩
    rw [hnothing]
    exact (Tracker.clearMarks_nil _).symm
  case isFalse => exact s.lookedUp_compileChanged c d _ _ _

theorem leavesTracker_refresh (s : Scope) (c : CompileConfig) (d : Disk) (b : Bench κ)
    (asked : Option FileId) :
    LeavesTracker (s.pending c b.tracker) (s.refresh c d b asked).2.2.outcome
      ((b.clearMarks (s.ignored c b.tracker)).clearMarks (s.pending c b.tracker)).tracker
      (s.refresh c d b asked).1.tracker := by
  obtain ⟨t, hlooked, hleft⟩ := s.lookedUp_refresh c d b asked
  exact ⟨t, hlooked.consulted, hleft⟩

omit [Compiler κ] in
theorem mem_cleared {s : Scope} {c : CompileConfig} {b : Bench κ} {file : FileId} :
    file ∈ ((b.clearMarks (s.ignored c b.tracker)).clearMarks
        (s.pending c b.tracker)).tracker.changed ↔
      file ∈ b.tracker.changed ∧ ¬ ∃ p, b.tracker.path? file = some p ∧ s.territory.owns p := by
  have hcleared : file ∈ ((b.clearMarks (s.ignored c b.tracker)).clearMarks
      (s.pending c b.tracker)).tracker.changed ↔
        (file ∈ b.tracker.changed ∧ file ∉ s.ignored c b.tracker) ∧
          file ∉ s.pending c b.tracker :=
    Tracker.mem_changed_clearMarks.trans (and_congr_left' Tracker.mem_changed_clearMarks)
  rw [hcleared, mem_ignored, mem_pending]
  constructor
  · rintro ⟨⟨hchanged, hignored⟩, hpending⟩
    refine ⟨hchanged, ?_⟩
    rintro ⟨p, hp, howns⟩
    by_cases hsource : c.isSourceFile p
    · exact hpending ⟨hchanged, p, hp, howns, hsource⟩
    · exact hignored ⟨hchanged, p, hp, howns, hsource⟩
  · rintro ⟨hchanged, hnot⟩
    refine ⟨⟨hchanged, ?_⟩, ?_⟩
    · rintro ⟨-, p, hp, howns, -⟩
      exact hnot ⟨p, hp, howns⟩
    · rintro ⟨-, p, hp, howns, -⟩
      exact hnot ⟨p, hp, howns⟩

end Scope

end Workbench
