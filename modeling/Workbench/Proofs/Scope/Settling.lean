import Workbench.Proofs.Scope.Marks
import Workbench.Proofs.Scope.Session
import Workbench.Toy.Compiler

/-!
What a refresh leaves to be done. A refresh that does not fail takes the marks of all files of the
scope that have a path, and no others. After it there is nothing to compile, except for a file that
was marked before it had a path: if the refresh itself comes across the path, and it is that of a
source of the scope, the mark counts from then on.
-/

namespace Workbench

namespace Scope

variable {κ : Type} [Compiler κ] {s s' : Scope} {c : CompileConfig} {changed : List FileId}
  {context : Option FileId} {report : CompileReport}

theorem Pass.territory_eq (hpass : Pass κ s c changed context s' report) :
    s'.territory = s.territory := by
  cases hpass <;> rfl

theorem ready_of_blocker?_eq_none (h : s.blocker? c changed = none) :
    s.compiled = true ∧ s.environmentStale = false := by
  unfold blocker? at h
  split at h
  · contradiction
  · rename_i hcompiled
    split at h
    · contradiction
    · rename_i hcurrent
      simp only [Bool.not_eq_true', Bool.not_eq_false, Bool.not_eq_true] at hcompiled hcurrent
      exact ⟨hcompiled, hcurrent⟩

/-- After a refresh that did not fail, only changed sources can ask for another compile. -/
theorem Pass.ready (hpass : Pass κ s c changed context s' report) (h : report.outcome ≠ .failed) :
    s'.compiled = true ∧ s'.environmentStale = false := by
  cases hpass with
  | rested hcompiled hcurrent hnothing => exact ⟨hcompiled, hcurrent⟩
  | accepted sources output hblocker =>
      have hready := ready_of_blocker?_eq_none hblocker
      exact hready
  | failed message => exact absurd rfl h
  | _ => exact ⟨rfl, rfl⟩

theorem Pass.of_upToDate (hpass : Pass κ s c changed context s' report)
    (h : report.outcome = .upToDate) : changed = [] := by
  cases hpass with
  | rested hcompiled hcurrent hnothing => exact hnothing
  | _ => contradiction

theorem refresh_of_ready (hcompiled : s.compiled = true) (hcurrent : s.environmentStale = false)
    {b : Bench κ} (hnothing : s.pending c b.tracker = []) (d : Disk) (asked : Option FileId) :
    s.refresh c d b asked =
      (b.clearMarks (s.ignored c b.tracker),
        { s with previousContext := s.contextFor c b.tracker asked }, ⟨.upToDate, []⟩) := by
  rw [refresh, if_pos (by rw [hcompiled, hcurrent, hnothing]; rfl)]

section

variable {d : Disk} {b b' : Bench κ} {asked : Option FileId} {file : FileId}

/-- The marks that a refresh takes are those of the scope's files. -/
theorem mem_changed_of_refresh (hrun : s.refresh c d b asked = (b', s', report))
    (hgood : report.outcome ≠ .failed) :
    file ∈ b'.tracker.changed ↔
      file ∈ b.tracker.changed ∧ ¬ ∃ p, b.tracker.path? file = some p ∧ s.territory.owns p := by
  have hleft := s.leavesTracker_refresh c d b asked
  rw [hrun] at hleft
  rw [hleft.changed_eq hgood]
  exact mem_cleared

/-- A file of the scope that is marked after a refresh had no path before. -/
theorem path?_eq_none_of_refresh (hrun : s.refresh c d b asked = (b', s', report))
    (hgood : report.outcome ≠ .failed) (hfile : file ∈ b'.tracker.changed) {p : Path}
    (hp : b'.tracker.path? file = some p) (howns : s'.territory.owns p) :
    b.tracker.path? file = none := by
  have hpass := s.pass_of_refresh c d b asked
  have hleft := s.leavesTracker_refresh c d b asked
  rw [hrun] at hpass hleft
  rw [hpass.territory_eq] at howns
  -- An id keeps its path, so a file that had one had this one and gave up its mark.
  cases hbefore : b.tracker.path? file with
  | none => rfl
  | some q =>
      have hkept := hleft.grows.path? hbefore
      cases hp.symm.trans hkept
      exact absurd ⟨p, hbefore, howns⟩ ((mem_changed_of_refresh hrun hgood).mp hfile).2

/-- What is left to compile after a refresh are sources that were marked before they had a path. -/
theorem pending_eq_nil_iff_of_refresh (hrun : s.refresh c d b asked = (b', s', report))
    (hgood : report.outcome ≠ .failed) :
    s'.pending c b'.tracker = [] ↔ ∀ file ∈ b.tracker.changed,
      b.tracker.path? file = none → ¬ s'.ownsSourceFile c b'.tracker file := by
  rw [List.eq_nil_iff_forall_not_mem]
  constructor
  · intro hnone file hfile hunknown hsource
    obtain ⟨p, hp, hsource⟩ := (Option.any_eq_true _ _).mp hsource
    rw [Territory.ownsSource, Bool.and_eq_true] at hsource
    have hkept := (mem_changed_of_refresh hrun hgood).mpr ⟨hfile, by simp [hunknown]⟩
    exact hnone file (mem_pending.mpr ⟨hkept, p, hp, hsource⟩)
  · intro hnone file hpending
    obtain ⟨hkept, p, hp, howns, hsource⟩ := mem_pending.mp hpending
    have hbefore := ((mem_changed_of_refresh hrun hgood).mp hkept).1
    refine hnone file hbefore (path?_eq_none_of_refresh hrun hgood hkept hp howns) ?_
    rw [ownsSourceFile, hp, Option.any_some, Territory.ownsSource, howns, hsource]
    rfl

end

/-- After a refresh that did not fail, whatever the compiler: the marks that were taken are those of
the scope's files; a file of the scope that is marked now had no path before; and the next refresh
has nothing to do, and does nothing, unless there is such a file and it is a source. -/
theorem refresh_settles (s s' : Scope) (c : CompileConfig) (d : Disk) (b b' : Bench κ)
    (asked : Option FileId) (report : CompileReport)
    (hrun : s.refresh c d b asked = (b', s', report)) (hgood : report.outcome ≠ .failed) :
    (∀ file, file ∈ b'.tracker.changed ↔ file ∈ b.tracker.changed ∧
        ¬ ∃ p, b.tracker.path? file = some p ∧ s.territory.owns p) ∧
      (∀ file ∈ b'.tracker.changed, ∀ p, b'.tracker.path? file = some p →
        s'.territory.owns p → b.tracker.path? file = none) ∧
      ∀ (d' : Disk) (asked' : Option FileId) (b'' : Bench κ) (s'' : Scope)
        (report' : CompileReport), s'.refresh c d' b' asked' = (b'', s'', report') →
        (report'.outcome = .upToDate ↔ ∀ file ∈ b.tracker.changed,
          b.tracker.path? file = none → ¬ s'.ownsSourceFile c b'.tracker file) ∧
        (report'.outcome = .upToDate →
          b''.compiler = b'.compiler ∧ b''.log = b'.log ∧ report'.published = [] ∧
            s''.trees = s'.trees ∧ s''.graph = s'.graph ∧ s''.unit = s'.unit ∧
            s''.diagnostics = s'.diagnostics) := by
  have hpass := s.pass_of_refresh c d b asked
  rw [hrun] at hpass
  obtain ⟨hcompiled, hcurrent⟩ := hpass.ready hgood
  refine ⟨fun file => mem_changed_of_refresh hrun hgood,
    fun file hfile p hp howns => path?_eq_none_of_refresh hrun hgood hfile hp howns,
    fun d' asked' b'' s'' report' hnext => ?_⟩
  have hpass' := s'.pass_of_refresh c d' b' asked'
  rw [hnext] at hpass'
  -- The other two reasons to compile are gone, so all hangs on the pending files.
  have hrest (hnothing : s'.pending c b'.tracker = []) : (b'', s'', report') =
      (b'.clearMarks (s'.ignored c b'.tracker),
        { s' with previousContext := s'.contextFor c b'.tracker asked' }, ⟨.upToDate, []⟩) :=
    hnext.symm.trans (refresh_of_ready hcompiled hcurrent hnothing d' asked')
  rw [← pending_eq_nil_iff_of_refresh hrun hgood]
  refine ⟨⟨hpass'.of_upToDate, fun hnothing => ?_⟩, fun hidle => ?_⟩
  · cases hrest hnothing
    rfl
  · cases hrest (hpass'.of_upToDate hidle)
    exact ⟨rfl, rfl, rfl, rfl, rfl, rfl, rfl⟩

end Scope

namespace Session

/-! A document that is no source, one of a nested project, and one from elsewhere. -/

def neighbourActions : List (Action Toy.CompilerState) :=
  [.opening ⟨"/p/A.groovy"⟩ "class A \x7b\n\x7d\n",
    .opening ⟨"/p/notes.txt"⟩ "\n",
    .opening ⟨"/p/sub/B.groovy"⟩ "class B \x7b\n\x7d\n",
    .opening ⟨"/q/C.groovy"⟩ "class C \x7b\n\x7d\n",
    .setExcluded [⟨"/p/sub"⟩]]

theorem refresh_settles_neighbours :
    ∃ (x y z : Session Toy.CompilerState) (first second : CompileReport),
      x = (blank ({} : Toy.CompilerState)).run {} neighbourActions ∧
      x.refresh {} none = (y, first) ∧ y.refresh {} (some 0) = (z, second) ∧
      first.outcome = .full 1 .notCompiled ∧ second.outcome = .upToDate ∧
      y.bench.tracker.changedFiles = [2, 3] ∧
      (2 ∈ y.bench.tracker.changed ↔ 2 ∈ x.bench.tracker.changed ∧
        ¬ ∃ p, x.bench.tracker.path? 2 = some p ∧ x.scope.territory.owns p) ∧
      z.bench.compiler = y.bench.compiler ∧ z.scope.trees = y.scope.trees := by
  have hruns :
      ((((blank ({} : Toy.CompilerState)).run {} neighbourActions).refresh {} none).2.outcome =
          .full 1 .notCompiled ∧
        ((((blank ({} : Toy.CompilerState)).run {} neighbourActions).refresh {} none).1.refresh {}
          (some 0)).2.outcome = .upToDate ∧
        (((blank ({} : Toy.CompilerState)).run {} neighbourActions).refresh {}
          none).1.bench.tracker.changedFiles = [2, 3]) := by
    decide +kernel
  refine ⟨(blank ({} : Toy.CompilerState)).run {} neighbourActions, ?_⟩
  generalize (blank ({} : Toy.CompilerState)).run {} neighbourActions = x at hruns ⊢
  obtain ⟨hfull, hnothing, hleft⟩ := hruns
  have hgood : (x.refresh {} none).2.outcome ≠ .failed := by
    rw [hfull]
    exact CompileOutcome.noConfusion
  obtain ⟨hmarks, -, hnext⟩ := Scope.refresh_settles x.scope (x.refresh {} none).1.scope {} x.disk
    x.bench (x.refresh {} none).1.bench none (x.refresh {} none).2 rfl hgood
  obtain ⟨-, hsame⟩ := hnext x.disk (some 0) ((x.refresh {} none).1.refresh {} (some 0)).1.bench
    ((x.refresh {} none).1.refresh {} (some 0)).1.scope
    ((x.refresh {} none).1.refresh {} (some 0)).2 rfl
  obtain ⟨hcompiler, -, -, htrees, -⟩ := hsame hnothing
  exact ⟨(x.refresh {} none).1, ((x.refresh {} none).1.refresh {} (some 0)).1,
    (x.refresh {} none).2, ((x.refresh {} none).1.refresh {} (some 0)).2, rfl, rfl, rfl, hfull,
    hnothing, hleft, hmarks 2, hcompiler, htrees⟩

/-! A source on the disk, and a mark on the id that it is going to have. -/

def early : Session Toy.CompilerState :=
  start
    { nodes := .ofList
        [(["p"], .dir), (["p", "A.groovy"], .file (.ofText "class A \x7b\n\x7d\n") 0)] Place.order
      cwd := [] }
    { tracker := (Tracker.ofLimits 5000 256).mark 0, compiler := {} } ⟨"/p"⟩

theorem not_refresh_settles_early :
    ¬ ∀ (s s' : Scope) (c : CompileConfig) (d : Disk) (b b' : Bench Toy.CompilerState)
        (asked : Option FileId) (report : CompileReport),
        s.refresh c d b asked = (b', s', report) → report.outcome ≠ .failed →
          (∀ file ∈ b'.tracker.changed, ∀ p, b'.tracker.path? file = some p →
            ¬ s'.territory.owns p) ∧
          (∀ file ∈ b.tracker.changed,
            (∀ p, b.tracker.path? file = some p → ¬ s.territory.owns p) →
              file ∈ b'.tracker.changed) ∧
          ∀ asked', (s'.refresh c d b' asked').2.2.outcome = .upToDate := by
  intro hclaim
  have hruns : (early.refresh {} none).2.outcome ≠ .failed ∧
      ((early.refresh {} none).1.refresh {} none).2.outcome ≠ .upToDate := by
    decide +kernel
  obtain ⟨hgood, hagain⟩ := hruns
  obtain ⟨-, -, hrest⟩ := hclaim early.scope (early.refresh {} none).1.scope {} early.disk
    early.bench (early.refresh {} none).1.bench none (early.refresh {} none).2 rfl hgood
  exact hagain (hrest none)

end Session

end Workbench
