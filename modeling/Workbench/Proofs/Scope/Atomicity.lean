import Workbench.Proofs.Scope.Marks
import Workbench.Proofs.Scope.Session
import Workbench.Toy.Compiler

/-!
Compiles that fail. An incremental compile that does not count hands the scope on to a full one as
it was, and the marks of changed files too. If the compiler fails in a full compile, nothing is
published, the scope has a new message and is otherwise as before, and all changes of its sources
are marked again. Only the marks of its files that are no sources are gone, for no compile would
ever take these.
-/

namespace Workbench

namespace Scope

variable {κ : Type} [Compiler κ]

theorem Pass.eq_of_failed {s s' : Scope} {c : CompileConfig} {changed : List FileId}
    {context : Option FileId} {report : CompileReport}
    (hpass : Pass κ s c changed context s' report) (h : report.outcome = .failed) :
    report.published = [] ∧ ∃ message, s' = { s with lastError := some message } := by
  cases hpass with
  | failed message => exact ⟨rfl, message, rfl⟩
  | _ => contradiction

omit [Compiler κ] in
/-- Marks that are cleared for a compile and set again are those of the sources. -/
theorem mem_cleared_or_pending {s : Scope} {c : CompileConfig} {b : Bench κ} {file : FileId} :
    (file ∈ ((b.clearMarks (s.ignored c b.tracker)).clearMarks
        (s.pending c b.tracker)).tracker.changed ∨ file ∈ s.pending c b.tracker) ↔
      file ∈ b.tracker.changed ∧
        ¬ ∃ p, b.tracker.path? file = some p ∧ s.territory.owns p ∧ ¬ c.isSourceFile p := by
  rw [mem_cleared]
  constructor
  · rintro (⟨hchanged, hforeign⟩ | hpending)
    · exact ⟨hchanged, fun ⟨p, hp, howns, _⟩ => hforeign ⟨p, hp, howns⟩⟩
    · obtain ⟨hchanged, p, hp, -, hsource⟩ := mem_pending.mp hpending
      refine ⟨hchanged, ?_⟩
      rintro ⟨p', hp', -, hnot⟩
      cases hp.symm.trans hp'
      exact hnot hsource
  · rintro ⟨hchanged, hnot⟩
    by_cases howned : ∃ p, b.tracker.path? file = some p ∧ s.territory.owns p
    · obtain ⟨p, hp, howns⟩ := howned
      right
      have hsource := Decidable.of_not_not fun hsource => hnot ⟨p, hp, howns, hsource⟩
      exact mem_pending.mpr ⟨hchanged, p, hp, howns, hsource⟩
    · exact .inl ⟨hchanged, howned⟩

/-- For every scope, bench and compiler: an incremental compile that is refused, for whatever
reason, leaves the scope and the marks as they were, and the full compile that follows starts from
that scope. If a refresh fails, it publishes nothing and changes nothing of the scope but the
message, and what is marked as changed is all that was, except the files of the scope that are no
sources. -/
theorem refresh_atomic (s : Scope) (c : CompileConfig) (d : Disk) (b : Bench κ) :
    (∀ changed context b' s' reason,
        s.tryIncremental c d b changed context = (b', s', .error reason) →
          s' = s ∧ b'.tracker.changed = b.tracker.changed ∧
            (s.blocker? c changed = none →
              s.compileChanged c d b changed context =
                s.compileAll c d b' changed context reason)) ∧
      ∀ asked, (s.refresh c d b asked).2.2.outcome = .failed →
        (s.refresh c d b asked).2.2.published = [] ∧
          (∃ message, (s.refresh c d b asked).2.1 = { s with lastError := some message }) ∧
          ∀ file, file ∈ (s.refresh c d b asked).1.tracker.changed ↔
            file ∈ b.tracker.changed ∧
              ¬ ∃ p, b.tracker.path? file = some p ∧ s.territory.owns p ∧ ¬ c.isSourceFile p := by
  constructor
  · intro changed context b' s' reason hrefused
    have hscope := scope_of_tryIncremental_error hrefused
    have hconsulted := (s.lookedUp_tryIncremental c d b changed context).consulted
    rw [hrefused] at hconsulted
    refine ⟨hscope, hconsulted.changed_eq, fun hblocker => ?_⟩
    rw [compileChanged, hblocker, hrefused, hscope]
  · intro asked hfailed
    have hmarks := s.leavesTracker_refresh c d b asked
    rw [hfailed] at hmarks
    obtain ⟨hpublished, hscope⟩ := (s.pass_of_refresh c d b asked).eq_of_failed hfailed
    refine ⟨hpublished, hscope, fun file => ?_⟩
    rw [hmarks.mem_changed]
    exact mem_cleared_or_pending

end Scope

/-! A change that could be compiled incrementally, a document that is no source, and a compiler that
has begun to fail. -/

namespace Session

def crashingActions : List (Action Toy.CompilerState) :=
  [.opening ⟨"/p/A.groovy"⟩ "class A \x7b\n\x7d\n",
    .opening ⟨"/p/F.groovy"⟩ "class F \x7b\n    A a\n\x7d\n",
    .refresh (some 0),
    .replacing ⟨"/p/A.groovy"⟩ 2 "class A \x7b\n\n\x7d\n",
    .opening ⟨"/p/notes.txt"⟩ "\n",
    .instruct { failing := some "out of memory" }]

theorem refresh_atomic_crashing :
    ∃ x : Session Toy.CompilerState, x = (blank ({} : Toy.CompilerState)).run {} crashingActions ∧
      x.scope.blocker? {} [0] = none ∧
      (∃ b' s' reason,
        x.scope.tryIncremental {} x.disk x.bench [0] (some 0) = (b', s', .error reason) ∧
          s' = x.scope ∧ b'.tracker.changed = x.bench.tracker.changed ∧
          x.scope.compileChanged {} x.disk x.bench [0] (some 0) =
            x.scope.compileAll {} x.disk b' [0] (some 0) reason) ∧
      (x.refresh {} (some 0)).2.outcome = .failed ∧ (x.refresh {} (some 0)).2.published = [] ∧
      (0 ∈ (x.refresh {} (some 0)).1.bench.tracker.changed ↔
        0 ∈ x.bench.tracker.changed ∧ ¬ ∃ p, x.bench.tracker.path? 0 = some p ∧
          x.scope.territory.owns p ∧ ¬ ({} : CompileConfig).isSourceFile p) := by
  refine ⟨_, rfl, ?_⟩
  have hfails :
      ((blank ({} : Toy.CompilerState)).run {} crashingActions).scope.blocker? {} [0] = none ∧
        (((blank ({} : Toy.CompilerState)).run {} crashingActions).scope.tryIncremental {}
          ((blank ({} : Toy.CompilerState)).run {} crashingActions).disk
          ((blank ({} : Toy.CompilerState)).run {} crashingActions).bench [0]
          (some 0)).2.2.isOk = false ∧
        (((blank ({} : Toy.CompilerState)).run {} crashingActions).refresh {} (some 0)).2.outcome =
          .failed := by
    decide +kernel
  generalize (blank ({} : Toy.CompilerState)).run {} crashingActions = x at hfails ⊢
  obtain ⟨hblocker, hrefused, hfailed⟩ := hfails
  obtain ⟨hfirst, hsecond⟩ := x.scope.refresh_atomic {} x.disk x.bench
  obtain ⟨hpublished, -, hmarks⟩ := hsecond (some 0) hfailed
  refine ⟨hblocker, ?_, hfailed, hpublished, hmarks 0⟩
  cases h : x.scope.tryIncremental {} x.disk x.bench [0] (some 0) with
  | mk b' result =>
      obtain ⟨s', answer⟩ := result
      rw [h] at hrefused
      cases answer with
      | ok report => contradiction
      | error reason =>
          obtain ⟨hscope, hchanged, hfull⟩ := hfirst [0] (some 0) b' s' reason h
          exact ⟨b', s', reason, rfl, hscope, hchanged, hfull hblocker⟩

end Session

end Workbench
