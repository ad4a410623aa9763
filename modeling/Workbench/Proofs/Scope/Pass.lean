import Workbench.Proofs.Scope.Unit
import Workbench.Scope.Refresh

/-!
All that bringing a scope up to date can do to it. A refresh reads the tracker and the disk, may try
two compiles, and ends in one of five ways; each of them is a constructor below, with what is known
about the compile that led there. Invariants of scopes are proved by cases of this relation, never
by opening the refresh itself.
-/

namespace Workbench

/-- In some state the compiler gives this answer. -/
def Compiler.Answers (κ : Type) [Compiler κ] (sources : SourceSet) (env : CompileEnvironment)
    (answer : Except CompileError CompileOutput) : Prop :=
  ∃ before after : κ, Compiler.compile before sources env = (after, answer)

namespace Scope

variable {κ : Type}

/-- The files of the next incremental compile, in order. -/
def workingFiles (s : Scope) (c : CompileConfig) (changed : List FileId)
    (context : Option FileId) : List FileId :=
  (s.workingSet c changed context).toList

/-- The unit of a full compile and how it came about. -/
inductive NextUnit (κ : Type) (s : Scope) (stale : Std.ExtTreeSet FileId) :
    CompilationUnit → UnitUpdate → Prop where
  | rebuilt (unit : CompilationUnit) (hunit : s.unit = none ∨ s.environmentStale = true) :
      NextUnit κ s stale unit .rebuilt
  | patched (old : CompilationUnit) (b : Bench κ) (d : Disk) (admitted : List (FileId × Path))
      (hunit : s.unit = some old) (hcurrent : s.environmentStale = false) :
      NextUnit κ s stale (old.patch b d admitted stale).2.unit
        (.patched (old.patch b d admitted stale).2.added (old.patch b d admitted stale).2.removed)

/-- What a refresh with these changed files and this context makes of a scope, and its report. -/
inductive Pass (κ : Type) [Compiler κ] (s : Scope) (c : CompileConfig) (changed : List FileId)
    (context : Option FileId) : Scope → CompileReport → Prop where
  | rested (hcompiled : s.compiled = true) (hcurrent : s.environmentStale = false)
      (hnothing : changed = []) :
      Pass κ s c changed context { s with previousContext := context } ⟨.upToDate, []⟩
  | accepted (sources : List SourceFile) (output : CompileOutput)
      (hblocker : s.blocker? c changed = none)
      (hfiles : sources.map SourceFile.file = s.workingFiles c changed context)
      (hanswer : Compiler.Answers κ (.ofList sources)
        (s.outerEnvironment (s.workingFiles c changed context)) (.ok output))
      (hdrift : (s.trees.surfaceOf (s.workingFiles c changed context)).drift
        (output.restrict (s.workingFiles c changed context)).surface = []) :
      Pass κ s c changed context
        (s.accept (s.workingFiles c changed context) sources
          (output.restrict (s.workingFiles c changed context)) context).1
        (s.accept (s.workingFiles c changed context) sources
          (output.restrict (s.workingFiles c changed context)) context).2
  | committed (unit : CompilationUnit) (update : UnitUpdate) (output : CompileOutput)
      (reason : FullCompileReason)
      (hunit : NextUnit κ s (s.affected changed context) unit update)
      (hanswer : Compiler.Answers κ unit.sources s.environment (.ok output)) :
      Pass κ s c changed context
        (s.commit unit update (s.affected changed context) output false context reason).1
        (s.commit unit update (s.affected changed context) output false context reason).2
  | stopped (unit : CompilationUnit) (update : UnitUpdate) (errors : DiagnosticMap)
      (reason : FullCompileReason)
      (hunit : NextUnit κ s (s.affected changed context) unit update)
      (hanswer : Compiler.Answers κ unit.sources s.environment (.error (.source errors))) :
      Pass κ s c changed context
        (s.commit unit update (s.affected changed context) { diagnostics := errors } true context
          reason).1
        (s.commit unit update (s.affected changed context) { diagnostics := errors } true context
          reason).2
  | failed (message : String) :
      Pass κ s c changed context { s with lastError := some message } ⟨.failed, []⟩

/-! ### The parts of a refresh -/

theorem nextUnit_spec (s : Scope) (d : Disk) (b : Bench κ) (admitted : List (FileId × Path))
    (stale : Std.ExtTreeSet FileId) :
    NextUnit κ s stale (s.nextUnit d b admitted stale).2.1
      (s.nextUnit d b admitted stale).2.2 := by
  unfold nextUnit
  split
  case h_1 old hunit hcurrent => exact .patched old b d admitted hunit hcurrent
  case h_2 hother =>
    refine .rebuilt _ ?_
    cases hunit : s.unit with
    | none => exact .inl rfl
    | some old =>
        right
        rw [← Bool.not_eq_false]
        exact hother old hunit

variable [Compiler κ]

theorem answers_of_compile {b b' : Bench κ} {sources : SourceSet} {env : CompileEnvironment}
    {answer : Except CompileError CompileOutput} (h : b.compile sources env = (b', answer)) :
    Compiler.Answers κ sources env answer :=
  ⟨b.compiler, (Compiler.compile b.compiler sources env).1,
    Prod.ext rfl (Prod.mk.inj h).2⟩

/-- An incremental compile that counts has read the whole working set, was answered by the
compiler, and found no drift. -/
theorem tryIncremental_ok {s s' : Scope} {c : CompileConfig} {d : Disk} {b b' : Bench κ}
    {changed : List FileId} {context : Option FileId} {report : CompileReport}
    (h : s.tryIncremental c d b changed context = (b', s', .ok report)) :
    ∃ (b₁ : Bench κ) (sources : List SourceFile) (output : CompileOutput),
      b.readAll d (s.workingFiles c changed context) = (b₁, some sources) ∧
      b₁.compile (.ofList sources) (s.outerEnvironment (s.workingFiles c changed context)) =
        (b', .ok output) ∧
      (s.trees.surfaceOf (s.workingFiles c changed context)).drift
        (output.restrict (s.workingFiles c changed context)).surface = [] ∧
      (s', report) = s.accept (s.workingFiles c changed context) sources
        (output.restrict (s.workingFiles c changed context)) context := by
  rw [tryIncremental] at h
  split at h
  · simp at h
  · split at h
    · simp at h
    · rename_i b₁ sources hread
      split at h
      · simp at h
      · simp at h
      · rename_i b₂ output hcompile
        dsimp only at h
        split at h
        · rename_i hdrift
          obtain ⟨rfl, hresult⟩ := Prod.mk.inj h
          obtain ⟨rfl, hreport⟩ := Prod.mk.inj hresult
          exact ⟨b₁, sources, output, hread, hcompile, List.isEmpty_iff.mp hdrift,
            Prod.ext rfl (Except.ok.inj hreport).symm⟩
        · simp at h

/-- An incremental compile that is refused has changed nothing of the scope: the trees, the graph,
the unit and the diagnostics are written only once nothing can refuse it any more. -/
theorem scope_of_tryIncremental_error {s s' : Scope} {c : CompileConfig} {d : Disk}
    {b b' : Bench κ} {changed : List FileId} {context : Option FileId}
    {reason : FullCompileReason}
    (h : s.tryIncremental c d b changed context = (b', s', .error reason)) : s' = s := by
  rw [tryIncremental] at h
  split at h
  case isTrue hlarge =>
    obtain ⟨-, rfl, -⟩ := h
    rfl
  case isFalse =>
    split at h
    case h_1 b₁ hunread =>
      obtain ⟨-, rfl, -⟩ := h
      rfl
    case h_2 b₁ sources hread =>
      split at h
      case h_1 b₂ errors hanswer =>
        obtain ⟨-, rfl, -⟩ := h
        rfl
      case h_2 b₂ message hanswer =>
        obtain ⟨-, rfl, -⟩ := h
        rfl
      case h_3 b₂ output hanswer =>
        dsimp only at h
        split at h
        case isTrue =>
          -- Without drift the compile counts.
          obtain ⟨-, hresult⟩ := Prod.mk.inj h
          obtain ⟨-, hreport⟩ := Prod.mk.inj hresult
          contradiction
        case isFalse =>
          obtain ⟨-, rfl, -⟩ := h
          rfl

theorem pass_of_tryIncremental {s s' : Scope} {c : CompileConfig} {d : Disk} {b b' : Bench κ}
    {changed : List FileId} {context : Option FileId} {report : CompileReport}
    (hblocker : s.blocker? c changed = none)
    (h : s.tryIncremental c d b changed context = (b', s', .ok report)) :
    Pass κ s c changed context s' report := by
  obtain ⟨b₁, sources, output, hread, hcompile, hdrift, hresult⟩ := tryIncremental_ok h
  obtain ⟨rfl, rfl⟩ := Prod.mk.inj hresult
  exact .accepted sources output hblocker (Bench.file_of_readAll hread)
    (answers_of_compile hcompile) hdrift

/-- A full compile commits what the compiler answered, or gives no report and leaves the compiler's
message. -/
theorem pass_of_compileAll (s : Scope) (c : CompileConfig) (d : Disk) (b : Bench κ)
    (changed : List FileId) (context : Option FileId) (reason : FullCompileReason) :
    Pass κ s c changed context (s.compileAll c d b changed context reason).2.1
      (s.compileAll c d b changed context reason).2.2 := by
  rw [compileAll, fullCompile]
  generalize hadmitted : Bench.registerAll _ d _ = registered
  obtain ⟨b₁, admitted⟩ := registered
  dsimp only
  have hunit := s.nextUnit_spec d b₁ admitted (s.affected changed context)
  generalize hnext : s.nextUnit d b₁ admitted (s.affected changed context) = next at hunit
  obtain ⟨b₂, unit, update⟩ := next
  dsimp only at hunit ⊢
  cases hcompile : b₂.compile unit.sources s.environment with
  | mk b₃ answer =>
      have hanswer := answers_of_compile hcompile
      cases answer with
      | ok output => exact .committed unit update output reason hunit hanswer
      | error e =>
          cases e with
          | source errors => exact .stopped unit update errors reason hunit hanswer
          | crashed message => exact .failed message

theorem pass_of_compileChanged (s : Scope) (c : CompileConfig) (d : Disk) (b : Bench κ)
    (changed : List FileId) (context : Option FileId) :
    Pass κ s c changed context (s.compileChanged c d b changed context).2.1
      (s.compileChanged c d b changed context).2.2 := by
  rw [compileChanged]
  split
  case h_1 reason _ => exact s.pass_of_compileAll c d b changed context reason
  case h_2 hblocker =>
    split
    case h_1 b₁ s' report hincremental => exact pass_of_tryIncremental hblocker hincremental
    case h_2 b₁ s' reason hrefused =>
      obtain rfl := scope_of_tryIncremental_error hrefused
      exact s'.pass_of_compileAll c d b₁ changed context reason

/-- Every refresh is one of the five passes. -/
theorem pass_of_refresh (s : Scope) (c : CompileConfig) (d : Disk) (b : Bench κ)
    (asked : Option FileId) :
    Pass κ s c (s.pending c b.tracker) (s.contextFor c b.tracker asked)
      (s.refresh c d b asked).2.1 (s.refresh c d b asked).2.2 := by
  rw [refresh]
  split
  case isTrue hready =>
    simp only [Bool.and_eq_true, Bool.not_eq_true', List.isEmpty_iff] at hready
    obtain ⟨⟨hcompiled, hcurrent⟩, hnothing⟩ := hready
    exact .rested hcompiled hcurrent hnothing
  case isFalse => exact s.pass_of_compileChanged c d _ _ _

end Scope

end Workbench
