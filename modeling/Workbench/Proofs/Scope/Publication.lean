import Workbench.Proofs.Scope.Marks
import Workbench.Proofs.Scope.Replay

/-!
What a refresh can publish about. The tracker knows the path of every file in a report, for a
compile reads and admits only files that are registered, and files with stored diagnostics were in a
report before.
-/

namespace Workbench

namespace Bench

variable {κ : Type} {b b' : Bench κ} {d : Disk} {file : FileId}

theorem knows_of_readAll {files : List FileId} {sources : List SourceFile}
    (h : b.readAll d files = (b', some sources)) (hfile : file ∈ files) :
    b'.tracker.registry.Knows file := by
  have hgrows := (lookedUp_of_readAll h).consulted.grows
  induction files generalizing b sources with
  | nil => exact absurd hfile List.not_mem_nil
  | cons first rest ih =>
      rw [readAll] at h
      split at h
      · simp at h
      · rename_i p hp
        split at h
        · simp at h
        · rename_i b₁ source hread
          obtain ⟨more, hmore, -⟩ := Option.map_eq_some_iff.mp (Prod.mk.inj h).2
          have hrest : b₁.readAll d rest = (b', some more) := Prod.ext (Prod.mk.inj h).1 hmore
          rcases List.mem_cons.mp hfile with rfl | hlater
          · have hknows : b.tracker.registry.Knows file := Registry.knows_of_path? hp
            exact hknows.grows hgrows
          · exact ih hrest hlater (lookedUp_of_readAll hrest).consulted.grows

theorem knows_of_registerAll (b : Bench κ) (d : Disk) (paths : List Path) :
    ∀ file ∈ (b.registerAll d paths).2.map Prod.fst,
      (b.registerAll d paths).1.tracker.registry.Knows file := by
  induction paths generalizing b with
  | nil => exact fun file hfile => absurd hfile List.not_mem_nil
  | cons p rest ih =>
      intro file hfile
      rcases List.mem_cons.mp hfile with rfl | hlater
      · have hrest := lookedUp_registerAll { b with tracker := (b.tracker.register d p).1 } d rest
        exact (b.tracker.registry.knows_register (d.normalize p)).grows hrest.consulted.grows
      · exact ih _ file hlater

end Bench

namespace Scope

variable {κ : Type}

/-- The next unit has admitted files only. -/
theorem admitted_of_nextUnit (s : Scope) (d : Disk) (b : Bench κ) (admitted : List (FileId × Path))
    (stale : Std.ExtTreeSet FileId) :
    ∀ file ∈ (s.nextUnit d b admitted stale).2.1.files, file ∈ admitted.map Prod.fst := by
  intro file hfile
  unfold nextUnit at hfile
  split at hfile
  case h_1 unit _ _ =>
    refine Decidable.of_not_not fun hnot => ?_
    -- What is not admitted leaves at the start and is not visited.
    have hview := CompilationUnit.Patch.view_visitAll_of_not_mem b d stale
      (CompilationUnit.Patch.start unit admitted) hnot
    have hgone := (Prod.mk.inj hview).1.trans (CompilationUnit.Patch.view_start_of_not_mem hnot)
    have hmem := Std.ExtTreeMap.mem_keys.mp hfile
    rw [← Std.ExtTreeMap.isSome_getElem?_iff_mem] at hmem
    exact Option.ne_none_iff_isSome.mpr hmem hgone
  case h_2 =>
    have hmem := SourceSet.mem_ofList.mp (Std.ExtTreeMap.mem_keys.mp hfile)
    obtain ⟨source, hsource, rfl⟩ := List.mem_map.mp hmem
    exact b.file_of_readSome d admitted source hsource

theorem mem_diagnosed {s : Scope} {unit : CompilationUnit} {file : FileId} :
    file ∈ s.diagnosed unit ↔ file ∈ unit.files ∨ file ∈ s.diagnostics := by
  rw [diagnosed, Std.ExtTreeSet.mem_toList, Std.ExtTreeSet.mem_ofList, List.contains_iff_mem,
    List.mem_append, Std.ExtTreeMap.mem_keys]

variable [Compiler κ] {s s' : Scope} {c : CompileConfig} {d : Disk} {b b' : Bench κ}
  {changed : List FileId} {context : Option FileId} {report : CompileReport} {file : FileId}

theorem knows_of_tryIncremental
    (h : s.tryIncremental c d b changed context = (b', s', .ok report))
    (hfile : file ∈ report.published.map Prod.fst) : b'.tracker.registry.Knows file := by
  obtain ⟨b₁, sources, output, hread, hanswer, -, hresult⟩ := tryIncremental_ok h
  obtain ⟨-, rfl⟩ := Prod.mk.inj hresult
  have hworking := (DiagnosticMap.sublist_replace _ _ _).subset hfile
  rw [Bench.tracker_of_compile hanswer]
  exact Bench.knows_of_readAll hread hworking

theorem knows_of_fullCompile {reason : FullCompileReason}
    (hstored : ∀ file ∈ s.diagnostics, b.tracker.registry.Knows file)
    (h : s.fullCompile c d b changed context reason = (b', s', some report))
    (hfile : file ∈ report.published.map Prod.fst) : b'.tracker.registry.Knows file := by
  have hconsulted := (s.fullCompile_spec c d b changed context reason).1.consulted
  rw [h] at hconsulted
  rw [fullCompile] at h
  have hadmitted := (b.note (s.territory.admissionWarnings c d)).knows_of_registerAll d
    (s.territory.admittedSources c d b.tracker.openPaths)
  dsimp only at h
  generalize Bench.registerAll _ d _ = registered at h hadmitted
  obtain ⟨b₁, admitted⟩ := registered
  dsimp only at h hadmitted
  have hunit := s.admitted_of_nextUnit d b₁ admitted (s.affected changed context)
  have hthen := (s.lookedUp_nextUnit d b₁ admitted (s.affected changed context)).consulted
  generalize s.nextUnit d b₁ admitted (s.affected changed context) = next at h hunit hthen
  obtain ⟨b₂, unit, update⟩ := next
  dsimp only at h hunit hthen
  cases hanswer : b₂.compile unit.sources s.environment with
  | mk b₃ answer =>
      -- Whether it found source errors or not, a compile commits and reports in the same way.
      have hcommit (hbench : b₃ = b') (output : CompileOutput) (sourceErrors : Bool)
          (hreport : (s.commit unit update (s.affected changed context) output sourceErrors context
            reason).2 = report) : b'.tracker.registry.Knows file := by
        subst hbench hreport
        rcases mem_diagnosed.mp ((DiagnosticMap.sublist_replace _ _ _).subset hfile) with hin | hhad
        · rw [Bench.tracker_of_compile hanswer]
          exact (hadmitted file (hunit file hin)).grows hthen.grows
        · exact (hstored file hhad).grows hconsulted.grows
      rw [hanswer] at h
      cases answer with
      | ok output =>
          simp only [Prod.mk.injEq, Option.some.injEq] at h
          exact hcommit h.1 output false h.2.2
      | error e =>
          cases e with
          | source errors =>
              simp only [Prod.mk.injEq, Option.some.injEq] at h
              exact hcommit h.1 { diagnostics := errors } true h.2.2
          | crashed message => simp at h

theorem knows_of_compileAll {reason : FullCompileReason}
    (hstored : ∀ file ∈ s.diagnostics, b.tracker.registry.Knows file)
    (hfile : file ∈ (s.compileAll c d b changed context reason).2.2.published.map Prod.fst) :
    (s.compileAll c d b changed context reason).1.tracker.registry.Knows file := by
  revert hfile
  rw [compileAll]
  cases hcompile : s.fullCompile c d b changed context reason with
  | mk b' result =>
      obtain ⟨s', report⟩ := result
      cases report with
      | some report => exact knows_of_fullCompile hstored hcompile
      | none => exact fun h => absurd h List.not_mem_nil

theorem knows_of_compileChanged (hstored : ∀ file ∈ s.diagnostics, b.tracker.registry.Knows file)
    (hfile : file ∈ (s.compileChanged c d b changed context).2.2.published.map Prod.fst) :
    (s.compileChanged c d b changed context).1.tracker.registry.Knows file := by
  have hconsulted := (s.lookedUp_tryIncremental c d b changed context).consulted
  revert hfile
  rw [compileChanged]
  split
  case h_1 => exact knows_of_compileAll hstored
  case h_2 =>
    split
    case h_1 b' s' report hincremental => exact knows_of_tryIncremental hincremental
    case h_2 b' s' reason hrefused =>
      obtain rfl := scope_of_tryIncremental_error hrefused
      rw [hrefused] at hconsulted
      exact knows_of_compileAll fun file h => (hstored file h).grows hconsulted.grows

/-- Every file in the report of a refresh is known after it, if those with diagnostics were known
before. -/
theorem knows_of_refresh (s : Scope) (c : CompileConfig) (d : Disk) (b : Bench κ)
    (asked : Option FileId) (hstored : ∀ file ∈ s.diagnostics, b.tracker.registry.Knows file) :
    ∀ file ∈ (s.refresh c d b asked).2.2.published.map Prod.fst,
      (s.refresh c d b asked).1.tracker.registry.Knows file := by
  intro file
  rw [refresh]
  split
  · exact fun h => absurd h List.not_mem_nil
  · exact knows_of_compileChanged hstored

end Scope

end Workbench
