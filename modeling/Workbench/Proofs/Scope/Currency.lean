import Workbench.Proofs.Scope.Commit
import Workbench.Proofs.Scope.Session
import Workbench.Proofs.Toy.Compiler

/-!
Trees against texts. A compile that stops at broken sources puts the new texts into the unit but has
no trees for them. The next compile that goes through then visits only what has changed since, and
so a file of the stopped compile may keep the tree of an older text. This is the only way in which
a tree gets out of date: over whole runs the trees are those of the texts exactly if every full
compile that recovers from broken sources visits the files that need it.
-/

namespace Workbench

open Toy

deriving instance DecidableEq for FileSyntax

namespace Scope

def source? (s : Scope) (file : FileId) : Option SourceFile :=
  s.unit.bind fun unit => unit.sources[file]?

/-- If the unit has the file, its text parses, and the file has the tree of that text. -/
def IsCurrent (s : Scope) (file : FileId) : Prop :=
  ∀ source, s.source? file = some source →
    ∃ parsed, parse source.text = .ok parsed ∧ s.trees.get? file = some parsed.tree

instance (s : Scope) (file : FileId) : Decidable (s.IsCurrent file) :=
  match hsource : s.source? file with
  | none => isTrue (by simp [IsCurrent, hsource])
  | some source =>
    match hparse : parse source.text with
    | .error _ => isFalse (by simp [IsCurrent, hsource, hparse])
    | .ok parsed =>
      decidable_of_iff (s.trees.get? file = some parsed.tree)
        (by simp [IsCurrent, hsource, hparse])

/-- Unless the last full compile stopped at broken sources, every file is current. -/
def Current (s : Scope) : Prop := s.sourceErrors = false → ∀ file, s.IsCurrent file

/-- If broken sources are behind the scope now, and its unit was not built anew, all files that were
not current are among the affected ones. -/
def RecoveryVisits (s s' : Scope) (affected : Std.ExtTreeSet FileId) : Prop :=
  s.sourceErrors = true → s.environmentStale = false → s'.sourceErrors = false →
    ∀ file, (s'.source? file).isSome → ¬ s.IsCurrent file → file ∈ affected

theorem IsCurrent.congr {s s' : Scope} {file : FileId} (hsource : s'.source? file = s.source? file)
    (htree : s'.trees.get? file = s.trees.get? file) : s'.IsCurrent file ↔ s.IsCurrent file := by
  rw [IsCurrent, IsCurrent, hsource, htree]

theorem isCurrent_of_source?_eq_none {s : Scope} {file : FileId} (h : s.source? file = none) :
    s.IsCurrent file := by
  intro source hsource
  rw [h] at hsource
  contradiction

theorem SameResults.current {s s' : Scope} (h : s.SameResults s') (hs : s.Current) :
    s'.Current := by
  intro herrors file
  have hfile := hs (h.sourceErrors_eq ▸ herrors) file
  exact (IsCurrent.congr (by rw [source?, h.unit_eq, source?]) (by rw [h.trees_eq])).mpr hfile

variable {s : Scope}

/-- Who does not get out of broken sources has nothing to visit. -/
theorem recoveryVisits_of_sourceErrors_eq {s' : Scope} (h : s'.sourceErrors = s.sourceErrors)
    (affected : Std.ExtTreeSet FileId) : s.RecoveryVisits s' affected := by
  intro hbroken _ hclean
  rw [h, hbroken] at hclean
  contradiction

/-! ### One compile -/

/-- After an incremental compile that counts, the files of the working set are current, and others
are if they were. -/
theorem isCurrent_accept {files : List FileId} {sources : List SourceFile}
    {env : CompileEnvironment} {output : CompileOutput}
    (hfiles : sources.map SourceFile.file = files)
    (hcompile : compileSources (.ofList sources) env = .ok output) (context : Option FileId)
    {file : FileId} (hfile : s.IsCurrent file) :
    (s.accept files sources (output.restrict files) context).1.IsCurrent file := by
  intro source hsource
  obtain ⟨_, hunit, hin⟩ := Option.bind_eq_some_iff.mp hsource
  obtain ⟨unit, hold, rfl⟩ := Option.map_eq_some_iff.mp hunit
  rw [get?_trees_accept]
  by_cases hworking : file ∈ files
  · rw [CompilationUnit.getElem?_insertAll_of_mem hfiles unit hworking] at hin
    obtain ⟨parsed, hparsed, htree⟩ := getElem?_trees_of_getElem? hcompile hin
    exact ⟨parsed, hparsed, by rw [if_pos hworking, htree, Option.some_or]⟩
  · rw [CompilationUnit.getElem?_insertAll_of_not_mem hfiles unit hworking] at hin
    rw [if_neg hworking, Option.none_or]
    exact hfile source (Option.bind_eq_some_iff.mpr ⟨unit, hold, hin⟩)

/-- After a full compile that goes through, every visited file is current. -/
theorem isCurrent_commit_of_mem {unit : CompilationUnit} {env : CompileEnvironment}
    {output : CompileOutput} (hcompile : compileSources unit.sources env = .ok output)
    {update : UnitUpdate} {affected : Std.ExtTreeSet FileId} (context : Option FileId)
    (reason : FullCompileReason) {file : FileId} (hfile : file ∈ revisited unit affected update) :
    (s.commit unit update affected output false context reason).1.IsCurrent file := by
  intro source hsource
  obtain ⟨parsed, hparsed, htree⟩ := getElem?_trees_of_getElem? hcompile hsource
  refine ⟨parsed, hparsed, ?_⟩
  cases update with
  | rebuilt =>
      exact (get?_nextTrees_rebuilt s _ output file).trans
        (by rw [if_pos hfile, htree, Option.some_or])
  | patched added removed =>
      exact (get?_nextTrees_patched s _ output added removed file).trans
        (by rw [if_pos hfile, htree, Option.some_or])

theorem isCurrent_commit_of_not_contains {unit : CompilationUnit} {update : UnitUpdate}
    {affected : Std.ExtTreeSet FileId} {output : CompileOutput} {context : Option FileId}
    {reason : FullCompileReason} {file : FileId} (hout : ¬ unit.contains file) :
    (s.commit unit update affected output false context reason).1.IsCurrent file := by
  apply isCurrent_of_source?_eq_none
  rw [CompilationUnit.contains_eq_isSome, Option.not_isSome_iff_eq_none] at hout
  exact hout

/-- A full compile of a patched unit that does not visit a file leaves it as it was, current or
not. -/
theorem isCurrent_commit_patched_iff {κ : Type} {old : CompilationUnit} (hold : s.unit = some old)
    (b : Bench κ) (d : Disk) (admitted : List (FileId × Path)) {affected : Std.ExtTreeSet FileId}
    (output : CompileOutput) (context : Option FileId) (reason : FullCompileReason) {file : FileId}
    (hknown : old.contains file) (haffected : file ∉ affected)
    (hstays : (old.patch b d admitted affected).2.unit.contains file) :
    (s.commit (old.patch b d admitted affected).2.unit
        (.patched (old.patch b d admitted affected).2.added
          (old.patch b d admitted affected).2.removed)
        affected output false context reason).1.IsCurrent file ↔
      s.IsCurrent file := by
  have hview := old.view_patch_of_known b d admitted hknown haffected hstays
  generalize (old.patch b d admitted affected).2 = patch at hview ⊢
  simp only [CompilationUnit.Patch.view, Prod.mk.injEq] at hview
  obtain ⟨hsource, hadded, hremoved⟩ := hview
  rw [← Bool.not_eq_true, ← Std.ExtTreeSet.mem_iff_contains] at hadded hremoved
  have hout : file ∉ revisited patch.unit affected (.patched patch.added patch.removed) := by
    rw [mem_revisited_patched]
    rintro ⟨h | h, -⟩
    · exact haffected h
    · exact hadded h
  apply IsCurrent.congr
  · rw [source?, source?, hold]
    exact hsource
  · refine (get?_nextTrees_patched s _ output patch.added patch.removed file).trans ?_
    rw [if_neg hout, if_neg hremoved, Option.none_or]

/-- A full compile of a patched unit makes all files current exactly if the affected files include
those that were not current. -/
theorem current_commit_patched_iff {κ : Type} {old : CompilationUnit} (hold : s.unit = some old)
    (b : Bench κ) (d : Disk) (admitted : List (FileId × Path)) {affected : Std.ExtTreeSet FileId}
    {env : CompileEnvironment} {output : CompileOutput}
    (hcompile :
      compileSources (old.patch b d admitted affected).2.unit.sources env = .ok output)
    (context : Option FileId) (reason : FullCompileReason) :
    (s.commit (old.patch b d admitted affected).2.unit
        (.patched (old.patch b d admitted affected).2.added
          (old.patch b d admitted affected).2.removed)
        affected output false context reason).1.Current ↔
      ∀ file, (old.patch b d admitted affected).2.unit.contains file → ¬ s.IsCurrent file →
        file ∈ affected := by
  constructor
  · intro hcurrent file hin hnot
    apply Decidable.byContradiction
    intro haffected
    have hknown : old.contains file := by
      rw [CompilationUnit.contains_eq_isSome, Option.isSome_iff_ne_none]
      intro hnone
      exact hnot (isCurrent_of_source?_eq_none (by rw [source?, hold]; exact hnone))
    exact hnot ((isCurrent_commit_patched_iff hold b d admitted output context reason hknown
      haffected hin).mp (hcurrent rfl file))
  · intro hvisits _ file
    by_cases hin : (old.patch b d admitted affected).2.unit.contains file
    · by_cases hfile : file ∈ affected ∨ file ∈ (old.patch b d admitted affected).2.added
      · exact isCurrent_commit_of_mem hcompile context reason
          (mem_revisited_patched.mpr ⟨hfile, hin⟩)
      · rw [not_or] at hfile
        have hknown : old.contains file :=
          Decidable.byContradiction fun hnew =>
            hfile.2 (old.mem_added_of_new b d admitted hnew hin)
        rw [isCurrent_commit_patched_iff hold b d admitted output context reason hknown hfile.1 hin]
        exact Decidable.byContradiction fun hnot => hfile.1 (hvisits file hin hnot)
    · exact isCurrent_commit_of_not_contains hin

/-! ### One refresh -/

theorem sourceErrors_of_blocker?_eq_none {c : CompileConfig} {changed : List FileId}
    (h : s.blocker? c changed = none) : s.sourceErrors = false := by
  unfold blocker? at h
  split at h
  · contradiction
  · split at h
    · contradiction
    · split at h
      · contradiction
      · rename_i hclean
        simpa using hclean

/-- A scope whose files are current stays so over a refresh exactly if the refresh, in case it
recovers from broken sources, visits what was not current. -/
theorem Pass.current_iff {s' : Scope} {c : CompileConfig} {changed : List FileId}
    {context : Option FileId} {report : CompileReport}
    (hpass : Pass CompilerState s c changed context s' report) (hs : s.Current) :
    s'.Current ↔ s.RecoveryVisits s' (s.affected changed context) := by
  cases hpass with
  | rested =>
      exact iff_of_true (SameResults.current ⟨rfl, rfl, rfl, rfl, rfl⟩ hs)
        (recoveryVisits_of_sourceErrors_eq rfl _)
  | failed message =>
      exact iff_of_true (SameResults.current ⟨rfl, rfl, rfl, rfl, rfl⟩ hs)
        (recoveryVisits_of_sourceErrors_eq rfl _)
  | accepted sources output hblocker hfiles hanswer hdrift =>
      have hclean := sourceErrors_of_blocker?_eq_none hblocker
      obtain ⟨before, after, hrun⟩ := hanswer
      refine iff_of_true ?_ ?_
      · intro _ file
        exact isCurrent_accept hfiles (compileSources_of_run hrun) context (hs hclean file)
      · apply recoveryVisits_of_sourceErrors_eq
        rfl
  | stopped unit update errors reason hunit hanswer =>
      refine iff_of_true ?_ ?_
      · intro hclean
        exact absurd hclean (by simp [commit])
      · intro _ _ hclean
        exact absurd hclean (by simp [commit])
  | committed unit update output reason hunit hanswer =>
      obtain ⟨before, after, hrun⟩ := hanswer
      have hcompile := compileSources_of_run hrun
      cases hunit with
      | rebuilt unit hunit =>
          refine iff_of_true ?_ ?_
          · intro _ file
            by_cases hin : unit.contains file
            · exact isCurrent_commit_of_mem hcompile context reason (mem_revisited_rebuilt.mpr hin)
            · exact isCurrent_commit_of_not_contains hin
          · intro _ hfresh _ file _ hnot
            -- With a fresh environment the unit is built anew only if there was none.
            have hnone : s.unit = none := by
              rcases hunit with hnone | hstale
              · exact hnone
              · exact absurd (hfresh.symm.trans hstale) (by decide)
            exact absurd (isCurrent_of_source?_eq_none (by rw [source?, hnone]; rfl)) hnot
      | patched old b d admitted hold hfresh =>
          rw [current_commit_patched_iff hold b d admitted hcompile]
          constructor
          · intro hvisits _ _ _ file hin
            exact hvisits file (CompilationUnit.contains_eq_isSome _ file ▸ hin)
          · intro hvisits file hin hnot
            cases hbroken : s.sourceErrors with
            | false => exact absurd (hs hbroken file) hnot
            | true =>
                rw [CompilationUnit.contains_eq_isSome] at hin
                exact hvisits hbroken hfresh rfl file hin hnot

end Scope

/-! ### Whole runs -/

namespace Session

variable (c : CompileConfig)

/-- In every run of a scope that starts uncompiled: every refresh that ends without broken sources
leaves each file of the unit with the tree of its text, if and only if every refresh that recovers
from broken sources visits all files that are not current. -/
theorem everyRefresh_current_iff (disk : Disk) (bench : Bench CompilerState) (root : Path)
    (actions : List (Action CompilerState)) :
    EveryRefresh c (fun x asked => (x.refresh c asked).1.scope.Current)
        (start disk bench root) actions ↔
      EveryRefresh c (fun x asked => x.scope.RecoveryVisits (x.refresh c asked).1.scope
          (x.scope.affected (x.pending c) (x.contextFor c asked)))
        (start disk bench root) actions := by
  apply everyRefresh_iff fun s s' => Scope.SameResults.current
  · intro x asked hx
    exact (x.pass_refresh asked).current_iff hx
  · intro x asked hx hvisits
    exact ((x.pass_refresh asked).current_iff hx).mpr hvisits
  · intro _ file
    exact Scope.isCurrent_of_source?_eq_none rfl

/-! Both files change, one of them for the worse; the compile stops, and what it knows of the other
is lost when the first is mended. -/

def mendingActions : List (Action CompilerState) :=
  [.opening ⟨"/p/A.groovy"⟩ "class A \x7b\n\x7d\n",
    .opening ⟨"/p/B.groovy"⟩ "class B \x7b\n\x7d\n",
    .refresh (some 1),
    .replacing ⟨"/p/A.groovy"⟩ 2 "class A \x7b\n    int x\n\x7d\n",
    .replacing ⟨"/p/B.groovy"⟩ 2 "class B \x7b\n",
    .refresh (some 1),
    .replacing ⟨"/p/B.groovy"⟩ 3 "class B \x7b\n\x7d\n"]

theorem not_everyRefresh_current_mending :
    ¬ EveryRefresh {} (fun x asked => (x.refresh {} asked).1.scope.Current)
      (blank ({} : CompilerState)) (mendingActions ++ [.refresh (some 1)]) := by
  intro h
  have hlast :
      (((blank ({} : CompilerState)).run {} mendingActions).refresh {}
          (some 1)).1.scope.sourceErrors = false ∧
        ¬ (((blank ({} : CompilerState)).run {} mendingActions).refresh {}
          (some 1)).1.scope.IsCurrent 0 := by
    decide +kernel
  exact hlast.2 (h mendingActions (some 1) [] rfl hlast.1 0)

end Session

end Workbench
