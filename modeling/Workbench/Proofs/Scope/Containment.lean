import Workbench.Proofs.Scope.Commit
import Workbench.Proofs.Scope.Currency
import Workbench.Proofs.Scope.Linkage
import Workbench.Proofs.Scope.Publication
import Workbench.Proofs.Scope.Replay

/-!
No ghosts in a scope. The unit says which files a project has. Whatever else a scope keeps is about
these: a tree is that of a file of the unit, an edge starts at a file with a tree, diagnostics are
those of a file of the unit, and the owner of a class has a tree that declares it. Files leave the
unit in many ways, and the trees, the edges and the diagnostics follow in each of them.
-/

namespace Workbench

/-! ### What belongs to a unit -/

namespace Compiler

/-- The compiler has diagnostics for nothing but the sources it was given. -/
def KeepsToSources (κ : Type) [Compiler κ] : Prop :=
  (∀ sources env output, Answers κ sources env (.ok output) →
    ∀ file : FileId, output.diagnostics.ofFile file ≠ [] → file ∈ sources) ∧
  ∀ sources env errors, Answers κ sources env (.error (.source errors)) →
    ∀ file : FileId, errors.ofFile file ≠ [] → file ∈ sources

end Compiler

/-- The toy compiler reports each warning and each error on the source that it is about. -/
theorem Toy.keepsToSources : Compiler.KeepsToSources CompilerState := by
  constructor
  · rintro sources env output ⟨before, after, hrun⟩ file hfound
    refine Decidable.of_not_not fun hout => hfound ?_
    exact ofFile_diagnostics_of_not_mem (compileSources_of_run hrun) hout
  · rintro sources env errors ⟨before, after, hrun⟩ file hfound
    refine Decidable.of_not_not fun hout => hfound ?_
    change run before sources env = _ at hrun
    rw [run] at hrun
    split at hrun
    · simp at hrun
    · have hanswer := (Prod.mk.inj hrun).2
      rw [compileSources] at hanswer
      dsimp only at hanswer
      split at hanswer
      · contradiction
      · cases hanswer
        rw [DiagnosticMap.ofFile, Std.ExtTreeMap.getD_eq_getD_getElem?, getElem?_syntaxErrors,
          Std.ExtTreeMap.getElem?_eq_none hout]
        rfl

namespace Scope

/-- What a scope keeps is about files of its unit. -/
structure Contained (s : Scope) : Prop where
  unit_of_tree : ∀ file tree, s.trees.get? file = some tree → (s.source? file).isSome
  tree_of_edge : ∀ file target,
    target ∈ s.graph.dependencies file ∨ file ∈ s.graph.dependents target →
      ∃ tree, s.trees.get? file = some tree
  unit_of_diagnostics : ∀ file ∈ s.diagnostics, (s.source? file).isSome
  tree_of_owner : ∀ name file, s.trees.declaringFile? name = some file →
    ∃ tree, s.trees.get? file = some tree ∧ tree.Declares name
  blank : s.unit = none → s.trees = {} ∧ s.graph = {} ∧ s.diagnostics = ∅

/-- A contained scope whose parts were made in the ways there are to make them. -/
structure Orderly (s : Scope) : Prop extends Contained s where
  made : s.trees.Made
  mirrored : s.graph.Mirrored
  allTidy : s.diagnostics.AllTidy

theorem SameResults.orderly {s s' : Scope} (h : s.SameResults s') (hs : s.Orderly) :
    s'.Orderly := by
  obtain ⟨⟨htree, hedge, hdiagnostics, howner, hblank⟩, hmade, hmirrored, htidy⟩ := hs
  have hsource (file : FileId) : s'.source? file = s.source? file := by
    rw [source?, source?, h.unit_eq]
  refine ⟨⟨?_, ?_, ?_, ?_, ?_⟩, ?_, ?_, ?_⟩ <;>
    simp only [h.trees_eq, h.graph_eq, h.diagnostics_eq, h.unit_eq, hsource] <;> assumption

theorem orderly_ofRoot (d : Disk) (root : Path) : (ofRoot d root).Orderly where
  unit_of_tree file tree h := by simp [ofRoot, SyntaxIndex.get?] at h
  tree_of_edge file target h := by
    simp [ofRoot, DependencyGraph.dependencies, DependencyGraph.dependents,
      Adjacency.neighbours] at h
  unit_of_diagnostics file h := by simp [ofRoot] at h
  tree_of_owner name file h := by simp [ofRoot, SyntaxIndex.declaringFile?] at h
  blank _ := ⟨rfl, rfl, rfl⟩
  made := .empty
  mirrored := DependencyGraph.mirrored_empty
  allTidy := DiagnosticMap.allTidy_empty

variable {s : Scope}

/-! ### One compile -/

/-- A file with diagnostics after a replacement was replaced by some, or had some and was left
alone. -/
theorem mem_of_mem_replace {stored fresh : DiagnosticMap} (hstored : stored.AllTidy)
    {files : List FileId} {file : FileId} (h : file ∈ (stored.replace fresh files).1) :
    (file ∈ files ∧ fresh.ofFile file ≠ []) ∨ (file ∉ files ∧ file ∈ stored) := by
  have hfound : (stored.replace fresh files).1.ofFile file ≠ [] := by
    obtain ⟨found, hget⟩ :=
      Option.isSome_iff_exists.mp (Std.ExtTreeMap.isSome_getElem?_iff_mem.mpr h)
    rw [DiagnosticMap.ofFile, Std.ExtTreeMap.getD_eq_getD_getElem?, hget]
    exact ((hstored.replace fresh files) file found hget).1
  rw [DiagnosticMap.ofFile_replace] at hfound
  split at hfound
  case isTrue hmem =>
    refine .inl ⟨hmem, fun hnone => hfound ?_⟩
    rw [hnone]
    rfl
  case isFalse hout =>
    refine .inr ⟨hout, Decidable.of_not_not fun hnone => hfound ?_⟩
    rw [DiagnosticMap.ofFile, Std.ExtTreeMap.getD_eq_getD_getElem?,
      Std.ExtTreeMap.getElem?_eq_none hnone]
    rfl

/-- An incremental compile puts its working set into the unit before it keeps anything of it. -/
theorem orderly_accept (hs : s.Orderly) {old : CompilationUnit} (hold : s.unit = some old)
    {files : List FileId} {sources : List SourceFile} (hfiles : sources.map SourceFile.file = files)
    (output : CompileOutput) (context : Option FileId) :
    (s.accept files sources (output.restrict files) context).1.Orderly := by
  have hget := s.get?_trees_accept files sources output context
  have hunit : (s.accept files sources (output.restrict files) context).1.unit =
      some (old.insertAll sources) := by
    rw [accept, hold]
    rfl
  have hgraph (file target : FileId) :
      target ∈ (s.accept files sources (output.restrict files) context).1.graph.dependencies
          file ↔
        if file ∈ files then
          target ∈ (s.accept files sources (output.restrict files) context).1.trees.dependenciesOf
            file
        else target ∈ s.graph.dependencies file :=
    s.graph.mem_dependencies_relink _ files
  have hmade : (s.accept files sources (output.restrict files) context).1.trees.Made :=
    hs.made.insertAll _
  have hmirrored : (s.accept files sources (output.restrict files) context).1.graph.Mirrored :=
    DependencyGraph.mirrored_relink hs.mirrored _ _
  have hdiagnostics (file : FileId) :
      file ∈ (s.accept files sources (output.restrict files) context).1.diagnostics →
        file ∈ files ∨ file ∈ s.diagnostics := fun h =>
    (mem_of_mem_replace hs.allTidy h).imp And.left And.right
  have htidy : (s.accept files sources (output.restrict files) context).1.diagnostics.AllTidy :=
    hs.allTidy.replace _ _
  generalize (s.accept files sources (output.restrict files) context).1 = s' at *
  have hworking {file : FileId} (hfile : file ∈ files) : (s'.source? file).isSome := by
    rw [source?, hunit, Option.bind_some, CompilationUnit.getElem?_insertAll_of_mem hfiles old hfile]
    exact SourceSet.isSome_getElem?_ofList.mpr (hfiles ▸ hfile)
  have hkept {file : FileId} (hfile : (s.source? file).isSome) : (s'.source? file).isSome := by
    by_cases hmem : file ∈ files
    · exact hworking hmem
    · rw [source?, hold] at hfile
      rwa [source?, hunit, Option.bind_some,
        CompilationUnit.getElem?_insertAll_of_not_mem hfiles old hmem]
  refine ⟨⟨?_, ?_, ?_, hmade.sound, ?_⟩, hmade, hmirrored, htidy⟩
  · intro file tree htree
    by_cases hmem : file ∈ files
    · exact hworking hmem
    · rw [hget, if_neg hmem, Option.none_or] at htree
      exact hkept (hs.unit_of_tree file tree htree)
  · intro file target hedge
    rw [← hmirrored, or_self, hgraph] at hedge
    split at hedge
    · obtain ⟨tree, -, htree, -⟩ := SyntaxIndex.mem_dependenciesOf.mp hedge
      exact ⟨tree, htree⟩
    · obtain ⟨tree, htree⟩ := hs.tree_of_edge file target (.inl hedge)
      rw [hget, if_neg ‹_›, Option.none_or]
      exact ⟨tree, htree⟩
  · intro file hfile
    exact (hdiagnostics file hfile).elim hworking fun h => hkept (hs.unit_of_diagnostics file h)
  · intro hnone
    rw [hunit] at hnone
    contradiction

/-- Of a patched unit, what was not removed stays: the trees of other files and their edges. -/
theorem contains_of_not_removed {κ : Type} (hs : s.Orderly) {old : CompilationUnit}
    (hold : s.unit = some old) (b : Bench κ) (d : Disk) (admitted : List (FileId × Path))
    (stale : Std.ExtTreeSet FileId) {file : FileId} {tree : FileSyntax}
    (htree : s.trees.get? file = some tree)
    (hkept : file ∉ (old.patch b d admitted stale).2.removed) :
    (old.patch b d admitted stale).2.unit.contains file := by
  have hknown := hs.unit_of_tree file tree htree
  rw [source?, hold, Option.bind_some, ← CompilationUnit.contains_eq_isSome] at hknown
  exact (CompilationUnit.accounts_patch hknown b d admitted stale).resolve_right hkept

theorem unit_of_tree_commit {κ : Type} (hs : s.Orderly) {stale : Std.ExtTreeSet FileId}
    {unit : CompilationUnit} {update : UnitUpdate} (hunit : NextUnit κ s stale unit update)
    (output : CompileOutput) {file : FileId} {tree : FileSyntax}
    (htree : (s.nextTrees (revisited unit stale update) output update).get? file = some tree) :
    unit.contains file := by
  cases hunit with
  | rebuilt unit =>
      rw [get?_nextTrees_rebuilt] at htree
      split at htree
      · exact mem_revisited_rebuilt.mp ‹_›
      · contradiction
  | patched old b d admitted hold =>
      rw [get?_nextTrees_patched] at htree
      rcases Option.or_eq_some_iff.mp htree with hnew | ⟨-, hkept⟩
      · split at hnew
        · exact (mem_revisited_patched.mp ‹_›).2
        · contradiction
      · split at hkept
        · contradiction
        · exact contains_of_not_removed hs hold b d admitted stale hkept ‹_›

theorem tree_of_edge_commit {κ : Type} (hs : s.Orderly) {stale : Std.ExtTreeSet FileId}
    {unit : CompilationUnit} {update : UnitUpdate} (hunit : NextUnit κ s stale unit update)
    (output : CompileOutput) {file target : FileId}
    (hedge : target ∈ (s.nextGraph (s.nextTrees (revisited unit stale update) output update)
      (revisited unit stale update) update).dependencies file) :
    ∃ tree, (s.nextTrees (revisited unit stale update) output update).get? file = some tree := by
  have hlinked {trees : SyntaxIndex} (h : target ∈ trees.dependenciesOf file) :
      ∃ tree, trees.get? file = some tree := by
    obtain ⟨tree, -, htree, -⟩ := SyntaxIndex.mem_dependenciesOf.mp h
    exact ⟨tree, htree⟩
  cases hunit with
  | rebuilt unit =>
      rw [nextGraph, DependencyGraph.mem_dependencies_relink] at hedge
      split at hedge
      · exact hlinked hedge
      · simp [DependencyGraph.dependencies, Adjacency.neighbours] at hedge
  | patched old b d admitted hold =>
      rw [nextGraph, DependencyGraph.mem_dependencies_relink] at hedge
      split at hedge
      · exact hlinked hedge
      · rw [DependencyGraph.mem_dependencies_foldl_removeFile, Std.ExtTreeSet.mem_toList] at hedge
        obtain ⟨tree, htree⟩ := hs.tree_of_edge file target (.inl hedge.2)
        rw [get?_nextTrees_patched, if_neg hedge.1, htree]
        exact Option.isSome_iff_exists.mp (by rw [Option.isSome_or, Option.isSome_some, Bool.or_true])

theorem made_nextTrees (hs : s.trees.Made) (visited : List FileId) (output : CompileOutput)
    (update : UnitUpdate) : (s.nextTrees visited output update).Made := by
  cases update with
  | rebuilt => exact SyntaxIndex.Made.empty.insertAll _
  | patched added removed =>
      refine SyntaxIndex.Made.insertAll ?_ _
      generalize removed.toList = files
      generalize s.trees = x at hs
      induction files generalizing x with
      | nil => exact hs
      | cons gone rest ih => exact ih _ (hs.erase gone)

/-- A full compile that commits keeps nothing of a file that is not in its unit, provided the
compiler said nothing about one. -/
theorem orderly_commit {κ : Type} (hs : s.Orderly) {stale : Std.ExtTreeSet FileId}
    {unit : CompilationUnit} {update : UnitUpdate} (hunit : NextUnit κ s stale unit update)
    {output : CompileOutput}
    (hsources : ∀ file, output.diagnostics.ofFile file ≠ [] → file ∈ unit.sources)
    (sourceErrors : Bool) (context : Option FileId) (reason : FullCompileReason) :
    (s.commit unit update stale output sourceErrors context reason).1.Orderly := by
  have hmade : (s.commit unit update stale output sourceErrors context reason).1.trees.Made :=
    made_nextTrees hs.made _ _ _
  have hmirrored := mirrored_commit hs.mirrored unit update stale output sourceErrors context reason
  refine ⟨⟨?_, ?_, ?_, hmade.sound, ?_⟩, hmade, hmirrored, hs.allTidy.replace _ _⟩
  · intro file tree htree
    rw [source?, commit, Option.bind_some, ← CompilationUnit.contains_eq_isSome]
    exact unit_of_tree_commit hs hunit output htree
  · intro file target hedge
    rw [← hmirrored, or_self] at hedge
    exact tree_of_edge_commit hs hunit output hedge
  · intro file hfile
    rw [source?, commit, Option.bind_some, Std.ExtTreeMap.isSome_getElem?_iff_mem]
    rcases mem_of_mem_replace hs.allTidy hfile with ⟨-, hfound⟩ | ⟨hout, hold⟩
    · exact hsources file hfound
    · exact absurd (mem_diagnosed.mpr (.inr hold)) hout
  · intro hnone
    contradiction

/-! ### One refresh -/

variable {κ : Type} [Compiler κ] {s' : Scope} {c : CompileConfig} {changed : List FileId}
  {context : Option FileId} {report : CompileReport}

theorem unit_of_blocker?_eq_none (h : s.blocker? c changed = none) :
    ∃ unit, s.unit = some unit := by
  unfold blocker? at h
  repeat (split at h; · contradiction)
  rename_i hknown
  simp only [Bool.or_eq_true, not_or, Bool.not_eq_true, Option.isNone_eq_false_iff] at hknown
  exact Option.isSome_iff_exists.mp hknown.2

theorem Pass.orderly (hkeeps : Compiler.KeepsToSources κ)
    (hpass : Pass κ s c changed context s' report) (hs : s.Orderly) : s'.Orderly := by
  cases hpass with
  | rested =>
      have hsame : s.SameResults { s with previousContext := context } := ⟨rfl, rfl, rfl, rfl, rfl⟩
      exact hsame.orderly hs
  | failed message =>
      have hsame : s.SameResults { s with lastError := some message } := ⟨rfl, rfl, rfl, rfl, rfl⟩
      exact hsame.orderly hs
  | accepted sources output hblocker hfiles =>
      obtain ⟨old, hold⟩ := unit_of_blocker?_eq_none hblocker
      exact orderly_accept hs hold hfiles output context
  | committed unit update output reason hunit hanswer =>
      exact orderly_commit hs hunit (hkeeps.1 _ _ _ hanswer) false context reason
  | stopped unit update errors reason hunit hanswer =>
      exact orderly_commit hs hunit (hkeeps.2 _ _ _ hanswer) true context reason

/-! ### Whole runs -/

theorem sameResults_setExcluded (s : Scope) (roots : List Path) :
    s.SameResults (s.setExcluded roots) := by
  unfold setExcluded
  dsimp only
  split <;> exact ⟨rfl, rfl, rfl, rfl, rfl⟩

theorem orderly_serve (hkeeps : Compiler.KeepsToSources κ) (hs : s.Orderly) (call : Call κ) :
    (s.serve call).1.Orderly := by
  cases call with
  | refresh c d b asked => exact (s.pass_of_refresh c d b asked).orderly hkeeps hs
  | placeholder c d b p position token read =>
      rw [serve]
      cases h : s.withPlaceholder c d b p position token read with
      | none => exact hs
      | some result =>
          obtain ⟨b', s', report, answer⟩ := result
          obtain ⟨changed, context, hpass⟩ := pass_of_withPlaceholder h
          exact hpass.orderly hkeeps hs
  | setExcluded roots => exact (s.sameResults_setExcluded roots).orderly hs
  | setClasspath handle version =>
      have hsame : s.SameResults (s.setClasspath handle version) := ⟨rfl, rfl, rfl, rfl, rfl⟩
      exact hsame.orderly hs
  | releaseClasspath =>
      have hsame : s.SameResults s.releaseClasspath := ⟨rfl, rfl, rfl, rfl, rfl⟩
      exact hsame.orderly hs

theorem orderly_serveAll (hkeeps : Compiler.KeepsToSources κ) (hs : s.Orderly)
    (calls : List (Call κ)) : (s.serveAll calls).1.Orderly := by
  induction calls generalizing s with
  | nil => exact hs
  | cons call rest ih => exact ih (orderly_serve hkeeps hs call)

/-- With the toy compiler, a scope that starts uncompiled keeps nothing of files that are not in its
unit, whatever it is asked and whatever happens around it. The scope that is read while a token
stands in a document is the one that is left when the token is gone, so this is said of it too. -/
theorem contained_serveAll (d : Disk) (root : Path) (calls : List (Call Toy.CompilerState)) :
    ((ofRoot d root).serveAll calls).1.Contained :=
  (orderly_serveAll Toy.keepsToSources (orderly_ofRoot d root) calls).toContained

end Scope

end Workbench
