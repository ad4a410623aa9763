import Workbench.Proofs.DependencyGraph.Reach
import Workbench.Proofs.Scope.Commit
import Workbench.Proofs.Scope.Session
import Workbench.Toy.Compiler

/-!
Trees against the dependency graph. A full compile finds out again what every visited file depends
on, and also every file that refers to a class of a visited one, for the owner of that class may be
new. An incremental compile does only the former. A class that moves from one file of the working
set to another keeps its surface, so the compile counts, and a file outside that refers to the class
has no edge to its new owner. Over whole runs no edge is missing exactly if no incremental compile
gives a class to a new owner in this way.
-/

namespace Workbench

namespace Scope

/-- A file that refers to a class of another file has an edge to the owner, and so it is downstream
of every set of files that the owner belongs to. -/
def Linked (s : Scope) : Prop :=
  ∀ file tree name owner, s.trees.get? file = some tree → name ∈ tree.references →
    s.trees.declaringFile? name = some owner → owner ≠ file →
      owner ∈ s.graph.dependencies file ∧ file ∈ s.graph.dependents owner ∧
        ∀ seeds, owner ∈ seeds → file ∈ seeds ∨ file ∈ s.graph.transitiveDependents seeds

/-- What the trees ask for is in the graph. -/
def Covered (s : Scope) : Prop :=
  ∀ file owner, owner ∈ s.trees.dependenciesOf file → owner ∈ s.graph.dependencies file

/-- Every class that a file outside the working set refers to has the owner it had, or one that the
file depended on already. -/
def KeepsOwners (s s' : Scope) (working : List FileId) : Prop :=
  ∀ file tree name owner, file ∉ working → s.trees.get? file = some tree →
    name ∈ tree.references → s'.trees.declaringFile? name = some owner → owner ≠ file →
      s.trees.declaringFile? name = some owner ∨ owner ∈ s.graph.dependencies file

variable {s : Scope}

/-- In a graph whose directions agree, one edge gives the whole linkage. -/
theorem linked_iff_covered (hs : s.graph.Mirrored) : s.Linked ↔ s.Covered := by
  constructor
  · intro hlinked file owner howner
    obtain ⟨tree, name, htree, hname, hdeclares, hne⟩ := SyntaxIndex.mem_dependenciesOf.mp howner
    exact (hlinked file tree name owner htree hname hdeclares hne).1
  · intro hcovered file tree name owner htree hname hdeclares hne
    have hedge := hcovered file owner
      (SyntaxIndex.mem_dependenciesOf.mpr ⟨tree, name, htree, hname, hdeclares, hne⟩)
    have hback := (hs file owner).mp hedge
    refine ⟨hedge, hback, fun seeds howner => ?_⟩
    by_cases hfile : file ∈ seeds
    · exact .inl hfile
    · exact .inr (DependencyGraph.mem_transitiveDependents hback howner hfile)

/-! ### Incremental compiles -/

/-- An incremental compile that counts leaves no edge out exactly if it keeps the owners. -/
theorem covered_accept_iff (hs : s.Covered) (files : List FileId) (sources : List SourceFile)
    (output : CompileOutput) (context : Option FileId) :
    (s.accept files sources (output.restrict files) context).1.Covered ↔
      s.KeepsOwners (s.accept files sources (output.restrict files) context).1 files := by
  have hget := s.get?_trees_accept files sources output context
  have hgraph (file owner : FileId) :
      owner ∈ (s.accept files sources (output.restrict files) context).1.graph.dependencies file ↔
        if file ∈ files then
          owner ∈ (s.accept files sources (output.restrict files) context).1.trees.dependenciesOf
            file
        else owner ∈ s.graph.dependencies file :=
    s.graph.mem_dependencies_relink _ files
  generalize (s.accept files sources (output.restrict files) context).1 = s' at hget hgraph ⊢
  constructor
  · intro hcovered file tree name owner hfile htree hname hdeclares hne
    right
    have hkept : s'.trees.get? file = some tree := by
      rw [hget, if_neg hfile, Option.none_or, htree]
    have hedge := hcovered file owner
      (SyntaxIndex.mem_dependenciesOf.mpr ⟨tree, name, hkept, hname, hdeclares, hne⟩)
    rwa [hgraph, if_neg hfile] at hedge
  · intro hkeeps file owner howner
    rw [hgraph]
    split
    case isTrue => exact howner
    case isFalse hfile =>
      obtain ⟨tree, name, htree, hname, hdeclares, hne⟩ :=
        SyntaxIndex.mem_dependenciesOf.mp howner
      rw [hget, if_neg hfile, Option.none_or] at htree
      rcases hkeeps file tree name owner hfile htree hname hdeclares hne with hsame | hedge
      · exact hs file owner
          (SyntaxIndex.mem_dependenciesOf.mpr ⟨tree, name, htree, hname, hsame, hne⟩)
      · exact hedge

/-! ### Full compiles -/

theorem mem_referringTo {trees : SyntaxIndex} {declaring : List FileId} {file : FileId} :
    file ∈ referringTo trees declaring ↔
      ∃ tree, trees.get? file = some tree ∧ ∃ name ∈ tree.references,
        ∃ other ∈ declaring, ∃ c ∈ trees.classesIn other, c.name = name := by
  simp only [referringTo, Std.ExtTreeMap.mem_keys, ← Std.ExtTreeMap.isSome_getElem?_iff_mem,
    Std.ExtTreeMap.getElem?_filter', Option.isSome_iff_exists, Option.filter_eq_some_iff,
    List.any_eq_true, Std.ExtTreeSet.mem_toList, Std.ExtTreeSet.contains_ofList,
    List.contains_iff_mem, List.mem_map, List.mem_flatMap, SyntaxIndex.get?]
  constructor
  · rintro ⟨tree, htree, name, hname, c, ⟨other, hother, hc⟩, rfl⟩
    exact ⟨tree, htree, c.name, hname, other, hother, c, hc, rfl⟩
  · rintro ⟨tree, htree, name, hname, other, hother, c, hc, rfl⟩
    exact ⟨tree, htree, c.name, hname, c, ⟨other, hother, hc⟩, rfl⟩

/-- A class that no visited file declares after a patched compile has at most the owner it had. -/
theorem declaringFile?_of_nextTrees {visited : List FileId} {output : CompileOutput}
    {added removed : Std.ExtTreeSet FileId} {name : String} {owner : FileId}
    (hnew : ∀ file ∈ visited, ∀ c ∈
      (s.nextTrees visited output (.patched added removed)).classesIn file, c.name ≠ name)
    (h : (s.nextTrees visited output (.patched added removed)).declaringFile? name = some owner) :
    s.trees.declaringFile? name = some owner := by
  apply SyntaxIndex.declaringFile?_of_foldl_erase
  refine SyntaxIndex.declaringFile?_of_insertAll ?_ h
  rintro entry hentry ⟨c, hc, hname⟩
  obtain ⟨hvisited, htree⟩ := SyntaxIndex.mem_filterMap_trees.mp hentry
  refine hnew entry.1 hvisited c ?_ hname
  rw [SyntaxIndex.classesIn, get?_nextTrees_patched, if_pos hvisited, htree]
  exact hc

/-- A full compile leaves no edge out, whatever the compiler answered. -/
theorem covered_commit (hs : s.Covered) (unit : CompilationUnit) (update : UnitUpdate)
    (affected : Std.ExtTreeSet FileId) (output : CompileOutput) (sourceErrors : Bool)
    (context : Option FileId) (reason : FullCompileReason) :
    (s.commit unit update affected output sourceErrors context reason).1.Covered := by
  intro file owner howner
  change owner ∈ (s.nextTrees (revisited unit affected update) output update).dependenciesOf file
    at howner
  change owner ∈ (s.nextGraph (s.nextTrees (revisited unit affected update) output update)
    (revisited unit affected update) update).dependencies file
  obtain ⟨tree, name, htree, hname, hdeclares, hne⟩ := SyntaxIndex.mem_dependenciesOf.mp howner
  cases update with
  | rebuilt =>
      have hfile : file ∈ revisited unit affected .rebuilt := by
        rw [get?_nextTrees_rebuilt] at htree
        split at htree
        · assumption
        · contradiction
      rw [nextGraph, DependencyGraph.mem_dependencies_relink, if_pos hfile]
      exact howner
  | patched added removed =>
      rw [nextGraph, DependencyGraph.mem_dependencies_relink]
      split
      case isTrue => exact howner
      case isFalse hout =>
        simp only [Std.ExtTreeSet.mem_toList, Std.ExtTreeSet.mem_ofList, List.contains_eq_mem,
          List.mem_append, decide_eq_true_eq, not_or] at hout
        -- The file kept its tree, which refers to no class of a visited file.
        rw [DependencyGraph.mem_dependencies_foldl_removeFile, Std.ExtTreeSet.mem_toList]
        have hold := htree
        rw [get?_nextTrees_patched, if_neg hout.1, Option.none_or] at hold
        split at hold
        · contradiction
        · refine ⟨‹_›, hs file owner (SyntaxIndex.mem_dependenciesOf.mpr
            ⟨tree, name, hold, hname, declaringFile?_of_nextTrees ?_ hdeclares, hne⟩)⟩
          intro other hother c hc hsame
          exact hout.2 (mem_referringTo.mpr ⟨tree, htree, name, hname, other, hother, c, hc, hsame⟩)

theorem mirrored_commit (hs : s.graph.Mirrored) (unit : CompilationUnit) (update : UnitUpdate)
    (affected : Std.ExtTreeSet FileId) (output : CompileOutput) (sourceErrors : Bool)
    (context : Option FileId) (reason : FullCompileReason) :
    (s.commit unit update affected output sourceErrors context reason).1.graph.Mirrored := by
  cases update with
  | rebuilt =>
      exact DependencyGraph.mirrored_relink DependencyGraph.mirrored_empty _ _
  | patched added removed =>
      exact DependencyGraph.mirrored_relink (DependencyGraph.mirrored_foldl_removeFile hs _) _ _

/-! ### One refresh -/

variable {κ : Type} [Compiler κ] {s' : Scope} {c : CompileConfig} {changed : List FileId}
variable {context : Option FileId} {report : CompileReport}

theorem Pass.mirrored (hpass : Pass κ s c changed context s' report) (hs : s.graph.Mirrored) :
    s'.graph.Mirrored := by
  cases hpass with
  | rested => exact hs
  | failed message => exact hs
  | accepted sources output => exact DependencyGraph.mirrored_relink hs _ _
  | committed unit update output reason => exact mirrored_commit hs unit update _ output _ _ reason
  | stopped unit update errors reason => exact mirrored_commit hs unit update _ _ _ _ reason

/-- A linked scope stays linked over a refresh exactly if the refresh, in case it was incremental,
keeps the owners. -/
theorem Pass.linked_iff (hpass : Pass κ s c changed context s' report) (hm : s.graph.Mirrored)
    (hs : s.Linked) :
    s'.Linked ↔
      (report.isIncremental → s.KeepsOwners s' (s.workingFiles c changed context)) := by
  have hcovered := (linked_iff_covered hm).mp hs
  rw [linked_iff_covered (hpass.mirrored hm)]
  cases hpass with
  | rested =>
      refine iff_of_true hcovered ?_
      intro hreport
      contradiction
  | failed message =>
      refine iff_of_true hcovered ?_
      intro hreport
      contradiction
  | accepted sources output =>
      rw [covered_accept_iff hcovered]
      exact ⟨fun hkeeps _ => hkeeps, fun hkeeps => hkeeps rfl⟩
  | committed unit update output reason =>
      refine iff_of_true (covered_commit hcovered unit update _ output _ _ reason) ?_
      intro hreport
      contradiction
  | stopped unit update errors reason =>
      refine iff_of_true (covered_commit hcovered unit update _ _ _ _ reason) ?_
      intro hreport
      contradiction

theorem Pass.linked_of_failed (hpass : Pass κ s c changed context s' report) (hs : s.Linked)
    (h : report.outcome = .failed) : s'.Linked := by
  cases hpass with
  | failed message => exact hs
  | _ => contradiction

end Scope

/-! ### Whole runs -/

namespace Session

variable {κ : Type} [Compiler κ] (c : CompileConfig)

/-- In every run of a scope that starts uncompiled: after every refresh that does not fail the graph
has all edges that the trees ask for, if and only if every incremental compile keeps the owners of
the classes that files outside its working set refer to. -/
theorem everyRefresh_linked_iff (disk : Disk) (bench : Bench κ) (root : Path)
    (actions : List (Action κ)) :
    EveryRefresh c (fun x asked =>
          (x.refresh c asked).2.outcome ≠ .failed → (x.refresh c asked).1.scope.Linked)
        (start disk bench root) actions ↔
      EveryRefresh c (fun x asked =>
          (x.refresh c asked).2.isIncremental →
            x.scope.KeepsOwners (x.refresh c asked).1.scope
              (x.scope.workingFiles c (x.pending c) (x.contextFor c asked)))
        (start disk bench root) actions := by
  let Inv (s : Scope) : Prop := s.graph.Mirrored ∧ s.Linked
  have hsame (s s' : Scope) (h : s.SameResults s') : Inv s → Inv s' := by
    rintro ⟨hm, hs⟩
    refine ⟨h.graph_eq ▸ hm, ?_⟩
    rw [Scope.Linked, h.trees_eq, h.graph_eq]
    exact hs
  apply everyRefresh_iff hsame
  · rintro x asked ⟨hm, hs⟩
    have hpass := x.pass_refresh (c := c) asked
    rw [← hpass.linked_iff hm hs]
    constructor
    · intro h
      by_cases hfailed : (x.refresh c asked).2.outcome = .failed
      · exact hpass.linked_of_failed hs hfailed
      · exact h hfailed
    · intro hlinked _
      exact hlinked
  · rintro x asked ⟨hm, hs⟩ hkeeps
    have hpass := x.pass_refresh (c := c) asked
    exact ⟨hpass.mirrored hm, (hpass.linked_iff hm hs).mpr hkeeps⟩
  · refine ⟨DependencyGraph.mirrored_empty, ?_⟩
    intro file tree name owner htree
    simp [start, Scope.ofRoot, SyntaxIndex.get?] at htree

/-! A class moves from one open document to another; a third one refers to it. -/

def movingActions : List (Action Toy.CompilerState) :=
  [.opening ⟨"/p/A.groovy"⟩ "class X \x7b\n\x7d\n",
    .opening ⟨"/p/B.groovy"⟩ "\n",
    .opening ⟨"/p/F.groovy"⟩ "class F \x7b\n    X x\n\x7d\n",
    .refresh (some 0),
    .replacing ⟨"/p/A.groovy"⟩ 2 "\n",
    .replacing ⟨"/p/B.groovy"⟩ 2 "class X \x7b\n\x7d\n"]

/-- The class has a new owner, and the file that refers to it has no edge to that owner. -/
theorem not_everyRefresh_linked_moving :
    ¬ EveryRefresh {} (fun x asked =>
        (x.refresh {} asked).2.outcome ≠ .failed → (x.refresh {} asked).1.scope.Linked)
      (blank ({} : Toy.CompilerState)) (movingActions ++ [.refresh (some 0)]) := by
  intro h
  have hlinked := h movingActions (some 0) [] rfl
  dsimp only at hlinked
  have hlast :
      (((blank {}).run {} movingActions).refresh {} (some 0)).2.outcome ≠ .failed ∧
        ((((blank {}).run {} movingActions).refresh {} (some 0)).1.scope.trees.get? 2).any
          (fun tree => tree.references.contains "X") ∧
        (((blank {}).run {} movingActions).refresh {} (some 0)).1.scope.trees.declaringFile? "X" =
          some 1 ∧
        1 ∉ (((blank {}).run {} movingActions).refresh {}
          (some 0)).1.scope.graph.dependencies 2 := by
    decide +kernel
  generalize ((blank {}).run {} movingActions).refresh {} (some 0) = last at hlinked hlast
  obtain ⟨hcompiled, hrefers, howner, hedge⟩ := hlast
  obtain ⟨tree, htree, hname⟩ := (Option.any_eq_true _ _).mp hrefers
  exact hedge (hlinked hcompiled 2 tree "X" 1 htree (Std.ExtTreeSet.mem_iff_contains.mpr hname)
    howner (by decide)).1

end Session

end Workbench
