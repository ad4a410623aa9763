import Workbench.Scope.Incremental

/-!
The edges of the dependency graph after an update, in both directions. The two directions mirror
each other in every graph that is made by updates, so that a dependent found by going back is one
that an edge leads from.
-/

namespace Workbench

namespace Adjacency

theorem neighbours_set (edges : Adjacency) (source file : FileId)
    (targets : Std.ExtTreeSet FileId) :
    (edges.set source targets).neighbours file =
      if file = source then targets else edges.neighbours file := by
  unfold set
  split
  case isTrue hempty =>
    have htargets : targets = ∅ := Std.ExtTreeSet.isEmpty_iff.mp hempty
    by_cases h : file = source
    · simp [neighbours, h, htargets]
    · simp [neighbours, Std.ExtTreeMap.getD_erase, h, Ne.symm h]
  case isFalse =>
    by_cases h : file = source
    · simp [neighbours, h]
    · simp [neighbours, Std.ExtTreeMap.getD_insert, h, Ne.symm h]

theorem mem_neighbours_link {edges : Adjacency} {source target file other : FileId} :
    other ∈ (edges.link source target).neighbours file ↔
      other ∈ edges.neighbours file ∨ (file = source ∧ other = target) := by
  rw [link, neighbours_set]
  by_cases h : file = source
  · subst file
    simp only [if_true, Std.ExtTreeSet.mem_insert, Std.LawfulEqCmp.compare_eq_iff_eq, true_and]
    rw [or_comm, eq_comm]
  · simp [h]

theorem mem_neighbours_unlink {edges : Adjacency} {source target file other : FileId} :
    other ∈ (edges.unlink source target).neighbours file ↔
      other ∈ edges.neighbours file ∧ ¬ (file = source ∧ other = target) := by
  rw [unlink, neighbours_set]
  by_cases h : file = source
  · subst file
    simp only [if_true, Std.ExtTreeSet.mem_erase, ne_eq, Std.LawfulEqCmp.compare_eq_iff_eq,
      true_and]
    rw [and_comm, eq_comm]
  · simp [h]

theorem mem_neighbours_foldl_link (sources : List FileId) (target : FileId) (edges : Adjacency)
    {file other : FileId} :
    other ∈ (sources.foldl (fun edges source => edges.link source target) edges).neighbours file ↔
      other ∈ edges.neighbours file ∨ (file ∈ sources ∧ other = target) := by
  induction sources generalizing edges with
  | nil => simp
  | cons source rest ih =>
      rw [List.foldl_cons, ih, mem_neighbours_link, or_assoc, List.mem_cons, or_and_right]

theorem mem_neighbours_foldl_unlink (sources : List FileId) (target : FileId) (edges : Adjacency)
    {file other : FileId} :
    other ∈ (sources.foldl (fun edges source => edges.unlink source target) edges).neighbours file ↔
      other ∈ edges.neighbours file ∧ ¬ (file ∈ sources ∧ other = target) := by
  induction sources generalizing edges with
  | nil => simp
  | cons source rest ih =>
      rw [List.foldl_cons, ih, mem_neighbours_unlink, and_assoc, ← not_or, List.mem_cons,
        or_and_right]

end Adjacency

namespace DependencyGraph

/-- Both directions have the same edges. -/
def Mirrored (g : DependencyGraph) : Prop :=
  ∀ file target, target ∈ g.dependencies file ↔ file ∈ g.dependents target

theorem mirrored_empty : Mirrored {} := by
  intro file target
  simp [dependencies, dependents, Adjacency.neighbours]

theorem mem_dependencies_update {g : DependencyGraph} {source : FileId} {targets : List FileId}
    {file target : FileId} :
    target ∈ (g.update source targets).dependencies file ↔
      if file = source then target ∈ targets ∧ target ≠ source
      else target ∈ g.dependencies file := by
  rw [dependencies, update, Adjacency.neighbours_set]
  by_cases h : file = source
  · simp [h]
  · simp [h, dependencies]

/-- An update keeps the two directions alike: it unlinks the source from what it no longer depends
on and links it to all that it depends on now. -/
theorem mirrored_update {g : DependencyGraph} (hg : g.Mirrored) (source : FileId)
    (targets : List FileId) : (g.update source targets).Mirrored := by
  intro file target
  rw [mem_dependencies_update, dependents, update, Adjacency.mem_neighbours_foldl_link,
    Adjacency.mem_neighbours_foldl_unlink]
  have hold : target ∈ g.dependencies file ↔ file ∈ g.reverse.neighbours target := hg file target
  by_cases h : file = source
  · subst file
    by_cases htarget : target ∈ targets ∧ target ≠ source
    · simp [htarget]
    · simp [htarget, ← hold]
  · simp [h, hold]

/-! ### Many updates -/

theorem mirrored_foldl_update {g : DependencyGraph} (hg : g.Mirrored)
    (targets : FileId → List FileId) (files : List FileId) :
    (files.foldl (fun g file => g.update file (targets file)) g).Mirrored := by
  induction files generalizing g with
  | nil => exact hg
  | cons file rest ih => exact ih (mirrored_update hg file (targets file))

theorem mem_dependencies_foldl_update (targets : FileId → List FileId) (files : List FileId)
    (g : DependencyGraph) {file target : FileId} :
    target ∈ (files.foldl (fun g file => g.update file (targets file)) g).dependencies file ↔
      if file ∈ files then target ∈ targets file ∧ target ≠ file
      else target ∈ g.dependencies file := by
  induction files generalizing g with
  | nil => simp
  | cons source rest ih =>
      rw [List.foldl_cons, ih, mem_dependencies_update]
      by_cases hrest : file ∈ rest
      · simp [hrest]
      · by_cases hsource : file = source <;> simp [hrest, hsource]

theorem mirrored_relink {g : DependencyGraph} (hg : g.Mirrored) (trees : SyntaxIndex)
    (files : List FileId) : (g.relink trees files).Mirrored :=
  mirrored_foldl_update hg (fun file => (trees.dependenciesOf file).toList) files

theorem mirrored_foldl_removeFile {g : DependencyGraph} (hg : g.Mirrored) (files : List FileId) :
    (files.foldl removeFile g).Mirrored :=
  mirrored_foldl_update hg (fun _ => []) files

theorem mem_dependencies_foldl_removeFile (g : DependencyGraph) (files : List FileId)
    {file target : FileId} :
    target ∈ (files.foldl removeFile g).dependencies file ↔
      file ∉ files ∧ target ∈ g.dependencies file := by
  rw [show files.foldl removeFile g = files.foldl (fun g file => g.update file []) g from rfl,
    mem_dependencies_foldl_update]
  by_cases h : file ∈ files <;> simp [h]

end DependencyGraph

/-! ### Links that the trees ask for -/

namespace SyntaxIndex

/-- A file depends on the other files that own what its tree refers to. -/
theorem mem_dependenciesOf {x : SyntaxIndex} {file owner : FileId} :
    owner ∈ x.dependenciesOf file ↔
      ∃ tree name, x.get? file = some tree ∧ name ∈ tree.references ∧
        x.declaringFile? name = some owner ∧ owner ≠ file := by
  unfold dependenciesOf
  cases htree : x.get? file with
  | none => simp
  | some tree =>
      simp only [Std.ExtTreeSet.mem_ofList, List.contains_eq_mem, List.mem_filter,
        List.mem_filterMap, Std.ExtTreeSet.mem_toList, bne_iff_ne, ne_eq, decide_eq_true_eq]
      constructor
      · rintro ⟨⟨name, hname, howner⟩, hne⟩
        exact ⟨tree, name, rfl, hname, howner, hne⟩
      · rintro ⟨_, name, ⟨⟩, hname, howner, hne⟩
        exact ⟨⟨name, hname, howner⟩, hne⟩

end SyntaxIndex

/-- Linking files again gives these the dependencies of their trees and leaves all others alone. -/
theorem DependencyGraph.mem_dependencies_relink (g : DependencyGraph) (trees : SyntaxIndex)
    (files : List FileId) {file target : FileId} :
    target ∈ (g.relink trees files).dependencies file ↔
      if file ∈ files then target ∈ trees.dependenciesOf file
      else target ∈ g.dependencies file := by
  rw [relink, mem_dependencies_foldl_update (fun file => (trees.dependenciesOf file).toList)]
  by_cases h : file ∈ files
  · simp only [h, if_true, Std.ExtTreeSet.mem_toList, and_iff_left_iff_imp]
    intro htarget
    obtain ⟨tree, name, -, -, -, hne⟩ := SyntaxIndex.mem_dependenciesOf.mp htarget
    exact hne
  · simp [h]

end Workbench
