import Mathlib.Data.List.Nodup
import Workbench.Proofs.DependencyGraph
import Workbench.Proofs.Histories
import Workbench.Proofs.Maps

/-!
The dependency graph as a record of updates. Whatever was done to a graph, a file depends on what
its last update named, both directions have the same edges, and no empty set is stored in either of
them. So a graph is determined by its edges, and updates of different files can change places.
-/

namespace Workbench

namespace Adjacency

/-- No file has an empty set of neighbours stored for it. -/
def Tight (edges : Adjacency) : Prop :=
  ∀ (file : FileId) (targets : Std.ExtTreeSet FileId), edges[file]? = some targets → targets ≠ ∅

/-- All edges, by their ends. -/
def pairs (edges : Adjacency) : List (FileId × FileId) :=
  edges.toList.flatMap fun entry => entry.2.toList.map (Prod.mk entry.1)

variable {edges edges' : Adjacency} {file source target : FileId}

theorem neighbours_eq (edges : Adjacency) (file : FileId) :
    edges.neighbours file = edges[file]?.getD ∅ :=
  Std.ExtTreeMap.getD_eq_getD_getElem?

theorem neighbours_of_getElem? {targets : Std.ExtTreeSet FileId} (h : edges[file]? = some targets) :
    edges.neighbours file = targets := by
  rw [neighbours_eq, h, Option.getD_some]

/-! ### Edges as pairs -/

theorem exists_of_mem_neighbours (h : target ∈ edges.neighbours source) :
    ∃ targets, edges[source]? = some targets ∧ target ∈ targets := by
  rw [neighbours_eq] at h
  cases hsource : edges[source]? with
  | none => simp [hsource] at h
  | some targets => exact ⟨targets, rfl, by simpa [hsource] using h⟩

theorem mem_pairs : (source, target) ∈ edges.pairs ↔ target ∈ edges.neighbours source := by
  simp only [pairs, List.mem_flatMap, List.mem_map, Std.ExtTreeSet.mem_toList, Prod.mk.injEq]
  constructor
  · rintro ⟨⟨file, targets⟩, hentry, other, hother, rfl, rfl⟩
    rw [Std.ExtTreeMap.mem_toList_iff_getElem?_eq_some] at hentry
    rwa [neighbours_of_getElem? hentry]
  · intro h
    obtain ⟨targets, hsource, htarget⟩ := exists_of_mem_neighbours h
    exact ⟨(source, targets), Std.ExtTreeMap.mem_toList_iff_getElem?_eq_some.mpr hsource, target,
      htarget, rfl, rfl⟩

theorem nodup_pairs (edges : Adjacency) : edges.pairs.Nodup := by
  refine List.nodup_flatMap.mpr ⟨fun entry _ => ?_, ?_⟩
  · exact (nodup_toList entry.2).map fun _ _ heq => (Prod.mk.inj heq).2
  · -- Pairs from different entries differ in their first end.
    refine edges.distinct_keys_toList.imp fun {first second} hdistinct => ?_
    intro pair hfirst hsecond
    obtain ⟨_, -, rfl⟩ := List.mem_map.mp hfirst
    obtain ⟨_, -, heq⟩ := List.mem_map.mp hsecond
    apply hdistinct
    rw [(Prod.mk.inj heq).1]
    exact Std.ReflCmp.compare_self

theorem edgeCount_eq_length_pairs (edges : Adjacency) : edges.edgeCount = edges.pairs.length := by
  unfold edgeCount pairs
  induction edges.toList with
  | nil => rfl
  | cons entry rest ih =>
      rw [List.foldr_cons, ih, List.flatMap_cons, List.length_append, List.length_map,
        Std.ExtTreeSet.length_toList]

/-! ### Nothing is stored for a file without neighbours -/

theorem tight_empty : Tight ∅ := by
  intro file targets h
  simp at h

theorem Tight.set (h : edges.Tight) (source : FileId) (targets : Std.ExtTreeSet FileId) :
    (edges.set source targets).Tight := by
  intro file found hfound
  unfold Adjacency.set at hfound
  split at hfound
  case isTrue =>
    rw [Std.ExtTreeMap.getElem?_erase] at hfound
    split at hfound
    · contradiction
    · exact h file found hfound
  case isFalse hsome =>
    rw [Std.ExtTreeMap.getElem?_insert] at hfound
    split at hfound
    · cases hfound
      exact fun hempty => hsome (Std.ExtTreeSet.isEmpty_iff.mpr hempty)
    · exact h file found hfound

theorem Tight.foldl_link (h : edges.Tight) (sources : List FileId) (target : FileId) :
    (sources.foldl (fun edges source => edges.link source target) edges).Tight := by
  induction sources generalizing edges with
  | nil => exact h
  | cons source rest ih => exact ih (h.set source _)

theorem Tight.foldl_unlink (h : edges.Tight) (sources : List FileId) (target : FileId) :
    (sources.foldl (fun edges source => edges.unlink source target) edges).Tight := by
  induction sources generalizing edges with
  | nil => exact h
  | cons source rest ih => exact ih (h.set source _)

theorem Tight.getElem?_eq_none_iff (h : edges.Tight) :
    edges[file]? = none ↔ edges.neighbours file = ∅ := by
  rw [neighbours_eq]
  cases hfile : edges[file]? with
  | none => simp
  | some targets => simp [h file targets hfile]

/-- Two tight tables with the same edges are one table. -/
theorem Tight.ext (h : edges.Tight) (h' : edges'.Tight)
    (hsame : ∀ file target, target ∈ edges.neighbours file ↔ target ∈ edges'.neighbours file) :
    edges = edges' := by
  ext1 file
  have hneighbours : edges.neighbours file = edges'.neighbours file :=
    Std.ExtTreeSet.ext_mem fun {target} => hsame file target
  cases hfile : edges[file]? with
  | none =>
      rw [h.getElem?_eq_none_iff, hneighbours, ← h'.getElem?_eq_none_iff] at hfile
      exact hfile.symm
  | some targets =>
      rw [neighbours_of_getElem? hfile] at hneighbours
      cases hfile' : edges'[file]? with
      | none =>
          rw [h'.getElem?_eq_none_iff, ← hneighbours] at hfile'
          exact absurd hfile' (h file targets hfile)
      | some targets' => rw [hneighbours, neighbours_of_getElem? hfile']

theorem Tight.isEmpty_iff (h : edges.Tight) : edges.isEmpty ↔ edges.edgeCount = 0 := by
  rw [edgeCount_eq_length_pairs, List.length_eq_zero_iff, Std.ExtTreeMap.isEmpty_iff]
  constructor
  · rintro rfl
    rfl
  · intro hnone
    refine h.ext tight_empty fun file target => ?_
    rw [← mem_pairs, ← mem_pairs, hnone]
    rfl

end Adjacency

namespace DependencyGraph

/-! ### One update -/

variable {g : DependencyGraph}

/-- No empty set is stored in either direction. -/
structure Tight (g : DependencyGraph) : Prop where
  forward : g.forward.Tight
  reverse : g.reverse.Tight

theorem tight_empty : Tight {} := ⟨Adjacency.tight_empty, Adjacency.tight_empty⟩

theorem Tight.update (h : g.Tight) (file : FileId) (targets : List FileId) :
    (g.update file targets).Tight where
  forward := h.forward.set file _
  reverse := (h.reverse.foldl_unlink _ file).foldl_link _ file

/-- A graph is determined by what depends on what. -/
theorem eq_of_dependencies {g' : DependencyGraph} (h : g.Tight) (h' : g'.Tight)
    (hmirrored : g.Mirrored) (hmirrored' : g'.Mirrored)
    (hsame : ∀ file target, target ∈ g.dependencies file ↔ target ∈ g'.dependencies file) :
    g = g' := by
  have hforward : g.forward = g'.forward := h.forward.ext h'.forward hsame
  have hreverse : g.reverse = g'.reverse := by
    refine h.reverse.ext h'.reverse fun target file => ?_
    show file ∈ g.dependents target ↔ file ∈ g'.dependents target
    rw [← hmirrored, ← hmirrored', hsame]
  cases g
  cases g'
  simp_all

/-- Updates of different files can change places. -/
theorem update_comm (h : g.Tight) (hmirrored : g.Mirrored) {a b : FileId} (hne : a ≠ b)
    (as bs : List FileId) :
    (g.update a as).update b bs = (g.update b bs).update a as := by
  refine eq_of_dependencies ((h.update a as).update b bs) ((h.update b bs).update a as)
    (mirrored_update (mirrored_update hmirrored a as) b bs)
    (mirrored_update (mirrored_update hmirrored b bs) a as) fun file target => ?_
  simp only [mem_dependencies_update]
  by_cases ha : file = a
  · subst ha
    simp [hne]
  · simp [ha]

/-! ### Histories -/

/-- One thing that is done to a graph. -/
inductive Action where
  | update (file : FileId) (targets : List FileId)
  | removeFile (file : FileId)
  | clear

def act (g : DependencyGraph) : Action → DependencyGraph
  | .update file targets => g.update file targets
  | .removeFile file => g.removeFile file
  | .clear => {}

/-- A graph that was empty at first. -/
def ofActions (actions : List Action) : DependencyGraph := actions.foldl act {}

/-- Whether an action says anew what a file depends on. -/
def Action.Resets (file : FileId) : Action → Prop
  | .update source _ => source = file
  | .removeFile source => source = file
  | .clear => True

/-- The last that a history says about a file is an update with these targets. -/
def LastUpdate (actions : List Action) (file : FileId) (targets : List FileId) : Prop :=
  ∃ before after, actions = before ++ .update file targets :: after ∧
    ∀ action ∈ after, ¬ action.Resets file

theorem ofActions_concat (actions : List Action) (action : Action) :
    ofActions (actions ++ [action]) = (ofActions actions).act action := by
  rw [ofActions, List.foldl_append, ofActions]
  rfl

/-- The last update is the last action at all that says anew what the file depends on. -/
theorem lastUpdate_iff {actions : List Action} {file : FileId} {targets : List FileId} :
    LastUpdate actions file targets ↔
      LastOf (Action.Resets file) actions (.update file targets) := by
  simp [LastUpdate, LastOf, Action.Resets]

theorem not_lastUpdate_nil {file : FileId} {targets : List FileId} :
    ¬ LastUpdate [] file targets := by
  rw [lastUpdate_iff]
  exact not_lastOf_nil

/-- The last word about a file is the last action, if that is about the file, and else it was
spoken before. -/
theorem lastUpdate_concat {actions : List Action} {action : Action} {file : FileId}
    {targets : List FileId} :
    LastUpdate (actions ++ [action]) file targets ↔
      action = .update file targets ∨ ¬ action.Resets file ∧ LastUpdate actions file targets := by
  simp [lastUpdate_iff, lastOf_concat, Action.Resets]

/-- What a graph owes to the history it was made by. -/
structure Records (g : DependencyGraph) (actions : List Action) : Prop where
  mem_dependencies : ∀ file target, target ∈ g.dependencies file ↔
    ∃ targets, LastUpdate actions file targets ∧ target ∈ targets ∧ target ≠ file
  mirrored : g.Mirrored
  tight : g.Tight
  pairs_nodup : g.forward.pairs.Nodup
  mem_pairs : ∀ file target, (file, target) ∈ g.forward.pairs ↔ target ∈ g.dependencies file
  edgeCount_eq : g.edgeCount = g.forward.pairs.length
  isEmpty_iff : g.isEmpty ↔ g.edgeCount = 0

theorem mirrored_ofActions (actions : List Action) : (ofActions actions).Mirrored := by
  induction actions using List.reverseRecOn with
  | nil => exact mirrored_empty
  | append_singleton actions action ih =>
      rw [ofActions_concat]
      cases action with
      | update file targets => exact mirrored_update ih file targets
      | removeFile file => exact mirrored_update ih file []
      | clear => exact mirrored_empty

theorem tight_ofActions (actions : List Action) : (ofActions actions).Tight := by
  induction actions using List.reverseRecOn with
  | nil => exact tight_empty
  | append_singleton actions action ih =>
      rw [ofActions_concat]
      cases action with
      | update file targets => exact ih.update file targets
      | removeFile file => exact ih.update file []
      | clear => exact tight_empty

/-- A file depends on what its last update named, without the file itself. -/
theorem mem_dependencies_ofActions (actions : List Action) (file target : FileId) :
    target ∈ (ofActions actions).dependencies file ↔
      ∃ targets, LastUpdate actions file targets ∧ target ∈ targets ∧ target ≠ file := by
  induction actions using List.reverseRecOn with
  | nil => simp [not_lastUpdate_nil, ofActions, dependencies, Adjacency.neighbours]
  | append_singleton actions action ih =>
      rw [ofActions_concat]
      cases action with
      | update source targets =>
          simp only [act, mem_dependencies_update, lastUpdate_concat, Action.update.injEq,
            Action.Resets]
          by_cases h : file = source
          · subst h
            simp
          · simp [h, Ne.symm h, ih]
      | removeFile source =>
          simp only [act, removeFile, mem_dependencies_update, lastUpdate_concat, Action.Resets,
            reduceCtorEq, false_or]
          by_cases h : file = source
          · subst h
            simp
          · simp [h, Ne.symm h, ih]
      | clear =>
          simp [act, lastUpdate_concat, Action.Resets, dependencies, Adjacency.neighbours]

/-- Whatever was done to a graph: a file depends on the targets of its last update since the graph
was last cleared, but not on itself; the two directions mirror each other; neither stores an empty
set; the edges are counted right, and there are none just if the graph is empty. And updates of
different files can change places. -/
theorem records_ofActions (actions : List Action) :
    (ofActions actions).Records actions ∧
      ∀ (a b : FileId) (as bs : List FileId), a ≠ b →
        ofActions (actions ++ [.update a as, .update b bs]) =
          ofActions (actions ++ [.update b bs, .update a as]) := by
  have htight := tight_ofActions actions
  have hmirrored := mirrored_ofActions actions
  refine ⟨?_, fun a b as bs hne => ?_⟩
  · exact {
      mem_dependencies := mem_dependencies_ofActions actions
      mirrored := hmirrored
      tight := htight
      pairs_nodup := Adjacency.nodup_pairs _
      mem_pairs := fun _ _ => Adjacency.mem_pairs
      edgeCount_eq := Adjacency.edgeCount_eq_length_pairs _
      isEmpty_iff := htight.forward.isEmpty_iff }
  · simp only [ofActions, List.foldl_append]
    exact update_comm htight hmirrored hne as bs

/-- A history in which a file gets other targets after everything was cleared, and another loses
its own. -/
def retargetings : List Action :=
  [.update 1 [2, 3], .clear, .update 2 [1], .update 1 [3, 1], .removeFile 2]

theorem records_ofActions_retargetings :
    (ofActions retargetings).Records retargetings ∧
    ((ofActions retargetings).dependencies 1).toList = [3] ∧
    (ofActions retargetings).edgeCount = 1 ∧
    (4 : FileId) ≠ 5 ∧
    ofActions (retargetings ++ [.update 4 [5], .update 5 [4, 3]]) =
      ofActions (retargetings ++ [.update 5 [4, 3], .update 4 [5]]) := by
  obtain ⟨hrecords, hcomm⟩ := records_ofActions retargetings
  have hne : (4 : FileId) ≠ 5 := by decide
  exact ⟨hrecords, by decide +kernel, by decide +kernel, hne, hcomm 4 5 [5] [4, 3] hne⟩

end DependencyGraph

end Workbench
