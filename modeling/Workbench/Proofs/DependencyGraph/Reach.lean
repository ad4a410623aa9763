import Workbench.Proofs.DependencyGraph.History

/-!
How far edges lead. A search by rounds sees, after each round, just the files that some path leads
to which has an edge at least and no more edges than there were rounds. A round that sees nothing new
is the last that matters; since every other round sees the end of a new edge, as many rounds as edges
see all that can be reached.
-/

namespace Workbench

namespace Adjacency

/-- Some path of that many edges leads from one file to another. -/
inductive Leads (edges : Adjacency) (source : FileId) : Nat → FileId → Prop
  | here : Leads edges source 0 source
  | onward {n : Nat} {middle target : FileId} (h : Leads edges source n middle)
      (hedge : target ∈ edges.neighbours middle) : Leads edges source (n + 1) target

/-- A path that is not empty and not longer than a limit leads to the file from one of the seeds. -/
def Reached (edges : Adjacency) (limit : Option Nat) (seeds : List FileId) (file : FileId) : Prop :=
  ∃ seed ∈ seeds, ∃ n, 0 < n ∧ (∀ most ∈ limit, n ≤ most) ∧ edges.Leads seed n file

variable {edges edges' : Adjacency} {seeds frontier fresh : List FileId}
  {seen seen' : Std.ExtTreeSet FileId} {depth rounds n : Nat} {limit : Option Nat}
  {source middle target file : FileId}

theorem Leads.before (hedge : middle ∈ edges.neighbours source) (h : edges.Leads middle n target) :
    edges.Leads source (n + 1) target := by
  induction h with
  | here => exact .onward .here hedge
  | onward _ hlast ih => exact .onward ih hlast

/-- If all edges turn round, so do all paths. -/
theorem Leads.flip
    (hflip : ∀ source target, target ∈ edges.neighbours source → source ∈ edges'.neighbours target)
    (h : edges.Leads source n target) : edges'.Leads target n source := by
  induction h with
  | here => exact .here
  | onward _ hedge ih => exact ih.before (hflip _ _ hedge)

/-! ### One round -/

/-- What a round does that looks at the files of a frontier: `fresh` lists the neighbours of these
that were not seen, and `seen'` is what was seen with them. -/
structure Round (edges : Adjacency) (frontier : List FileId) (seen : Std.ExtTreeSet FileId)
    (fresh : List FileId) (seen' : Std.ExtTreeSet FileId) : Prop where
  mem_fresh : ∀ file, file ∈ fresh ↔
    (∃ source ∈ frontier, file ∈ edges.neighbours source) ∧ file ∉ seen
  mem_seen : ∀ file, file ∈ seen' ↔ file ∈ seen ∨ file ∈ fresh

theorem round_newNeighbours (edges : Adjacency) (frontier : List FileId)
    (seen : Std.ExtTreeSet FileId) :
    edges.Round frontier seen (edges.newNeighbours frontier seen).toList
      (seen.insertMany (edges.newNeighbours frontier seen).toList) where
  mem_fresh file := by
    simp only [newNeighbours, Std.ExtTreeSet.mem_toList, Std.ExtTreeSet.mem_ofList,
      List.contains_eq_mem, decide_eq_true_eq, List.mem_filter, List.mem_flatMap,
      Bool.not_eq_true', ← Bool.not_eq_true, Std.ExtTreeSet.contains_iff_mem]
  mem_seen file := by rw [Std.ExtTreeSet.mem_insertMany_list, List.contains_iff_mem]

/-- Every neighbour of the frontier is seen after the round. -/
theorem Round.mem_of_neighbour (h : edges.Round frontier seen fresh seen')
    (hsource : source ∈ frontier) (hedge : file ∈ edges.neighbours source) : file ∈ seen' := by
  rw [h.mem_seen, h.mem_fresh]
  by_cases hseen : file ∈ seen
  · exact .inl hseen
  · exact .inr ⟨⟨source, hsource, hedge⟩, hseen⟩

theorem Round.subset (h : edges.Round frontier seen fresh seen') (hseen : file ∈ seen) :
    file ∈ seen' :=
  (h.mem_seen file).mpr (.inl hseen)

/-- The state of a search between two rounds: what was seen so far, and the files that were new in
the last round. Only these can have edges to files that were not seen. -/
structure Layer (edges : Adjacency) (seeds : List FileId) (depth : Nat) (frontier : List FileId)
    (seen : Std.ExtTreeSet FileId) : Prop where
  mem_seen : ∀ file, file ∈ seen ↔
    ∃ seed ∈ seeds, ∃ n, 0 < n ∧ n ≤ depth ∧ edges.Leads seed n file
  leads : ∀ file ∈ frontier, ∃ seed ∈ seeds, edges.Leads seed depth file
  settled : ∀ file, file ∈ seeds ∨ file ∈ seen → file ∉ frontier →
    ∀ next ∈ edges.neighbours file, next ∈ seen

/-- Seeds count as met from the start, although they were not seen. -/
theorem layer_seeds (hfrontier : ∀ file, file ∈ frontier ↔ file ∈ seeds) :
    edges.Layer seeds 0 frontier ∅ where
  mem_seen file := by
    constructor
    · simp
    · rintro ⟨seed, -, n, hpos, hle, -⟩
      omega
  leads file hfile := ⟨file, (hfrontier file).mp hfile, .here⟩
  settled file hfile hnot := by simp_all

namespace Layer

/-- What a path of some edges leads to from a seed has been met: it is a seed or was seen. -/
theorem met_of_leads (h : edges.Layer seeds depth frontier seen) {seed : FileId} (hseed : seed ∈ seeds)
    (hpath : edges.Leads seed n file) (hle : n ≤ depth) : file ∈ seeds ∨ file ∈ seen := by
  cases hpath with
  | here => exact .inl hseed
  | onward hpath hedge =>
      exact .inr ((h.mem_seen file).mpr ⟨seed, hseed, _, by omega, hle, .onward hpath hedge⟩)

theorem next (h : edges.Layer seeds depth frontier seen)
    (hround : edges.Round frontier seen fresh seen') :
    edges.Layer seeds (depth + 1) fresh seen' where
  mem_seen file := by
    constructor
    · intro hfile
      rcases (hround.mem_seen file).mp hfile with hseen | hfresh
      · obtain ⟨seed, hseed, n, hpos, hle, hpath⟩ := (h.mem_seen file).mp hseen
        exact ⟨seed, hseed, n, hpos, by omega, hpath⟩
      · obtain ⟨⟨source, hsource, hedge⟩, -⟩ := (hround.mem_fresh file).mp hfresh
        obtain ⟨seed, hseed, hpath⟩ := h.leads source hsource
        exact ⟨seed, hseed, depth + 1, by omega, by omega, .onward hpath hedge⟩
    · rintro ⟨seed, hseed, n, hpos, hle, hpath⟩
      cases hpath with
      | here => omega
      | @onward n middle _ hpath hedge =>
          -- The last edge starts at a file that was met. If that is not of the frontier, the end
          -- of the edge was seen before.
          by_cases hmiddle : middle ∈ frontier
          · exact hround.mem_of_neighbour hmiddle hedge
          · have hmet := h.met_of_leads hseed hpath (by omega)
            exact hround.subset (h.settled middle hmet hmiddle file hedge)
  leads file hfile := by
    obtain ⟨⟨source, hsource, hedge⟩, -⟩ := (hround.mem_fresh file).mp hfile
    obtain ⟨seed, hseed, hpath⟩ := h.leads source hsource
    exact ⟨seed, hseed, .onward hpath hedge⟩
  settled file hfile hnot next hedge := by
    have hmet : file ∈ seeds ∨ file ∈ seen := by
      rw [hround.mem_seen] at hfile
      tauto
    by_cases hfrontier : file ∈ frontier
    · exact hround.mem_of_neighbour hfrontier hedge
    · exact hround.subset (h.settled file hmet hfrontier next hedge)

/-- If a round sees nothing new, all that can be reached was seen. -/
theorem mem_seen_of_leads (h : edges.Layer seeds depth frontier seen)
    (hround : edges.Round frontier seen [] seen') {seed : FileId} (hseed : seed ∈ seeds)
    (hpath : edges.Leads seed n file) (hpos : 0 < n) : file ∈ seen := by
  have hclosed : ∀ middle, middle ∈ seeds ∨ middle ∈ seen → ∀ next ∈ edges.neighbours middle,
      next ∈ seen := by
    intro middle hmiddle next hedge
    by_cases hfrontier : middle ∈ frontier
    · simpa using (hround.mem_seen next).mp (hround.mem_of_neighbour hfrontier hedge)
    · exact h.settled middle hmiddle hfrontier next hedge
  induction hpath with
  | here => omega
  | @onward n middle file hpath hedge ih =>
      refine hclosed middle ?_ file hedge
      cases hpath with
      | here => exact .inl hseed
      | onward hpath' hedge' => exact .inr (ih (by omega))

theorem mem_seen_iff (h : edges.Layer seeds depth frontier seen)
    (hround : edges.Round frontier seen [] seen') (hle : ∀ most ∈ limit, depth ≤ most) :
    file ∈ seen ↔ edges.Reached limit seeds file := by
  constructor
  · intro hseen
    obtain ⟨seed, hseed, n, hpos, hn, hpath⟩ := (h.mem_seen file).mp hseen
    exact ⟨seed, hseed, n, hpos, fun most hmost => Nat.le_trans hn (hle most hmost), hpath⟩
  · rintro ⟨seed, hseed, n, hpos, -, hpath⟩
    exact h.mem_seen_of_leads hround hseed hpath hpos

/-- At the limit, what was seen is what can be reached within it. -/
theorem mem_seen_iff_of_limit (h : edges.Layer seeds depth frontier seen) :
    file ∈ seen ↔ edges.Reached (some depth) seeds file := by
  simpa [Reached] using h.mem_seen file

end Layer

/-! ### Enough rounds -/

/-- The edges to files that were not seen. -/
def unseen (edges : Adjacency) (seen : Std.ExtTreeSet FileId) : List (FileId × FileId) :=
  edges.pairs.filter fun pair => pair.2 ∉ seen

theorem mem_unseen : (source, target) ∈ edges.unseen seen ↔
    target ∈ edges.neighbours source ∧ target ∉ seen := by
  simp only [unseen, List.mem_filter, mem_pairs, decide_eq_true_eq]

/-- Seeing the end of another edge leaves fewer edges to files that were not seen. -/
theorem length_unseen_lt (hsub : ∀ file ∈ seen, file ∈ seen') (hnew : target ∈ seen')
    (h : (source, target) ∈ edges.unseen seen) :
    (edges.unseen seen').length < (edges.unseen seen).length := by
  have hfilter : edges.unseen seen' =
      (edges.unseen seen).filter fun pair => pair.2 ∉ seen' := by
    rw [unseen, unseen, List.filter_filter]
    refine List.filter_congr fun pair _ => ?_
    by_cases hpair : pair.2 ∈ seen
    · simp [hpair, hsub pair.2 hpair]
    · simp [hpair]
  rw [hfilter, List.length_filter_lt_length_iff_exists]
  exact ⟨(source, target), h, by simpa using hnew⟩

/-- Whether some more rounds are enough after `depth` rounds. Without a limit, one for each edge to
a file that was not seen is. -/
structure Suffices (edges : Adjacency) (limit : Option Nat) (depth rounds : Nat)
    (seen : Std.ExtTreeSet FileId) : Prop where
  limited : ∀ most ∈ limit, most = depth + rounds
  unlimited : limit = none → (edges.unseen seen).length ≤ rounds

theorem Suffices.next (h : edges.Suffices limit depth (rounds + 1) seen)
    (hround : edges.Round frontier seen fresh seen') (hsome : fresh ≠ []) :
    edges.Suffices limit (depth + 1) rounds seen' where
  limited most hmost := by
    have := h.limited most hmost
    omega
  unlimited hnone := by
    obtain ⟨file, hfile⟩ := List.exists_mem_of_ne_nil fresh hsome
    obtain ⟨⟨source, -, hedge⟩, hseen⟩ := (hround.mem_fresh file).mp hfile
    have hfewer := length_unseen_lt (fun _ => hround.subset)
      ((hround.mem_seen file).mpr (.inr hfile)) (mem_unseen.mpr ⟨hedge, hseen⟩)
    have := h.unlimited hnone
    omega

theorem Suffices.fresh_eq_nil (h : edges.Suffices none depth 0 seen)
    (hround : edges.Round frontier seen fresh seen') : fresh = [] := by
  have hnone : edges.unseen seen = [] := List.length_eq_zero_iff.mp (Nat.le_zero.mp (h.unlimited rfl))
  refine List.eq_nil_iff_forall_not_mem.mpr fun file hfile => ?_
  obtain ⟨⟨source, -, hedge⟩, hseen⟩ := (hround.mem_fresh file).mp hfile
  have hunseen := mem_unseen.mpr ⟨hedge, hseen⟩
  simp [hnone] at hunseen

theorem suffices_depth (edges : Adjacency) (depth : Nat) : edges.Suffices (some depth) 0 depth ∅ :=
  ⟨by simp, by simp⟩

theorem suffices_edgeCount (edges : Adjacency) : edges.Suffices none 0 edges.edgeCount ∅ := by
  refine ⟨by simp, fun _ => ?_⟩
  rw [edgeCount_eq_length_pairs]
  exact List.length_filter_le _ _

/-- With enough rounds a search sees just what is reached from the seeds. -/
theorem Layer.mem_spread (h : edges.Layer seeds depth frontier seen)
    (hrounds : edges.Suffices limit depth rounds seen) :
    file ∈ edges.spread rounds frontier seen ↔ edges.Reached limit seeds file := by
  induction rounds generalizing depth frontier seen with
  | zero =>
      cases limit with
      | none =>
          have hround := edges.round_newNeighbours frontier seen
          rw [hrounds.fresh_eq_nil hround] at hround
          exact h.mem_seen_iff hround (by simp)
      | some most =>
          obtain rfl : most = depth := hrounds.limited most rfl
          exact h.mem_seen_iff_of_limit
  | succ rounds ih =>
      have hround := edges.round_newNeighbours frontier seen
      rw [spread]
      split
      case isTrue hempty =>
        rw [List.isEmpty_iff.mp hempty] at hround
        refine h.mem_seen_iff hround fun most hmost => ?_
        have := hrounds.limited most hmost
        omega
      case isFalse hsome =>
        exact ih (h.next hround) (hrounds.next hround (mt List.isEmpty_iff.mpr hsome))

/-! ### Queries -/

theorem mem_within : file ∈ edges.within depth seeds ↔
    file ∉ seeds ∧ edges.Reached (some depth) seeds file := by
  rw [← (layer_seeds fun _ => Iff.rfl).mem_spread (edges.suffices_depth depth)]
  simp [within, and_comm]

theorem mem_closure : file ∈ edges.closure seeds ↔ file ∉ seeds ∧ edges.Reached none seeds file := by
  rw [← (layer_seeds fun _ => Iff.rfl).mem_spread edges.suffices_edgeCount]
  simp [closure, within, and_comm]

end Adjacency

namespace DependencyGraph

/-- A direct dependent of a seed is downstream of the seeds, unless it is one of them. -/
theorem mem_transitiveDependents {g : DependencyGraph} {seeds : List FileId} {file target : FileId}
    (hfile : file ∈ g.dependents target) (htarget : target ∈ seeds) (hseeds : file ∉ seeds) :
    file ∈ g.transitiveDependents seeds :=
  Adjacency.mem_closure.mpr ⟨hseeds, target, htarget, 1, by omega, by simp, .onward .here hfile⟩

end DependencyGraph

end Workbench
