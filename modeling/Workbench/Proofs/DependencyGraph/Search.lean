import Workbench.Proofs.DependencyGraph.Reach

/-!
Closure queries by a queue. Instead of going round by round, a search can look at one file after the
other and queue those that it sees for the first time, in whatever order the seeds and the neighbours
of a file are listed. Such a search ends, and it sees what the rounds see: what edges lead to.
-/

namespace Workbench

open Adjacency

/-- The files that a search has still to look at, with the lengths of the paths that they were met
by, and the files that it has seen. -/
structure Search where
  queue : List (FileId × Nat)
  seen : Std.ExtTreeSet FileId

namespace Search

/-- Queues a file that is seen for the first time. -/
def meet (depth : Nat) (s : Search) (file : FileId) : Search :=
  if file ∈ s.seen then s
  else { queue := s.queue ++ [(file, depth)], seen := s.seen.insert file }

/-- Looks at the first file of the queue, unless it is as far away as the limit. -/
def step (listed : FileId → List FileId) (limit : Option Nat) (s : Search) : Search :=
  match s.queue with
  | [] => s
  | (file, depth) :: rest =>
    if limit.any (· ≤ depth) then { s with queue := rest }
    else (listed file).foldl (meet (depth + 1)) { s with queue := rest }

def after (listed : FileId → List FileId) (limit : Option Nat) : Nat → Search → Search
  | 0, s => s
  | n + 1, s => after listed limit n (s.step listed limit)

/-- A search from these seeds comes to the end of its queue, and what it has seen by then besides the
seeds is what was looked for. -/
def Finds (listed : FileId → List FileId) (limit : Option Nat) (seeds : List FileId)
    (found : Std.ExtTreeSet FileId) : Prop :=
  ∃ n seen, after listed limit n ⟨seeds.map (·, 0), ∅⟩ = ⟨[], seen⟩ ∧
    seen.filter (fun file => !seeds.contains file) = found

/-- The neighbours of every file are listed, in any order. -/
def Lists (listed : FileId → List FileId) (edges : Adjacency) : Prop :=
  ∀ file other, other ∈ listed file ↔ other ∈ edges.neighbours file

variable {listed : FileId → List FileId} {limit : Option Nat} {edges : Adjacency}
  {seeds order frontier : List FileId} {seen : Std.ExtTreeSet FileId} {depth rounds : Nat}

theorem after_add (m n : Nat) (s : Search) :
    after listed limit (m + n) s = after listed limit n (after listed limit m s) := by
  induction m generalizing s with
  | zero => rw [Nat.zero_add, after]
  | succ m ih => rw [Nat.succ_add, after, ih, after]

/-- An empty queue stays empty, so that where a search ends does not depend on how long it runs. -/
theorem after_nil (n : Nat) : after listed limit n ⟨[], seen⟩ = ⟨[], seen⟩ := by
  induction n with
  | zero => rfl
  | succ n ih => exact ih

/-! ### Looking at all files of a round -/

/-- Meeting some files queues those that were not seen. -/
theorem foldl_meet (depth : Nat) (files : List FileId) (queue : List (FileId × Nat))
    (seen : Std.ExtTreeSet FileId) :
    ∃ (fresh : List FileId) (seen' : Std.ExtTreeSet FileId),
      files.foldl (meet depth) { queue, seen } =
        { queue := queue ++ fresh.map (·, depth), seen := seen' } ∧
      (∀ file, file ∈ fresh ↔ file ∈ files ∧ file ∉ seen) ∧
      ∀ file, file ∈ seen' ↔ file ∈ seen ∨ file ∈ fresh := by
  induction files generalizing queue seen with
  | nil => exact ⟨[], seen, by simp, by simp, by simp⟩
  | cons file rest ih =>
      rw [List.foldl_cons]
      by_cases hfile : file ∈ seen
      · obtain ⟨fresh, seen', hrun, hfresh, hseen⟩ := ih queue seen
        refine ⟨fresh, seen', by rw [meet, if_pos hfile, hrun], fun other => ?_, hseen⟩
        rw [hfresh, List.mem_cons]
        constructor
        · tauto
        · rintro ⟨rfl | hother, hnot⟩
          · contradiction
          · exact ⟨hother, hnot⟩
      · obtain ⟨fresh, seen', hrun, hfresh, hseen⟩ := ih (queue ++ [(file, depth)]) (seen.insert file)
        refine ⟨file :: fresh, seen', by simp [meet, hfile, hrun], fun other => ?_, fun other => ?_⟩
        · simp only [List.mem_cons, hfresh, Std.ExtTreeSet.mem_insert,
            Std.LawfulEqCmp.compare_eq_iff_eq]
          by_cases heq : file = other
          · subst heq
            simp [hfile]
          · simp [heq, Ne.symm heq]
        · simp only [hseen, List.mem_cons, Std.ExtTreeSet.mem_insert,
            Std.LawfulEqCmp.compare_eq_iff_eq, or_left_comm, or_assoc, eq_comm (a := other)]

/-- Looking at files below the limit, one after the other, is a round of the search. -/
theorem after_frontier (hlisted : Lists listed edges) (hlimit : limit.any (· ≤ depth) = false)
    (frontier : List FileId) (queue : List (FileId × Nat)) (seen : Std.ExtTreeSet FileId) :
    ∃ (fresh : List FileId) (seen' : Std.ExtTreeSet FileId),
      after listed limit frontier.length ⟨frontier.map (·, depth) ++ queue, seen⟩ =
        ⟨queue ++ fresh.map (·, depth + 1), seen'⟩ ∧
      edges.Round frontier seen fresh seen' := by
  induction frontier generalizing queue seen with
  | nil => exact ⟨[], seen, by simp [after], by simp, by simp⟩
  | cons file rest ih =>
      obtain ⟨met, seen₁, hmeet, hmet, hseen₁⟩ :=
        foldl_meet (depth + 1) (listed file) (rest.map (·, depth) ++ queue) seen
      obtain ⟨fresh, seen₂, hrun, hround⟩ := ih (queue ++ met.map (·, depth + 1)) seen₁
      refine ⟨met ++ fresh, seen₂, ?_, fun other => ?_, fun other => ?_⟩
      · simp only [List.map_cons, List.cons_append, List.length_cons, after, step, hlimit, hmeet,
          List.append_assoc, Bool.false_eq_true, if_false] at hrun ⊢
        rw [hrun, List.map_append]
      · simp only [List.mem_append, hround.mem_fresh, hmet, hseen₁, hlisted file, List.mem_cons,
          exists_eq_or_imp]
        tauto
      · rw [hround.mem_seen, hseen₁, List.mem_append, or_assoc]

/-- Files at the limit leave the queue without being looked at. -/
theorem after_of_limit (hlimit : limit.any (· ≤ depth)) (frontier : List FileId) :
    after listed limit frontier.length ⟨frontier.map (·, depth), seen⟩ = ⟨[], seen⟩ := by
  induction frontier with
  | nil => rfl
  | cons file rest ih => simpa [after, step, hlimit] using ih

/-! ### Whole searches -/

/-- From the state after some rounds a search comes to its end, and by then it has seen what is
reached from the seeds. -/
theorem exists_after (hlisted : Lists listed edges) (h : edges.Layer seeds depth frontier seen)
    (hrounds : edges.Suffices limit depth rounds seen) :
    ∃ n seen', after listed limit n ⟨frontier.map (·, depth), seen⟩ = ⟨[], seen'⟩ ∧
      ∀ file, file ∈ seen' ↔ edges.Reached limit seeds file := by
  -- The rounds that are left decrease, whether the limit or the number of edges bounds them.
  induction rounds generalizing depth frontier seen with
  | zero =>
      cases limit with
      | some most =>
          obtain rfl : most = depth := hrounds.limited most rfl
          exact ⟨_, seen, after_of_limit (by simp) frontier, fun _ => h.mem_seen_iff_of_limit⟩
      | none =>
          have hlimit : Option.any (· ≤ depth) none = false := rfl
          obtain ⟨fresh, seen', hrun, hround⟩ := after_frontier hlisted hlimit frontier [] seen
          obtain rfl := hrounds.fresh_eq_nil hround
          refine ⟨_, seen', by simpa using hrun, fun file => ?_⟩
          rw [hround.mem_seen, or_iff_left List.not_mem_nil]
          exact h.mem_seen_iff hround (by simp)
  | succ rounds ih =>
      have hlimit : limit.any (· ≤ depth) = false := by
        cases limit with
        | none => rfl
        | some most =>
            have := hrounds.limited most rfl
            simpa using by omega
      obtain ⟨fresh, seen', hrun, hround⟩ := after_frontier hlisted hlimit frontier [] seen
      rw [List.append_nil, List.nil_append] at hrun
      by_cases hsome : fresh = []
      · subst hsome
        refine ⟨_, seen', hrun, fun file => ?_⟩
        rw [hround.mem_seen, or_iff_left List.not_mem_nil]
        refine h.mem_seen_iff hround fun most hmost => ?_
        have := hrounds.limited most hmost
        omega
      · obtain ⟨n, last, hrest, hlast⟩ := ih (h.next hround) (hrounds.next hround hsome)
        exact ⟨frontier.length + n, last, by rw [after_add, hrun, hrest], hlast⟩

/-- The order of the seeds and of neighbours does not matter: a search finds the files besides the
seeds that are reached from these. -/
theorem finds_of_mem_iff (hlisted : Lists listed edges) (horder : ∀ file, file ∈ order ↔ file ∈ seeds)
    (hrounds : edges.Suffices limit 0 rounds ∅) {found : Std.ExtTreeSet FileId}
    (hfound : ∀ file, file ∈ found ↔ file ∉ seeds ∧ edges.Reached limit seeds file) :
    Finds listed limit order found := by
  obtain ⟨n, seen, hrun, hseen⟩ := exists_after hlisted (layer_seeds horder) hrounds
  refine ⟨n, seen, hrun, Std.ExtTreeSet.ext_mem fun {file} => ?_⟩
  rw [hfound, ← hseen, ← horder]
  simp [and_comm]

end Search

namespace DependencyGraph

open Search

/-- Closure queries are exact on every graph that actions made. The files downstream of some seeds
are those besides the seeds that a path of one edge or more leads from to a seed; the files that the
seeds depend on within a depth are those besides the seeds that such a path leads to from a seed, if
it is not longer than the depth. A search by a queue ends with just these files, in whatever order it
takes the seeds and the neighbours of each file. -/
theorem closures_ofActions (actions : List Action) (seeds : List FileId) (depth : Nat) :
    (∀ file, file ∈ (ofActions actions).transitiveDependents seeds ↔
      file ∉ seeds ∧ ∃ seed ∈ seeds, ∃ n, 0 < n ∧ (ofActions actions).forward.Leads file n seed) ∧
    (∀ file, file ∈ (ofActions actions).transitiveDependencies seeds depth ↔
      file ∉ seeds ∧ ∃ seed ∈ seeds, ∃ n, 0 < n ∧ n ≤ depth ∧
        (ofActions actions).forward.Leads seed n file) ∧
    ∀ (order : List FileId) (listed : FileId → List FileId),
      (∀ file, file ∈ order ↔ file ∈ seeds) →
        (Lists listed (ofActions actions).reverse →
          Finds listed none order ((ofActions actions).transitiveDependents seeds)) ∧
        (Lists listed (ofActions actions).forward →
          Finds listed (some depth) order
            ((ofActions actions).transitiveDependencies seeds depth)) := by
  refine ⟨fun file => ?_, fun file => ?_, fun order listed horder => ⟨fun hlisted => ?_,
    fun hlisted => ?_⟩⟩
  · have hmirrored := mirrored_ofActions actions
    have hback : ∀ n seed, (ofActions actions).reverse.Leads seed n file ↔
        (ofActions actions).forward.Leads file n seed := fun n seed =>
      ⟨Leads.flip fun source target hedge => (hmirrored target source).mpr hedge,
        Leads.flip fun source target hedge => (hmirrored source target).mp hedge⟩
    simp [transitiveDependents, mem_closure, Reached, hback]
  · simp [transitiveDependencies, mem_within, Reached]
  · exact finds_of_mem_iff hlisted horder (suffices_edgeCount _) fun _ => mem_closure
  · exact finds_of_mem_iff hlisted horder (suffices_depth _ depth) fun _ => mem_within

/-- Two files that depend on each other, one of them also on a file that depends on nothing, and a
file that depends on both. -/
def entangled : List Action :=
  [.update 1 [2, 3], .update 2 [1], .update 4 [1, 2], .update 5 [4], .removeFile 5]

/-- The neighbours of a file from the greatest to the least. -/
def descending (edges : Adjacency) (file : FileId) : List FileId :=
  (edges.neighbours file).toList.reverse

theorem lists_descending (edges : Adjacency) : Lists (descending edges) edges := by
  intro file other
  simp [descending]

theorem closures_ofActions_entangled :
    (∀ file : FileId, file ∈ [1, 3] ↔ file ∈ [3, 1]) ∧
    Lists (descending (ofActions entangled).reverse) (ofActions entangled).reverse ∧
    ((ofActions entangled).transitiveDependents [3, 1]).toList = [2, 4] ∧
    Finds (descending (ofActions entangled).reverse) none [1, 3]
      ((ofActions entangled).transitiveDependents [3, 1]) ∧
    3 ∉ (ofActions entangled).transitiveDependencies [2] 1 ∧
    3 ∈ (ofActions entangled).transitiveDependencies [2] 2 ∧
    ∃ n, 0 < n ∧ n ≤ 2 ∧ (ofActions entangled).forward.Leads 2 n 3 := by
  obtain ⟨-, -, hsearch⟩ := closures_ofActions entangled [3, 1] 0
  have horder (file : FileId) : file ∈ [1, 3] ↔ file ∈ [3, 1] := by simp [or_comm]
  have hlisted := lists_descending (ofActions entangled).reverse
  have hwithin : 3 ∈ (ofActions entangled).transitiveDependencies [2] 2 := by decide +kernel
  refine ⟨horder, hlisted, by decide +kernel, (hsearch [1, 3] _ horder).1 hlisted,
    by decide +kernel, hwithin, ?_⟩
  obtain ⟨-, seed, hseed, n, hpos, hle, hpath⟩ :=
    ((closures_ofActions entangled [2] 2).2.1 3).mp hwithin
  rw [List.mem_singleton.mp hseed] at hpath
  exact ⟨n, hpos, hle, hpath⟩

end DependencyGraph

end Workbench
