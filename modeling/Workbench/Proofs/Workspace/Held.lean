import Workbench.Proofs.Maps
import Workbench.Proofs.Scope.Replay
import Workbench.Workspace.Classpaths

/-!
The classpaths that the scopes of a workspace hold, in any order: what a change of one scope does
to them, and that no compile touches them.
-/

namespace Workbench

/-- The handles that scopes hold. -/
def heldBy (scopes : Std.ExtTreeMap (List Component) Scope) : List (SnapshotHandle ClasspathIndex) :=
  scopes.toList.filterMap fun entry => entry.2.classpath

namespace Scope

theorem Pass.classpath_eq {κ : Type} [Compiler κ] {s s' : Scope} {c : CompileConfig}
    {changed : List FileId} {context : Option FileId} {report : CompileReport}
    (hpass : Pass κ s c changed context s' report) : s'.classpath = s.classpath := by
  cases hpass <;> rfl

theorem classpath_setExcluded (s : Scope) (roots : List Path) :
    (s.setExcluded roots).classpath = s.classpath := by
  rw [setExcluded]
  split <;> rfl

end Scope

namespace Workspace

variable {scopes scopes' : Std.ExtTreeMap (List Component) Scope} {key : List Component} {s s' : Scope}

theorem heldBy_perm_of_getElem? (h : scopes[key]? = some s) :
    (heldBy scopes).Perm (s.classpath.toList ++ heldBy (scopes.erase key)) := by
  have hentries := (toList_perm_of_getElem? h).filterMap fun entry => entry.2.classpath
  refine hentries.trans (.of_eq ?_)
  rw [List.filterMap_cons]
  cases s.classpath <;> rfl

theorem heldBy_insert_perm (scopes : Std.ExtTreeMap (List Component) Scope) (key : List Component)
    (s : Scope) :
    (heldBy (scopes.insert key s)).Perm (s.classpath.toList ++ heldBy (scopes.erase key)) := by
  have hentries := (toList_insert_perm scopes key s).filterMap fun entry => entry.2.classpath
  refine hentries.trans (.of_eq ?_)
  rw [List.filterMap_cons]
  cases s.classpath <;> rfl

/-- A scope may change in all but its classpath. -/
theorem heldBy_renew_perm (h : scopes[key]? = some s) (hsame : s'.classpath = s.classpath) :
    (heldBy (scopes.insert key s')).Perm (heldBy scopes) :=
  (heldBy_insert_perm scopes key s').trans (hsame ▸ (heldBy_perm_of_getElem? h).symm)

theorem heldBy_map (f : List Component → Scope → Scope)
    (hf : ∀ key s, (f key s).classpath = s.classpath) :
    heldBy (scopes.map f) = heldBy scopes := by
  rw [heldBy, Std.ExtTreeMap.toList_map, List.filterMap_map]
  exact congrArg (List.filterMap · scopes.toList) (funext fun entry => hf entry.1 entry.2)

/-- A new scope holds nothing. -/
theorem heldBy_insertIfNew_perm (hnothing : s.classpath = none) :
    (heldBy (scopes.insertIfNew key s)).Perm (heldBy scopes) := by
  by_cases hold : key ∈ scopes
  · rw [insertIfNew_of_mem hold]
  · have hinserted := heldBy_insert_perm scopes key s
    rw [hnothing, erase_of_not_mem hold] at hinserted
    rw [insertIfNew_of_not_mem hold]
    exact hinserted

theorem heldBy_addAll (d : Disk) (projects : List Path) :
    (heldBy (projects.foldl (fun scopes project =>
      scopes.insertIfNew project.components (Scope.ofRoot d project)) scopes)).Perm
        (heldBy scopes) := by
  induction projects generalizing scopes with
  | nil => exact .refl _
  | cons project rest ih => exact ih.trans (heldBy_insertIfNew_perm rfl)

end Workspace

end Workbench
