import Workbench.Proofs.Disk.Plain
import Workbench.Proofs.Scope.Settling
import Workbench.Proofs.Workspace.Accounted

/-!
The roots of projects. A scope is registered under the components of its root, and roots are normal
paths. Only a discovery and an eviction change which scopes there are and what belongs to them; all
else that is asked of a workspace leaves every scope its territory.
-/

namespace Workbench

namespace Workspace

variable {κ ρ : Type} {w w' w'' : Workspace κ ρ}

/-- Every scope is registered under the components of its root, which is a normal path. -/
def Rooted (w : Workspace κ ρ) : Prop :=
  ∀ (key : List Component) (s : Scope), w.scopes[key]? = some s → s.root.IsNormal ∧ s.root.components = key

/-- The two workspaces have scopes for the same projects, with the same territories. -/
def SameTerritories (w w' : Workspace κ ρ) : Prop :=
  ∀ key : List Component, w'.scopes[key]?.map Scope.territory = w.scopes[key]?.map Scope.territory

namespace SameTerritories

theorem of_eq (h : w'.scopes = w.scopes) : w.SameTerritories w' := fun key => by rw [h]

theorem refl (w : Workspace κ ρ) : w.SameTerritories w := of_eq rfl

theorem trans (h : w.SameTerritories w') (h' : w'.SameTerritories w'') : w.SameTerritories w'' :=
  fun key => (h' key).trans (h key)

theorem mem_scopes (h : w.SameTerritories w') {key : List Component} (hmem : key ∈ w.scopes) :
    key ∈ w'.scopes := by
  rw [Std.ExtTreeMap.mem_iff_isSome_getElem?] at hmem ⊢
  rw [← Option.isSome_map (f := Scope.territory), h key, Option.isSome_map]
  exact hmem

theorem renew {key : List Component} {s s' : Scope} (hs : w.scopes[key]? = some s)
    (h : w'.scopes = w.scopes.insert key s') (hsame : s'.territory = s.territory) :
    w.SameTerritories w' := fun other => by
  rw [h, Std.ExtTreeMap.getElem?_insert]
  split
  · rename_i heq
    rw [← Std.LawfulEqOrd.eq_of_compare heq, hs, Option.map_some, Option.map_some, hsame]
  · rfl

end SameTerritories

theorem Rooted.of_same (h : w.Rooted) (hsame : w.SameTerritories w') : w'.Rooted := by
  intro key s' hs'
  have hterritory := hsame key
  rw [hs', Option.map_some] at hterritory
  obtain ⟨s, hs, heq⟩ := Option.map_eq_some_iff.mp hterritory.symm
  have hroot : s'.root = s.root := congrArg Territory.root heq.symm
  rw [hroot]
  exact h key s hs

/-! ### What leaves the territories alone -/

theorem sameTerritories_refreshScope [Compiler κ] {key : List Component} {s : Scope}
    (hs : w.scopes[key]? = some s) (asked : Option FileId) :
    w.SameTerritories (w.refreshScope key s asked).1 := by
  have hpass := s.pass_of_refresh w.config.compile w.disk w.bench asked
  rw [refreshScope]
  generalize s.refresh w.config.compile w.disk w.bench asked = result at *
  obtain ⟨bench, s', report⟩ := result
  obtain ⟨events, htold⟩ :=
    publishReport_spec (({ w with bench } : Workspace κ ρ).putScope key s') key report
  refine .renew hs ?_ hpass.territory_eq
  dsimp only
  rw [htold]
  rfl

theorem sameTerritories_withPlaceholder [Compiler κ] {α : Type} (w : Workspace κ ρ) (p : Path)
    (position : Position) (token : String) (read : Bench κ → Scope → FileId → Bench κ × α) :
    w.SameTerritories (w.withPlaceholder p position token read).1 := by
  rw [withPlaceholder]
  split
  case h_1 => exact .refl w
  case h_2 key s howner =>
    split
    case h_1 => exact .refl w
    case h_2 bench s' report answer hread =>
      obtain ⟨changed, context, hpass⟩ := Scope.pass_of_withPlaceholder hread
      obtain ⟨events, htold⟩ :=
        publishReport_spec (({ w with bench } : Workspace κ ρ).putScope key s') key report
      refine .renew (getElem?_of_owner? howner) ?_ hpass.territory_eq
      dsimp only
      rw [htold]
      rfl

theorem scopes_releaseHandle (w : Workspace κ ρ) (s : Scope) :
    (w.releaseHandle s).scopes = w.scopes := by
  rw [releaseHandle_eq]

theorem sameTerritories_releaseClasspath (w : Workspace κ ρ) (project : Path) :
    w.SameTerritories (w.releaseClasspath project).1 := by
  rw [releaseClasspath]
  split
  case h_1 => exact .refl w
  case h_2 s hs =>
    have hterritory : s.releaseClasspath.territory = s.territory := rfl
    refine .renew hs ?_ hterritory
    change (w.releaseHandle s).scopes.insert _ _ = _
    rw [scopes_releaseHandle]

theorem SameTerritories.of_workStep [Compiler κ] (h : w.WorkStep w') : w.SameTerritories w' := by
  cases h with
  | refresh hs asked => exact sameTerritories_refreshScope hs asked
  | store project resolved => exact .of_eq (w.scopes_storeClasspath project resolved)
  | install hs project resolved fromCache =>
      exact .renew hs (w.scopes_installClasspath_eq _ project _ resolved fromCache) rfl
  | _ => exact .of_eq rfl

theorem SameTerritories.of_works [Compiler κ] (h : w.Works w') : w.SameTerritories w' := by
  induction h with
  | refl => exact .refl w
  | tail _ hstep ih => exact ih.trans (.of_workStep hstep)

theorem sameTerritories_resolveClasspath [Compiler κ] [Resolver ρ] (w : Workspace κ ρ)
    (project : Path) : w.SameTerritories (w.resolveClasspath project).1 :=
  .of_works (w.works_resolveClasspath project)

/-! ### Evictions -/

theorem scopes_evict (w : Workspace κ ρ) (project : Path) :
    (w.evict project).1.scopes = w.scopes.erase (w.keyOf project) := by
  simp only [evict, releaseHandle_eq]
  split
  case h_1 hnone =>
    refine (erase_of_not_mem fun hmem => ?_).symm
    rw [Std.ExtTreeMap.mem_iff_isSome_getElem?, keyOf, hnone] at hmem
    contradiction
  case h_2 => rfl

theorem disk_evict (w : Workspace κ ρ) (project : Path) : (w.evict project).1.disk = w.disk := by
  simp only [evict, releaseHandle_eq]
  split <;> rfl

theorem Rooted.evict (h : w.Rooted) (project : Path) : (w.evict project).1.Rooted := by
  intro key s hs
  rw [scopes_evict, Std.ExtTreeMap.getElem?_erase] at hs
  split at hs
  · contradiction
  · exact h key s hs

end Workspace

end Workbench
