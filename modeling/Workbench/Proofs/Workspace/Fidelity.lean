import Workbench.Proofs.Maps
import Workbench.Proofs.Tracker.Answers
import Workbench.Proofs.Workspace.Work

/-!
Scopes and what is heard of them. Whatever a workspace does, each of its scopes stores for every
file just what the last event of its own project said about the file.
-/

namespace Workbench

namespace DiagnosticMap

theorem mem_hearAll {m : DiagnosticMap} {published : List Publication} {file : FileId}
    (h : file ∈ m.hearAll published) : file ∈ m ∨ file ∈ published.map Prod.fst := by
  induction published generalizing m with
  | nil => exact .inl h
  | cons publication rest ih =>
      rcases ih h with hhere | hlater
      · obtain ⟨heard, diagnostics⟩ := publication
        rw [hear_eq_set, DiagnosticMap.set] at hhere
        split at hhere
        · exact .inl (Std.ExtTreeMap.mem_of_mem_erase hhere)
        · rcases Std.ExtTreeMap.mem_insert.mp hhere with heq | hbefore
          · right
            rw [List.map_cons, Std.LawfulEqCmp.eq_of_compare heq]
            exact List.mem_cons_self
          · exact .inl hbefore
      · exact .inr (List.mem_cons_of_mem _ hlater)

theorem ofFile_eq_nil {m : DiagnosticMap} {file : FileId} (h : file ∉ m) : m.ofFile file = [] :=
  Std.ExtTreeMap.getD_eq_fallback h

end DiagnosticMap

namespace Workspace

/-- A scope stores what its project said last. -/
structure Heard (r : Registry) (history : List Notice) (key : List Component) (s : Scope) :
    Prop where
  knows : ∀ file ∈ s.diagnostics, r.Knows file
  stored : ∀ file p, r.path? file = some p →
    s.diagnostics.ofFile file = Notice.lastFrom key p history

/-- All scopes store what their projects said last, and the other projects have nothing to say. -/
structure Faithful (r : Registry) (scopes : Std.ExtTreeMap (List Component) Scope)
    (history : List Notice) : Prop where
  known : ∀ key p, Notice.lastFrom key p history ≠ [] → ∃ file, r.path? file = some p
  heard : ∀ key s, scopes[key]? = some s → Heard r history key s
  silent : ∀ key, scopes[key]? = none → ∀ p, Notice.lastFrom key p history = []

variable {r r' : Registry} {scopes : Std.ExtTreeMap (List Component) Scope}
  {history history' : List Notice} {key : List Component} {s s' : Scope}

theorem Heard.of_eq (h : Heard r history key s) (hd : s'.diagnostics = s.diagnostics)
    (hhistory : ∀ p, Notice.lastFrom key p history' = Notice.lastFrom key p history) :
    Heard r history' key s' where
  knows := hd ▸ h.knows
  stored file p hp := by rw [hd, hhistory, h.stored file p hp]

theorem Faithful.grows (h : Faithful r scopes history) (hgrows : r.Grows r') :
    Faithful r' scopes history where
  known key p hsaid := by
    obtain ⟨file, hp⟩ := h.known key p hsaid
    exact ⟨file, hgrows.path? hp⟩
  heard key s hs := by
    have hheard := h.heard key s hs
    refine ⟨fun file hfile => (hheard.knows file hfile).grows hgrows, fun file p hp => ?_⟩
    cases hbefore : r.path? file with
    | some q =>
        cases hp.symm.trans (hgrows.path? hbefore)
        exact hheard.stored file p hbefore
    | none =>
        -- Nothing was stored for a new file, and nothing was said about its path.
        rw [DiagnosticMap.ofFile_eq_nil fun hfile => hheard.knows file hfile hbefore, eq_comm]
        refine Decidable.of_not_not fun hsaid => ?_
        obtain ⟨other, hother⟩ := h.known key p hsaid
        obtain rfl := Registry.path?_inj (hgrows.path? hother) hp
        exact Option.some_ne_none p (hother.symm.trans hbefore)
  silent := h.silent

/-- One project speaks, and its scope is replaced. -/
theorem Faithful.update (h : Faithful r scopes history)
    (hothers : ∀ other p, key ≠ other →
      Notice.lastFrom other p history' = Notice.lastFrom other p history)
    (hknown : ∀ p, Notice.lastFrom key p history' ≠ [] →
      Notice.lastFrom key p history ≠ [] ∨ ∃ file, r.path? file = some p)
    (hs : Heard r history' key s) : Faithful r (scopes.insert key s) history' where
  known other p hsaid := by
    by_cases heq : key = other
    · subst heq
      exact (hknown p hsaid).elim (h.known key p) id
    · rw [hothers other p heq] at hsaid
      exact h.known other p hsaid
  heard other s' hs' := by
    rw [Std.ExtTreeMap.getElem?_insert] at hs'
    simp only [Std.LawfulEqCmp.compare_eq_iff_eq] at hs'
    split at hs'
    case isTrue heq =>
      cases heq
      cases hs'
      exact hs
    case isFalse hne => exact (h.heard other s' hs').of_eq rfl fun p => hothers other p hne
  silent other hnone p := by
    rw [Std.ExtTreeMap.getElem?_insert] at hnone
    simp only [Std.LawfulEqCmp.compare_eq_iff_eq] at hnone
    split at hnone
    case isTrue => contradiction
    case isFalse hne =>
      rw [hothers other p hne]
      exact h.silent other hnone p

theorem Faithful.put (h : Faithful r scopes history) (hs : Heard r history key s) :
    Faithful r (scopes.insert key s) history :=
  h.update (fun _ _ _ => rfl) (fun _ => .inl) hs

theorem Faithful.evict (h : Faithful r scopes history) (key : List Component) (project : Path) :
    Faithful r (scopes.erase key) (⟨key, .scopeEvicted project⟩ :: history) where
  known other p hsaid := by
    by_cases heq : key = other
    · subst heq
      exact absurd (Notice.lastFrom_scopeEvicted project p) hsaid
    · rw [Notice.lastFrom_of_ne heq] at hsaid
      exact h.known other p hsaid
  heard other s hs := by
    rw [Std.ExtTreeMap.getElem?_erase] at hs
    simp only [Std.LawfulEqCmp.compare_eq_iff_eq] at hs
    split at hs
    case isTrue => contradiction
    case isFalse hne => exact (h.heard other s hs).of_eq rfl fun p => Notice.lastFrom_of_ne hne _ p
  silent other hnone p := by
    by_cases heq : key = other
    · subst heq
      exact Notice.lastFrom_scopeEvicted project p
    · rw [Notice.lastFrom_of_ne heq]
      rw [Std.ExtTreeMap.getElem?_erase,
        if_neg (mt Std.LawfulEqCmp.compare_eq_iff_eq.mp heq)] at hnone
      exact h.silent other hnone p

theorem Faithful.resolved (h : Faithful r scopes history) (key : List Component) (project : Path)
    (fromCache : Bool) :
    Faithful r scopes (⟨key, .classpathResolved project fromCache⟩ :: history) where
  known other p hsaid := by
    rw [Notice.lastFrom_classpathResolved] at hsaid
    exact h.known other p hsaid
  heard other s hs :=
    (h.heard other s hs).of_eq rfl fun p => Notice.lastFrom_classpathResolved project fromCache p
  silent other hnone p := by
    rw [Notice.lastFrom_classpathResolved]
    exact h.silent other hnone p

theorem Faithful.renew (h : Faithful r scopes history) (hs : scopes[key]? = some s)
    (hd : s'.diagnostics = s.diagnostics) : Faithful r (scopes.insert key s') history :=
  h.put ((h.heard key s hs).of_eq hd fun _ => rfl)

/-- A scope makes its report. -/
theorem Faithful.tell (h : Faithful r scopes history) (hs : scopes[key]? = some s)
    {published : List Publication} (hknown : ∀ file ∈ published.map Prod.fst, r.Knows file)
    (hreported : s.diagnostics.Reported s'.diagnostics published) :
    Faithful r (scopes.insert key s') (Notice.tell r key history published) := by
  have hheard := h.heard key s hs
  refine h.update (fun other p hne => Notice.lastFrom_tell_of_ne hne r p published)
    (fun p => Notice.path?_of_lastFrom_tell) ⟨fun file hfile => ?_, fun file p hp => ?_⟩
  · rw [← hreported.hearAll_eq] at hfile
    exact (DiagnosticMap.mem_hearAll hfile).elim (hheard.knows file) (hknown file)
  · rw [← hreported.hearAll_eq]
    exact Notice.ofFile_hearAll_eq_lastFrom_tell hp hknown (hheard.stored file p hp)

theorem Faithful.divide (h : Faithful r scopes history) (roots : Scope → List Path) :
    Faithful r (scopes.map fun _ s => s.setExcluded (roots s)) history where
  known := h.known
  heard key s' hs' := by
    rw [Std.ExtTreeMap.getElem?_map] at hs'
    obtain ⟨s, hs, rfl⟩ := Option.map_eq_some_iff.mp hs'
    exact (h.heard key s hs).of_eq (s.diagnostics_setExcluded (roots s)) fun _ => rfl
  silent key hnone := by
    rw [Std.ExtTreeMap.getElem?_map, Option.map_eq_none_iff] at hnone
    exact h.silent key hnone

/-- A new project gets a scope that stores nothing. -/
theorem Faithful.add (h : Faithful r scopes history) (key : List Component)
    (hnothing : s.diagnostics = ∅) : Faithful r (scopes.insertIfNew key s) history := by
  by_cases hold : key ∈ scopes
  · rw [insertIfNew_of_mem hold]
    exact h
  · -- The project had no scope, so its history says nothing, as the new scope stores nothing.
    rw [insertIfNew_of_not_mem hold]
    refine h.put ⟨fun file hfile => ?_, fun file p hp => ?_⟩
    · rw [hnothing] at hfile
      exact absurd hfile Std.ExtTreeMap.not_mem_empty
    · rw [hnothing, h.silent key (Std.ExtTreeMap.getElem?_eq_none hold) p]
      exact DiagnosticMap.ofFile_eq_nil Std.ExtTreeMap.not_mem_empty

theorem Faithful.addAll (h : Faithful r scopes history) (d : Disk) (projects : List Path) :
    Faithful r (projects.foldl (fun scopes project =>
      scopes.insertIfNew project.components (Scope.ofRoot d project)) scopes) history := by
  induction projects generalizing scopes with
  | nil => exact h
  | cons project rest ih => exact ih (h.add project.components rfl)

/-! ### Operations -/

variable {κ ρ : Type} {w w' : Workspace κ ρ}

def IsFaithful (w : Workspace κ ρ) : Prop :=
  Faithful w.bench.tracker.registry w.scopes w.history

theorem IsFaithful.act (h : w.IsFaithful) (action : Tracker.Action) :
    (w.track fun t d => (t.act d action, ())).1.IsFaithful :=
  Faithful.grows h (w.bench.tracker.later_act w.disk action).grows

theorem IsFaithful.refreshScope [Compiler κ] (h : w.IsFaithful) (hs : w.scopes[key]? = some s)
    (asked : Option FileId) : (w.refreshScope key s asked).1.IsFaithful := by
  have hpass := s.pass_of_refresh w.config.compile w.disk w.bench asked
  have hgrows := (s.leavesTracker_refresh w.config.compile w.disk w.bench asked).grows
  have hknown := s.knows_of_refresh w.config.compile w.disk w.bench asked (h.heard key s hs).knows
  rw [Workspace.refreshScope]
  generalize s.refresh w.config.compile w.disk w.bench asked = result at *
  obtain ⟨bench, s', report⟩ := result
  dsimp only at *
  obtain ⟨events, htold⟩ :=
    publishReport_spec (({ w with bench } : Workspace κ ρ).putScope key s') key report
  rw [htold]
  exact (Faithful.grows h hgrows).tell hs hknown hpass.reported

theorem IsFaithful.evict (h : w.IsFaithful) (project : Path) : (w.evict project).1.IsFaithful := by
  simp only [Workspace.evict, releaseHandle_eq]
  split
  case h_1 => exact h
  case h_2 s hs => exact Faithful.evict h _ _

theorem IsFaithful.storeClasspath (h : w.IsFaithful) (project : Path)
    (resolved : ResolvedClasspath) : (w.storeClasspath project resolved).IsFaithful := by
  obtain ⟨disk, log, hstored⟩ := w.storeClasspath_spec project resolved
  rw [hstored]
  exact h

theorem IsFaithful.installClasspath (h : w.IsFaithful) (hs : w.scopes[key]? = some s)
    (project : Path) (resolved : ResolvedClasspath) (fromCache : Bool) :
    (w.installClasspath key project s resolved fromCache).IsFaithful := by
  obtain ⟨log, events, hinstalled⟩ := w.installClasspath_spec key project s resolved fromCache
  have hsame : (s.setClasspath (w.acquireIndex resolved.entries).2
      resolved.runtimeVersion).diagnostics = s.diagnostics := rfl
  rw [hinstalled]
  exact (Faithful.renew h hs hsame).resolved key project fromCache

theorem IsFaithful.work [Compiler κ] (h : w.IsFaithful) (hwork : w.WorkStep w') :
    w'.IsFaithful := by
  cases hwork with
  | track action => exact h.act action
  | refresh hs asked => exact h.refreshScope hs asked
  | ask resolver => exact h
  | store project resolved => exact h.storeClasspath project resolved
  | install hs project resolved fromCache => exact h.installClasspath hs project resolved fromCache
  | note events => exact h
  | queue jobs => exact h

theorem IsFaithful.change [Compiler κ] (h : w.IsFaithful) (hstep : w.Step w') :
    w'.IsFaithful := by
  cases hstep with
  | work hwork => exact h.work hwork
  | add found => exact Faithful.addAll h _ found
  | evict project => exact h.evict project
  | divide found => exact Faithful.divide h fun s => nestedIn found s.root
  | instruct compiler => exact h

theorem IsFaithful.steps [Compiler κ] (h : w.IsFaithful) (hsteps : w.Steps w') :
    w'.IsFaithful := by
  induction hsteps with
  | refl => exact h
  | tail _ hstep ih => exact ih.change hstep

end Workspace

end Workbench
