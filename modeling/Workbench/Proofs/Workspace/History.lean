import Workbench.Proofs.Scope.Publication
import Workbench.Workspace.Freshness

/-!
What was last said about a file. The events of all projects go to the same subscribers, and an event
does not say whose it is; so the last event about a file need not come from the project that owns
it. The history says whose an event is. Within one project, the last event about a file tells what
its scope stores.
-/

namespace Workbench

namespace Notice

/-- The diagnostics in the last event about a path; none if there is no event. The history lists the
last event first. -/
def lastAbout (p : Path) : List Notice → List Diagnostic
  | [] => []
  | notice :: earlier =>
    match notice.event with
    | .diagnosticsUpdated q diagnostics => if q = p then diagnostics else lastAbout p earlier
    | _ => lastAbout p earlier

/-- The same among the events of one project since it has its scope. -/
def lastFrom (key : List Component) (p : Path) : List Notice → List Diagnostic
  | [] => []
  | notice :: earlier =>
    if notice.project = key then
      match notice.event with
      | .diagnosticsUpdated q diagnostics => if q = p then diagnostics else lastFrom key p earlier
      | .classpathResolved _ _ => lastFrom key p earlier
      | .scopeEvicted _ => []
    else lastFrom key p earlier

/-- A notice leaves the last word about a path to a project: it is not about the path, or it is an
event of the project; and the project keeps its scope. -/
def leavesWordTo (key : List Component) (p : Path) (notice : Notice) : Bool :=
  match notice.event with
  | .diagnosticsUpdated q _ => q = p → notice.project = key
  | .classpathResolved _ _ => true
  | .scopeEvicted _ => notice.project ≠ key

variable {key other : List Component} {history : List Notice}

theorem lastFrom_of_ne (h : other ≠ key) (event : WorkspaceEvent) (p : Path) :
    lastFrom key p (⟨other, event⟩ :: history) = lastFrom key p history := by
  rw [lastFrom, if_neg h]

theorem lastFrom_classpathResolved (project : Path) (fromCache : Bool) (p : Path) :
    lastFrom key p (⟨other, .classpathResolved project fromCache⟩ :: history) =
      lastFrom key p history := by
  rw [lastFrom]
  split <;> rfl

theorem lastFrom_scopeEvicted (project p : Path) :
    lastFrom key p (⟨key, .scopeEvicted project⟩ :: history) = [] := by
  rw [lastFrom, if_pos rfl]

theorem lastFrom_diagnosticsUpdated (p q : Path) (diagnostics : List Diagnostic) :
    lastFrom key p (⟨key, .diagnosticsUpdated q diagnostics⟩ :: history) =
      if q = p then diagnostics else lastFrom key p history := by
  rw [lastFrom, if_pos rfl]

theorem lastAbout_eq_lastFrom {p : Path}
    (h : ∀ notice ∈ history, notice.leavesWordTo key p = true) :
    lastAbout p history = lastFrom key p history := by
  induction history with
  | nil => rfl
  | cons notice earlier ih =>
      obtain ⟨hnotice, hearlier⟩ := List.forall_mem_cons.mp h
      have hrest := ih hearlier
      obtain ⟨project, event⟩ := notice
      cases event with
      | diagnosticsUpdated q diagnostics =>
          have hown : q = p → project = key := of_decide_eq_true hnotice
          by_cases hq : q = p
          · obtain rfl := hown hq
            rw [lastFrom_diagnosticsUpdated, ← hrest]
            rfl
          · simp only [lastAbout, lastFrom, if_neg hq, ite_self, hrest]
      | classpathResolved root fromCache =>
          rw [lastFrom_classpathResolved, ← hrest]
          rfl
      | scopeEvicted root =>
          have hother : project ≠ key := of_decide_eq_true hnotice
          rw [lastFrom_of_ne hother, ← hrest]
          rfl

/-! ### Telling a report -/

/-- The history after the files of a project's report were told. -/
def tell (r : Registry) (key : List Component) (history : List Notice)
    (published : List Publication) : List Notice :=
  published.foldl (fun history (file, diagnostics) =>
    match r.path? file with
    | some p => ⟨key, .diagnosticsUpdated p diagnostics⟩ :: history
    | none => history) history

theorem lastFrom_tell_of_ne (h : other ≠ key) (r : Registry) (p : Path)
    (published : List Publication) :
    lastFrom key p (tell r other history published) = lastFrom key p history := by
  induction published generalizing history with
  | nil => rfl
  | cons publication rest ih =>
      obtain ⟨file, diagnostics⟩ := publication
      rw [tell, List.foldl_cons]
      refine ih.trans ?_
      dsimp only
      split
      · exact lastFrom_of_ne h _ p
      · rfl

theorem path?_of_lastFrom_tell {r : Registry} {p : Path} {published : List Publication}
    (h : lastFrom key p (tell r key history published) ≠ []) :
    lastFrom key p history ≠ [] ∨ ∃ file, r.path? file = some p := by
  induction published generalizing history with
  | nil => exact .inl h
  | cons publication rest ih =>
      obtain ⟨file, diagnostics⟩ := publication
      rw [tell, List.foldl_cons] at h
      refine (ih h).elim (fun hhere => ?_) .inr
      dsimp only at hhere
      split at hhere
      case h_1 q hq =>
        rw [lastFrom_diagnosticsUpdated] at hhere
        split at hhere
        case isTrue hpath => exact .inr ⟨file, hpath ▸ hq⟩
        case isFalse => exact .inl hhere
      case h_2 => exact .inl hhere

/-- A client that follows one project and one that follows the scope's reports hear the same. -/
theorem ofFile_hearAll_eq_lastFrom_tell {r : Registry} {file : FileId} {p : Path}
    (hp : r.path? file = some p) {published : List Publication}
    (hknown : ∀ file ∈ published.map Prod.fst, r.Knows file) {m : DiagnosticMap}
    (hm : m.ofFile file = lastFrom key p history) :
    (m.hearAll published).ofFile file = lastFrom key p (tell r key history published) := by
  induction published generalizing m history with
  | nil => exact hm
  | cons publication rest ih =>
      obtain ⟨heard, diagnostics⟩ := publication
      obtain ⟨q, hq⟩ := Option.ne_none_iff_exists'.mp (hknown heard List.mem_cons_self)
      rw [DiagnosticMap.hearAll, tell, List.foldl_cons, List.foldl_cons]
      refine ih (fun file h => hknown file (List.mem_cons_of_mem _ h)) ?_
      dsimp only
      rw [hq, DiagnosticMap.hear_eq_set, DiagnosticMap.ofFile_set, lastFrom_diagnosticsUpdated]
      by_cases hfile : file = heard
      · subst hfile
        rw [if_pos rfl, if_pos (Option.some.inj (hq.symm.trans hp))]
      · -- No two files have the same path, so an event about this one is not heard as about that.
        have hpath : q ≠ p := by
          rintro rfl
          exact hfile (Registry.path?_inj hp hq)
        rw [if_neg hfile, if_neg hpath, hm]

end Notice

end Workbench
