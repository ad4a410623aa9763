import Workbench.Proofs.Sorting
import Workbench.Proofs.Workspace.Roots

/-!
Who owns a path. A scope owns what lies in its root and in none of the roots nested in it; a
workspace gives a path to the scope with the deepest root above it. After a discovery the two come
to the same, and so no path and no changed file has two owners.
-/

namespace Workbench

theorem Path.mem_sort {p : Path} {paths : List Path} : p ∈ Path.sort paths ↔ p ∈ paths := by
  rw [Path.sort]
  constructor
  · intro h
    obtain ⟨entry, hentry, rfl⟩ := List.mem_map.mp h
    obtain ⟨q, hq, rfl⟩ := List.mem_map.mp ((sortBy_perm _ _).mem_iff.mp hentry)
    exact hq
  · intro h
    exact List.mem_map.mpr ⟨(p.components, p),
      (sortBy_perm _ _).mem_iff.mpr (List.mem_map_of_mem h), rfl⟩

theorem Path.isWithin_iff {root p : Path} :
    root.isWithin p ↔ root.components <+: p.components := by
  rw [isWithin, List.isPrefixOf_iff_prefix]

theorem Scope.territory_setExcluded (s : Scope) (roots : List Path) :
    (s.setExcluded roots).territory = { s.territory with excluded := Path.sort roots } := by
  rw [setExcluded]
  split
  · rename_i hsame
    rw [hsame]
  · rfl

namespace Workspace

variable {κ ρ : Type} {w : Workspace κ ρ} {found : List Path}

/-! ### A discovery -/

theorem getElem?_addScopes (w : Workspace κ ρ) (found : List Path) (key : List Component) :
    (w.addScopes found).scopes[key]? = w.scopes[key]?.or
      ((found.find? fun project => project.components = key).map (Scope.ofRoot w.disk)) := by
  rw [addScopes]
  dsimp only
  generalize w.scopes = scopes
  induction found generalizing scopes with
  | nil => simp
  | cons project rest ih =>
      rw [List.foldl_cons, ih, getElem?_insertIfNew_or, List.find?_cons, Option.or_assoc]
      by_cases hkey : project.components = key <;> simp [hkey]

theorem keyOf_of_isNormal (hlinks : w.disk.LinkFree) {p : Path} (hp : p.IsNormal) :
    w.keyOf p = p.components := hlinks.normalize hp

theorem Rooted.addScopes (h : w.Rooted) (hlinks : w.disk.LinkFree)
    (hfound : ∀ p ∈ found, p.IsNormal) : (w.addScopes found).Rooted := by
  intro key s hs
  rw [getElem?_addScopes] at hs
  rcases Option.or_eq_some_iff.mp hs with hold | ⟨-, hnew⟩
  · exact h key s hold
  · obtain ⟨project, hproject, rfl⟩ := Option.map_eq_some_iff.mp hnew
    have hnormal := hfound project (List.mem_of_find?_eq_some hproject)
    have hkey : (Scope.ofRoot w.disk project).root.components = project.components :=
      hlinks.normalize hnormal
    have hproject := List.find?_some hproject
    exact ⟨hnormal.congr hkey, hkey.trans (of_decide_eq_true hproject)⟩

/-- After the eviction of some registered projects just these are gone. -/
theorem getElem?_foldl_evict (hlinks : w.disk.LinkFree) {gone : List Path}
    (hgone : ∀ p ∈ gone, p.IsNormal) (key : List Component) :
    (gone.foldl (fun w root => (w.evict root).1) w).scopes[key]? =
      if key ∈ gone.map Path.components then none else w.scopes[key]? := by
  induction gone generalizing w with
  | nil => simp
  | cons root rest ih =>
      have hroot := keyOf_of_isNormal hlinks (hgone root List.mem_cons_self)
      rw [List.foldl_cons, ih (w.disk_evict root ▸ hlinks)
        fun p hp => hgone p (List.mem_cons_of_mem _ hp), scopes_evict, hroot,
        Std.ExtTreeMap.getElem?_erase, List.map_cons]
      by_cases hkey : root.components = key
      · simp [hkey]
      · simp [Ne.symm hkey, mt Std.LawfulEqOrd.eq_of_compare hkey]

theorem Rooted.isNormal_of_mem_projects (h : w.Rooted) {root : Path} (hroot : root ∈ w.projects) :
    root.IsNormal ∧ root.components ∈ w.scopes := by
  obtain ⟨key, hkey, rfl⟩ := List.mem_map.mp hroot
  have hmem := Std.ExtTreeMap.mem_keys.mp hkey
  obtain ⟨s, hs⟩ := Option.isSome_iff_exists.mp (Std.ExtTreeMap.mem_iff_isSome_getElem?.mp hmem)
  obtain ⟨hnormal, rfl⟩ := h key s hs
  rw [Path.components_ofComponents]
  exact ⟨hnormal.congr (Path.components_ofComponents _), hmem⟩

theorem Rooted.mem_projects (h : w.Rooted) {key : List Component} (hkey : key ∈ w.scopes) :
    ∃ root ∈ w.projects, root.components = key := by
  obtain ⟨s, hs⟩ := Option.isSome_iff_exists.mp (Std.ExtTreeMap.mem_iff_isSome_getElem?.mp hkey)
  obtain ⟨-, rfl⟩ := h key s hs
  exact ⟨_, List.mem_map_of_mem (Std.ExtTreeMap.mem_keys.mpr hkey),
    Path.components_ofComponents _⟩

theorem getElem?_evictOthers (h : w.Rooted) (hlinks : w.disk.LinkFree) (found : List Path)
    (key : List Component) :
    (w.evictOthers found).scopes[key]? =
      if key ∈ found.map Path.components then w.scopes[key]? else none := by
  rw [evictOthers, getElem?_foldl_evict hlinks fun p hp =>
    (h.isNormal_of_mem_projects (List.mem_of_mem_filter hp)).1]
  have hgone : key ∈ (w.projects.filter fun root => !found.any root.same).map Path.components ↔
      key ∈ w.scopes ∧ key ∉ found.map Path.components := by
    simp only [List.mem_map, List.mem_filter, Bool.not_eq_true', List.any_eq_false, Path.same,
      beq_iff_eq]
    constructor
    · rintro ⟨root, ⟨hroot, hother⟩, rfl⟩
      refine ⟨(h.isNormal_of_mem_projects hroot).2, ?_⟩
      rintro ⟨p, hp, heq⟩
      exact hother p hp heq.symm
    · rintro ⟨hmem, hother⟩
      obtain ⟨root, hroot, rfl⟩ := h.mem_projects hmem
      exact ⟨root, ⟨hroot, fun p hp heq => hother ⟨p, hp, heq.symm⟩⟩, rfl⟩
  by_cases hfound : key ∈ found.map Path.components
  · rw [if_neg fun hmem => (hgone.mp hmem).2 hfound, if_pos hfound]
  · rw [if_neg hfound]
    by_cases hmem : key ∈ w.scopes
    · rw [if_pos (hgone.mpr ⟨hmem, hfound⟩)]
    · rw [if_neg fun hboth => hmem (hgone.mp hboth).1, Std.ExtTreeMap.getElem?_eq_none hmem]

/-- What a scope owns is what lies in its root and in no deeper one. -/
structure Divided (w : Workspace κ ρ) : Prop where
  rooted : w.Rooted
  excluded : ∀ (key : List Component) (s : Scope), w.scopes[key]? = some s → ∀ other,
    other ∈ s.territory.excluded.map Path.components ↔
      other ∈ w.scopes ∧ key <+: other ∧ other ≠ key

/-- A discovery registers just the projects it finds, each with the others inside it. -/
theorem Rooted.findProjects (h : w.Rooted) (hlinks : w.disk.LinkFree) {trustStored : Bool}
    (hfound : ∀ p ∈ w.foundProjects trustStored, p.IsNormal) :
    (w.findProjects trustStored).1.Divided ∧ ∀ key, key ∈ (w.findProjects trustStored).1.scopes ↔
      key ∈ (w.foundProjects trustStored).map Path.components := by
  rw [Workspace.findProjects]
  generalize w.foundProjects trustStored = found at *
  have hadded := h.addScopes hlinks hfound
  have hothers (key : List Component) := getElem?_evictOthers hadded hlinks found key
  have hfinal (key : List Component) :
      (((w.addScopes found).evictOthers found).divide found).scopes[key]? =
        ((w.addScopes found).evictOthers found).scopes[key]?.map fun s =>
          s.setExcluded (nestedIn found s.root) := Std.ExtTreeMap.getElem?_map
  generalize (w.addScopes found).evictOthers found = w' at *
  have hregistered (key : List Component) :
      key ∈ (w'.divide found).scopes ↔ key ∈ found.map Path.components := by
    rw [Std.ExtTreeMap.mem_iff_isSome_getElem?, hfinal, Option.isSome_map, hothers]
    split
    case isFalse hout => simp [hout]
    case isTrue hin =>
      refine iff_of_true ?_ hin
      obtain ⟨project, hproject, rfl⟩ := List.mem_map.mp hin
      rw [getElem?_addScopes, Option.isSome_or, Option.isSome_map, List.isSome_find?]
      simp only [Bool.or_eq_true, List.any_eq_true, decide_eq_true_eq]
      exact .inr ⟨project, hproject, rfl⟩
  refine ⟨⟨fun key s hs => ?_, fun key s hs other => ?_⟩, hregistered⟩
  all_goals
    rw [hfinal] at hs
    obtain ⟨s, hold, rfl⟩ := Option.map_eq_some_iff.mp hs
    rw [hothers] at hold
    split at hold <;> try contradiction
    obtain ⟨hnormal, rfl⟩ := hadded key s hold
  · have hroot : (s.setExcluded (nestedIn found s.root)).root = s.root := by
      rw [Scope.root, Scope.territory_setExcluded]
      rfl
    rw [hroot]
    exact ⟨hnormal, rfl⟩
  · rw [hregistered, Scope.territory_setExcluded]
    simp only [List.mem_map, Path.mem_sort, nestedIn, List.mem_filter, Bool.and_eq_true,
      Bool.not_eq_true', Path.same, beq_eq_false_iff_ne, Path.isWithin_iff]
    constructor
    · rintro ⟨nested, ⟨hmem, hne, hwithin⟩, rfl⟩
      exact ⟨⟨nested, hmem, rfl⟩, hwithin, hne⟩
    · rintro ⟨⟨nested, hmem, rfl⟩, hwithin, hne⟩
      exact ⟨nested, ⟨hmem, hne, hwithin⟩, rfl⟩

/-! ### Owners -/

section Owners

variable {p : Path} {key : List Component} {s : Scope}

/-- A scope owns a path if no other root on the way to it lies below its own. -/
theorem Divided.owns_iff (h : w.Divided) (hs : w.scopes[key]? = some s) :
    s.territory.owns p ↔ key <+: p.components ∧
      ∀ other ∈ w.scopes, other <+: p.components → other.length ≤ key.length := by
  have hroot := (h.rooted key s hs).2
  rw [Territory.owns, Bool.and_eq_true, Path.isWithin_iff, Bool.not_eq_true', Territory.isNested,
    List.any_eq_false]
  change s.root.components <+: _ ∧ _ ↔ _
  rw [hroot]
  refine and_congr_right fun hwithin => ⟨fun hnone other hother hp => ?_, fun hall nested hnested => ?_⟩
  · refine Nat.le_of_not_lt fun hlength => ?_
    have hbelow := List.prefix_of_prefix_length_le hwithin hp (Nat.le_of_lt hlength)
    have hdiffers : other ≠ key := fun heq => absurd (heq ▸ hlength) (Nat.lt_irrefl _)
    obtain ⟨nested, hnested, rfl⟩ :=
      List.mem_map.mp (((h.excluded key s hs) other).mpr ⟨hother, hbelow, hdiffers⟩)
    exact hnone nested hnested (Path.isWithin_iff.mpr hp)
  · intro hp
    obtain ⟨hother, hbelow, hdiffers⟩ :=
      ((h.excluded key s hs) nested.components).mp (List.mem_map_of_mem hnested)
    have hlength := hall _ hother (Path.isWithin_iff.mp hp)
    exact hdiffers (hbelow.eq_of_length_le hlength).symm

/-- No path has two owners. -/
theorem Divided.owner_unique (h : w.Divided) {key' : List Component} {s' : Scope}
    (hs : w.scopes[key]? = some s) (hs' : w.scopes[key']? = some s') (howns : s.territory.owns p)
    (howns' : s'.territory.owns p) : key = key' := by
  obtain ⟨hwithin, hdeepest⟩ := (h.owns_iff hs).mp howns
  obtain ⟨hwithin', hdeepest'⟩ := (h.owns_iff hs').mp howns'
  have hmem : key ∈ w.scopes := Std.ExtTreeMap.mem_iff_isSome_getElem?.mpr (by simp [hs])
  have hmem' : key' ∈ w.scopes := Std.ExtTreeMap.mem_iff_isSome_getElem?.mpr (by simp [hs'])
  have hlength : key.length = key'.length :=
    Nat.le_antisymm (hdeepest' key hmem hwithin) (hdeepest key' hmem' hwithin')
  exact (List.prefix_of_prefix_length_le hwithin hwithin' (Nat.le_of_eq hlength)).eq_of_length hlength

theorem foldl_deeper_le (first : List Component × Scope) (rest : List (List Component × Scope)) :
    ∀ entry ∈ first :: rest,
      entry.2.root.components.length ≤ (rest.foldl deeper first).2.root.components.length := by
  induction rest generalizing first with
  | nil => simp
  | cons second rest ih =>
      intro entry hentry
      rw [List.foldl_cons]
      have hdeeper : first.2.root.components.length ≤ (deeper first second).2.root.components.length ∧
          second.2.root.components.length ≤ (deeper first second).2.root.components.length := by
        rw [deeper]
        split <;> omega
      have hfold := ih (deeper first second) _ List.mem_cons_self
      rcases List.mem_cons.mp hentry with rfl | hrest
      · exact Nat.le_trans hdeeper.1 hfold
      · rcases List.mem_cons.mp hrest with rfl | hlater
        · exact Nat.le_trans hdeeper.2 hfold
        · exact ih _ entry (List.mem_cons_of_mem _ hlater)

/-- The scope with the deepest root above a path, as the owner of its normal form is found. -/
def deepestAbove (w : Workspace κ ρ) (p : Path) : Option (List Component × Scope) :=
  match w.scopes.toList.filter fun (_, scope) => scope.root.isWithin p with
  | [] => none
  | first :: rest => some (rest.foldl deeper first)

theorem owner?_eq (w : Workspace κ ρ) (p : Path) :
    w.owner? p = w.deepestAbove (w.disk.normalize p) := rfl

/-- The scope with the deepest root above a path owns it, and there is one if a root is above it. -/
theorem Divided.deepestAbove_spec (h : w.Divided) (p : Path) :
    (w.deepestAbove p = none ↔ ∀ key ∈ w.scopes, ¬ key <+: p.components) ∧
      ∀ entry, w.deepestAbove p = some entry →
        w.scopes[entry.1]? = some entry.2 ∧ entry.2.territory.owns p := by
  have hmem (entry : List Component × Scope) :
      entry ∈ (w.scopes.toList.filter fun (_, scope) => scope.root.isWithin p) ↔
        w.scopes[entry.1]? = some entry.2 ∧ entry.1 <+: p.components := by
    obtain ⟨key, s⟩ := entry
    rw [List.mem_filter, Std.ExtTreeMap.mem_toList_iff_getElem?_eq_some, Path.isWithin_iff]
    refine and_congr_right fun hs => ?_
    rw [(h.rooted key s hs).2]
  rw [deepestAbove]
  split
  case h_1 hnone =>
    refine ⟨iff_of_true rfl fun key hkey hwithin => ?_, by simp⟩
    obtain ⟨s, hs⟩ := Option.isSome_iff_exists.mp (Std.ExtTreeMap.mem_iff_isSome_getElem?.mp hkey)
    have hin := (hmem (key, s)).mpr ⟨hs, hwithin⟩
    rw [hnone] at hin
    contradiction
  case h_2 first rest hcandidates =>
    have hbest := foldl_deeper_mem first rest
    have hdeepest := foldl_deeper_le first rest
    rw [← hcandidates] at hbest hdeepest
    generalize rest.foldl deeper first = best at *
    obtain ⟨hs, hwithin⟩ := (hmem best).mp hbest
    refine ⟨iff_of_false (Option.some_ne_none _) fun hnone => hnone _ ?_ hwithin, ?_⟩
    · exact Std.ExtTreeMap.mem_iff_isSome_getElem?.mpr (Option.isSome_of_eq_some hs)
    · rintro entry hentry
      cases hentry
      refine ⟨hs, (h.owns_iff hs).mpr ⟨hwithin, fun other hother hp => ?_⟩⟩
      obtain ⟨s', hs'⟩ :=
        Option.isSome_iff_exists.mp (Std.ExtTreeMap.mem_iff_isSome_getElem?.mp hother)
      have hle := hdeepest (other, s') ((hmem _).mpr ⟨hs', hp⟩)
      rwa [(h.rooted _ _ hs').2, (h.rooted _ _ hs).2] at hle

theorem Divided.deepestAbove_eq_some_iff (h : w.Divided) :
    w.deepestAbove p = some (key, s) ↔ w.scopes[key]? = some s ∧ s.territory.owns p := by
  obtain ⟨hnone, hsome⟩ := h.deepestAbove_spec p
  refine ⟨hsome (key, s), fun ⟨hs, howns⟩ => ?_⟩
  have hwithin := ((h.owns_iff hs).mp howns).1
  have hmem : key ∈ w.scopes :=
    Std.ExtTreeMap.mem_iff_isSome_getElem?.mpr (Option.isSome_of_eq_some hs)
  cases hfound : w.deepestAbove p with
  | none => exact absurd hwithin (hnone.mp hfound key hmem)
  | some entry =>
      obtain ⟨hs', howns'⟩ := hsome entry hfound
      obtain ⟨key', s'⟩ := entry
      obtain rfl := h.owner_unique hs hs' howns howns'
      cases hs.symm.trans hs'
      rfl

/-- Whether a scope owns a path is a matter of the path's components. -/
theorem owns_congr {q : Path} (heq : p.components = q.components) :
    s.territory.owns p = s.territory.owns q := by
  simp only [Territory.owns, Territory.isNested, Path.isWithin, heq]

end Owners

/-! ### The partition -/

/-- The scopes are those of the given roots, and they divide all paths among them. -/
structure Partitioned (w : Workspace κ ρ) (roots : List Path) : Prop where
  registered : ∀ key, key ∈ w.scopes ↔ key ∈ roots.map Path.components
  root_eq : ∀ (key : List Component) (s : Scope), w.scopes[key]? = some s → s.root.components = key
  excluded : ∀ (key : List Component) (s : Scope), w.scopes[key]? = some s → ∀ other,
    other ∈ s.territory.excluded.map Path.components ↔
      other ∈ w.scopes ∧ key <+: other ∧ other ≠ key
  owner_iff : ∀ p, w.keyOf p = p.components → ∀ (key : List Component) (s : Scope),
    w.owner? p = some (key, s) ↔ w.scopes[key]? = some s ∧ s.territory.owns p
  exists_owner : ∀ p, (∃ root ∈ roots, root.isWithin p) →
    ∃ (key : List Component) (s : Scope), w.scopes[key]? = some s ∧ s.territory.owns p
  owner_unique : ∀ p (key key' : List Component) (s s' : Scope), w.scopes[key]? = some s →
    w.scopes[key']? = some s' → s.territory.owns p → s'.territory.owns p → key = key'
  consumer_unique : ∀ (t : Tracker) (file : FileId) (key key' : List Component) (s s' : Scope),
    w.scopes[key]? = some s → w.scopes[key']? = some s' → file ∈ s.marked t →
      file ∈ s'.marked t → key = key'

theorem Divided.partitioned (h : w.Divided) {roots : List Path}
    (hregistered : ∀ key, key ∈ w.scopes ↔ key ∈ roots.map Path.components) :
    w.Partitioned roots where
  registered := hregistered
  root_eq key s hs := (h.rooted key s hs).2
  excluded := h.excluded
  owner_iff p hp key s := by
    rw [owner?_eq, h.deepestAbove_eq_some_iff, owns_congr hp]
  exists_owner := by
    rintro p ⟨root, hroot, hwithin⟩
    have hmem := (hregistered _).mpr (List.mem_map_of_mem hroot)
    obtain ⟨entry, hentry⟩ := Option.ne_none_iff_exists'.mp fun hnone =>
      ((h.deepestAbove_spec p).1.mp hnone) _ hmem (Path.isWithin_iff.mp hwithin)
    exact ⟨entry.1, entry.2, (h.deepestAbove_spec p).2 entry hentry⟩
  owner_unique p key key' s s' := h.owner_unique
  consumer_unique t file key key' s s' hs hs' hmarked hmarked' := by
    obtain ⟨p, hp, howns⟩ := (Option.any_eq_true _ _).mp (List.mem_filter.mp hmarked).2
    obtain ⟨p', hp', howns'⟩ := (Option.any_eq_true _ _).mp (List.mem_filter.mp hmarked').2
    cases hp.symm.trans hp'
    exact h.owner_unique hs hs' howns howns'

/-! ### Whole runs -/

section Runs

variable [Compiler κ] [Resolver ρ]

/-- Whether an operation finds projects anew, and if it trusts the stored ones then. -/
def Operation.discovers? : Operation κ ρ → Option Bool
  | .act .discover => some true
  | .act (.watch _) => some false
  | _ => none

/-- Wherever projects are found in a run, their roots are normal paths and nothing on the disk is a
symbolic link. -/
def FindsNormal (w : Workspace κ ρ) : List (Operation κ ρ) → Prop
  | [] => True
  | operation :: rest =>
    (∀ trustStored, operation.discovers? = some trustStored →
      w.disk.LinkFree ∧ ∀ p ∈ w.foundProjects trustStored, p.IsNormal) ∧
      FindsNormal (w.perform operation) rest

omit [Compiler κ] [Resolver ρ] in
/-- A notification changes only the tracker. -/
theorem foldl_takeChange_spec (w : Workspace κ ρ) (changes : List FileChange) :
    ∃ tracker, changes.foldl takeChange w = { w with bench := { w.bench with tracker } } := by
  induction changes generalizing w with
  | nil => exact ⟨w.bench.tracker, rfl⟩
  | cons change rest ih =>
      obtain ⟨action, htaken⟩ := w.takeChange_eq change
      rw [List.foldl_cons, htaken]
      exact ih _

omit [Compiler κ] [Resolver ρ] in
theorem Rooted.applyFileChanges (h : w.Rooted) (hlinks : w.disk.LinkFree)
    (hfound : ∀ p ∈ w.foundProjects false, p.IsNormal) (changes : List FileChange) :
    (w.applyFileChanges changes).1.Rooted := by
  obtain ⟨tracker, htaken⟩ := w.foldl_takeChange_spec changes
  have hmoved : (({ w with bench := { w.bench with tracker } } :
      Workspace κ ρ).findProjects false).1.Rooted :=
    (Rooted.findProjects (w := { w with bench := { w.bench with tracker } }) h hlinks
      hfound).1.rooted
  have hstill : ({ w with bench := { w.bench with tracker } } : Workspace κ ρ).Rooted := h
  rw [Workspace.applyFileChanges, htaken]
  generalize ({ w with bench := { w.bench with tracker } } : Workspace κ ρ) = w' at *
  cases hresult : w'.findProjects false with
  | mk w'' found =>
      rw [hresult] at hmoved
      cases changes.any w.movesProjects with
      | true => exact hmoved
      | false => exact hstill

theorem Rooted.perform (h : w.Rooted) {operation : Operation κ ρ}
    (hfinds : ∀ trustStored, operation.discovers? = some trustStored →
      w.disk.LinkFree ∧ ∀ p ∈ w.foundProjects trustStored, p.IsNormal) :
    (w.perform operation).Rooted := by
  cases operation with
  | act action =>
      cases action with
      | discover =>
          obtain ⟨hlinks, hfound⟩ := hfinds true rfl
          exact (h.findProjects hlinks hfound).1.rooted
      | watch changes =>
          obtain ⟨hlinks, hfound⟩ := hfinds false rfl
          exact h.applyFileChanges hlinks hfound changes
      | ensureFresh p => exact h.of_same (.of_works (w.works_ensureFresh p))
      | ensureProjectFresh project =>
          exact h.of_same (.of_works (w.works_ensureProjectFresh project))
      | advance number => exact h.of_same (.of_works (w.works_advance number))
      | _ => exact h
  | track action => exact h
  | resolveClasspath project => exact h.of_same (.of_works (w.works_resolveClasspath project))
  | resolveAll => exact h.of_same (.of_works (w.works_resolveEach w.projects))
  | resolveAllInBackground => exact h
  | scheduleCompile project => exact h
  | releaseClasspath project => exact h.of_same (w.sameTerritories_releaseClasspath project)
  | evict project => exact h.evict project
  | withPlaceholder p position token read =>
      exact h.of_same (w.sameTerritories_withPlaceholder p position token read)

theorem Rooted.performAll (h : w.Rooted) {operations : List (Operation κ ρ)}
    (hfinds : w.FindsNormal operations) : (w.performAll operations).Rooted := by
  induction operations generalizing w with
  | nil => exact h
  | cons operation rest ih =>
      obtain ⟨hhere, hrest⟩ := hfinds
      exact ih (h.perform hhere) hrest

/-- After a discovery, whatever was asked of the workspace before and whatever was registered then,
the scopes are those of the projects found, and they divide all paths among them. -/
theorem partitioned_findProjects {disk : Disk} {env : Environment} {config : Config} {compiler : κ}
    {resolver : ρ} {root : Path} (hopened : openAt disk env config compiler resolver root = .ok w)
    (operations : List (Operation κ ρ)) (hfinds : w.FindsNormal operations) (trustStored : Bool)
    (hlinks : (w.performAll operations).disk.LinkFree)
    (hfound : ∀ p ∈ (w.performAll operations).foundProjects trustStored, p.IsNormal) :
    ((w.performAll operations).findProjects trustStored).1.Partitioned
      ((w.performAll operations).findProjects trustStored).2 := by
  have hempty : w.Rooted := by
    obtain ⟨root, cache, log, rfl⟩ := openAt_spec hopened
    intro key s hs
    simp at hs
  obtain ⟨hdivided, hregistered⟩ :=
    (hempty.performAll hfinds).findProjects hlinks hfound
  exact hdivided.partitioned hregistered

end Runs

/-! A project inside another is found, then one inside that appears and the outermost goes away. -/

def nestedStart : Except OpenError (Workspace Toy.CompilerState Toy.ResolverState) :=
  openAt (["/ws/build.gradle", "/ws/app/build.gradle"].foldl
    (fun d p => d.perform (.write ⟨p⟩ (.ofText "") 0)) { nodes := ∅, cwd := [] })
    {} {} {} { fallback := {} } ⟨"/ws"⟩

def nestedMoves : List (Operation Toy.CompilerState Toy.ResolverState) :=
  [.act .discover, .act (.outside (.write ⟨"/ws/app/core/build.gradle"⟩ (.ofText "") 0)),
    .act (.outside (.removeFile ⟨"/ws/build.gradle"⟩))]

theorem partitioned_findProjects_nested :
    ∃ w, nestedStart = .ok w ∧ w.FindsNormal nestedMoves ∧
      (w.performAll nestedMoves).disk.LinkFree ∧
      (w.performAll nestedMoves).projects = [⟨"/ws"⟩, ⟨"/ws/app"⟩] ∧
      ((w.performAll nestedMoves).findProjects true).1.Partitioned
        [⟨"/ws/app"⟩, ⟨"/ws/app/core"⟩] := by
  have hruns : (nestedStart.toOption.any fun w =>
      (w.disk.LinkFree ∧ ∀ p ∈ w.foundProjects true, p.IsNormal) ∧
        (w.performAll nestedMoves).disk.LinkFree ∧
        (w.performAll nestedMoves).projects = [⟨"/ws"⟩, ⟨"/ws/app"⟩] ∧
        (w.performAll nestedMoves).foundProjects true = [⟨"/ws/app"⟩, ⟨"/ws/app/core"⟩] ∧
        ∀ p ∈ (w.performAll nestedMoves).foundProjects true, p.IsNormal) = true := by
    decide +kernel
  obtain ⟨w, hstart, hhere, hlinks, hregistered, hroots, hfound⟩ := exists_opened hruns
  have hfinds : w.FindsNormal nestedMoves := by
    simp only [nestedMoves, FindsNormal, Operation.discovers?, reduceCtorEq, Option.some.injEq,
      false_implies, implies_true, and_true]
    rintro _ rfl
    exact hhere
  have hpartitioned := partitioned_findProjects hstart nestedMoves hfinds true hlinks hfound
  exact ⟨w, hstart, hfinds, hlinks, hregistered, hroots ▸ hpartitioned⟩

end Workspace

end Workbench
