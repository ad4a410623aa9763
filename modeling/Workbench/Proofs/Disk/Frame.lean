import Workbench.Proofs.Disk.Entry
import Workbench.Proofs.Path

/-!
What keeps look-ups as they are. A look-up depends on the directories and the links on its way and
on what stands at its end. So it is the same on two disks with the same directories and links, if
its end is spared.
-/

namespace Workbench.Disk

/-- The directories and links of a disk are those of another too, and the working directory is the
same. -/
structure Frame (d d' : Disk) : Prop where
  cwd_eq : d'.cwd = d.cwd
  removed_eq : d'.removed = d.removed
  dir : ∀ place, d.node? place = some .dir → d'.node? place = some .dir
  link : ∀ place target, d.node? place = some (.link target) → d'.node? place = some (.link target)

/-- Where a look-up ends on a disk, it ends on another too: a file is not replaced by a link or
removed, and what is free stays free. -/
def Spares (d d' : Disk) : Landing → Prop
  | .found place => ∀ content modified, d.node? place = some (.file content modified) →
      ∃ node, d'.node? place = some node ∧ ¬ node.IsLink
  | .vacant place => d'.node? place = none
  | .removed => True

variable {d d' d'' : Disk} {p : Path} {place : Place} {steps : List Step} {landing : Landing}

namespace Frame

theorem refl (d : Disk) : Frame d d := ⟨rfl, rfl, fun _ => id, fun _ _ => id⟩

theorem trans (h : Frame d d') (h' : Frame d' d'') : Frame d d'' :=
  ⟨h'.cwd_eq.trans h.cwd_eq, h'.removed_eq.trans h.removed_eq,
    fun place hdir => h'.dir place (h.dir place hdir),
    fun place target hlink => h'.link place target (h.link place target hlink)⟩

variable (h : Frame d d')

include h

theorem advance {progress : Progress} (hadvance : d.advance place steps = .ok progress)
    (hfound : ∀ found, progress = .found found → Spares d d' (.found found))
    (hfree : ∀ free, progress = .vacant free → Spares d d' (.vacant free)) :
    d'.advance place steps = .ok progress := by
  induction steps generalizing place with
  | nil => exact hadvance
  | cons step rest ih =>
      have hdir := node?_of_advance hadvance
      cases step with
      | stay =>
          rw [advance_stay hdir] at hadvance
          rw [advance_stay (h.dir _ hdir)]
          exact ih hadvance
      | up =>
          rw [advance_up hdir] at hadvance
          rw [advance_up (h.dir _ hdir)]
          exact ih hadvance
      | into name =>
          obtain ⟨-, hlength, hcases⟩ := advance_into_iff.mp hadvance
          refine advance_into_iff.mpr ⟨h.dir _ hdir, hlength, ?_⟩
          rcases hcases with ⟨-, rfl, rfl⟩ | ⟨target, hlink, rfl⟩ | ⟨node, hnode, hnot, hbehind⟩
          · exact .inl ⟨hfree _ rfl, rfl, rfl⟩
          · exact .inr (.inl ⟨target, h.link _ _ hlink, rfl⟩)
          · refine .inr (.inr ?_)
            cases node with
            | link target => exact absurd ⟨target, rfl⟩ hnot
            | dir => exact ⟨.dir, h.dir _ hnode, hnot, ih hbehind⟩
            | file content modified =>
                cases rest with
                | cons step rest => cases hnode.symm.trans (node?_of_advance hbehind)
                | nil =>
                    cases hbehind
                    obtain ⟨node, hnode', hnot'⟩ := hfound _ rfl content modified hnode
                    exact ⟨node, hnode', hnot', rfl⟩

theorem chase {links : Nat} (hchase : d.chase links place steps = .ok landing)
    (hspares : Spares d d' landing) : d'.chase links place steps = .ok landing := by
  induction links using Nat.strongRecOn generalizing place steps with
  | ind links ih =>
      obtain ⟨found, hadvance, rfl⟩ | ⟨free, hadvance, rfl⟩ |
        ⟨fewer, dir, target, rest, rfl, hadvance, hbehind⟩ := of_chase hchase
      · refine chase_of_found (h.advance hadvance ?_ (by simp))
        rintro _ ⟨⟩
        exact hspares
      · refine chase_of_vacant (h.advance hadvance (by simp) ?_)
        rintro _ ⟨⟩
        exact hspares
      · rw [chase_of_detour (h.advance hadvance (by simp) (by simp))]
        exact ih fewer (Nat.lt_succ_self fewer) hbehind

theorem follow (hfollow : d.follow p steps = .ok landing) (hspares : Spares d d' landing) :
    d'.follow p steps = .ok landing := by
  rw [Disk.follow] at hfollow ⊢
  cases hrefused : p.refusal? with
  | some e => simp [hrefused] at hfollow
  | none =>
      simp only [hrefused, h.removed_eq, h.cwd_eq] at hfollow ⊢
      split at hfollow
      · rename_i habsolute
        rw [if_pos habsolute]
        exact h.chase hfollow hspares
      · rename_i habsolute
        rw [if_neg habsolute]
        split at hfollow
        case h_1 => contradiction
        case h_2 => exact hfollow
        case h_3 => exact h.chase hfollow hspares

theorem look (hlook : d.look p = .ok landing) (hspares : Spares d d' landing) :
    d'.look p = .ok landing := h.follow hlook hspares

theorem chase_dir {links : Nat} {found : Place}
    (hchase : d.chase links place steps = .ok (.found found))
    (hdir : d.node? found = some .dir) : d'.chase links place steps = .ok (.found found) := by
  refine h.chase hchase fun _ _ hfile => ?_
  cases hdir.symm.trans hfile

/-- A directory is found wherever it was found. -/
theorem look_dir (hlook : d.look p = .ok (.found place)) (hdir : d.node? place = some .dir) :
    d'.look p = .ok (.found place) :=
  h.look hlook fun _ _ hfile => by cases hdir.symm.trans hfile

theorem entry {dir : Place} {name : String} (hentry : d.entry p = .ok (dir, name)) :
    d'.entry p = .ok (dir, name) := by
  obtain ⟨init, hsteps, hlength, hfound⟩ := entry_eq_ok.mp hentry
  refine entry_eq_ok.mpr ⟨init, hsteps, hlength, h.follow hfound fun _ _ hfile => ?_⟩
  cases (look_of_entry hentry).1.symm.trans hfile

end Frame

/-! ### Normal forms -/

theorem normalize_of_locate (h : d.locate p.normal = .ok place) :
    d.normalize p = Path.absolute place := by
  have hanchor : d.anchor? p.normalComponents.reverse [] = some (Path.absolute (place ++ [])) :=
    anchor?_of_ok (by rwa [List.reverse_reverse])
  rw [normalize, hanchor, Option.getD_some, List.append_nil]

/-- Below a removed working directory nothing has a place. -/
theorem anchor?_eq_none (hremoved : d.removed ≠ 0) {reversed : List Component}
    (hinner : ∀ c ∈ reversed, Path.IsInner c) (names : List String) :
    d.anchor? reversed names = none := by
  induction reversed generalizing names with
  | nil =>
      have hlocate : d.locate (Path.ofComponents [].reverse) = .error .notFound :=
        if_pos ⟨hremoved, by decide⟩
      rw [anchor?.eq_def]
      simp only [hlocate]
  | cons c up ih =>
      have hup : ∀ c ∈ up, Path.IsInner c := fun c hc => hinner c (List.mem_cons_of_mem _ hc)
      have hreversed : ∀ inner ∈ (c :: up).reverse, Path.IsInner inner := by
        simpa only [List.mem_reverse] using hinner
      have hlocate : d.locate (Path.ofComponents (c :: up).reverse) = .error .notFound := by
        refine if_pos ⟨hremoved, ?_⟩
        rw [Path.ofComponents_inner hreversed, Path.isAbsolute_inner hreversed]
        rfl
      rw [anchor?.eq_def]
      simp only [hlocate]
      cases c with
      | name text => exact ih hup _
      | _ => rfl

theorem normalize_of_removed (hremoved : d.removed ≠ 0) (hp : p.isAbsolute = false) :
    d.normalize p = p.normal := by
  have hinner : ∀ c ∈ p.normalComponents.reverse, Path.IsInner c := by
    simpa only [List.mem_reverse] using Path.isInner_normalComponents hp
  have hnone := anchor?_eq_none hremoved hinner []
  rw [normalize, hnone, Option.getD_none]

theorem stat_of_isDir (h : d.isDir p) : d.stat p = .ok .dir := by
  rw [isDir] at h
  split at h
  · assumption
  · contradiction

theorem isDir_iff : d.isDir p ↔ d.look p = .ok .removed ∨
    ∃ place, d.look p = .ok (.found place) ∧ d.node? place = some .dir := by
  constructor
  · intro h
    have hstat := stat_of_isDir h
    rw [stat] at hstat
    split at hstat
    case h_1 => contradiction
    case h_2 hlook => exact .inl hlook
    case h_3 => contradiction
    case h_4 place hlook =>
      split at hstat
      case h_1 node hnode =>
        cases hstat
        exact .inr ⟨place, hlook, hnode⟩
      case h_2 => contradiction
  · rintro (hlook | ⟨place, hlook, hdir⟩)
    · simp only [isDir, stat, hlook]
    · simp only [isDir, stat, hlook, hdir]

theorem file?_eq_some {content : Content} {modified : Int} :
    d.file? p = some (content, modified) ↔
      ∃ place, d.look p = .ok (.found place) ∧ d.node? place = some (.file content modified) := by
  rw [file?, stat]
  constructor
  · intro h
    split at h
    case h_1 heq =>
      split at heq
      case h_1 => cases heq
      case h_2 => cases heq
      case h_3 => cases heq
      case h_4 place hlook =>
        split at heq
        case h_1 node hnode =>
          cases heq
          cases h
          exact ⟨place, hlook, hnode⟩
        case h_2 => cases heq
    case h_2 => cases h
  · rintro ⟨place, hlook, hnode⟩
    simp only [hlook, hnode]

namespace Frame

variable (h : Frame d d')

include h

theorem isDir (hdir : d.isDir p) : d'.isDir p := by
  rcases isDir_iff.mp hdir with hlook | ⟨place, hlook, hnode⟩
  · exact isDir_iff.mpr (.inl (h.look hlook trivial))
  · exact isDir_iff.mpr (.inr ⟨place, h.look_dir hlook hnode, h.dir _ hnode⟩)

end Frame

end Workbench.Disk
