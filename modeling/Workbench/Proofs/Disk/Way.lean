import Workbench.Proofs.Disk.Frame

/-!
Ways of look-ups. A look-up that is made in two parts enters what the parts enter, and where the
directories and links on its way are kept it enters the same places. So a path that is located on
one disk is located on another, if nothing on the way to it is changed.
-/

namespace Workbench.Disk

variable {d d' : Disk} {place middle : Place} {steps behind rest : List Step} {landing : Landing}
  {links more : Nat}

/-! ### Look-ups in two parts -/

/-- A look-up that ends, ends there also if more links may be followed. -/
theorem chase_mono (h : d.chase links place steps = .ok landing) (hle : links ≤ more) :
    d.chase more place steps = .ok landing := by
  induction links using Nat.strongRecOn generalizing more place steps with
  | ind links ih =>
      obtain ⟨end_, hadvance, rfl⟩ | ⟨free, hadvance, rfl⟩ |
        ⟨fewer, dir, target, left, rfl, hadvance, hbehind⟩ := of_chase h
      · exact chase_of_found hadvance
      · exact chase_of_vacant hadvance
      · obtain ⟨more, rfl⟩ : ∃ fewer', more = fewer' + 1 := ⟨more - 1, by omega⟩
        rw [chase_of_detour hadvance]
        exact ih fewer (Nat.lt_succ_self fewer) hbehind (Nat.le_of_succ_le_succ hle)

/-- Going some steps and then others, with the links of both. -/
theorem chase_append (h : d.chase links place steps = .ok (.found middle))
    (hbehind : d.chase more middle behind = .ok landing) (hne : behind ≠ []) :
    d.chase (links + more) place (steps ++ behind) = .ok landing := by
  induction links using Nat.strongRecOn generalizing place steps with
  | ind links ih =>
      have happend := d.advance_append place steps hne
      obtain ⟨end_, hadvance, heq⟩ | ⟨free, -, heq⟩ |
        ⟨fewer, dir, target, left, rfl, hadvance, hrest⟩ := of_chase h
      · cases heq
        rw [hadvance] at happend
        rw [chase_congr happend]
        exact chase_mono hbehind (Nat.le_add_left more links)
      · cases heq
      · rw [hadvance] at happend
        rw [Nat.add_right_comm, chase_of_detour happend, ← List.append_assoc]
        exact ih fewer (Nat.lt_succ_self fewer) hrest

/-- What is looked up by some steps and then others is looked up in two parts. -/
theorem chase_split (h : d.chase links place (steps ++ behind) = .ok landing) (hne : behind ≠ []) :
    ∃ used left middle, links = used + left ∧
      d.chase used place steps = .ok (.found middle) ∧ d.chase left middle behind = .ok landing := by
  induction links using Nat.strongRecOn generalizing place steps with
  | ind links ih =>
      have happend := d.advance_append place steps hne
      obtain ⟨progress, hadvance⟩ := exists_advance_of_chase h
      rw [happend] at hadvance
      split at hadvance
      case h_1 => contradiction
      case h_2 middle hfirst =>
        rw [hfirst] at happend
        exact ⟨0, links, middle, (Nat.zero_add links).symm, chase_of_found hfirst,
          (chase_congr happend links).symm.trans h⟩
      case h_3 => contradiction
      case h_4 dir target left hfirst =>
        rw [hfirst] at happend
        obtain ⟨_, hother, -⟩ | ⟨_, hother, -⟩ | ⟨fewer, _, _, _, rfl, hsame, hrest⟩ := of_chase h
        · cases happend.symm.trans hother
        · cases happend.symm.trans hother
        · cases happend.symm.trans hsame
          rw [← List.append_assoc] at hrest
          obtain ⟨used, left', middle, rfl, hfound, hbehind⟩ :=
            ih fewer (Nat.lt_succ_self fewer) hrest
          exact ⟨used + 1, left', middle, Nat.add_right_comm used left' 1,
            (chase_of_detour hfirst).trans hfound, hbehind⟩

/-! ### What is entered -/

@[simp] theorem entered_nil (d : Disk) (place : Place) : d.entered place [] = [] := rfl

@[simp] theorem entered_stay (d : Disk) (place : Place) (rest : List Step) :
    d.entered place (.stay :: rest) = d.entered place rest := rfl

@[simp] theorem entered_up (d : Disk) (place : Place) (rest : List Step) :
    d.entered place (.up :: rest) = d.entered place.dropLast rest := rfl

theorem entered_into_link {name target : String}
    (h : d.node? (place ++ [name]) = some (.link target)) :
    d.entered place (.into name :: rest) = [place ++ [name]] := by
  rw [entered]
  simp only [h]

theorem entered_into_free {name : String} (h : d.node? (place ++ [name]) = none) :
    d.entered place (.into name :: rest) =
      (place ++ [name]) :: d.entered (place ++ [name]) rest := by
  rw [entered]
  simp only [h]

theorem entered_into_node {name : String} {node : Node}
    (h : d.node? (place ++ [name]) = some node) (hlink : ¬ node.IsLink) :
    d.entered place (.into name :: rest) =
      (place ++ [name]) :: d.entered (place ++ [name]) rest := by
  rw [entered]
  split
  case h_1 target hnode => exact absurd ⟨target, Option.some.inj (h.symm.trans hnode)⟩ hlink
  case h_2 => rfl

/-- A name is entered whatever stands there. -/
theorem mem_entered_into (d : Disk) (place : Place) (name : String) (rest : List Step) :
    place ++ [name] ∈ d.entered place (.into name :: rest) := by
  rw [entered]
  split
  · exact List.mem_singleton_self _
  · exact List.mem_cons_self

theorem entered_append_of_found (h : d.advance place steps = .ok (.found middle)) :
    d.entered place (steps ++ behind) = d.entered place steps ++ d.entered middle behind := by
  induction steps generalizing place with
  | nil =>
      cases h
      rfl
  | cons step rest ih =>
      have hdir := node?_of_advance h
      cases step with
      | stay => exact ih (advance_stay hdir ▸ h)
      | up => exact ih (advance_up hdir ▸ h)
      | into name =>
          obtain ⟨-, -, ⟨-, -, heq⟩ | ⟨_, -, heq⟩ | ⟨node, hnode, hlink, hbehind⟩⟩ :=
            advance_into_iff.mp h
          · cases heq
          · cases heq
          · rw [List.cons_append, entered_into_node hnode hlink, entered_into_node hnode hlink,
              ih hbehind, List.cons_append]

theorem entered_append_of_detour {dir : Place} {target : String} {left : List Step}
    (h : d.advance place steps = .ok (.detour dir target left)) :
    d.entered place (steps ++ behind) = d.entered place steps := by
  induction steps generalizing place with
  | nil => cases h
  | cons step rest ih =>
      have hdir := node?_of_advance h
      cases step with
      | stay => exact ih (advance_stay hdir ▸ h)
      | up => exact ih (advance_up hdir ▸ h)
      | into name =>
          obtain ⟨-, -, ⟨-, -, heq⟩ | ⟨_, hlink, -⟩ | ⟨node, hnode, hlink, hbehind⟩⟩ :=
            advance_into_iff.mp h
          · cases heq
          · rw [List.cons_append, entered_into_link hlink, entered_into_link hlink]
          · rw [List.cons_append, entered_into_node hnode hlink, entered_into_node hnode hlink,
              ih hbehind]

/-! ### Ways -/

theorem way_congr {place' : Place} {steps' : List Step} {first : List Place}
    (hadvance : d.advance place steps = d.advance place' steps')
    (hentered : d.entered place steps = first ++ d.entered place' steps') :
    d.way links place steps = first ++ d.way links place' steps' := by
  rw [way.eq_def, way.eq_def d links place']
  dsimp only
  rw [hadvance, hentered, List.append_assoc]

theorem way_of_found (h : d.advance place steps = .ok (.found middle)) :
    d.way links place steps = d.entered place steps := by
  rw [way.eq_def]
  simp only [h, List.append_nil]

theorem way_of_vacant (h : d.advance place steps = .ok (.vacant middle)) :
    d.way links place steps = d.entered place steps := by
  rw [way.eq_def]
  simp only [h, List.append_nil]

theorem way_of_detour {dir : Place} {target : String}
    (h : d.advance place steps = .ok (.detour dir target rest)) :
    d.way (links + 1) place steps = d.entered place steps ++
      d.way links (origin dir ⟨target⟩) ((Path.mk target).steps ++ rest) := by
  rw [way.eq_def]
  simp only [h]

theorem entered_subset_way (d : Disk) (links : Nat) (place : Place) (steps : List Step) :
    d.entered place steps ⊆ d.way links place steps := by
  rw [way.eq_def]
  exact List.subset_append_left _ _

/-- More links do not change the way of a look-up that ends. -/
theorem way_mono (h : d.chase links place steps = .ok landing) (hle : links ≤ more) :
    d.way more place steps = d.way links place steps := by
  induction links using Nat.strongRecOn generalizing more place steps with
  | ind links ih =>
      obtain ⟨end_, hadvance, rfl⟩ | ⟨free, hadvance, rfl⟩ |
        ⟨fewer, dir, target, left, rfl, hadvance, hbehind⟩ := of_chase h
      · rw [way_of_found hadvance, way_of_found hadvance]
      · rw [way_of_vacant hadvance, way_of_vacant hadvance]
      · obtain ⟨more, rfl⟩ : ∃ fewer', more = fewer' + 1 := ⟨more - 1, by omega⟩
        rw [way_of_detour hadvance, way_of_detour hadvance,
          ih fewer (Nat.lt_succ_self fewer) hbehind (Nat.le_of_succ_le_succ hle)]

/-- A look-up in two parts has the ways of both. -/
theorem way_append (h : d.chase links place steps = .ok (.found middle))
    (hbehind : d.chase more middle behind = .ok landing) (hne : behind ≠ []) :
    d.way (links + more) place (steps ++ behind) =
      d.way links place steps ++ d.way more middle behind := by
  induction links using Nat.strongRecOn generalizing place steps with
  | ind links ih =>
      have happend := d.advance_append place steps hne
      obtain ⟨end_, hadvance, heq⟩ | ⟨free, -, heq⟩ |
        ⟨fewer, dir, target, left, rfl, hadvance, hrest⟩ := of_chase h
      · cases heq
        rw [hadvance] at happend
        rw [way_of_found hadvance, ← way_mono hbehind (Nat.le_add_left more links)]
        exact way_congr happend (entered_append_of_found hadvance)
      · cases heq
      · rw [hadvance] at happend
        rw [Nat.add_right_comm, way_of_detour happend, way_of_detour hadvance,
          entered_append_of_detour hadvance, ← List.append_assoc (Path.mk target).steps,
          ih fewer (Nat.lt_succ_self fewer) hrest, List.append_assoc]

/-! ### Ways that are kept -/

namespace Frame

variable (h : Frame d d')

include h

theorem entered {progress : Progress} (hadvance : d.advance place steps = .ok progress)
    (hfound : ∀ found, progress = .found found → Spares d d' (.found found))
    (hfree : ∀ free, progress = .vacant free → Spares d d' (.vacant free)) :
    d'.entered place steps = d.entered place steps := by
  induction steps generalizing place with
  | nil => rfl
  | cons step rest ih =>
      have hdir := node?_of_advance hadvance
      cases step with
      | stay => exact ih (advance_stay hdir ▸ hadvance)
      | up => exact ih (advance_up hdir ▸ hadvance)
      | into name =>
          obtain ⟨-, -, ⟨hnone, rfl, rfl⟩ | ⟨target, hlink, rfl⟩ | ⟨node, hnode, hnot, hbehind⟩⟩ :=
            advance_into_iff.mp hadvance
          · rw [entered_into_free hnone, entered_into_free (hfree _ rfl)]
            rfl
          · rw [entered_into_link hlink, entered_into_link (h.link _ _ hlink)]
          · obtain ⟨node', hnode', hnot'⟩ : ∃ node', d'.node? (place ++ [name]) = some node' ∧
                ¬ node'.IsLink := by
              cases node with
              | link target => exact absurd ⟨target, rfl⟩ hnot
              | dir => exact ⟨.dir, h.dir _ hnode, hnot⟩
              | file content modified =>
                  cases rest with
                  | cons step rest => cases hnode.symm.trans (node?_of_advance hbehind)
                  | nil =>
                      cases hbehind
                      exact hfound _ rfl content modified hnode
            rw [entered_into_node hnode hnot, entered_into_node hnode' hnot', ih hbehind]

theorem way (hchase : d.chase links place steps = .ok landing) (hspares : Spares d d' landing) :
    d'.way links place steps = d.way links place steps := by
  induction links using Nat.strongRecOn generalizing place steps with
  | ind links ih =>
      obtain ⟨found, hadvance, rfl⟩ | ⟨free, hadvance, rfl⟩ |
        ⟨fewer, dir, target, rest, rfl, hadvance, hbehind⟩ := of_chase hchase
      · have hfound : ∀ other, Progress.found found = .found other → Spares d d' (.found other) := by
          rintro _ ⟨⟩
          exact hspares
        rw [way_of_found hadvance, way_of_found (h.advance hadvance hfound nofun),
          h.entered hadvance hfound nofun]
      · have hfree : ∀ other, Progress.vacant free = .vacant other → Spares d d' (.vacant other) := by
          rintro _ ⟨⟩
          exact hspares
        rw [way_of_vacant hadvance, way_of_vacant (h.advance hadvance nofun hfree),
          h.entered hadvance nofun hfree]
      · rw [way_of_detour hadvance, way_of_detour (h.advance hadvance nofun nofun),
          h.entered hadvance nofun nofun, ih fewer (Nat.lt_succ_self fewer) hbehind]

/-- Where a path is located on a disk, it is located on another that spares the place. -/
theorem locate {p : Path} (hlocate : d.locate p = .ok place)
    (hspares : Spares d d' (.found place)) : d'.locate p = .ok place := by
  obtain ⟨hstart, hflaw, hchase, hfits⟩ := locate_iff.mp hlocate
  rw [locate_iff, h.removed_eq, h.cwd_eq, h.way hchase hspares]
  exact ⟨hstart, hflaw, h.chase hchase hspares, hfits⟩

end Frame

end Workbench.Disk
