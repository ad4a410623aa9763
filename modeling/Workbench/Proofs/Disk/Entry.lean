import Workbench.Classpath.Discovery
import Workbench.Disk.Change
import Workbench.Proofs.Disk.Lookup

/-!
The entry that a path names: a name in a directory that the way before it leads to. What a path
names is what stands at its entry, unless that is a link.
-/

namespace Workbench.Disk

variable {d : Disk} {p q : Path} {dir : Place} {name : String} {init : List Step}

/-- A way is followed alike for two paths that begin at the same place and are not refused. -/
theorem follow_congr (hrefused : p.refusal? = q.refusal?) (habsolute : p.isAbsolute = q.isAbsolute)
    (steps : List Step) : d.follow p steps = d.follow q steps := by
  rw [follow, follow, hrefused, habsolute]

theorem leave_into_ne {removed : Nat} : leave removed (init ++ [.into name]) ≠ .ok none := by
  induction init generalizing removed with
  | nil => cases removed <;> simp [leave]
  | cons first init ih =>
      cases removed with
      | zero => simp [leave]
      | succ removed =>
          cases first with
          | stay => exact ih
          | up => exact ih
          | into other => simp [leave]

theorem chase_ne_removed {links : Nat} {place : Place} {steps : List Step} :
    d.chase links place steps ≠ .ok .removed := by
  intro h
  induction links using Nat.strongRecOn generalizing place steps with
  | ind links ih =>
      obtain ⟨_, -, heq⟩ | ⟨_, -, heq⟩ | ⟨fewer, _, _, _, rfl, -, hbehind⟩ := of_chase h
      · cases heq
      · cases heq
      · exact ih fewer (Nat.lt_succ_self fewer) hbehind

/-- Only a relative path leads into a removed directory, if the working directory was removed. -/
theorem of_follow_removed {steps : List Step} (h : d.follow p steps = .ok .removed) :
    d.removed ≠ 0 ∧ p.isAbsolute = false ∧ leave d.removed steps = .ok none := by
  rw [follow] at h
  split at h
  · contradiction
  · split at h
    · exact absurd h chase_ne_removed
    · rename_i hrelative
      split at h
      case h_1 => contradiction
      case h_2 hleave =>
        refine ⟨fun hzero => ?_, Bool.eq_false_iff.mpr hrelative, hleave⟩
        rw [hzero, leave] at hleave
        cases hleave
      case h_3 => exact absurd h chase_ne_removed

/-- One does not end in a removed directory by going into a name. -/
theorem ne_removed_of_follow {landing : Landing}
    (h : d.follow p (init ++ [.into name]) = .ok landing) : landing ≠ .removed := by
  rintro rfl
  exact leave_into_ne (of_follow_removed h).2.2

/-! ### Steps that stay

Where a look-up ends in a directory, steps that stay may be put in and left out. -/

/-- The steps that go somewhere. -/
def moves (steps : List Step) : List Step := steps.filter (· ≠ .stay)

theorem moves_append (steps others : List Step) :
    moves (steps ++ others) = moves steps ++ moves others := List.filter_append ..

@[simp] theorem moves_moves (steps : List Step) : moves (moves steps) = moves steps := by
  simp [moves]

@[simp] theorem moves_stay (rest : List Step) : moves (.stay :: rest) = moves rest := rfl

@[simp] theorem moves_up (rest : List Step) : moves (.up :: rest) = .up :: moves rest := rfl

@[simp] theorem moves_into (name : String) (rest : List Step) :
    moves (.into name :: rest) = .into name :: moves rest := rfl

theorem advance_moves_found {place found : Place} (hdir : d.node? found = some .dir)
    (steps : List Step) :
    d.advance place steps = .ok (.found found) ↔ d.advance place (moves steps) = .ok (.found found) := by
  induction steps generalizing place with
  | nil => rfl
  | cons step rest ih =>
      cases step with
      | stay =>
          rw [moves_stay, ← ih]
          by_cases hne : rest = []
          · subst hne
            constructor
            · intro h
              rwa [advance_stay (node?_of_advance h)] at h
            · intro h
              cases h
              rw [advance_stay hdir, advance_nil]
          · rw [advance_stay_of_ne_nil d place hne]
      | up =>
          rw [moves_up]
          constructor
          · intro h
            have hplace := node?_of_advance h
            rw [advance_up hplace] at h ⊢
            exact ih.mp h
          · intro h
            have hplace := node?_of_advance h
            rw [advance_up hplace] at h ⊢
            exact ih.mpr h
      | into name =>
          rw [moves_into, advance_into_iff, advance_into_iff]
          refine and_congr_right fun _ => and_congr_right fun _ => ?_
          simp only [reduceCtorEq, and_false, exists_false, false_or, ih]

theorem advance_moves_detour {place dir : Place} {target : String} (steps : List Step) :
    (∀ left, d.advance place steps = .ok (.detour dir target left) →
      d.advance place (moves steps) = .ok (.detour dir target (moves left))) ∧
    ∀ left, d.advance place (moves steps) = .ok (.detour dir target left) →
      ∃ left', d.advance place steps = .ok (.detour dir target left') ∧ moves left' = left := by
  induction steps generalizing place with
  | nil => refine ⟨fun _ h => ?_, fun _ h => ?_⟩ <;> cases h
  | cons step rest ih =>
      cases step with
      | stay =>
          by_cases hne : rest = []
          · subst hne
            refine ⟨fun left h => ?_, fun left h => ?_⟩
            · rw [advance_stay (node?_of_advance h)] at h
              cases h
            · cases h
          · rw [advance_stay_of_ne_nil d place hne, moves_stay]
            exact ih
      | up =>
          rw [moves_up]
          refine ⟨fun left h => ?_, fun left h => ?_⟩
          · have hplace := node?_of_advance h
            rw [advance_up hplace] at h ⊢
            exact ih.1 left h
          · have hplace := node?_of_advance h
            rw [advance_up hplace] at h ⊢
            exact ih.2 left h
      | into name =>
          simp only [moves_into, advance_into_iff]
          constructor
          · rintro left ⟨hplace, hlength, ⟨-, -, heq⟩ | ⟨_, hlink, heq⟩ | ⟨node, hnode, hnot, h⟩⟩
            · cases heq
            · cases heq
              exact ⟨hplace, hlength, .inr (.inl ⟨target, hlink, rfl⟩)⟩
            · exact ⟨hplace, hlength, .inr (.inr ⟨node, hnode, hnot, ih.1 left h⟩)⟩
          · rintro left ⟨hplace, hlength, ⟨-, -, heq⟩ | ⟨_, hlink, heq⟩ | ⟨node, hnode, hnot, h⟩⟩
            · cases heq
            · cases heq
              exact ⟨rest, ⟨hplace, hlength, .inr (.inl ⟨target, hlink, rfl⟩)⟩, rfl⟩
            · obtain ⟨left', h', hleft⟩ := ih.2 left h
              exact ⟨left', ⟨hplace, hlength, .inr (.inr ⟨node, hnode, hnot, h'⟩)⟩, hleft⟩

theorem chase_moves {place found : Place} (hdir : d.node? found = some .dir) (links : Nat)
    (steps : List Step) : d.chase links place steps = .ok (.found found) ↔
      d.chase links place (moves steps) = .ok (.found found) := by
  induction links using Nat.strongRecOn generalizing place steps with
  | ind links ih =>
      have hway {fewer : Nat} (hfewer : fewer < links) {place : Place} {steps others : List Step}
          (hsame : moves steps = moves others) :
          d.chase fewer place steps = .ok (.found found) →
            d.chase fewer place others = .ok (.found found) := fun h =>
        (ih fewer hfewer others).mpr (hsame ▸ (ih fewer hfewer steps).mp h)
      constructor
      · intro h
        obtain ⟨_, hadvance, heq⟩ | ⟨_, -, heq⟩ | ⟨fewer, dir, target, left, rfl, hadvance, hbehind⟩ :=
          of_chase h
        · cases heq
          exact chase_of_found ((advance_moves_found hdir steps).mp hadvance)
        · cases heq
        · rw [chase_of_detour ((advance_moves_detour steps).1 left hadvance)]
          exact hway (Nat.lt_succ_self fewer) (by simp [moves_append]) hbehind
      · intro h
        obtain ⟨_, hadvance, heq⟩ | ⟨_, -, heq⟩ | ⟨fewer, dir, target, left, rfl, hadvance, hbehind⟩ :=
          of_chase h
        · cases heq
          exact chase_of_found ((advance_moves_found hdir steps).mpr hadvance)
        · cases heq
        · obtain ⟨left', hadvance', rfl⟩ := (advance_moves_detour steps).2 left hadvance
          rw [chase_of_detour hadvance']
          exact hway (Nat.lt_succ_self fewer) (by simp [moves_append]) hbehind

@[simp] theorem leave_zero (steps : List Step) : leave 0 steps = .ok (some steps) := by
  rw [leave]

theorem refusal?_of_follow {steps : List Step} {landing : Landing}
    (h : d.follow p steps = .ok landing) : p.refusal? = none := by
  rw [follow] at h
  cases hp : p.refusal? with
  | none => rfl
  | some e =>
      rw [hp] at h
      contradiction

/-- A path is looked up from the root, or from the working directory if that is there. -/
theorem look_eq (hrefused : p.refusal? = none) (hstart : p.isAbsolute = true ∨ d.removed = 0) :
    d.look p = d.chase maxLinks (origin d.cwd p) p.steps := by
  rw [look, follow, hrefused, origin]
  cases habsolute : p.isAbsolute with
  | true => rfl
  | false =>
      rw [hstart.resolve_left (by simp [habsolute]), leave_zero]
      rfl

theorem resolve_iff {place : Place} (hstart : p.isAbsolute = true ∨ d.removed = 0) :
    d.resolve p = .ok place ↔ p.refusal? = none ∧
      d.chase maxLinks (origin d.cwd p) p.steps = .ok (.found place) := by
  rw [resolve_eq_ok]
  constructor
  · intro h
    have hrefused := refusal?_of_follow h
    exact ⟨hrefused, look_eq hrefused hstart ▸ h⟩
  · rintro ⟨hrefused, h⟩
    rw [look_eq hrefused hstart, h]

theorem locate_iff {place : Place} : d.locate p = .ok place ↔
    (p.isAbsolute = true ∨ d.removed = 0) ∧ p.flaw? = none ∧
      d.chase maxLinks (origin d.cwd p) p.steps = .ok (.found place) ∧
        ∀ entered ∈ d.way maxLinks (origin d.cwd p) p.steps, entered.fits := by
  rw [locate]
  by_cases hstart : p.isAbsolute = true ∨ d.removed = 0
  · rw [if_neg (by rcases hstart with habsolute | hremoved <;> simp [*])]
    split
    case h_1 hflaw => simp [hflaw]
    case h_2 hflaw =>
      split
      case h_1 hchase => simp [hchase]
      case h_2 found hchase =>
        rw [← List.all_eq_true]
        split
        case isTrue hfits => simp [hstart, hflaw, hchase, hfits]
        case isFalse hfits => simp [hfits]
      case h_3 landing hnot hchase =>
        refine iff_of_false nofun fun h => ?_
        exact hnot place (Except.ok.inj (hchase.symm.trans h.2.2.1))
  · obtain ⟨hrelative, hremoved⟩ := not_or.mp hstart
    rw [if_pos ⟨hremoved, by simpa using hrelative⟩]
    exact iff_of_false nofun fun h => hstart h.1

theorem chase_of_locate {place : Place} (h : d.locate p = .ok place) :
    d.chase maxLinks (origin d.cwd p) p.steps = .ok (.found place) :=
  (locate_iff.mp h).2.2.1

theorem leave_moves {removed : Nat} (steps : List Step) :
    (∀ left, leave removed steps = .ok (some left) →
      leave removed (moves steps) = .ok (some (moves left))) ∧
    ∀ left, leave removed (moves steps) = .ok (some left) →
      ∃ left', leave removed steps = .ok (some left') ∧ moves left' = left := by
  induction steps generalizing removed with
  | nil => cases removed <;> simp [leave, moves]
  | cons step rest ih =>
      cases removed with
      | zero => simp
      | succ removed =>
          cases step with
          | stay => exact ih
          | up => exact ih
          | into name => simp [leave, moves]

theorem follow_moves {found : Place} (hdir : d.node? found = some .dir) {steps others : List Step}
    (hsame : moves steps = moves others) (h : d.follow p steps = .ok (.found found)) :
    d.follow p others = .ok (.found found) := by
  have hchase {links : Nat} {place : Place} {steps others : List Step}
      (hsame : moves steps = moves others) (h : d.chase links place steps = .ok (.found found)) :
      d.chase links place others = .ok (.found found) :=
    (chase_moves hdir links others).mpr (hsame ▸ (chase_moves hdir links steps).mp h)
  rw [follow] at h ⊢
  split at h
  · contradiction
  · split at h
    · rename_i habsolute
      rw [if_pos habsolute]
      exact hchase hsame h
    · rename_i habsolute
      rw [if_neg habsolute]
      split at h
      case h_1 => contradiction
      case h_2 => cases h
      case h_3 left hleave =>
        have hmoves := (leave_moves steps).1 left hleave
        rw [hsame] at hmoves
        obtain ⟨left', hleave', heq⟩ := (leave_moves others).2 _ hmoves
        rw [hleave']
        exact hchase heq.symm h

/-! ### Entries -/

theorem entry_eq_ok : d.entry p = .ok (dir, name) ↔
    ∃ init, p.steps = init ++ [.into name] ∧ name.utf8ByteSize ≤ maxNameBytes ∧
      d.follow p (init ++ [.stay]) = .ok (.found dir) := by
  rw [entry]
  constructor
  · intro h
    split at h
    case h_1 last hlast =>
      obtain ⟨init, hsteps⟩ := List.getLast?_eq_some_iff.mp hlast
      rw [hsteps, List.dropLast_concat] at h
      split at h
      case h_1 => contradiction
      case h_2 found hfound =>
        split at h
        · contradiction
        · rename_i hlength
          cases h
          exact ⟨init, hsteps, Nat.le_of_not_lt hlength, hfound⟩
      case h_3 => contradiction
    case h_2 => contradiction
    case h_3 => contradiction
  · rintro ⟨init, hsteps, hlength, hfound⟩
    simp only [hsteps, List.getLast?_append, List.getLast?_singleton, Option.some_or,
      List.dropLast_concat, hfound, if_neg (Nat.not_lt_of_le hlength)]

/-- A path whose way is followed to its last name has an entry, and so have all that differ from it
by their last names only. -/
theorem exists_entry {last : String} {landing : Landing}
    (h : d.follow q (init ++ [.into last]) = .ok landing) (hsteps : p.steps = init ++ [.into name])
    (hlength : name.utf8ByteSize ≤ maxNameBytes) (hrefused : p.refusal? = q.refusal?)
    (habsolute : p.isAbsolute = q.isAbsolute) : ∃ dir, d.entry p = .ok (dir, name) := by
  obtain ⟨links, dir, hdir, hsame⟩ := follow_init (by simp) (ne_removed_of_follow h) h
  refine ⟨dir, entry_eq_ok.mpr ⟨init, hsteps, hlength, ?_⟩⟩
  rw [follow_congr hrefused habsolute, hsame, chase_stay hdir]

section Entry

variable (h : d.entry p = .ok (dir, name))

include h

theorem look_of_entry : d.node? dir = some .dir ∧ name.utf8ByteSize ≤ maxNameBytes ∧
    ∃ links, d.look p = d.chase links dir [.into name] := by
  obtain ⟨init, hsteps, hlength, hfound⟩ := entry_eq_ok.mp h
  obtain ⟨links, middle, hmiddle, hsame⟩ := follow_init (by simp) (by simp) hfound
  rw [hsame, chase_stay hmiddle] at hfound
  cases hfound
  refine ⟨hmiddle, hlength, links, ?_⟩
  rw [look, hsteps, hsame]

theorem look_of_entry_free (hfree : d.node? (dir ++ [name]) = none) :
    d.look p = .ok (.vacant (dir ++ [name])) := by
  obtain ⟨hdir, hlength, links, hlook⟩ := look_of_entry h
  rw [hlook, chase_into_free hdir hlength hfree]

theorem look_of_entry_node {node : Node} (hnode : d.node? (dir ++ [name]) = some node)
    (hlink : ¬ node.IsLink) : d.look p = .ok (.found (dir ++ [name])) := by
  obtain ⟨hdir, hlength, links, hlook⟩ := look_of_entry h
  rw [hlook, chase_into_node hdir hlength hnode hlink]

theorem stat_of_entry {node : Node} (hnode : d.node? (dir ++ [name]) = some node)
    (hlink : ¬ node.IsLink) : d.stat p = .ok node := by
  simp only [stat, look_of_entry_node h hnode hlink, hnode]

theorem stat_of_entry_free (hfree : d.node? (dir ++ [name]) = none) :
    d.stat p = .error .notFound := by
  simp only [stat, look_of_entry_free h hfree]

theorem lstat?_of_entry : d.lstat? p = d.node? (dir ++ [name]) := by
  obtain ⟨init, hsteps, hlength, hfound⟩ := entry_eq_ok.mp h
  simp only [lstat?, hsteps, List.getLast?_append, List.getLast?_singleton, Option.some_or,
    List.dropLast_concat, hfound]

end Entry

/-- A path that leads somewhere by a name at its end has an entry, and the last step is made from the
directory of the entry. -/
theorem entry_of_look {found : Place} (hsteps : p.steps = init ++ [.into name])
    (h : d.look p = .ok (.found found)) :
    ∃ links dir, d.entry p = .ok (dir, name) ∧ d.node? dir = some .dir ∧
      name.utf8ByteSize ≤ maxNameBytes ∧ d.chase links dir [.into name] = .ok (.found found) := by
  rw [look, hsteps] at h
  obtain ⟨links, dir, hdir, hsame⟩ := follow_init (by simp) (by simp) h
  rw [hsame] at h
  have hlength := length_of_chase_into h
  refine ⟨links, dir, entry_eq_ok.mpr ⟨init, hsteps, hlength, ?_⟩, hdir, hlength, h⟩
  rw [hsame, chase_stay hdir]

/-- Something stands at a path that leads somewhere. -/
theorem lstat?_ne_none {found : Place} (hsteps : p.steps = init ++ [.into name])
    (h : d.look p = .ok (.found found)) : d.lstat? p ≠ none := by
  obtain ⟨links, dir, hentry, hdir, hlength, hchase⟩ := entry_of_look hsteps h
  rw [lstat?_of_entry hentry]
  intro hfree
  cases (chase_into_free hdir hlength hfree).symm.trans hchase

/-- What stands at a path that leads somewhere is what is there, or a link to it. -/
theorem lstat?_of_look {place : Place} (h : d.look p = .ok (.found place)) :
    d.lstat? p = d.node? place ∨ ∃ target, d.lstat? p = some (.link target) := by
  by_cases hlast : ∃ init name, p.steps = init ++ [.into name]
  · obtain ⟨init, name, hsteps⟩ := hlast
    obtain ⟨links, dir, hentry, hdir, hlength, hchase⟩ := entry_of_look hsteps h
    rw [lstat?_of_entry hentry]
    cases hnode : d.node? (dir ++ [name]) with
    | none => cases (chase_into_free hdir hlength hnode).symm.trans hchase
    | some node =>
        by_cases hlink : node.IsLink
        · obtain ⟨target, rfl⟩ := hlink
          exact .inr ⟨target, rfl⟩
        · cases (chase_into_node hdir hlength hnode hlink).symm.trans hchase
          exact .inl hnode.symm
  · left
    rw [lstat?]
    split
    case h_1 name hname =>
      obtain ⟨init, hsteps⟩ := List.getLast?_eq_some_iff.mp hname
      exact absurd ⟨init, name, hsteps⟩ hlast
    case h_2 =>
      rw [stat, h]
      dsimp only
      cases d.node? place <;> rfl

theorem node?_of_stat {place : Place} {node : Node} (hlook : d.look p = .ok (.found place))
    (hstat : d.stat p = .ok node) : d.node? place = some node := by
  simp only [stat, hlook] at hstat
  split at hstat
  · cases hstat
    assumption
  · cases hstat

end Workbench.Disk
