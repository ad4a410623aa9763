import Workbench.Cache.Write
import Workbench.Proofs.Disk.Frame
import Workbench.Proofs.Disk.Normal

/-!
Operations that write. Making directories and a missing lock file only adds to a disk. A file that
is put where nothing but a file was changes no other look-up, in either direction.
-/

namespace Workbench

/-- Whether a node is a file, whatever it holds. -/
def Node.IsFile (node : Node) : Prop := ∃ content modified, node = .file content modified

namespace Disk

variable {d d' d'' : Disk} {p : Path} {place other free : Place} {node : Node}

/-! ### Putting and dropping -/

theorem node?_put (hne : place ≠ []) (node : Node) (other : Place) :
    (d.put place node).node? other = if place = other then some node else d.node? other := by
  cases other with
  | nil => rw [node?_nil, if_neg hne, node?_nil]
  | cons name rest =>
      rw [node?_of_ne_nil _ (by simp), node?_of_ne_nil _ (by simp), put,
        Std.ExtTreeMap.getElem?_insert]
      simp only [Std.LawfulEqCmp.compare_eq_iff_eq]

theorem node?_drop (hne : place ≠ []) (other : Place) :
    (d.drop place).node? other = if place = other then none else d.node? other := by
  cases other with
  | nil => rw [node?_nil, if_neg hne, node?_nil]
  | cons name rest =>
      rw [node?_of_ne_nil _ (by simp), node?_of_ne_nil _ (by simp), drop,
        Std.ExtTreeMap.getElem?_erase]
      simp only [Std.LawfulEqCmp.compare_eq_iff_eq]

theorem node?_put_self (hne : place ≠ []) (node : Node) :
    (d.put place node).node? place = some node := by
  rw [node?_put hne, if_pos rfl]

theorem node?_drop_self (hne : place ≠ []) : (d.drop place).node? place = none := by
  rw [node?_drop hne, if_pos rfl]

theorem put_self (hne : place ≠ []) (h : d.node? place = some node) : d.put place node = d := by
  have hnodes : d.nodes.insert place node = d.nodes :=
    Std.ExtTreeMap.ext_getElem? fun other => by
      rw [Std.ExtTreeMap.getElem?_insert]
      split
      case isTrue heq =>
        rw [← Std.LawfulEqCmp.eq_of_compare heq, ← d.node?_of_ne_nil hne, h]
      case isFalse => rfl
  rw [put, hnodes]

theorem put_put (place : Place) (node node' : Node) :
    (d.put place node).put place node' = d.put place node' := by
  have hnodes : (d.nodes.insert place node).insert place node' = d.nodes.insert place node' :=
    Std.ExtTreeMap.ext_getElem? fun other => by
      simp only [Std.ExtTreeMap.getElem?_insert]
      split <;> rfl
  simp only [put, hnodes]

theorem drop_put (hne : place ≠ []) (h : d.node? place = none) : (d.put place node).drop place = d := by
  have hnodes : (d.nodes.insert place node).erase place = d.nodes :=
    Std.ExtTreeMap.ext_getElem? fun other => by
      rw [Std.ExtTreeMap.getElem?_erase]
      split
      case isTrue heq =>
        rw [← Std.LawfulEqCmp.eq_of_compare heq, ← d.node?_of_ne_nil hne, h]
      case isFalse heq => rw [Std.ExtTreeMap.getElem?_insert, if_neg heq]
  simp only [put, drop, hnodes]

theorem put_drop (place : Place) (node : Node) : (d.drop place).put place node = d.put place node := by
  have hnodes : (d.nodes.erase place).insert place node = d.nodes.insert place node :=
    Std.ExtTreeMap.ext_getElem? fun other => by
      simp only [Std.ExtTreeMap.getElem?_insert, Std.ExtTreeMap.getElem?_erase]
      split <;> rfl
  simp only [put, drop, hnodes]

/-! ### Adding to a disk -/

/-- All that is on a disk is on another too, and the working directory is the same. -/
structure Extends (d d' : Disk) : Prop where
  cwd_eq : d'.cwd = d.cwd
  removed_eq : d'.removed = d.removed
  node : ∀ place node, d.node? place = some node → d'.node? place = some node

namespace Extends

theorem refl (d : Disk) : Extends d d := ⟨rfl, rfl, fun _ _ => id⟩

theorem trans (h : Extends d d') (h' : Extends d' d'') : Extends d d'' :=
  ⟨h'.cwd_eq.trans h.cwd_eq, h'.removed_eq.trans h.removed_eq,
    fun place node hnode => h'.node place node (h.node place node hnode)⟩

theorem put (h : d.node? place = none) (node : Node) : Extends d (d.put place node) := by
  have hne : place ≠ [] := by
    rintro rfl
    cases h
  refine ⟨rfl, rfl, fun other old hold => ?_⟩
  rw [node?_put hne, if_neg, hold]
  rintro rfl
  cases h.symm.trans hold

theorem frame (h : Extends d d') : Frame d d' :=
  ⟨h.cwd_eq, h.removed_eq, fun place => h.node place .dir,
    fun place target => h.node place (.link target)⟩

theorem leads (h : Extends d d') : Leads d d' :=
  h.frame.leads fun _ content modified hfile =>
    ⟨_, h.node _ _ hfile, Node.not_isLink_file content modified⟩

theorem look_found (h : Extends d d') (hlook : d.look p = .ok (.found place)) :
    d'.look p = .ok (.found place) := h.leads.look p place hlook

end Extends

theorem extends_makeAlong (d : Disk) (start place : Place) (done steps : List Step) :
    Extends d (d.makeAlong start done place steps).1 := by
  induction steps generalizing d done place with
  | nil => exact .refl d
  | cons step rest ih =>
      cases step with
      | stay => exact ih d place _
      | up => exact ih d place.dropLast _
      | into name =>
          rw [makeAlong]
          split
          · exact .refl d
          · split
            case h_1 hnone => exact (Extends.put hnone .dir).trans (ih _ _ _)
            case h_2 => exact ih _ _ _
            case h_3 =>
              split
              · exact ih _ _ _
              · exact .refl d

theorem extends_makeFrom (d : Disk) (p : Path) : Extends d (d.makeFrom p).1 := by
  rw [makeFrom]
  split
  · exact extends_makeAlong ..
  · split
    · exact extends_makeAlong ..
    · exact .refl d
    · exact .refl d

theorem extends_makeDirs (d : Disk) (p : Path) : Extends d (d.makeDirs p).1 := by
  rw [makeDirs]
  split
  · exact .refl d
  · split
    · exact .refl d
    · exact .refl d
    · exact extends_makeFrom d p
    · exact extends_makeFrom d p
    · exact .refl d

/-- If something is missing on the way of a path that is not empty, the path may be looked up. -/
theorem refusal?_of_notFound (hne : p.text ≠ "") (h : d.look p = .error .notFound) :
    p.refusal? = none := by
  cases hrefused : p.refusal? with
  | none => rfl
  | some e =>
      rw [look, follow, hrefused] at h
      cases h
      obtain heq | ⟨-, hempty⟩ | heq := Path.refusal?_eq_some hrefused
      · cases heq
      · exact absurd hempty hne
      · cases heq

/-- Directories are made along a path that may be looked up. -/
theorem refusal?_of_makeDirs (h : (d.makeDirs p).2 = none) : p.text = "" ∨ p.refusal? = none := by
  by_cases hempty : p.text = ""
  · exact .inl hempty
  · refine .inr ?_
    rw [makeDirs] at h
    cases hrefused : p.refusal? with
    | none => rfl
    | some e =>
        have hlook : d.look p = .error e := by rw [look, follow, hrefused]
        have hdir : d.isDir p = false := by simp only [isDir, stat, hlook]
        rw [hdir, Bool.or_false, if_neg (by simpa using hempty), hlook] at h
        cases e with
        | notFound => cases hrefused.symm.trans (refusal?_of_notFound hempty hlook)
        | _ => cases h

/-! ### Free places -/

theorem node?_of_advance_vacant {steps : List Step}
    (h : d.advance place steps = .ok (.vacant free)) : d.node? free = none := by
  induction steps generalizing place with
  | nil => cases h
  | cons step rest ih =>
      have hdir := node?_of_advance h
      cases step with
      | stay =>
          rw [advance_stay hdir] at h
          exact ih h
      | up =>
          rw [advance_up hdir] at h
          exact ih h
      | into name =>
          obtain ⟨-, -, ⟨hnone, -, heq⟩ | ⟨_, -, heq⟩ | ⟨_, -, -, hbehind⟩⟩ := advance_into_iff.mp h
          · cases heq
            exact hnone
          · cases heq
          · exact ih hbehind

theorem node?_of_chase_vacant {links : Nat} {steps : List Step}
    (h : d.chase links place steps = .ok (.vacant free)) : d.node? free = none := by
  induction links using Nat.strongRecOn generalizing place steps with
  | ind links ih =>
      obtain ⟨_, -, heq⟩ | ⟨_, hadvance, heq⟩ | ⟨fewer, _, _, _, rfl, -, hbehind⟩ := of_chase h
      · cases heq
      · cases heq
        exact node?_of_advance_vacant hadvance
      · exact ih fewer (Nat.lt_succ_self fewer) hbehind

/-- Where a path leads, it leads from some place along some steps. -/
theorem exists_chase_of_follow {steps : List Step} {landing : Landing}
    (h : d.follow p steps = .ok landing) (hlanding : landing ≠ .removed) :
    ∃ start left, d.follow p steps = d.chase maxLinks start left := by
  rw [follow] at h ⊢
  split at h
  · cases h
  · split at h
    · rename_i habsolute
      rw [if_pos habsolute]
      exact ⟨_, _, rfl⟩
    · rename_i habsolute
      rw [if_neg habsolute]
      split at h
      · cases h
      · cases h
        exact absurd rfl hlanding
      · exact ⟨_, _, rfl⟩

theorem node?_of_look_vacant (h : d.look p = .ok (.vacant free)) : d.node? free = none := by
  obtain ⟨start, left, heq⟩ := exists_chase_of_follow h (by simp)
  exact node?_of_chase_vacant (heq.symm.trans h)

namespace Frame

variable (h : Frame d d') (hnode : d'.node? free = some node) (hlink : ¬ node.IsLink)

include h hnode hlink

/-- What was put at a free place is found where the free place was. -/
theorem advance_filled {steps : List Step} (hadvance : d.advance place steps = .ok (.vacant free)) :
    d'.advance place steps = .ok (.found free) := by
  induction steps generalizing place with
  | nil => cases hadvance
  | cons step rest ih =>
      have hdir := node?_of_advance hadvance
      cases step with
      | stay =>
          rw [advance_stay hdir] at hadvance
          rw [advance_stay (h.dir _ hdir)]
          exact ih hadvance
      | up =>
          rw [advance_up hdir] at hadvance
          rw [advance_up (h.dir _ hdir)]
          exact ih hadvance
      | into name =>
          obtain ⟨-, hlength, hcases⟩ := advance_into_iff.mp hadvance
          refine advance_into_iff.mpr ⟨h.dir _ hdir, hlength, .inr (.inr ?_)⟩
          rcases hcases with ⟨-, rfl, heq⟩ | ⟨_, -, heq⟩ | ⟨old, hold, hnot, hbehind⟩
          · cases heq
            exact ⟨node, hnode, hlink, rfl⟩
          · cases heq
          · cases rest with
            | nil => cases hbehind
            | cons next rest =>
                have hinner := node?_of_advance hbehind
                exact ⟨.dir, h.dir _ hinner, Node.not_isLink_dir, ih hbehind⟩

theorem chase_filled {links : Nat} {steps : List Step}
    (hchase : d.chase links place steps = .ok (.vacant free)) :
    d'.chase links place steps = .ok (.found free) := by
  induction links using Nat.strongRecOn generalizing place steps with
  | ind links ih =>
      obtain ⟨_, -, heq⟩ | ⟨_, hadvance, heq⟩ | ⟨fewer, dir, target, rest, rfl, hadvance, hbehind⟩ :=
        of_chase hchase
      · cases heq
      · cases heq
        exact chase_of_found (h.advance_filled hnode hlink hadvance)
      · rw [chase_of_detour (h.advance hadvance (by simp) (by simp))]
        exact ih fewer (Nat.lt_succ_self fewer) hbehind

theorem look_filled (hlook : d.look p = .ok (.vacant free)) : d'.look p = .ok (.found free) := by
  rw [Disk.look, Disk.follow] at hlook ⊢
  split at hlook
  · cases hlook
  · rw [h.removed_eq, h.cwd_eq]
    split at hlook
    · rename_i habsolute
      rw [if_pos habsolute]
      exact h.chase_filled hnode hlink hlook
    · rename_i habsolute
      rw [if_neg habsolute]
      split at hlook
      · cases hlook
      · cases hlook
      · exact h.chase_filled hnode hlink hlook

end Frame

/-! ### Lock files -/

/-- There is a file where a path leads. -/
def HasFile (d : Disk) (p : Path) : Prop :=
  ∃ place node, d.look p = .ok (.found place) ∧ d.node? place = some node ∧ node.IsFile

theorem hasFile_iff : d.HasFile p ↔ (d.file? p).isSome := by
  rw [Option.isSome_iff_exists]
  constructor
  · rintro ⟨place, _, hlook, hnode, content, modified, rfl⟩
    exact ⟨(content, modified), file?_eq_some.mpr ⟨place, hlook, hnode⟩⟩
  · rintro ⟨⟨content, modified⟩, hfile⟩
    obtain ⟨place, hlook, hnode⟩ := file?_eq_some.mp hfile
    exact ⟨place, _, hlook, hnode, content, modified, rfl⟩

theorem HasFile.ensureFile (h : d.HasFile p) : d.ensureFile p = .ok d := by
  obtain ⟨place, node, hlook, hnode, content, modified, rfl⟩ := h
  have hne : place ≠ [] := by
    rintro rfl
    cases hnode
  simp only [Disk.ensureFile, modify, hlook, hnode, Option.getD_some, put_self hne hnode]

theorem ensureFile_spec (h : d.ensureFile p = .ok d') : Extends d d' ∧ d'.HasFile p := by
  rw [ensureFile, modify] at h
  split at h
  case h_1 => contradiction
  case h_2 => contradiction
  case h_3 free hlook =>
    cases h
    have hnone := node?_of_look_vacant hlook
    have hne : free ≠ [] := by
      rintro rfl
      cases hnone
    have hextends := Extends.put hnone (.file ⟨[]⟩ writeTime)
    have hnode : (d.put free (.file ⟨[]⟩ writeTime)).node? free = some (.file ⟨[]⟩ writeTime) := by
      exact node?_put_self hne _
    exact ⟨hextends, free, _, hextends.frame.look_filled hnode (Node.not_isLink_file _ _) hlook,
      hnode, _, _, rfl⟩
  case h_4 place hlook =>
    split at h
    case h_1 content modified hnode =>
      have hfile : d.HasFile p := ⟨place, _, hlook, hnode, content, modified, rfl⟩
      have hne : place ≠ [] := by
        rintro rfl
        cases hnode
      simp only [Option.getD_some, put_self hne hnode, Except.ok.injEq] at h
      subst h
      exact ⟨.refl d, hfile⟩
    case h_2 => contradiction

/-- The directory of a file, which is made before the file. -/
def makeParent (d : Disk) (p : Path) : Disk × Option DiskError :=
  match p.parent? with
  | some dir => d.makeDirs dir
  | none => (d, none)

theorem lock_eq_makeParent (d : Disk) (p : Path) : d.lock p = match d.makeParent p with
    | (d, some e) => (d, some (.disk e))
    | (d, none) =>
      match d.ensureFile p with
      | .ok d => (d, none)
      | .error e => (d, some (.disk e)) := by
  rw [lock, makeParent]
  cases p.parent? with
  | none => rfl
  | some dir =>
      dsimp only
      generalize d.makeDirs dir = made
      obtain ⟨made, refused⟩ := made
      cases refused <;> rfl

theorem extends_makeParent (d : Disk) (p : Path) : Extends d (d.makeParent p).1 := by
  rw [makeParent]
  split
  · exact extends_makeDirs d _
  · exact .refl d

theorem extends_lock (d : Disk) (p : Path) : Extends d (d.lock p).1 := by
  have hmade := d.extends_makeParent p
  rw [lock_eq_makeParent]
  split
  case h_1 made e heq =>
    rw [heq] at hmade
    exact hmade
  case h_2 made heq =>
    rw [heq] at hmade
    split
    case h_1 hensured => exact hmade.trans (ensureFile_spec hensured).1
    case h_2 => exact hmade

/-- A lock that is taken is a file, in a directory that may be looked up. -/
theorem of_lock (h : d.lock p = (d', none)) : d'.HasFile p ∧
    ∀ dir, p.parent? = some dir → dir.text = "" ∨ dir.refusal? = none := by
  rw [lock_eq_makeParent] at h
  split at h
  case h_1 => cases h
  case h_2 made heq =>
    constructor
    · split at h
      case h_1 hensured =>
        cases h
        exact (ensureFile_spec hensured).2
      case h_2 => cases h
    · intro dir hdir
      rw [makeParent, hdir] at heq
      exact refusal?_of_makeDirs (congrArg Prod.snd heq)

/-- A lock that was taken before changes nothing when it is taken again. -/
theorem lock_eq_self (hfile : d.HasFile p)
    (hdir : ∀ dir, p.parent? = some dir → dir.text = "" ∨ d.isDir dir) : d.lock p = (d, none) := by
  have hmade : d.makeParent p = (d, none) := by
    rw [makeParent]
    split
    case h_1 dir hparent =>
      rw [makeDirs, if_pos]
      rcases hdir dir hparent with hempty | hdir
      · simp [hempty]
      · simp [hdir]
    case h_2 => rfl
  rw [lock_eq_makeParent, hmade]
  simp only [hfile.ensureFile]

/-! ### Files at a place -/

/-- Nothing but a file stands at a place. -/
def TakesFile (d : Disk) (place : Place) : Prop := ∀ node, d.node? place = some node → node.IsFile

theorem takesFile_of_free (h : d.node? place = none) : d.TakesFile place := by
  intro node hnode
  cases h.symm.trans hnode

theorem takesFile_of_ne (hdir : d.node? place ≠ some .dir)
    (hlink : ∀ target, d.node? place ≠ some (.link target)) : d.TakesFile place := by
  intro node hnode
  cases node with
  | dir => exact absurd hnode hdir
  | link target => exact absurd hnode (hlink target)
  | file content modified => exact ⟨content, modified, rfl⟩

namespace TakesFile

variable (h : d.TakesFile place)

include h

theorem ne_nil : place ≠ [] := by
  rintro rfl
  obtain ⟨_, _, heq⟩ := h .dir rfl
  cases heq

theorem ne_of_node? (hnode : d.node? other = some node) (hnot : ¬ node.IsFile) : place ≠ other := by
  rintro rfl
  exact hnot (h node hnode)

/-- What changes at the place alone changes no directory and no link. -/
theorem frame_of_elsewhere (hcwd : d'.cwd = d.cwd) (hremoved : d'.removed = d.removed)
    (helsewhere : ∀ other, place ≠ other → d'.node? other = d.node? other) : Frame d d' where
  cwd_eq := hcwd
  removed_eq := hremoved
  dir other hdir := by
    have hnot : ¬ Node.dir.IsFile := by simp [Node.IsFile]
    rw [helsewhere other (h.ne_of_node? hdir hnot), hdir]
  link other target hlink := by
    have hnot : ¬ (Node.link target).IsFile := by simp [Node.IsFile]
    rw [helsewhere other (h.ne_of_node? hlink hnot), hlink]

theorem frame_put (content : Content) (modified : Int) :
    Frame d (d.put place (.file content modified)) :=
  h.frame_of_elsewhere rfl rfl fun other hne => by rw [node?_put h.ne_nil, if_neg hne]

theorem frame_of_put (content : Content) (modified : Int) :
    Frame (d.put place (.file content modified)) d := by
  refine ⟨rfl, rfl, fun other hdir => ?_, fun other target hlink => ?_⟩
  · rw [node?_put h.ne_nil] at hdir
    split at hdir
    · cases hdir
    · exact hdir
  · rw [node?_put h.ne_nil] at hlink
    split at hlink
    · cases hlink
    · exact hlink

theorem frame_drop : Frame d (d.drop place) :=
  h.frame_of_elsewhere rfl rfl fun other hne => by rw [node?_drop h.ne_nil, if_neg hne]

theorem put (content : Content) (modified : Int) :
    (d.put place (.file content modified)).TakesFile place := by
  intro node hnode
  rw [node?_put h.ne_nil, if_pos rfl] at hnode
  cases hnode
  exact ⟨content, modified, rfl⟩

theorem hasFile_put (content : Content) (modified : Int) (hfile : d.HasFile p) :
    (d.put place (.file content modified)).HasFile p := by
  obtain ⟨found, node, hlook, hnode, hisfile⟩ := hfile
  have hkept : ∃ node, (d.put place (.file content modified)).node? found = some node ∧
      node.IsFile := by
    rw [node?_put h.ne_nil]
    split
    · exact ⟨_, rfl, content, modified, rfl⟩
    · exact ⟨node, hnode, hisfile⟩
  obtain ⟨kept, hkept, hisfile'⟩ := hkept
  refine ⟨found, kept, (h.frame_put content modified).look hlook fun _ _ _ => ⟨kept, hkept, ?_⟩,
    hkept, hisfile'⟩
  obtain ⟨_, _, rfl⟩ := hisfile'
  exact Node.not_isLink_file _ _

theorem leads_put (content : Content) (modified : Int) :
    Leads d (d.put place (.file content modified)) := by
  refine (h.frame_put content modified).leads fun found _ _ hold => ?_
  rw [node?_put h.ne_nil]
  split
  · exact ⟨_, rfl, Node.not_isLink_file _ _⟩
  · exact ⟨_, hold, Node.not_isLink_file _ _⟩

section Replaced

variable {content content' : Content} {modified modified' : Int}

/-- Another file in the place of the first one changes no look-up. -/
theorem leads_replaced : Leads (d.put place (.file content modified))
    (d.put place (.file content' modified')) := by
  have hleads := (h.put content modified).leads_put content' modified'
  rwa [put_put] at hleads

theorem frame_replaced : Frame (d.put place (.file content modified))
    (d.put place (.file content' modified')) := by
  have hframe := (h.put content modified).frame_put content' modified'
  rwa [put_put] at hframe

theorem isFile_replaced (hfile : (d.put place (.file content modified)).isFile p) :
    (d.put place (.file content' modified')).isFile p := by
  obtain ⟨⟨content₀, modified₀⟩, hfile⟩ := Option.isSome_iff_exists.mp hfile
  obtain ⟨found, hlook, hnode⟩ := file?_eq_some.mp hfile
  have hlook' : (d.put place (.file content' modified')).look p = .ok (.found found) :=
    h.leads_replaced.look p found hlook
  have hnode' : ∃ content modified,
      (d.put place (.file content' modified')).node? found = some (.file content modified) := by
    rw [node?_put h.ne_nil] at hnode ⊢
    split
    case isTrue => exact ⟨_, _, rfl⟩
    case isFalse hne =>
      rw [if_neg hne] at hnode
      exact ⟨_, _, hnode⟩
  obtain ⟨content₁, modified₁, hnode'⟩ := hnode'
  exact Option.isSome_iff_exists.mpr ⟨_, file?_eq_some.mpr ⟨found, hlook', hnode'⟩⟩

/-- Where a file is replaced by another one, all paths keep their normal forms. -/
theorem normalize_replaced (p : Path) : (d.put place (.file content' modified')).normalize p =
    (d.put place (.file content modified)).normalize p :=
  normalize_congr fun _ _ _ _ => ⟨h.leads_replaced.locate _ _, h.leads_replaced.locate _ _⟩

end Replaced

/-- Paths that do not lead to the file name the same files as before. -/
theorem file?_put {content : Content} {modified : Int}
    (hapart : (d.put place (.file content modified)).look p ≠ .ok (.found place)) :
    (d.put place (.file content modified)).file? p = d.file? p := by
  refine Option.ext fun file => ?_
  obtain ⟨content', modified'⟩ := file
  rw [file?_eq_some, file?_eq_some]
  constructor
  · rintro ⟨found, hlook, hnode⟩
    have hne : place ≠ found := by
      rintro rfl
      exact hapart hlook
    have hold : d.node? found = some (.file content' modified') := by
      rwa [node?_put h.ne_nil, if_neg hne] at hnode
    exact ⟨found, (h.frame_of_put content modified).look hlook fun _ _ _ =>
      ⟨_, hold, Node.not_isLink_file _ _⟩, hold⟩
  · rintro ⟨found, hlook, hold⟩
    have hlook' := (h.leads_put content modified).look p found hlook
    have hne : place ≠ found := by
      rintro rfl
      exact hapart hlook'
    exact ⟨found, hlook', by rw [node?_put h.ne_nil, if_neg hne, hold]⟩

end TakesFile

end Disk

end Workbench
