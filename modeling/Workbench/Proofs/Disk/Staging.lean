import Mathlib.Data.List.Nodup
import Mathlib.Data.List.Perm.Subperm
import Mathlib.Data.Nat.Find
import Std.Data.String.ToNat
import Workbench.Proofs.Disk.Child
import Workbench.Proofs.Disk.Writing

/-!
Staging a content and moving it into place. Staging tries one number after the other, and fewer
names are taken than there are entries on the disk, so it ends wherever it begins to count. A staged
file is put at a free place. Then it is moved or removed, and so a write leaves the disk as it was
before the staging, or puts the content at the entry of its path and does nothing else.
-/

namespace Workbench

namespace Path

theorem isName_of_length {text : String} (hlength : 2 < text.toList.length)
    (h : '/' ∉ text.toList) : IsName text := by
  refine isName_iff.mpr ⟨⟨?_, ?_, ?_⟩, h⟩ <;>
  · rintro rfl
    exact absurd hlength (by decide)

/-- A name with letters behind it is a name. -/
theorem IsName.append {text more : String} (h : IsName text) (hlength : 1 < more.toList.length)
    (hmore : '/' ∉ more.toList) : IsName (text ++ more) := by
  have hpos : 0 < text.toList.length := by
    refine List.length_pos_iff.mpr fun hnil => h.stepName.1 ?_
    exact String.toList_eq_nil_iff.mp hnil
  refine isName_of_length ?_ ?_
  · rw [String.toList_append, List.length_append]
    omega
  · rw [String.toList_append, List.mem_append]
    exact not_or.mpr ⟨h.2, hmore⟩

theorem IsName.stagedName {name : String} (h : IsName name) (number : Nat) :
    IsName (Workbench.stagedName name number) := by
  have hdigits : '/' ∉ (toString number).toList := by
    rw [Nat.toString_eq_repr, Nat.toList_repr]
    intro hmem
    exact absurd (Nat.isDigit_of_mem_toDigits (by decide) (by decide) hmem) (by decide)
  have hprefix : IsName (name ++ ".1-") := h.append (by decide) (by decide)
  have hname : Workbench.stagedName name number = name ++ ".1-" ++ (toString number ++ ".staged") := by
    simp only [Workbench.stagedName, String.append_assoc]
  rw [hname]
  refine hprefix.append ?_ ?_
  · rw [String.toList_append, List.length_append]
    exact Nat.lt_of_lt_of_le (by decide : 1 < ".staged".toList.length) (Nat.le_add_left ..)
  · rw [String.toList_append, List.mem_append]
    exact not_or.mpr ⟨hdigits, by decide⟩

theorem stagedName_injective (name : String) : Function.Injective (stagedName name) := by
  intro number number' heq
  have hlists := congrArg String.toList heq
  simp only [stagedName, String.toList_append] at hlists
  have hdigits := List.append_cancel_left (List.append_cancel_right hlists)
  rw [Nat.toString_eq_repr, Nat.toString_eq_repr] at hdigits
  exact Nat.repr_inj.mp (String.toList_inj.mp hdigits)

theorem isName_of_fileName? {p : Path} {name : String} (h : p.fileName? = some name) :
    IsName name := by
  obtain ⟨c, hlast, hc⟩ := Option.bind_eq_some_iff.mp h
  have hcomponent : c = .name name := by
    cases c <;> simp_all [Component.name?]
  subst hcomponent
  have hstep : Step.into name ∈ p.components.filterMap Component.step? :=
    List.mem_filterMap.mpr ⟨.name name, List.mem_of_getLast? hlast, rfl⟩
  rw [← Disk.moves_steps] at hstep
  exact isName_of_mem_steps (List.mem_of_mem_filter hstep)

end Path

namespace Disk

variable {d d' : Disk} {p dir : Path} {name : String} {place : Place} {content : Content}

/-! ### Staging -/

theorem createNew_eq_ok {staged : Staged} : d.createNew p = .ok (d', staged) ↔
    ∃ place name, d.entry p = .ok (place, name) ∧ d.node? (place ++ [name]) = none ∧
      d' = d.put (place ++ [name]) (.file ⟨[]⟩ writeTime) ∧ staged = ⟨p, place ++ [name]⟩ := by
  rw [createNew]
  constructor
  · intro h
    split at h
    case h_1 => contradiction
    case h_2 place name hentry =>
      split at h
      case h_1 => contradiction
      case h_2 hnone =>
        cases h
        exact ⟨place, name, hentry, hnone, rfl, rfl⟩
  · rintro ⟨place, name, hentry, hnone, rfl, rfl⟩
    simp only [hentry, hnone]

theorem of_stage {tries number : Nat} {staged : Staged}
    (h : d.stage dir name tries number = .ok (d', staged)) :
    ∃ number, d.createNew (dir.child (stagedName name number)) = .ok (d', staged) := by
  induction tries generalizing number with
  | zero => cases h
  | succ tries ih =>
      rw [stage.eq_def] at h
      dsimp only at h
      split at h
      case h_1 hcreated =>
        cases h
        exact ⟨number, hcreated⟩
      case h_2 => exact ih h
      case h_3 => contradiction

/-- The name of an entry is the last name of its path. -/
theorem entry_child (hname : Path.IsName name) {other : String}
    (h : d.entry (dir.child name) = .ok (place, other)) : other = name := by
  obtain ⟨init, hinit⟩ := dir.exists_steps_child
  obtain ⟨init', hsteps, -, -⟩ := entry_eq_ok.mp h
  rw [hinit name hname] at hsteps
  cases (List.append_inj' hsteps rfl).2
  rfl

/-! ### Free numbers -/

theorem advance_ne_alreadyExists {steps : List Step} :
    d.advance place steps ≠ .error .alreadyExists := by
  induction steps generalizing place with
  | nil => simp
  | cons step rest ih =>
      rw [advance.eq_def]
      dsimp only
      split
      case h_4 =>
        split
        case h_1 => exact ih
        case h_2 => exact ih
        case h_3 =>
          split
          · simp
          · split
            case h_1 => split <;> simp
            case h_2 => simp
            case h_3 => exact ih
      all_goals simp

theorem chase_ne_alreadyExists {links : Nat} {steps : List Step} :
    d.chase links place steps ≠ .error .alreadyExists := by
  induction links using Nat.strongRecOn generalizing place steps with
  | ind links ih =>
      rw [chase.eq_def]
      dsimp only
      split
      case h_1 e he =>
        rintro ⟨⟩
        exact advance_ne_alreadyExists he
      case h_4 =>
        cases links with
        | zero => simp
        | succ fewer => exact ih fewer (Nat.lt_succ_self fewer)
      all_goals simp

theorem leave_ne_alreadyExists {removed : Nat} {steps : List Step} :
    leave removed steps ≠ .error .alreadyExists := by
  induction steps generalizing removed with
  | nil => cases removed <;> simp [leave]
  | cons step rest ih =>
      cases removed with
      | zero => simp [leave]
      | succ removed =>
          cases step with
          | stay => exact ih
          | up => exact ih
          | into name => simp [leave]

/-- A look-up does not find too much. -/
theorem follow_ne_alreadyExists {steps : List Step} :
    d.follow p steps ≠ .error .alreadyExists := by
  rw [follow]
  split
  case h_1 e hrefused =>
    rintro ⟨⟩
    obtain heq | ⟨heq, -⟩ | heq := Path.refusal?_eq_some hrefused <;> cases heq
  case h_2 =>
    split
    · exact chase_ne_alreadyExists
    · split
      case h_1 e hleave =>
        rintro ⟨⟩
        exact leave_ne_alreadyExists hleave
      case h_2 => simp
      case h_3 => exact chase_ne_alreadyExists

/-- A file is refused as one that exists only if something has its entry. -/
theorem of_createNew_alreadyExists (h : d.createNew p = .error .alreadyExists) :
    ∃ place name, d.entry p = .ok (place, name) ∧ place ++ [name] ∈ d.nodes := by
  rw [createNew] at h
  split at h
  case h_1 e hentry =>
    cases h
    rw [entry] at hentry
    split at hentry
    case h_1 =>
      split at hentry
      case h_1 hfollow =>
        cases hentry
        exact absurd hfollow follow_ne_alreadyExists
      case h_2 => split at hentry <;> cases hentry
      case h_3 => cases hentry
    all_goals cases hentry
  case h_2 place name hentry =>
    split at h
    case h_1 node hnode =>
      refine ⟨place, name, hentry, ?_⟩
      rw [node?_concat] at hnode
      exact Std.ExtTreeMap.isSome_getElem?_iff_mem.mp (by rw [hnode]; rfl)
    case h_2 => cases h

/-- The name with a number is not taken. -/
def IsFreeNumber (d : Disk) (dir : Path) (name : String) (number : Nat) : Prop :=
  d.createNew (dir.child (stagedName name number)) ≠ .error .alreadyExists

/-- Each number that is taken has an entry of its own, so there are not more of them than
entries. -/
theorem exists_isFreeNumber (hname : Path.IsName name) (dir : Path) (number : Nat) :
    ∃ k ≤ d.nodes.size, d.IsFreeNumber dir name (number + k) := by
  by_contra hnone
  have htaken : ∀ k ≤ d.nodes.size, ∃ place,
      place ++ [stagedName name (number + k)] ∈ d.nodes := by
    intro k hk
    have hexists : d.createNew (dir.child (stagedName name (number + k))) =
        .error .alreadyExists := by
      by_contra hfree
      exact hnone ⟨k, hk, hfree⟩
    obtain ⟨place, other, hentry, hmem⟩ := of_createNew_alreadyExists hexists
    cases entry_child (hname.stagedName _) hentry
    exact ⟨place, hmem⟩
  choose! placeOf hplaceOf using htaken
  -- The last name of an entry tells its number, so these are as many entries as numbers.
  let entries := (List.range (d.nodes.size + 1)).map fun k =>
    placeOf k ++ [stagedName name (number + k)]
  have hnodup : entries.Nodup := by
    refine List.Nodup.map_on (fun k _ k' _ heq => ?_) List.nodup_range
    have hlast := (List.cons.inj (List.append_inj' heq rfl).2).1
    exact Nat.add_left_cancel (Path.stagedName_injective name hlast)
  have hsubset : entries ⊆ d.nodes.keys := by
    intro entry hentry
    obtain ⟨k, hk, rfl⟩ := List.mem_map.mp hentry
    exact Std.ExtTreeMap.mem_keys.mpr (hplaceOf k (Nat.le_of_lt_succ (List.mem_range.mp hk)))
  have hlength := (List.subperm_of_subset hnodup hsubset).length_le
  rw [List.length_map, List.length_range, Std.ExtTreeMap.length_keys] at hlength
  omega

theorem stage_free {tries number : Nat} (h : d.IsFreeNumber dir name number) :
    d.stage dir name (tries + 1) number = d.createNew (dir.child (stagedName name number)) := by
  rw [IsFreeNumber] at h
  rw [stage.eq_def]
  dsimp only
  cases hcreated : d.createNew (dir.child (stagedName name number)) with
  | ok staged => rfl
  | error e =>
      cases e with
      | alreadyExists => exact absurd hcreated h
      | _ => rfl

theorem stage_taken {tries number : Nat} (h : ¬ d.IsFreeNumber dir name number) :
    d.stage dir name (tries + 1) number = d.stage dir name tries (number + 1) := by
  rw [IsFreeNumber, not_not] at h
  rw [stage.eq_def]
  dsimp only
  rw [h]

theorem stage_of_free {tries k number : Nat} (htries : k < tries)
    (htaken : ∀ i < k, ¬ d.IsFreeNumber dir name (number + i))
    (hfree : d.IsFreeNumber dir name (number + k)) :
    d.stage dir name tries number = d.createNew (dir.child (stagedName name (number + k))) := by
  induction k generalizing tries number with
  | zero =>
      obtain ⟨tries, rfl⟩ := Nat.exists_eq_add_one_of_ne_zero (Nat.ne_zero_of_lt htries)
      exact stage_free hfree
  | succ k ih =>
      obtain ⟨tries, rfl⟩ := Nat.exists_eq_add_one_of_ne_zero (Nat.ne_zero_of_lt htries)
      have hfirst : ¬ d.IsFreeNumber dir name number := htaken 0 (Nat.succ_pos k)
      rw [stage_taken hfirst, Nat.add_comm k, ← Nat.add_assoc]
      refine ih (Nat.lt_of_succ_lt_succ htries) (fun i hi => ?_) ?_
      · rw [Nat.add_assoc, Nat.add_comm 1]
        exact htaken (i + 1) (Nat.succ_lt_succ hi)
      · rwa [Nat.add_assoc, Nat.add_comm 1]

/-- Staging ends with the first number that is free, and does not run out of tries before. -/
theorem stage_ends (d : Disk) (hname : Path.IsName name) (dir : Path) (number : Nat) :
    ∃ k ≤ d.nodes.size,
      (∀ i < k, ¬ d.IsFreeNumber dir name (number + i)) ∧
      d.IsFreeNumber dir name (number + k) ∧
      ∀ tries > k, d.stage dir name tries number =
        d.createNew (dir.child (stagedName name (number + k))) := by
  classical
  obtain ⟨bound, hbound, hfree⟩ := d.exists_isFreeNumber hname dir number
  have hexists : ∃ k, d.IsFreeNumber dir name (number + k) := ⟨bound, hfree⟩
  refine ⟨Nat.find hexists, Nat.le_trans (Nat.find_min' hexists hfree) hbound,
    fun i hi => Nat.find_min hexists hi, Nat.find_spec hexists, fun tries htries => ?_⟩
  exact stage_of_free htries (fun i hi => Nat.find_min hexists hi) (Nat.find_spec hexists)

/-! ### Moving into place -/

/-- What no directory is takes the entry of the target, unless a directory has it. -/
theorem rename_of_entry {source : Path} {node : Node} (hentry : d.entry source = .ok (place, name))
    (hnode : d.node? (place ++ [name]) = some node) (hne : node ≠ .dir) :
    d.rename source p =
      match d.entry p with
      | .error e => .error e
      | .ok (target, last) =>
        if d.node? (target ++ [last]) = some .dir then .error .isDirectory
        else .ok ((d.drop (place ++ [name])).put (target ++ [last]) node) := by
  rw [rename, hentry]
  cases htarget : d.entry p with
  | error e => rfl
  | ok target =>
      simp only [bind, Except.bind, hnode]
      cases node with
      | dir => exact absurd rfl hne
      | _ =>
          cases hother : d.node? (target.1 ++ [target.2]) with
          | none => rfl
          | some other => cases other <;> rfl

/-- A file in a place changes no entries. -/
theorem TakesFile.entry_put (h : d.TakesFile place) (content : Content) (modified : Int)
    {target : Place × String} :
    (d.put place (.file content modified)).entry p = .ok target ↔ d.entry p = .ok target :=
  ⟨(h.frame_of_put content modified).entry, (h.frame_put content modified).entry⟩

/-- What is written to an open file is all of a content, or some bytes and then it fails. -/
theorem fill_cases (d : Disk) (file : Place) (content : Content) :
    d.fill file content = (d.put file (.file content writeTime), none) ∨
      ∃ written e, d.fill file content = (d.put file (.file written writeTime), some e) := by
  unfold fill
  split
  case h_1 => exact .inl rfl
  case h_2 =>
    split
    case isTrue => exact .inl rfl
    case isFalse => exact .inr ⟨_, _, rfl⟩
  case h_3 => exact .inr ⟨_, _, rfl⟩

section Staged

variable {path : Path} {free : Place} (hentry : d.entry path = .ok (free, name))
  (hfree : d.node? (free ++ [name]) = none) (content : Content)

include hentry hfree

/-- A staged file takes the entry of its target, unless a directory has it. -/
theorem of_rename_staged
    (h : (d.put (free ++ [name]) (.file content writeTime)).rename path p = .ok d') :
    ∃ target last, d.entry p = .ok (target, last) ∧ d.node? (target ++ [last]) ≠ some .dir ∧
      d' = d.put (target ++ [last]) (.file content writeTime) := by
  have htakes := takesFile_of_free hfree
  have hstaged := (htakes.entry_put content writeTime).mpr hentry
  have hnode : (d.put (free ++ [name]) (.file content writeTime)).node? (free ++ [name]) =
      some (.file content writeTime) := node?_put_self (by simp) _
  rw [rename_of_entry hstaged hnode (by simp), drop_put (by simp) hfree] at h
  split at h
  case h_1 => contradiction
  case h_2 target last htarget =>
    split at h
    · contradiction
    case isFalse hother =>
      cases h
      refine ⟨target, last, (htakes.entry_put content writeTime).mp htarget, fun hdir => hother ?_, rfl⟩
      rw [node?_put (by simp), if_neg, hdir]
      rintro heq
      rw [← heq, hfree] at hdir
      contradiction

/-- A staged file that is removed leaves nothing, however much of it was written. -/
theorem discard_staged :
    (d.put (free ++ [name]) (.file content writeTime)).discard ⟨path, free ++ [name]⟩ = d := by
  have htakes := takesFile_of_free hfree
  have hstaged := (htakes.entry_put content writeTime).mpr hentry
  rw [discard, removeFile, hstaged]
  simp only [node?_put (List.concat_ne_nil _ _), if_true, drop_put (List.concat_ne_nil _ _) hfree]

/-- A staged file is gone after it was filled and moved, or after one of these failed. -/
theorem commit_cases (p : Path) :
    (∃ e, (d.put (free ++ [name]) (.file ⟨[]⟩ writeTime)).commit ⟨path, free ++ [name]⟩ p content =
      (d, some e)) ∨
    ∃ target last, d.entry p = .ok (target, last) ∧ d.node? (target ++ [last]) ≠ some .dir ∧
      (d.put (free ++ [name]) (.file ⟨[]⟩ writeTime)).commit ⟨path, free ++ [name]⟩ p content =
        (d.put (target ++ [last]) (.file content writeTime), none) := by
  have hfill := (d.put (free ++ [name]) (.file ⟨[]⟩ writeTime)).fill_cases (free ++ [name]) content
  simp only [put_put] at hfill
  rcases hfill with hfilled | ⟨written, e, hfailed⟩
  · simp only [commit, hfilled]
    split
    case h_1 e _ =>
      rw [discard_staged hentry hfree]
      exact .inl ⟨_, rfl⟩
    case h_2 hmoved =>
      obtain ⟨target, last, htarget, hother, rfl⟩ := of_rename_staged hentry hfree content hmoved
      exact .inr ⟨target, last, htarget, hother, rfl⟩
  · simp only [commit, hfailed]
    rw [discard_staged hentry hfree]
    exact .inl ⟨_, rfl⟩

end Staged

/-! ### Writing -/

/-- The disk with the directories that a write of a path makes. -/
def withParents (d : Disk) (p : Path) : Disk :=
  match writeDir? p with
  | none => d
  | some dir => (d.makeDirs dir).1

theorem extends_withParents (d : Disk) (p : Path) : Extends d (d.withParents p) := by
  rw [withParents]
  cases writeDir? p with
  | none => exact .refl d
  | some dir => exact extends_makeDirs d dir

/-- A write leaves the disk without the content, or puts the content at the entry of the path where
no directory is. In both cases it has made directories before, and that is all it does. -/
theorem atomicWriteFrom_cases (d : Disk) (number : Nat) (p : Path) (content : Content) :
    (∃ e, d.atomicWriteFrom number p content = (d.withParents p, some e)) ∨
      ∃ target last, (d.withParents p).entry p = .ok (target, last) ∧
        (d.withParents p).node? (target ++ [last]) ≠ some .dir ∧
        d.atomicWriteFrom number p content =
          ((d.withParents p).put (target ++ [last]) (.file content writeTime), none) := by
  rw [atomicWriteFrom, withParents]
  cases writeDir? p with
  | none => exact .inl ⟨_, rfl⟩
  | some dir =>
      dsimp only
      generalize d.makeDirs dir = made
      obtain ⟨made, refused⟩ := made
      cases refused with
      | some e => exact .inl ⟨_, rfl⟩
      | none =>
          cases p.fileName? with
          | none => exact .inl ⟨_, rfl⟩
          | some name =>
              dsimp only
              split
              case h_1 => exact .inl ⟨_, rfl⟩
              case h_2 hstaged =>
                obtain ⟨number, hcreated⟩ := of_stage hstaged
                obtain ⟨free, other, hentry, hfree, rfl, rfl⟩ := createNew_eq_ok.mp hcreated
                exact commit_cases hentry hfree content p

/-- A write leaves what has another name. -/
theorem node?_atomicWrite {node : Node} {last : String} (hname : Path.IsName name)
    (hne : last ≠ name) (hnode : d.node? (place ++ [last]) = some node) (content : Content) :
    (d.atomicWrite (dir.child name) content).1.node? (place ++ [last]) = some node := by
  have hmade := (d.extends_withParents (dir.child name)).node _ _ hnode
  rcases d.atomicWriteFrom_cases 0 (dir.child name) content with
    ⟨e, heq⟩ | ⟨target, other, hentry, -, heq⟩
  · rw [atomicWrite, heq]
    exact hmade
  · have hother : target ++ [other] ≠ place ++ [last] := by
      rw [entry_child hname hentry]
      exact fun hplace => hne (List.append_singleton_inj.mp hplace).2.symm
    rw [atomicWrite, heq, node?_put (by simp), if_neg hother]
    exact hmade

end Disk

end Workbench
