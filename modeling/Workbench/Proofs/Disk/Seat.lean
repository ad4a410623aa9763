import Workbench.Proofs.Disk.Staging

/-!
The place of a record. Once its lock has been taken, the directory of a record is there, and so the
record has an entry in it; taking the lock again changes nothing. Writing the record then either
changes nothing or puts the content at this place and does nothing else.
-/

namespace Workbench

namespace Disk

variable {d d' : Disk} {p dir : Path} {name : String} {place : Place} {content : Content}

/-! ### Seats -/

/-- The name of the lock file of a record. -/
def lockName (name : String) : String := name ++ ".lock"

theorem isName_lockName (h : Path.IsName name) : Path.IsName (lockName name) :=
  h.append (by decide) (by decide)

/-- A record has its entry in a place, its lock has been taken, and its directory may be looked
up. -/
structure Seat (d : Disk) (dir : Path) (name : String) (place : Place) : Prop where
  entry : d.entry (dir.child name) = .ok (place, name)
  lockFile : d.HasFile (dir.child (lockName name))
  reachable : (Path.ofComponents dir.components).text = "" ∨
    (Path.ofComponents dir.components).refusal? = none

theorem exists_seat (hname : Path.IsName name)
    (h : d.lock (dir.child (lockName name)) = (d', none)) : ∃ place, d'.Seat dir name place := by
  obtain ⟨hfile, hreachable⟩ := of_lock h
  have hlock := isName_lockName hname
  obtain ⟨init, hsteps⟩ := dir.exists_steps_child
  obtain ⟨found, node, hlook, hnode, hisfile⟩ := hfile
  have hfollow := hlook
  rw [look, hsteps _ hlock] at hfollow
  have hlocktext : dir.child (lockName name) = ⟨(dir.child name).text ++ ".lock"⟩ :=
    Path.child_append hname.2 (by decide)
  have hrefused : (dir.child (lockName name)).refusal? = none := by
    cases hp : (dir.child (lockName name)).refusal? with
    | none => rfl
    | some e => simp [follow, hp] at hfollow
  have hrefused' : (dir.child name).refusal? = none := by
    rw [hlocktext] at hrefused
    refine Path.refusal?_of_append ?_ hrefused
    intro hempty
    have hcomponents := Path.components_child (p := dir) hname
    rw [show dir.child name = ⟨""⟩ from congrArg Path.mk hempty] at hcomponents
    exact absurd hcomponents.symm (by simp [show (Path.mk "").components = [] from by decide])
  have hlength : name.utf8ByteSize ≤ maxNameBytes := by
    obtain ⟨links, middle, -, hsame⟩ := follow_init (by simp) (ne_removed_of_follow hfollow) hfollow
    have hlocklength := length_of_chase_into (hsame _ ▸ hfollow)
    rw [lockName, String.utf8ByteSize_append] at hlocklength
    omega
  obtain ⟨place, hentry⟩ := exists_entry hfollow (hsteps name hname) hlength
    (hrefused'.trans hrefused.symm)
    ((Path.isAbsolute_child hname.2).trans (Path.isAbsolute_child hlock.2).symm)
  exact ⟨place, hentry, ⟨found, node, hlook, hnode, hisfile⟩,
    hreachable _ (Path.parent?_child hlock)⟩

namespace Seat

variable (h : d.Seat dir name place) (hname : Path.IsName name)

include h

section

include hname

/-- The directory of a record is there, however it is written. -/
theorem isDir_of_components {other : Path} (hrefused : other.refusal? = none)
    (habsolute : other.isAbsolute = dir.isAbsolute)
    (hcomponents : dir.components.filterMap Component.step? =
      other.components.filterMap Component.step?) : d.isDir other := by
  refine isDir_iff.mpr (.inr ⟨place, look_dir_of_entry h.entry hrefused ?_ ?_,
    (look_of_entry h.entry).1⟩)
  · rw [habsolute, Path.isAbsolute_child hname.2]
  · rw [Path.components_child hname, List.filterMap_append, hcomponents]
    rfl

theorem isDir_parent (hne : (Path.ofComponents dir.components).text ≠ "") :
    d.isDir (Path.ofComponents dir.components) := by
  have hcomponents := Path.components_ofComponents dir
  exact h.isDir_of_components hname (h.reachable.resolve_left hne)
    (Path.isAbsolute_congr hcomponents) (by rw [hcomponents])

theorem isDir_writeDir {other : Path} (hother : writeDir? (dir.child name) = some other) :
    d.isDir other := by
  rw [writeDir?, Path.parent?_child hname, Option.map_some, Option.some.injEq] at hother
  split at hother
  case isTrue hempty =>
    subst hother
    have hdir : Path.ofComponents dir.components = ⟨""⟩ :=
      congrArg Path.mk (String.isEmpty_iff.mp hempty)
    have hnil : dir.components = (Path.mk "").components := by
      rw [← Path.components_ofComponents, hdir]
    exact h.isDir_of_components hname (by decide) (Path.isAbsolute_congr hnil).symm
      (by rw [hnil]; decide)
  case isFalse hne =>
    subst hother
    exact h.isDir_parent hname fun hempty => hne (String.isEmpty_iff.mpr hempty)

theorem lock_eq : d.lock (dir.child (lockName name)) = (d, none) := by
  refine lock_eq_self h.lockFile fun parent hparent => ?_
  rw [Path.parent?_child (isName_lockName hname), Option.some.injEq] at hparent
  subst hparent
  by_cases hempty : (Path.ofComponents dir.components).text = ""
  · exact .inl hempty
  · exact .inr (h.isDir_parent hname hempty)

/-- Writing something in the directory of a record makes no directories. -/
theorem withParents_eq {other : String} (hother : Path.IsName other) :
    d.withParents (dir.child other) = d := by
  have hdirs : writeDir? (dir.child other) = writeDir? (dir.child name) := by
    rw [writeDir?, writeDir?, Path.parent?_child hother, Path.parent?_child hname]
  rw [withParents, hdirs]
  cases hparent : writeDir? (dir.child name) with
  | none => rfl
  | some parent =>
      dsimp only
      rw [makeDirs, h.isDir_writeDir hname hparent, Bool.or_true, if_pos rfl]

/-- Writing a record changes nothing, or puts the content at the record's place. -/
theorem atomicWrite_eq (content : Content) :
    (∃ e, d.atomicWrite (dir.child name) content = (d, some e)) ∨
      d.atomicWrite (dir.child name) content =
        (d.put (place ++ [name]) (.file content writeTime), none) ∧
      d.node? (place ++ [name]) ≠ some .dir := by
  have hcases := d.atomicWriteFrom_cases 0 (dir.child name) content
  rw [h.withParents_eq hname hname, ← atomicWrite] at hcases
  rcases hcases with ⟨e, heq⟩ | ⟨target, last, hentry, hother, heq⟩
  · exact .inl ⟨e, heq⟩
  · cases h.entry.symm.trans hentry
    exact .inr ⟨heq, hother⟩

end

/-- Writing the record or something beside it leaves the seat. -/
theorem put {other : Place} (hother : d.TakesFile other) (content : Content) (modified : Int) :
    (d.put other (.file content modified)).Seat dir name place :=
  ⟨(hother.frame_put content modified).entry h.entry, hother.hasFile_put content modified h.lockFile,
    h.reachable⟩

end Seat

end Disk

end Workbench
