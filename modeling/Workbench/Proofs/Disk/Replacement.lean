import Workbench.Proofs.Disk.Staging
import Workbench.Proofs.Disk.Tree

/-!
Replacing the content of a record. A write makes the directories that are missing on the way to the
record. Then it puts the content at the record's entry, or it fails and leaves everything else as it
was. What the path names afterwards is the content, unless the entry was a link that the path itself
goes through to get to its directory.
-/

namespace Workbench.Disk

variable {d made : Disk} {p : Path} {start place : Place} {steps done : List Step} {name : String}

/-! ### Directories that are made -/

theorem IsTree.put_dir (h : d.IsTree) (hdir : d.node? place = some .dir) (hname : Path.IsName name)
    (hlength : name.utf8ByteSize ≤ maxNameBytes) (hfree : d.node? (place ++ [name]) = none) :
    (d.put (place ++ [name]) .dir).IsTree := by
  have hextends := Extends.put hfree .dir
  refine ⟨fun other node hnode => ?_, hextends.node _ _ h.cwd⟩
  rw [put, Std.ExtTreeMap.getElem?_insert] at hnode
  split at hnode
  case isTrue heq =>
    cases Std.LawfulEqCmp.eq_of_compare heq
    rw [List.dropLast_concat, List.getLast?_concat]
    exact ⟨hextends.node _ _ hdir, name, rfl, hname, hlength⟩
  case isFalse =>
    obtain ⟨hparent, hlast⟩ := h.entry other node hnode
    exact ⟨hextends.node _ _ hparent, hlast⟩

theorem chase_concat_stay {links : Nat} {found : Place} (hdir : d.node? found = some .dir) :
    d.chase links start (steps ++ [.stay]) = .ok (.found found) ↔
      d.chase links start steps = .ok (.found found) := by
  rw [chase_moves hdir, chase_moves hdir links steps, moves_append]
  show d.chase links start (moves steps ++ []) = _ ↔ _
  rw [List.append_nil]

/-- A way that has led to a directory goes on from there. -/
theorem chase_concat {links : Nat}
    (h : d.chase links start (done ++ [.stay]) = .ok (.found place)) :
    d.node? place = some .dir ∧
      ∃ fewer, ∀ step, d.chase links start (done ++ [step]) = d.chase fewer place [step] := by
  obtain ⟨fewer, dir, hdir, hsame⟩ := chase_init h
  rw [hsame, chase_stay hdir] at h
  cases h
  exact ⟨hdir, fewer, hsame⟩

theorem chase_concat_into {links : Nat}
    (h : d.chase links start (done ++ [.stay]) = .ok (.found place))
    (hlength : name.utf8ByteSize ≤ maxNameBytes) (hdir : d.node? (place ++ [name]) = some .dir) :
    d.chase links start (done ++ [.into name]) = .ok (.found (place ++ [name])) := by
  obtain ⟨hplace, fewer, hsame⟩ := chase_concat h
  rw [hsame, chase_into_node hplace hlength hdir Node.not_isLink_dir]

theorem chase_concat_up {links : Nat}
    (h : d.chase links start (done ++ [.stay]) = .ok (.found place)) :
    d.chase links start (done ++ [.up]) = .ok (.found place.dropLast) := by
  obtain ⟨hplace, fewer, hsame⟩ := chase_concat h
  rw [hsame]
  exact chase_of_found (by rw [advance_up hplace, advance_nil])

/-- A place that is found behind the steps that are done and some of those that come next. -/
def Behind (d : Disk) (start : Place) (done steps : List Step) (other : Place) : Prop :=
  ∃ init, init <+: steps ∧ d.chase maxLinks start (done ++ init) = .ok (.found other)

theorem Behind.cons {step : Step} {other : Place}
    (h : d.Behind start (done ++ [step]) steps other) : d.Behind start done (step :: steps) other := by
  obtain ⟨init, hinit, hchase⟩ := h
  rw [List.append_assoc] at hchase
  exact ⟨step :: init, List.cons_prefix_cons.mpr ⟨rfl, hinit⟩, hchase⟩

/-- The directories that are made along a way are found on this way. The induction is on the rest of
the way, and what is done of it leads to where the rest begins. -/
theorem node?_makeAlong (htree : d.IsTree)
    (hdone : d.chase maxLinks start (done ++ [.stay]) = .ok (.found place))
    (hnames : ∀ name, .into name ∈ steps → Path.IsName name)
    (hmade : (d.makeAlong start done place steps).1 = made) {other : Place} {node : Node}
    (hnode : made.node? other = some node) :
    d.node? other = some node ∨ node = .dir ∧ made.Behind start done steps other := by
  induction steps generalizing d done place with
  | nil =>
      subst hmade
      exact .inl hnode
  | cons step rest ih =>
      have hrest : ∀ name, .into name ∈ rest → Path.IsName name := fun name hmem =>
        hnames name (List.mem_cons_of_mem step hmem)
      -- One step, after which the rest is made from the next directory.
      have hbehind {d : Disk} {next : Place} (htree : d.IsTree) (hdir : d.node? next = some .dir)
          (hstep : d.chase maxLinks start (done ++ [step]) = .ok (.found next))
          (hmade : (d.makeAlong start (done ++ [step]) next rest).1 = made) :
          d.node? other = some node ∨ node = .dir ∧ made.Behind start done (step :: rest) other :=
        (ih htree ((chase_concat_stay hdir).mpr hstep) hrest hmade).imp_right fun h =>
          ⟨h.1, h.2.cons⟩
      have hplace := (chase_concat hdone).1
      cases step with
      | stay => exact hbehind htree hplace hdone hmade
      | up => exact hbehind htree (htree.dir_dropLast hplace) (chase_concat_up hdone) hmade
      | into name =>
          rw [makeAlong] at hmade
          split at hmade
          · subst hmade
            exact .inl hnode
          case isFalse hlong =>
            have hlength := Nat.le_of_not_lt hlong
            split at hmade
            case h_1 hfree =>
              -- The directory is made here, and it is found here on all that the disk grows to.
              have hextends := Extends.put hfree .dir
              have hnew := d.node?_put_self (List.concat_ne_nil name place) .dir
              have hfound := chase_concat_into (hextends.frame.chase_dir hdone hplace) hlength hnew
              have hlater := extends_makeAlong (d.put (place ++ [name]) .dir) start (place ++ [name])
                (done ++ [.into name]) rest
              rw [hmade] at hlater
              rcases hbehind (htree.put_dir hplace (hnames name List.mem_cons_self) hlength hfree)
                hnew hfound hmade with hbefore | hmade
              · rw [node?_put (List.concat_ne_nil name place)] at hbefore
                split at hbefore
                case isTrue heq =>
                  subst heq
                  cases hbefore
                  have hhere := hlater.frame.chase_dir hfound hnew
                  exact .inr ⟨rfl, [.into name], List.prefix_append [_] rest, hhere⟩
                case isFalse => exact .inl hbefore
              · exact .inr hmade
            case h_2 hdir => exact hbehind htree hdir (chase_concat_into hdone hlength hdir) hmade
            case h_3 =>
              split at hmade
              case h_1 next hnext =>
                have hdir := (chase_concat hnext).1
                exact hbehind htree hdir ((chase_concat_stay hdir).mp hnext) hmade
              case h_2 =>
                subst hmade
                exact .inl hnode

/-- Going on from where one came out of removed directories. -/
theorem leave_append {removed : Nat} {left : List Step} (h : leave removed steps = .ok (some left)) :
    ∃ before, steps = before ++ left ∧
      ∀ others, leave removed (before ++ others) = .ok (some others) := by
  induction steps generalizing removed with
  | nil =>
      cases removed with
      | zero =>
          cases h
          exact ⟨[], rfl, leave_zero⟩
      | succ removed => cases h
  | cons step rest ih =>
      cases removed with
      | zero =>
          cases h
          exact ⟨[], rfl, leave_zero⟩
      | succ removed =>
          cases step with
          | stay =>
              obtain ⟨before, rfl, hbefore⟩ := ih h
              exact ⟨.stay :: before, rfl, hbefore⟩
          | up =>
              obtain ⟨before, rfl, hbefore⟩ := ih h
              exact ⟨.up :: before, rfl, hbefore⟩
          | into name => cases h

/-- A place that a path leads through. -/
def LeadsThrough (d : Disk) (p : Path) (place : Place) : Prop :=
  ∃ init, init <+: p.steps ∧ d.follow p init = .ok (.found place)

theorem node?_makeFrom (htree : d.IsTree) (hrefused : p.refusal? = none)
    (hmade : (d.makeFrom p).1 = made) {other : Place} {node : Node}
    (hnode : made.node? other = some node) :
    d.node? other = some node ∨ node = .dir ∧ made.LeadsThrough p other := by
  have hextends : Extends d made := hmade ▸ extends_makeFrom d p
  have hstart {start : Place} (hdir : d.node? start = some .dir) :
      d.chase maxLinks start ([] ++ [.stay]) = .ok (.found start) := chase_stay hdir
  rw [makeFrom] at hmade
  split at hmade
  case isTrue habsolute =>
    rcases node?_makeAlong htree (hstart d.node?_nil) (fun _ => Path.isName_of_mem_steps) hmade
      hnode with hbefore | ⟨hdir, init, hinit, hchase⟩
    · exact .inl hbefore
    · have hfollow := (follow_of_isAbsolute habsolute).mpr ⟨hrefused, hchase⟩
      exact .inr ⟨hdir, init, hinit, hfollow⟩
  case isFalse habsolute =>
    split at hmade
    case h_1 left hleave =>
      obtain ⟨before, hsteps, hbefore⟩ := leave_append hleave
      have hnames : ∀ name, .into name ∈ left → Path.IsName name := fun name hmem =>
        Path.isName_of_mem_steps (hsteps ▸ List.mem_append_right before hmem)
      rcases node?_makeAlong htree (hstart htree.cwd) hnames hmade hnode with
        hold | ⟨hdir, init, hinit, hchase⟩
      · exact .inl hold
      · refine .inr ⟨hdir, before ++ init, ?_, ?_⟩
        · rw [hsteps]
          exact (List.prefix_append_right_inj before).mpr hinit
        · simp only [follow, hrefused, habsolute, hextends.removed_eq, hbefore, hextends.cwd_eq]
          exact hchase
    all_goals
      subst hmade
      exact .inl hnode

theorem node?_makeDirs (htree : d.IsTree) (hmade : (d.makeDirs p).1 = made) {other : Place}
    {node : Node} (hnode : made.node? other = some node) :
    d.node? other = some node ∨ node = .dir ∧ made.LeadsThrough p other := by
  rw [makeDirs] at hmade
  split at hmade
  case isTrue =>
    subst hmade
    exact .inl hnode
  case isFalse hmissing =>
    have hne : p.text ≠ "" := fun hempty => hmissing (by simp [hempty])
    split at hmade
    case h_3 hvacant => exact node?_makeFrom htree (refusal?_of_follow hvacant) hmade hnode
    case h_4 hnone => exact node?_makeFrom htree (refusal?_of_notFound hne hnone) hmade hnode
    all_goals
      subst hmade
      exact .inl hnode

/-- A disk and one with the directories that were missing on the way to the directory of a path.
All that was there before is still there. -/
structure AddsParents (d made : Disk) (p : Path) : Prop where
  kept : Extends d made
  added : ∀ place node, made.node? place = some node → d.node? place = some node ∨
    node = .dir ∧ ∃ dir, writeDir? p = some dir ∧ made.LeadsThrough dir place

theorem addsParents_withParents (htree : d.IsTree) (p : Path) :
    d.AddsParents (d.withParents p) p := by
  refine ⟨d.extends_withParents p, fun place node hnode => ?_⟩
  rw [withParents] at hnode ⊢
  cases hdir : writeDir? p with
  | none =>
      rw [hdir] at hnode
      exact .inl hnode
  | some dir =>
      rw [hdir] at hnode
      exact (node?_makeDirs htree rfl hnode).imp_right fun h => ⟨h.1, dir, rfl, h.2⟩

/-! ### Reading what was written -/

/-- A path goes through the link that stands at its entry, for without the link the path has the
entry no more. -/
def GoesThroughEntry (d : Disk) (p : Path) : Prop :=
  ∃ dir name target, d.entry p = .ok (dir, name) ∧
    d.node? (dir ++ [name]) = some (.link target) ∧
    (d.drop (dir ++ [name])).entry p ≠ .ok (dir, name)

/-- A path whose entry is no link does not go through it. -/
theorem not_goesThroughEntry (h : ∀ target, d.lstat? p ≠ some (.link target)) :
    ¬ d.GoesThroughEntry p := by
  rintro ⟨dir, name, target, hentry, hlink, -⟩
  exact h target ((lstat?_of_entry hentry).trans hlink)

/-- A path that has its entry without what stands there does not go through it. -/
theorem not_goesThroughEntry_of_drop {dir : Place} (hentry : d.entry p = .ok (dir, name))
    (hbare : (d.drop (dir ++ [name])).entry p = .ok (dir, name)) : ¬ d.GoesThroughEntry p := by
  rintro ⟨dir', name', target, hentry', -, hlost⟩
  cases hentry.symm.trans hentry'
  exact hlost hbare

section Written

variable {dir : Place} (hentry : d.entry p = .ok (dir, name)) (content : Content)

include hentry

/-- A file in the place of its entry leaves a path its entry, unless the path goes through what
stood there. -/
theorem entry_put_of_not_goesThroughEntry (hother : d.node? (dir ++ [name]) ≠ some .dir)
    (hway : ¬ d.GoesThroughEntry p) :
    (d.put (dir ++ [name]) (.file content writeTime)).entry p = .ok (dir, name) := by
  have hbare : (d.drop (dir ++ [name])).entry p = .ok (dir, name) := by
    by_cases hlink : ∃ target, d.node? (dir ++ [name]) = some (.link target)
    · obtain ⟨target, hlink⟩ := hlink
      by_contra hlost
      exact hway ⟨dir, name, target, hentry, hlink, hlost⟩
    · exact (takesFile_of_ne hother (not_exists.mp hlink)).frame_drop.entry hentry
  have hfree : (d.drop (dir ++ [name])).node? (dir ++ [name]) = none := node?_drop_self (by simp)
  have hwritten := (Extends.put hfree (.file content writeTime)).frame.entry hbare
  rwa [put_drop] at hwritten

theorem bytes?_put_of_not_goesThroughEntry (hother : d.node? (dir ++ [name]) ≠ some .dir)
    (hway : ¬ d.GoesThroughEntry p) :
    (d.put (dir ++ [name]) (.file content writeTime)).bytes? p = some content.bytes := by
  have hwritten := entry_put_of_not_goesThroughEntry hentry content hother hway
  have hstat := stat_of_entry hwritten (node?_put_self (by simp) _)
    (Node.not_isLink_file content writeTime)
  simp only [bytes?, file?, hstat, Option.map_some]

/-- Where the link was, there is the file now, and a way does not go on through a file. -/
theorem bytes?_put_of_goesThroughEntry (hway : d.GoesThroughEntry p) :
    (d.put (dir ++ [name]) (.file content writeTime)).bytes? p = none := by
  obtain ⟨dir', name', target, hentry', hlink, hlost⟩ := hway
  cases hentry.symm.trans hentry'
  obtain ⟨init, hsteps, hlength, -⟩ := entry_eq_ok.mp hentry
  have hfree : (d.drop (dir ++ [name])).node? (dir ++ [name]) = none := node?_drop_self (by simp)
  have htakes := takesFile_of_free hfree
  have hextends := Extends.put hfree (.link target)
  rw [put_drop, put_self (by simp) hlink] at hextends
  rw [← put_drop]
  by_contra hread
  obtain ⟨⟨content', modified⟩, hfile⟩ : ∃ file, ((d.drop (dir ++ [name])).put (dir ++ [name])
      (.file content writeTime)).file? p = some file := by
    rw [bytes?, Option.map_eq_none_iff] at hread
    exact Option.ne_none_iff_exists'.mp hread
  -- What is read has an entry, and a file in the place of the link does not help to find it.
  obtain ⟨found, hlook, -⟩ := file?_eq_some.mp hfile
  rw [look, hsteps] at hlook
  obtain ⟨other, hother⟩ := exists_entry hlook hsteps hlength rfl rfl
  have hbare := (htakes.entry_put content writeTime).mp hother
  cases hentry.symm.trans (hextends.frame.entry hbare)
  exact hlost hbare

end Written

/-! ### All or nothing -/

/-- A write makes the directories that are missing on the way to its path. Then it puts the content
at the entry, or it fails and does nothing more, also where a staged file was filled in part only.
What was put is read back, unless the path goes through the link that was its entry. Staging ends
whatever names are taken. -/
theorem atomicWrite_all_or_nothing (htree : d.IsTree) (number : Nat) (p : Path)
    (content : Content) :
    (∀ d', d.atomicWriteFrom number p content = (d', none) →
      ∃ made dir name, d.AddsParents made p ∧ made.entry p = .ok (dir, name) ∧
        made.node? (dir ++ [name]) ≠ some .dir ∧
        d' = made.put (dir ++ [name]) (.file content writeTime) ∧
        (made.GoesThroughEntry p → d'.bytes? p = none) ∧
        (¬ made.GoesThroughEntry p → d'.bytes? p = some content.bytes)) ∧
    (∀ d' e, d.atomicWriteFrom number p content = (d', some e) → d.AddsParents d' p) ∧
    ∀ (staging : Disk) (dir : Path) (name : String), p.fileName? = some name →
      ∃ k ≤ staging.nodes.size,
        (∀ i < k, ¬ staging.IsFreeNumber dir name (number + i)) ∧
        staging.IsFreeNumber dir name (number + k) ∧
        ∀ tries > k, staging.stage dir name tries number =
          staging.createNew (dir.child (stagedName name (number + k))) := by
  have hparents := addsParents_withParents htree p
  refine ⟨fun d' hwritten => ?_, fun d' e hfailed => ?_, fun staging dir name hname => ?_⟩
  · obtain ⟨e, heq⟩ | ⟨dir, name, hentry, hother, heq⟩ := d.atomicWriteFrom_cases number p content
    · cases heq.symm.trans hwritten
    · cases heq.symm.trans hwritten
      exact ⟨_, dir, name, hparents, hentry, hother, rfl,
        bytes?_put_of_goesThroughEntry hentry content,
        bytes?_put_of_not_goesThroughEntry hentry content hother⟩
  · obtain ⟨e, heq⟩ | ⟨dir, name, -, -, heq⟩ := d.atomicWriteFrom_cases number p content
    · cases heq.symm.trans hfailed
      exact hparents
    · cases heq.symm.trans hfailed
  · exact staging.stage_ends (Path.isName_of_fileName? hname) dir number

/-! The first number is taken, and the directory of the record is missing. Then there is also no
room for all of the record. -/

def takenNumber : Disk where
  nodes := .ofList [(["c"], .dir), (["c", "r"], .dir), (["c", "r", "x.1-0.staged"], .file ⟨[]⟩ 0)]
    Place.order
  cwd := ["c"]

def crowdedDevice : Disk := { takenNumber with fault := some (.full 1) }

theorem atomicWrite_all_or_nothing_taken :
    (takenNumber.IsTree ∧ ∃ d',
      takenNumber.atomicWrite ⟨"r/new/../x"⟩ ⟨[7]⟩ = (d', none) ∧
      d'.bytes? ⟨"r/new/../x"⟩ = some [7] ∧ d'.node? ["c", "r", "new"] = some .dir ∧
      d'.node? ["c", "r", "x.1-1.staged"] = none ∧
      ∃ made dir name, takenNumber.AddsParents made ⟨"r/new/../x"⟩ ∧
        made.entry ⟨"r/new/../x"⟩ = .ok (dir, name) ∧
        d' = made.put (dir ++ [name]) (.file ⟨[7]⟩ writeTime)) ∧
    crowdedDevice.IsTree ∧ ∃ d',
      crowdedDevice.atomicWrite ⟨"r/new/../x"⟩ ⟨[7, 8]⟩ = (d', some (.disk .noSpace)) ∧
      crowdedDevice.AddsParents d' ⟨"r/new/../x"⟩ := by
  have htree : takenNumber.IsTree ∧ crowdedDevice.IsTree := by
    constructor <;> decide +kernel
  have hok : (takenNumber.atomicWrite ⟨"r/new/../x"⟩ ⟨[7]⟩).2 = none := by decide +kernel
  have hfull : (crowdedDevice.atomicWrite ⟨"r/new/../x"⟩ ⟨[7, 8]⟩).2 = some (.disk .noSpace) := by
    decide +kernel
  obtain ⟨hwritten, -, -⟩ := atomicWrite_all_or_nothing htree.1 0 ⟨"r/new/../x"⟩ ⟨[7]⟩
  obtain ⟨made, dir, name, hmade, hentry, -, heq, -, -⟩ := hwritten _ (Prod.ext rfl hok)
  obtain ⟨-, hfailed, -⟩ := atomicWrite_all_or_nothing htree.2 0 ⟨"r/new/../x"⟩ ⟨[7, 8]⟩
  refine ⟨⟨htree.1, _, Prod.ext rfl hok, by decide +kernel, by decide +kernel, by decide +kernel,
    made, dir, name, hmade, hentry, heq⟩, htree.2, _, Prod.ext rfl hfull, ?_⟩
  exact hfailed _ _ (Prod.ext rfl hfull)

/-! A link that is replaced under the way that leads through it, and a record that is a missing
directory on its own way. -/

def linkedRecord : Disk where
  nodes := .ofList [(["sub"], .dir), (["l"], .link "sub")] Place.order
  cwd := []

def bare : Disk where
  nodes := ∅
  cwd := []

theorem not_atomicWrite_all_or_nothing :
    (linkedRecord.IsTree ∧ (linkedRecord.atomicWrite ⟨"l/../l"⟩ ⟨[7]⟩).2 = none ∧
      (linkedRecord.atomicWrite ⟨"l/../l"⟩ ⟨[7]⟩).1.bytes? ⟨"l/../l"⟩ ≠ some [7]) ∧
    bare.IsTree ∧ (bare.atomicWrite ⟨"x/../x"⟩ ⟨[7]⟩).2 = some (.disk .isDirectory) ∧
      bare.stat ⟨"x"⟩ = .error .notFound ∧
      (bare.atomicWrite ⟨"x/../x"⟩ ⟨[7]⟩).1.stat ⟨"x"⟩ = .ok .dir := by
  refine ⟨⟨?_, ?_, ?_⟩, ?_, ?_, ?_, ?_⟩ <;> decide +kernel

end Workbench.Disk
