import Workbench.Disk.Outside
import Workbench.Proofs.Tracker.Action
import Workbench.Proofs.Tracker.Eviction
import Workbench.Proofs.Tracker.Marks

/-!
What a tracker answers about a file that nobody marks. Reading other files moves kept texts about
and can push some out, time makes them too old, and somebody may drop them; none of this sets a
mark. While a file is not marked and the disk stays as it is, the answer still changes in one case
only: the file is not open, the text that was kept for it is gone in one of these ways, and the disk
is asked.
-/

namespace Workbench.Tracker

variable {t t' t'' : Tracker} {d : Disk} {file : FileId} {p : Path}

/-- A file known by a path: the path leads to its id, or is the one that was registered. -/
def Names (t : Tracker) (d : Disk) (file : FileId) (p : Path) : Prop :=
  t.id? d p = some file ∨ t.path? file = some p

/-- Whether the file of a path is marked as changed. -/
def isMarked (t : Tracker) (d : Disk) (p : Path) : Bool :=
  (t.id? d p).any t.changed.contains

/-- The text that is kept for the file of a path. -/
def kept? (t : Tracker) (d : Disk) (p : Path) : Option String :=
  (t.id? d p).bind fun file => (t.keptText? file).2

theorem Names.of_grows (h : t.registry.Grows t'.registry) (hp : t.Names d file p) :
    t'.Names d file p :=
  hp.imp h.id? h.path?

theorem Names.knows (hp : t.Names d file p) : t.registry.Knows file :=
  hp.elim Registry.knows_of_id? Registry.knows_of_path?

/-! ### What one action can do -/

/-- Between two states nobody touched a file, except to read it: a text that is kept now was kept
before, or it is what the disk holds. -/
structure Spared (d : Disk) (file : FileId) (t t' : Tracker) : Prop where
  document_eq : t'.documents[file]? = t.documents[file]?
  kept : ∀ text, t'.closed.get? file = some text → t.closed.get? file = some text ∨
    ∃ q, t'.Names d file q ∧ d.text? q = some text.text

theorem Spared.refl (d : Disk) (file : FileId) (t : Tracker) : Spared d file t t :=
  ⟨rfl, fun _ h => .inl h⟩

theorem Spared.trans (h : Spared d file t t') (h' : Spared d file t' t'')
    (hlater : t'.Later t'') : Spared d file t t'' where
  document_eq := h'.document_eq.trans h.document_eq
  kept text htext := by
    rcases h'.kept text htext with hbefore | hdisk
    · rcases h.kept text hbefore with hstart | ⟨q, hq, htext⟩
      · exact .inl hstart
      · exact .inr ⟨q, hq.of_grows hlater.grows, htext⟩
    · exact .inr hdisk

/-- What one action can do: it leaves every file alone, or all but one, which is known and marked
after that. -/
inductive Step (d : Disk) (t t' : Tracker) : Prop where
  | spares (hspared : ∀ file, Spared d file t t')
  | touches (touched : FileId) (hknown : t'.registry.Knows touched) (hmark : touched ∈ t'.changed)
      (hspared : ∀ file, file ≠ touched → Spared d file t t')

theorem spared_keptText? (d : Disk) (file : FileId) (t : Tracker) (other : FileId) :
    Spared d file t (t.keptText? other).1 := by
  rcases t.keptText?_cases other with heq | heq | heq <;> rw [heq]
  · exact .refl d file t
  · exact ⟨rfl, fun text h => .inl (ClosedTexts.get?_promote ▸ h)⟩
  · exact ⟨rfl, fun text h => .inl (ClosedTexts.get?_of_get?_erase h).2⟩

theorem spared_textOf (file : FileId) {other : FileId} (hp : t.Names d other p) :
    Spared d file t (t.textOf d other p).1 := by
  have hkept := spared_keptText? d file t other
  rcases t.textOf_cases d other p with heq | heq | ⟨read, heq, -, -, hread⟩ <;> rw [heq]
  · exact .refl d file t
  · exact hkept
  · refine ⟨hkept.document_eq, fun text htext => ?_⟩
    rcases ClosedTexts.get?_of_get?_put htext with ⟨rfl, rfl⟩ | ⟨-, hbefore⟩
    · exact .inr ⟨p, hp.of_grows (t.consulted_keptText? file).grows, hread⟩
    · exact hkept.kept text hbefore

theorem knows_of_document? {document : OpenDocument}
    (h : t.document? d p = some (file, document)) : t.registry.Knows file := by
  obtain ⟨id, hid, h⟩ := Option.bind_eq_some_iff.mp h
  obtain ⟨_, -, h⟩ := Option.bind_eq_some_iff.mp h
  cases h
  exact Registry.knows_of_id? hid

theorem mem_changed_mark (t : Tracker) (file : FileId) : file ∈ (t.mark file).changed :=
  Std.ExtTreeSet.mem_insert_self

theorem getElem?_insert_of_ne {documents : Std.ExtTreeMap FileId OpenDocument}
    {document : OpenDocument} {other : FileId} (h : file ≠ other) :
    (documents.insert other document)[file]? = documents[file]? := by
  rw [Std.ExtTreeMap.getElem?_insert, if_neg (mt Std.LawfulEqCmp.compare_eq_iff_eq.mp h.symm)]

/-- A new document for a file that has one. -/
theorem step_insert {document : OpenDocument} (h : t.document? d p = some (file, document))
    (new : OpenDocument) :
    Step d t (({ t with documents := t.documents.insert file new } : Tracker).mark file) := by
  have hknown := knows_of_document? h
  refine .touches file hknown (mem_changed_mark _ file) fun other hother => ⟨?_, fun _ => .inl⟩
  exact getElem?_insert_of_ne hother

theorem step_act (t : Tracker) (d : Disk) (action : Action) : Step d t (t.act d action) := by
  cases action with
  | openDocument p text version =>
      refine .touches (t.register d p).2 (t.registry.knows_register (d.normalize p))
        (mem_changed_mark _ _) fun other hother => ⟨?_, fun text htext => ?_⟩
      · exact getElem?_insert_of_ne hother
      · exact .inl (ClosedTexts.get?_of_get?_erase htext).2
  | change p version changes =>
      simp only [act, change]
      split
      case h_1 => exact .spares fun other => .refl d other t
      case h_2 id document hopen => exact step_insert hopen _
  | closeDocument p =>
      simp only [act, closeDocument]
      split
      case h_1 => exact .spares fun other => .refl d other t
      case h_2 id document hopen =>
        have hknown := knows_of_document? hopen
        refine .touches id hknown (mem_changed_mark _ _) fun other hother =>
          ⟨?_, fun text htext => ?_⟩
        · rw [Tracker.mark, Tracker.keep, Std.ExtTreeMap.getElem?_erase,
            if_neg (mt Std.LawfulEqCmp.compare_eq_iff_eq.mp hother.symm)]
        · -- The text that is kept now belongs to the closed document, and putting it can only
          -- push out others.
          rcases ClosedTexts.get?_of_get?_put htext with ⟨rfl, -⟩ | ⟨-, hbefore⟩
          · exact absurd rfl hother
          · exact .inl hbefore
  | beginSplice p text =>
      simp only [act, beginSplice]
      split
      case h_1 id served hopen => exact step_insert hopen _
      case h_2 => exact .spares fun other => .refl d other t
  | endSplice p =>
      simp only [act, endSplice]
      split
      case h_1 id served editor hopen => exact step_insert hopen _
      case h_2 => exact .spares fun other => .refl d other t
  | register p => exact .spares fun other => ⟨rfl, fun _ h => .inl h⟩
  | read p =>
      have hnames : (t.register d p).1.Names d (t.register d p).2 p :=
        .inl (t.registry.id?_register (d.normalize p))
      exact .spares fun other =>
        have hread := spared_textOf other hnames
        ⟨hread.document_eq, hread.kept⟩
  | readId file =>
      simp only [act, contentsOfId]
      split
      case h_1 p hp => exact .spares fun other => spared_textOf other (.inr hp)
      case h_2 => exact .spares fun other => .refl d other t
  | notify change =>
      refine .touches (t.register d change.path).2
        (t.registry.knows_register (d.normalize change.path)) (mem_changed_mark _ _)
        fun other hother => ⟨rfl, fun text htext => ?_⟩
      exact .inl (ClosedTexts.get?_of_get?_erase htext).2
  | invalidate p =>
      simp only [act, invalidate]
      split
      case h_1 id hid =>
        exact .spares fun other => ⟨rfl, fun _ h => .inl (ClosedTexts.get?_of_get?_erase h).2⟩
      case h_2 => exact .spares fun other => .refl d other t
  | clearMarks files => exact .spares fun other => ⟨rfl, fun _ h => .inl h⟩
  | wait milliseconds => exact .spares fun other => ⟨rfl, fun _ h => .inl h⟩

/-! ### Runs -/

/-- An action leaves a file alone unless it makes it known and marks it. -/
theorem Step.spared_of_not (h : Step d t t')
    (hnot : t'.registry.Knows file → file ∉ t'.changed) : Spared d file t t' := by
  cases h with
  | spares hspared => exact hspared file
  | touches touched hknown hmark hspared =>
      refine hspared file ?_
      rintro rfl
      exact hnot hknown hmark

theorem Step.spared (h : Step d t t') (hunmarked : file ∉ t'.changed) : Spared d file t t' :=
  h.spared_of_not fun _ => hunmarked

theorem Step.spared_of_unknown (h : Step d t t') (hunknown : t'.path? file = none) :
    Spared d file t t' :=
  h.spared_of_not fun hknown => absurd hunknown hknown

theorem Later.id? (h : t.Later t') (hp : t.id? d p = some file) : t'.id? d p = some file :=
  h.grows.id? hp

theorem Later.eq_of_id? {other : FileId} (h : t.Later t') (hp : t.id? d p = some other)
    (hp' : t'.id? d p = some file) : other = file :=
  Option.some.inj ((h.id? hp).symm.trans hp')

/-- A file that a path leads to only later was not known at all. -/
theorem Later.path?_eq_none (h : t.Later t') (hp : t'.id? d p = some file)
    (hnew : t.id? d p = none) : t.path? file = none := by
  obtain ⟨q, hq, hsame⟩ := t'.registry.inverse.same_of_id? hp
  cases hknown : t.path? file with
  | none => rfl
  | some q' =>
      cases hq.symm.trans (h.grows.path? hknown)
      have hid : t.id? d p = some file :=
        (PathTables.id?_congr (beq_iff_eq.mp hsame)).symm.trans
          (t.registry.inverse.id?_of_path? file q hknown)
      exact absurd (hid.symm.trans hnew) (Option.some_ne_none file)

theorem spared_run (t : Tracker) (actions : List Action)
    (hunmarked : ∀ n, (t.run d (actions.take n)).isMarked d p = false)
    (hp : (t.run d actions).id? d p = some file) : Spared d file t (t.run d actions) := by
  induction actions generalizing t with
  | nil => exact .refl d file t
  | cons action rest ih =>
      have hlater := (t.act d action).later_run d rest
      have hrest := ih (t.act d action) (fun n => hunmarked (n + 1)) hp
      refine Spared.trans ?_ hrest hlater
      -- The file may come up only later in the run. Until then no action can touch it; from then
      -- on its mark would show.
      cases hid : (t.act d action).id? d p with
      | some known =>
          obtain rfl := hlater.eq_of_id? hid hp
          have hmark : (t.act d action).isMarked d p = false := hunmarked 1
          rw [isMarked, hid, Option.any_some, ← Bool.not_eq_true,
            Std.ExtTreeSet.contains_iff_mem] at hmark
          exact (t.step_act d action).spared hmark
      | none => exact (t.step_act d action).spared_of_unknown (hlater.path?_eq_none hp hid)

/-- Documents and kept texts are those of known files. -/
structure Sound (t : Tracker) : Prop where
  documents : ∀ file, t.path? file = none → t.documents[file]? = none
  closed : ∀ file, t.path? file = none → t.closed.get? file = none

theorem sound_ofLimits (timeToLive capacity : Nat) : (ofLimits timeToLive capacity).Sound :=
  ⟨fun _ _ => Std.ExtTreeMap.getElem?_empty, fun _ _ => rfl⟩

theorem Sound.act (ht : t.Sound) (d : Disk) (action : Action) : (t.act d action).Sound := by
  have hlater := t.later_act d action
  have hspared : ∀ file, (t.act d action).path? file = none →
      t.path? file = none ∧ Spared d file t (t.act d action) := by
    intro file hunknown
    refine ⟨?_, (t.step_act d action).spared_of_unknown hunknown⟩
    cases hpath : t.path? file with
    | none => rfl
    | some q => exact (hlater.grows.path? hpath).symm.trans hunknown
  constructor
  · intro file hunknown
    obtain ⟨hbefore, hfile⟩ := hspared file hunknown
    exact hfile.document_eq.trans (ht.documents file hbefore)
  · intro file hunknown
    obtain ⟨hbefore, hfile⟩ := hspared file hunknown
    cases hkept : (t.act d action).closed.get? file with
    | none => rfl
    | some text =>
        rcases hfile.kept text hkept with hstart | ⟨q, hq, -⟩
        · exact hstart.symm.trans (ht.closed file hbefore)
        · exact absurd hunknown hq.knows

theorem Sound.run (ht : t.Sound) (d : Disk) (actions : List Action) : (t.run d actions).Sound := by
  induction actions generalizing t with
  | nil => exact ht
  | cons action rest ih => exact ih (ht.act d action)

/-! ### Answers -/

theorem keptText?_eq_some {text : String} : (t.keptText? file).2 = some text ↔
    ∃ kept, t.closed.get? file = some kept ∧ t.clock - kept.cachedAt < t.timeToLive ∧
      kept.text = text := by
  unfold keptText?
  split
  case h_1 hnone => simp [hnone]
  case h_2 kept hkept =>
    split
    case isTrue hfresh => simp [hkept, hfresh]
    case isFalse hold => simp [hkept, hold]

/-- The open document answers, or else the kept text, or else the disk. -/
theorem textOf_eq (t : Tracker) (d : Disk) (file : FileId) (p : Path) :
    (t.textOf d file p).2 = (t.documents[file]?.map fun document => document.served.text).or
      ((t.keptText? file).2.or (d.text? p)) := by
  unfold textOf
  split
  case h_1 document hopen => rw [hopen]; rfl
  case h_2 hnone =>
    rw [hnone]
    cases t.keptText? file with
    | mk t₁ text =>
        cases text with
        | some text => rfl
        | none =>
            dsimp only
            split
            case h_1 text htext => exact htext.symm
            case h_2 hnone => exact hnone.symm

theorem register_of_id? (h : t.id? d p = some file) : t.register d p = (t, file) := by
  rw [register, Registry.register_of_id? h]

/-- A path that is registered only now gets a new file. -/
theorem path?_register_of_id?_eq_none (h : t.id? d p = none) :
    t.path? (t.register d p).2 = none :=
  Registry.path?_register_of_id?_eq_none h

theorem contents_of_id? (h : t.id? d p = some file) :
    (t.contents d p).2 = (t.textOf d file p).2 := by
  rw [contents, register_of_id? h]

theorem textOf_of_get?_eq_none (hdocument : t.documents[file]? = none)
    (hclosed : t.closed.get? file = none) : (t.textOf d file p).2 = d.text? p := by
  have hkept : (t.keptText? file).2 = none := by rw [keptText?, hclosed]
  rw [textOf_eq, hdocument, hkept]
  rfl

theorem Sound.textOf_of_unknown (ht : t.Sound) (h : t.path? file = none) :
    (t.textOf d file p).2 = d.text? p :=
  textOf_of_get?_eq_none (ht.documents file h) (ht.closed file h)

theorem Sound.contents_of_unknown (ht : t.Sound) (h : t.id? d p = none) :
    (t.contents d p).2 = d.text? p := by
  have hnew := path?_register_of_id?_eq_none h
  have hanswer : (t.contents d p).2 =
      ((t.register d p).1.textOf d (t.register d p).2 p).2 := rfl
  rw [hanswer]
  exact textOf_of_get?_eq_none (ht.documents _ hnew) (ht.closed _ hnew)

/-- The answer for a path as the one for the file that it leads to then or later. -/
theorem Sound.contents_eq (ht : t.Sound) (hlater : t.Later t') (hp : t'.id? d p = some file) :
    (t.contents d p).2 = (t.textOf d file p).2 := by
  cases hknown : t.id? d p with
  | some known =>
      obtain rfl := hlater.eq_of_id? hknown hp
      exact contents_of_id? hknown
  | none =>
      rw [ht.contents_of_unknown hknown, ht.textOf_of_unknown (hlater.path?_eq_none hp hknown)]

theorem Spared.textOf (h : Spared d file t t') (hlater : t.Later t') :
    (t'.textOf d file p).2 = (t.textOf d file p).2 ∨
      t.documents[file]? = none ∧
        ((t'.textOf d file p).2 = d.text? p ∨
          ∃ q, t'.Names d file q ∧ (t'.textOf d file p).2 = d.text? q) := by
  rw [textOf_eq, textOf_eq, h.document_eq]
  cases t.documents[file]? with
  | some document => exact .inl rfl
  | none =>
      cases hkept : (t'.keptText? file).2 with
      | none => exact .inr ⟨rfl, .inl rfl⟩
      | some text =>
          obtain ⟨kept, hfound, hfresh, rfl⟩ := keptText?_eq_some.mp hkept
          rcases h.kept kept hfound with hbefore | ⟨q, hq, hdisk⟩
          · -- A text that is not too old now was not too old before.
            rw [hlater.timeToLive_eq] at hfresh
            have hfresh' := Nat.lt_of_le_of_lt (Nat.sub_le_sub_right hlater.clock_le _) hfresh
            rw [keptText?_eq_some.mpr ⟨kept, hbefore, hfresh', rfl⟩]
            exact .inl rfl
          · exact .inr ⟨rfl, .inr ⟨q, hq, hdisk.symm⟩⟩

theorem kept?_of_id? (h : t.id? d p = some file) : t.kept? d p = (t.keptText? file).2 := by
  rw [kept?, h, Option.bind_some]

theorem isOpen_eq_false : t.isOpen d p = false ↔
    ∀ file, t.id? d p = some file → t.documents[file]? = none := by
  cases hid : t.id? d p with
  | none => simp [isOpen, document?, hid]
  | some file =>
      have hopen : t.isOpen d p = t.documents[file]?.isSome := by
        rw [isOpen, document?, hid]
        cases h : t.documents[file]? with
        | none => simp [h]
        | some document => simp [h]
      rw [hopen, Option.isSome_eq_false_iff, Option.isNone_iff_eq_none]
      constructor
      · intro h other hother
        cases hother
        exact h
      · exact fun h => h file rfl

theorem Later.isOpen_eq_false (h : t.Later t') (hp : t'.id? d p = some file)
    (hdocument : t.documents[file]? = none) : t.isOpen d p = false :=
  Tracker.isOpen_eq_false.mpr fun _ hknown => h.eq_of_id? hknown hp ▸ hdocument

/-- The text that is kept for a file without an open document is the answer. -/
theorem contents_of_kept? {text : String} (h : t.isOpen d p = false)
    (hkept : t.kept? d p = some text) : (t.contents d p).2 = some text := by
  obtain ⟨file, hid, htext⟩ := Option.bind_eq_some_iff.mp hkept
  rw [contents_of_id? hid, textOf_eq, isOpen_eq_false.mp h file hid, htext]
  rfl

theorem Sound.contents_of_nothing_kept (ht : t.Sound) (h : t.isOpen d p = false)
    (hkept : t.kept? d p = none) : (t.contents d p).2 = d.text? p := by
  cases hid : t.id? d p with
  | none => exact ht.contents_of_unknown hid
  | some file =>
      rw [kept?_of_id? hid] at hkept
      rw [contents_of_id? hid, textOf_eq, isOpen_eq_false.mp h file hid, hkept]
      rfl

theorem limits_run (timeToLive capacity : Nat) (d : Disk) (before : List Action) :
    ((ofLimits timeToLive capacity).run d before).timeToLive = timeToLive ∧
      ((ofLimits timeToLive capacity).run d before).closed.capacity = max 1 capacity ∧
      ((ofLimits timeToLive capacity).run d before).closed.Fits := by
  have hlater := (ofLimits timeToLive capacity).later_run d before
  exact ⟨hlater.timeToLive_eq, hlater.capacity_eq,
    hlater.fits (ClosedTexts.fits_ofCapacity capacity)⟩

theorem not_mem_changed_of_unmarked {actions : List Action} (hid : t.id? d p = some file)
    (hunmarked : ∀ n, (t.run d (actions.take n)).isMarked d p = false) (n : Nat) :
    file ∉ (t.run d (actions.take n)).changed := by
  have hmark := hunmarked n
  rw [isMarked, (t.later_run d (actions.take n)).id? hid, Option.any_some] at hmark
  rw [← Std.ExtTreeSet.contains_iff_mem, hmark]
  exact Bool.false_ne_true

/-- A text that is served from memory at the beginning is served at the end too, unless it is too old
by then or some action drops it. -/
theorem kept?_run {actions : List Action} {text : String} (hfits : t.closed.Fits)
    (hunmarked : ∀ n, (t.run d (actions.take n)).isMarked d p = false)
    (hkept : t.kept? d p = some text) :
    ∃ file kept, t.id? d p = some file ∧ t.closed.get? file = some kept ∧ kept.text = text ∧
      ((t.run d actions).kept? d p = some text ∨
        t.timeToLive ≤ (t.run d actions).clock - kept.cachedAt ∨
        ∃ n action, actions[n]? = some action ∧
          Drops t.closed.capacity (t.run d (actions.take n)) d action file kept) := by
  obtain ⟨file, hid, htext⟩ := Option.bind_eq_some_iff.mp hkept
  obtain ⟨kept, hfound, -, rfl⟩ := keptText?_eq_some.mp htext
  have hlater := t.later_run d actions
  refine ⟨file, kept, hid, hfound, rfl, ?_⟩
  have hrun := get?_closed_run hfits hfound actions (not_mem_changed_of_unmarked hid hunmarked)
  rcases hrun with hstays | hgone
  · by_cases hfresh : (t.run d actions).clock - kept.cachedAt < t.timeToLive
    · left
      rw [kept?_of_id? (hlater.id? hid)]
      exact keptText?_eq_some.mpr ⟨kept, hstays, hlater.timeToLive_eq ▸ hfresh, rfl⟩
    · exact .inr (.inl (Nat.le_of_not_lt hfresh))
  · exact .inr hgone

def crowdedDisk : Disk :=
  (({ nodes := ∅, cwd := [] } : Disk).perform
    (.write ⟨"/A.groovy"⟩ (.ofText "saved") 0)).perform
      (.write ⟨"/B.groovy"⟩ (.ofText "other") 0)

def crowdedActions : List Action :=
  [.openDocument ⟨"/A.groovy"⟩ "typed" 1, .closeDocument ⟨"/A.groovy"⟩, .clearMarks [0]]

theorem isMarked_crowded (n : Nat) :
    (((ofLimits 5000 1).run crowdedDisk crowdedActions).run crowdedDisk
      ([Action.read ⟨"/B.groovy"⟩].take n)).isMarked crowdedDisk ⟨"/A.groovy"⟩ = false := by
  cases n with
  | zero => decide +kernel
  | succ n =>
      rw [List.take_succ_cons, List.take_nil]
      decide +kernel

end Workbench.Tracker
