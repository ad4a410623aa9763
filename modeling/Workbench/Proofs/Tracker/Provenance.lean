import Mathlib.Data.List.Induction
import Workbench.Proofs.Tracker.Answers

/-!
Where the kept texts of closed files come from. Whatever happens to a tracker and to the disk, a kept
text is the one an editor left behind when it closed the document, or one that a read found on the
disk, and since then the file was neither opened nor closed, reported nor invalidated. So no open
document has a kept text, and after a report the disk is asked.
-/

namespace Workbench.Tracker

/-- One operation on a tracker. -/
inductive Operation where
  | act (action : Action)
  | mark (file : FileId)

def operate (t : Tracker) (d : Disk) : Operation → Tracker
  | .act action => t.act d action
  | .mark file => t.mark file

/-- The tracker after several operations, each of which finds a disk of its own. -/
def operateAll (t : Tracker) (history : List (Disk × Operation)) : Tracker :=
  history.foldl (fun t step => t.operate step.1 step.2) t

/-- Whether an operation opens or closes the document of a file, brings a watcher's report of it or
invalidates what is kept for it. -/
def Touches (t : Tracker) (d : Disk) (file : FileId) : Operation → Prop
  | .act (.openDocument p _ _) => (t.register d p).2 = file
  | .act (.closeDocument p) => ∃ document, t.document? d p = some (file, document)
  | .act (.notify change) => (t.register d change.path).2 = file
  | .act (.invalidate p) => t.id? d p = some file
  | _ => False

/-- None of some operations touches the file. -/
def LeavesAlone (t : Tracker) (file : FileId) : List (Disk × Operation) → Prop
  | [] => True
  | step :: rest =>
    ¬ t.Touches step.1 file step.2 ∧ (t.operate step.1 step.2).LeavesAlone file rest

/-- A read of the file goes to the disk: it is not open, and no text is kept that is not too old. -/
def AsksDisk (t : Tracker) (file : FileId) : Prop :=
  t.documents[file]? = none ∧ (t.keptText? file).2 = none

/-- Whether an operation hands over a text to keep for a file: it closes a document that has this
text for the editor, or it reads the file and this is what the disk holds. -/
def Yields (t : Tracker) (d : Disk) (file : FileId) (text : String) : Operation → Prop
  | .act (.closeDocument p) =>
    ∃ document, t.document? d p = some (file, document) ∧ document.editorDocument.text = text
  | .act (.read p) => (t.register d p).2 = file ∧ t.AsksDisk file ∧ d.text? p = some text
  | .act (.readId id) =>
    id = file ∧ t.AsksDisk file ∧ ∃ p, t.path? file = some p ∧ d.text? p = some text
  | _ => False

variable {t : Tracker} {d : Disk} {file other : FileId} {p : Path} {entry : FileId × ClosedText}
  {operation : Operation}

/-! ### Reading -/

theorem mem_closed_keptText? (h : entry ∈ (t.keptText? file).1.closed.entries) :
    entry ∈ t.closed.entries := by
  rcases t.keptText?_cases file with heq | heq | heq <;> rw [heq] at h
  · exact h
  · exact ClosedTexts.mem_promote h
  · exact (ClosedTexts.mem_erase.mp h).1

/-- What is kept after a read was kept before, or the disk was asked for it. -/
theorem mem_closed_textOf (h : entry ∈ (t.textOf d file p).1.closed.entries) :
    entry ∈ t.closed.entries ∨
      entry.1 = file ∧ t.AsksDisk file ∧ d.text? p = some entry.2.text := by
  rcases t.textOf_cases d file p with heq | heq | ⟨text, heq, hnone, hkept, htext⟩ <;> rw [heq] at h
  · exact .inl h
  · exact .inl (mem_closed_keptText? h)
  · rcases ClosedTexts.mem_put h with rfl | ⟨hbefore, -⟩
    · exact .inr ⟨rfl, ⟨hnone, hkept⟩, htext⟩
    · exact .inl (mem_closed_keptText? hbefore)

/-! ### One operation -/

/-- What an operation can do to the kept texts. One that is kept afterwards was handed over just
now, and then its file is not open, or it was kept before and its file was not touched. -/
structure Outcome (t : Tracker) (d : Disk) (operation : Operation) (t' : Tracker) : Prop where
  entry : ∀ entry ∈ t'.closed.entries,
    (t.Yields d entry.1 entry.2.text operation ∧ t'.documents[entry.1]? = none) ∨
      (entry ∈ t.closed.entries ∧ ¬ t.Touches d entry.1 operation)
  documents : ∀ file : FileId, ¬ t.Touches d file operation → t.documents[file]? = none →
    t'.documents[file]? = none
  fits : t.closed.Fits → t'.closed.Fits
  capacity_eq : t'.closed.capacity = t.closed.capacity

/-- An operation that neither touches a file nor changes what is kept. -/
theorem outcome_of_closed_eq {t' : Tracker} (hnone : ∀ file, ¬ t.Touches d file operation)
    (hclosed : t'.closed = t.closed)
    (hdocuments : ∀ file : FileId, t.documents[file]? = none → t'.documents[file]? = none) :
    Outcome t d operation t' where
  entry entry hentry := .inr ⟨hclosed ▸ hentry, hnone entry.1⟩
  documents file _ := hdocuments file
  fits h := hclosed ▸ h
  capacity_eq := by rw [hclosed]

/-- A new document for a file that has one opens no other file. -/
theorem getElem?_insert_eq_none {document new : OpenDocument}
    (hopen : t.document? d p = some (file, document)) (hother : t.documents[other]? = none) :
    (t.documents.insert file new)[other]? = none := by
  refine (getElem?_insert_of_ne ?_).trans hother
  rintro rfl
  obtain ⟨id, -, h⟩ := Option.bind_eq_some_iff.mp hopen
  obtain ⟨found, hfound, h⟩ := Option.bind_eq_some_iff.mp h
  cases h
  exact absurd (hfound.symm.trans hother) (Option.some_ne_none _)

/-- An operation that drops what is kept for the one file it touches. -/
theorem outcome_of_erase {t' : Tracker} (hclosed : t'.closed = t.closed.erase other)
    (htouched : ∀ file, t.Touches d file operation → other = file)
    (hdocuments : ∀ file : FileId, other ≠ file → t.documents[file]? = none →
      t'.documents[file]? = none)
    (hself : t.Touches d other operation) :
    Outcome t d operation t' where
  entry entry hentry := by
    rw [hclosed, ClosedTexts.mem_erase] at hentry
    exact .inr ⟨hentry.1, fun htouch => hentry.2 (htouched _ htouch).symm⟩
  documents file huntouched := hdocuments file fun heq => huntouched (heq ▸ hself)
  fits h := hclosed ▸ h.erase other
  capacity_eq := by rw [hclosed]; rfl

theorem outcome_closeDocument (t : Tracker) (d : Disk) (p : Path) :
    Outcome t d (.act (.closeDocument p)) (t.closeDocument d p).1 := by
  unfold closeDocument
  split
  case h_1 hnone =>
    refine outcome_of_closed_eq (fun file => ?_) rfl fun _ => id
    rintro ⟨document, hopen⟩
    rw [hnone] at hopen
    contradiction
  case h_2 id document hopen =>
    refine ⟨fun entry hentry => ?_, fun file _ hfile => ?_, fun _ => ClosedTexts.fits_put _ _ _, rfl⟩
    · rcases ClosedTexts.mem_put hentry with rfl | ⟨hbefore, hne⟩
      · exact .inl ⟨⟨document, hopen, rfl⟩, Std.ExtTreeMap.getElem?_erase_self⟩
      · refine .inr ⟨hbefore, ?_⟩
        rintro ⟨found, hfound⟩
        rw [hopen] at hfound
        cases hfound
        exact hne rfl
    · show (t.documents.erase id)[file]? = none
      rw [Std.ExtTreeMap.getElem?_erase, hfile, ite_self]

theorem asksDisk_register : (t.register d p).1.AsksDisk file ↔ t.AsksDisk file := by
  have hkept : ((t.register d p).1.keptText? file).2 = (t.keptText? file).2 := by
    ext text
    rw [keptText?_eq_some, keptText?_eq_some]
    rfl
  rw [AsksDisk, hkept]
  rfl

/-- A read, after which the path may be known that was not before. -/
theorem outcome_textOf {t₁ : Tracker} (hclosed : t₁.closed = t.closed)
    (hdocuments : t₁.documents = t.documents)
    (hyields : ∀ text, t₁.AsksDisk file → d.text? p = some text → t.Yields d file text operation)
    (hnone : ∀ file, ¬ t.Touches d file operation) :
    Outcome t d operation (t₁.textOf d file p).1 := by
  have hread := (t₁.consulted_textOf d file p).documents_eq
  refine ⟨fun entry hentry => ?_, fun other _ hother => ?_, fun h => ?_, ?_⟩
  · -- The disk is asked only for a file that is not open, and reading does not open it.
    rcases mem_closed_textOf hentry with hbefore | ⟨rfl, hasks, htext⟩
    · exact .inr ⟨hclosed ▸ hbefore, hnone entry.1⟩
    · exact .inl ⟨hyields _ hasks htext, by rw [hread, hasks.1]⟩
  · rw [hread, hdocuments, hother]
  · exact (t₁.consulted_textOf d file p).fits (hclosed ▸ h)
  · rw [(t₁.consulted_textOf d file p).capacity_eq, hclosed]

theorem outcome_operate (t : Tracker) (d : Disk) (operation : Operation) :
    Outcome t d operation (t.operate d operation) := by
  cases operation with
  | mark file => exact outcome_of_closed_eq (fun _ => id) rfl fun _ => id
  | act action =>
    cases action with
    | openDocument p text version =>
        exact outcome_of_erase rfl (fun _ => id)
          (fun file hne hfile => (getElem?_insert_of_ne hne.symm).trans hfile) rfl
    | change p version changes =>
        refine outcome_of_closed_eq (fun _ => id) ?_ fun file hfile => ?_
        · simp only [operate, act, change]
          split <;> rfl
        · simp only [operate, act, change]
          split
          case h_1 => exact hfile
          case h_2 id document hopen => exact getElem?_insert_eq_none hopen hfile
    | closeDocument p => exact t.outcome_closeDocument d p
    | beginSplice p text =>
        refine outcome_of_closed_eq (fun _ => id) ?_ fun file hfile => ?_
        · simp only [operate, act, beginSplice]
          split <;> rfl
        · simp only [operate, act, beginSplice]
          split
          case h_1 id served hopen => exact getElem?_insert_eq_none hopen hfile
          case h_2 => exact hfile
    | endSplice p =>
        refine outcome_of_closed_eq (fun _ => id) ?_ fun file hfile => ?_
        · simp only [operate, act, endSplice]
          split <;> rfl
        · simp only [operate, act, endSplice]
          split
          case h_1 id served editor hopen => exact getElem?_insert_eq_none hopen hfile
          case h_2 => exact hfile
    | register p => exact outcome_of_closed_eq (fun _ => id) rfl fun _ => id
    | read p =>
        refine outcome_textOf rfl rfl (fun text hasks htext => ?_) fun _ => id
        exact ⟨rfl, asksDisk_register.mp hasks, htext⟩
    | readId file =>
        simp only [operate, act, contentsOfId]
        split
        case h_1 p hp =>
          exact outcome_textOf rfl rfl (fun text hasks htext => ⟨rfl, hasks, p, hp, htext⟩)
            fun _ => id
        case h_2 => exact outcome_of_closed_eq (fun _ => id) rfl fun _ => id
    | notify change =>
        exact outcome_of_erase rfl (fun _ => id) (fun _ _ hfile => hfile) rfl
    | invalidate p =>
        simp only [operate, act, invalidate]
        split
        case h_1 id hid =>
          refine outcome_of_erase rfl (fun file hfile => ?_) (fun _ _ hfile => hfile) hid
          exact Option.some.inj (hid.symm.trans hfile)
        case h_2 hnone =>
          refine outcome_of_closed_eq (fun file hfile => ?_) rfl fun _ => id
          exact Option.some_ne_none file (hfile.symm.trans hnone)
    | clearMarks files => exact outcome_of_closed_eq (fun _ => id) rfl fun _ => id
    | wait milliseconds => exact outcome_of_closed_eq (fun _ => id) rfl fun _ => id

/-! ### Histories -/

/-- A text was handed over for a file by one of some operations, and those after it left the file
alone. -/
def HandedOver (t : Tracker) (history : List (Disk × Operation)) (file : FileId) (text : String) :
    Prop :=
  ∃ before d operation after, history = before ++ (d, operation) :: after ∧
    (t.operateAll before).Yields d file text operation ∧
    ((t.operateAll before).operate d operation).LeavesAlone file after

variable {history : List (Disk × Operation)} {step : Disk × Operation} {text : String}

theorem operateAll_append (t : Tracker) (history later : List (Disk × Operation)) :
    t.operateAll (history ++ later) = (t.operateAll history).operateAll later :=
  List.foldl_append

theorem leavesAlone_concat : t.LeavesAlone file (history ++ [step]) ↔
    t.LeavesAlone file history ∧ ¬ (t.operateAll history).Touches step.1 file step.2 := by
  induction history generalizing t with
  | nil => simp [LeavesAlone, operateAll]
  | cons first rest ih =>
      rw [List.cons_append, LeavesAlone, ih, LeavesAlone, and_assoc]
      rfl

theorem handedOver_of_yields (h : (t.operateAll history).Yields step.1 file text step.2) :
    t.HandedOver (history ++ [step]) file text :=
  ⟨history, step.1, step.2, [], rfl, h, trivial⟩

theorem HandedOver.concat (h : t.HandedOver history file text)
    (huntouched : ¬ (t.operateAll history).Touches step.1 file step.2) :
    t.HandedOver (history ++ [step]) file text := by
  obtain ⟨before, d, operation, after, rfl, hyields, halone⟩ := h
  refine ⟨before, d, operation, after ++ [step], by simp, hyields, leavesAlone_concat.mpr ⟨halone, ?_⟩⟩
  rwa [operateAll_append] at huntouched

/-- The kept texts of a tracker that started without any. -/
structure Accounted (t : Tracker) (history : List (Disk × Operation)) : Prop where
  not_open : ∀ entry ∈ (t.operateAll history).closed.entries,
    (t.operateAll history).documents[entry.1]? = none
  handedOver : ∀ entry ∈ (t.operateAll history).closed.entries,
    t.HandedOver history entry.1 entry.2.text
  fits : (t.operateAll history).closed.Fits
  capacity_eq : (t.operateAll history).closed.capacity = t.closed.capacity

theorem accounted_ofLimits (timeToLive capacity : Nat) (history : List (Disk × Operation)) :
    (ofLimits timeToLive capacity).Accounted history := by
  induction history using List.reverseRecOn with
  | nil =>
      exact ⟨fun _ h => absurd h List.not_mem_nil, fun _ h => absurd h List.not_mem_nil,
        ClosedTexts.fits_ofCapacity capacity, rfl⟩
  | append_singleton history step ih =>
      have hstep := outcome_operate ((ofLimits timeToLive capacity).operateAll history) step.1 step.2
      have hend : (ofLimits timeToLive capacity).operateAll (history ++ [step]) =
          ((ofLimits timeToLive capacity).operateAll history).operate step.1 step.2 :=
        operateAll_append _ history [step]
      -- What the last operation did not hand over was kept before it, and it left the file alone.
      constructor
      · intro entry hentry
        rw [hend] at hentry ⊢
        rcases hstep.entry entry hentry with ⟨-, hclosed⟩ | ⟨hbefore, huntouched⟩
        · exact hclosed
        · exact hstep.documents _ huntouched (ih.not_open entry hbefore)
      · intro entry hentry
        rw [hend] at hentry
        rcases hstep.entry entry hentry with ⟨hyields, -⟩ | ⟨hbefore, huntouched⟩
        · exact handedOver_of_yields hyields
        · exact (ih.handedOver entry hbefore).concat huntouched
      · rw [hend]
        exact hstep.fits ih.fits
      · rw [hend, hstep.capacity_eq, ih.capacity_eq]

theorem Sound.operateAll (ht : t.Sound) (history : List (Disk × Operation)) :
    (t.operateAll history).Sound := by
  induction history generalizing t with
  | nil => exact ht
  | cons step rest ih =>
      obtain ⟨d, operation⟩ := step
      cases operation with
      | act action => exact ih (ht.act d action)
      | mark file => exact ih ⟨ht.documents, ht.closed⟩

/-! ### Reports -/

/-- With nothing at hand for a file, a read asks the disk and keeps what it finds. -/
theorem textOf_of_nothing (hdocument : t.documents[file]? = none)
    (hclosed : t.closed.get? file = none) :
    (t.textOf d file p).2 = d.text? p ∧
      (d.text? p = none → (t.textOf d file p).1.closed = t.closed) := by
  refine ⟨textOf_of_get?_eq_none hdocument hclosed, fun hnone => ?_⟩
  rw [textOf, hdocument, keptText?, hclosed]
  simp only [hnone]

/-- After a report of a file that is not open, the disk answers for the path, and nothing is kept if
it has no text. -/
theorem Sound.contents_applyFileChange (ht : t.Sound) (hclosed : t.isOpen d p = false)
    (kind : FileChangeKind) {d' : Disk} (hsame : d'.normalize p = d.normalize p) :
    ((t.applyFileChange d ⟨p, kind⟩).1.contents d' p).2 = d'.text? p ∧
      (d'.text? p = none → ((t.applyFileChange d ⟨p, kind⟩).1.contents d' p).1.closed =
        (t.applyFileChange d ⟨p, kind⟩).1.closed) := by
  have hid : (t.applyFileChange d ⟨p, kind⟩).1.id? d' p = some (t.register d p).2 := by
    rw [id?, hsame]
    exact t.registry.id?_register (d.normalize p)
  have hdocument : t.documents[(t.register d p).2]? = none := by
    cases hknown : t.id? d p with
    | some file =>
        rw [register_of_id? hknown]
        exact isOpen_eq_false.mp hclosed file hknown
    | none => exact ht.documents _ (path?_register_of_id?_eq_none hknown)
  rw [contents, register_of_id? hid]
  exact textOf_of_nothing hdocument ClosedTexts.get?_erase_self

/-- What is kept for closed files, whatever happened to a tracker and to the disk. No file is open
and has a kept text; there are no more kept texts than there is room for; each was the editor's when
it closed the document, or found on the disk by a read, and since then nobody opened or closed the
file, reported it or invalidated it. So the disk answers right after a report of a file that is not
open, whatever has become of the disk as long as the path leads to the same file, and nothing is kept
if it has no text. -/
theorem kept_operateAll (timeToLive capacity : Nat) (history : List (Disk × Operation))
    (t : Tracker) (ht : (ofLimits timeToLive capacity).operateAll history = t) :
    (∀ file kept, (file, kept) ∈ t.closed.entries → t.documents[file]? = none) ∧
    t.closed.entries.length ≤ max 1 capacity ∧
    (∀ file kept, (file, kept) ∈ t.closed.entries →
      (ofLimits timeToLive capacity).HandedOver history file kept.text) ∧
    ∀ (d d' : Disk) (p : Path) (kind : FileChangeKind), t.isOpen d p = false →
      d'.normalize p = d.normalize p →
      ((t.applyFileChange d ⟨p, kind⟩).1.contents d' p).2 = d'.text? p ∧
        (d'.text? p = none → ((t.applyFileChange d ⟨p, kind⟩).1.contents d' p).1.closed =
          (t.applyFileChange d ⟨p, kind⟩).1.closed) := by
  subst ht
  have haccounted := accounted_ofLimits timeToLive capacity history
  have hsound := (sound_ofLimits timeToLive capacity).operateAll history
  refine ⟨fun file kept => haccounted.not_open (file, kept), ?_,
    fun file kept => haccounted.handedOver (file, kept),
    fun d d' p kind hclosed hsame => hsound.contents_applyFileChange hclosed kind hsame⟩
  have hfits := haccounted.fits
  rw [ClosedTexts.Fits, haccounted.capacity_eq] at hfits
  exact hfits

/-- An editor closes a spliced document, and somebody reads another file and marks the first. -/
def splicedAndClosed : List (Disk × Operation) :=
  [(crowdedDisk, .act (.openDocument ⟨"/A.groovy"⟩ "typed" 1)),
    (crowdedDisk, .act (.beginSplice ⟨"/A.groovy"⟩ "spliced")),
    (crowdedDisk, .act (.closeDocument ⟨"/A.groovy"⟩)),
    (crowdedDisk, .act (.read ⟨"/B.groovy"⟩)),
    (crowdedDisk, .mark 0)]

theorem kept_operateAll_splicedAndClosed :
    ∃ t, (ofLimits 5000 2).operateAll splicedAndClosed = t ∧
      (0, ⟨"typed", 0⟩) ∈ t.closed.entries ∧ t.documents[0]? = none ∧
      (ofLimits 5000 2).HandedOver splicedAndClosed 0 "typed" ∧
      (1, ⟨"other", 0⟩) ∈ t.closed.entries ∧ t.documents[1]? = none ∧
      (ofLimits 5000 2).HandedOver splicedAndClosed 1 "other" ∧
      t.isOpen crowdedDisk ⟨"/A.groovy"⟩ = false ∧
      ((t.applyFileChange crowdedDisk ⟨⟨"/A.groovy"⟩, .modified⟩).1.contents crowdedDisk
        ⟨"/A.groovy"⟩).2 = some "saved" := by
  obtain ⟨hopen, -, hhanded, hreport⟩ := kept_operateAll 5000 2 splicedAndClosed _ rfl
  have htyped : (0, ⟨"typed", 0⟩) ∈
      ((ofLimits 5000 2).operateAll splicedAndClosed).closed.entries := by
    decide +kernel
  have hother : (1, ⟨"other", 0⟩) ∈
      ((ofLimits 5000 2).operateAll splicedAndClosed).closed.entries := by
    decide +kernel
  have hclosed : ((ofLimits 5000 2).operateAll splicedAndClosed).isOpen crowdedDisk
      ⟨"/A.groovy"⟩ = false := by
    decide +kernel
  have hsaved : crowdedDisk.text? ⟨"/A.groovy"⟩ = some "saved" := by decide +kernel
  refine ⟨_, rfl, htyped, hopen 0 _ htyped, hhanded 0 _ htyped, hother, hopen 1 _ hother,
    hhanded 1 _ hother, hclosed, ?_⟩
  rw [(hreport crowdedDisk crowdedDisk ⟨"/A.groovy"⟩ .modified hclosed rfl).1, hsaved]

end Workbench.Tracker
