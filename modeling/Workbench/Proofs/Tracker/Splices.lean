import Workbench.Proofs.Tracker.Answers

/-!
Splices and the editor. A run with splices is set beside the same run without them. At every moment
the second tracker is what the first would be if no document were spliced, up to marks that the
splices left. So an editor cannot tell the two runs apart, and neither can a reader of a file
without a splice.
-/

namespace Workbench

/-- The document as it is without a splice. -/
def OpenDocument.unspliced (o : OpenDocument) : OpenDocument := ⟨o.editorDocument, none⟩

namespace OpenDocument

variable (o : OpenDocument) (document : Document)

@[simp] theorem editorDocument_unspliced : o.unspliced.editorDocument = o.editorDocument := rfl

@[simp] theorem editorDocument_setEditorDocument :
    (o.setEditorDocument document).editorDocument = document := by
  unfold setEditorDocument
  split
  · rfl
  · rename_i hnone
    rw [editorDocument, hnone]
    rfl

theorem unspliced_setEditorDocument :
    (o.setEditorDocument document).unspliced = o.unspliced.setEditorDocument document := by
  rw [unspliced, editorDocument_setEditorDocument]
  rfl

end OpenDocument

namespace Tracker

/-- Whether an action begins or ends a splice. -/
def Action.isSplice : Action → Bool
  | .beginSplice _ _ | .endSplice _ => true
  | _ => false

/-- The tracker after several actions, each of which finds a disk of its own. -/
def runOver (t : Tracker) (steps : List (Disk × Action)) : Tracker :=
  steps.foldl (fun t (d, action) => t.act d action) t

/-- A run without its splices. -/
def withoutSplices (steps : List (Disk × Action)) : List (Disk × Action) :=
  steps.filter fun (_, action) => !action.isSplice

/-- The document of a file as the editor sees it. -/
def editorDocument? (t : Tracker) (file : FileId) : Option Document :=
  t.documents[file]?.map OpenDocument.editorDocument

/-- Whether readers of a path get a spliced text. -/
def isSpliced (t : Tracker) (d : Disk) (p : Path) : Bool :=
  (t.document? d p).any fun (_, document) => document.editor.isSome

/-- To its editor the first tracker looks like the second, whatever it asks or does next, and so it
does to readers of files without a splice. It marks all files that the second marks. -/
structure LooksLike (t t' : Tracker) : Prop where
  change : ∀ d p version changes,
    (t.change d p version changes).2 = (t'.change d p version changes).2
  closeDocument : ∀ d p, (t.closeDocument d p).2 = (t'.closeDocument d p).2
  version? : ∀ d p, t.version? d p = t'.version? d p
  isOpen : ∀ d p, t.isOpen d p = t'.isOpen d p
  openPaths : t.openPaths = t'.openPaths
  editorDocument? : ∀ file, t.editorDocument? file = t'.editorDocument? file
  contents : ∀ d p, t.isSpliced d p = false → (t.contents d p).2 = (t'.contents d p).2
  changed : ∀ file ∈ t'.changed, file ∈ t.changed

/-! ### A tracker and the same without splices -/

/-- The second tracker is the first without splices, and it marks no more files. -/
structure Unspliced (t t' : Tracker) : Prop where
  registry_eq : t'.registry = t.registry
  documents_eq : t'.documents = t.documents.map fun _ document => document.unspliced
  closed_eq : t'.closed = t.closed
  timeToLive_eq : t'.timeToLive = t.timeToLive
  clock_eq : t'.clock = t.clock
  changed : ∀ file ∈ t'.changed, file ∈ t.changed

variable {t t' : Tracker} {d : Disk} {p : Path} {file : FileId}
  {documents : Std.ExtTreeMap FileId OpenDocument} {document : OpenDocument}

theorem getElem?_map_unspliced :
    (documents.map fun _ document => document.unspliced)[file]? =
      documents[file]?.map OpenDocument.unspliced :=
  Std.ExtTreeMap.getElem?_map

theorem map_unspliced_insert :
    (documents.insert file document).map (fun _ document => document.unspliced) =
      (documents.map fun _ document => document.unspliced).insert file document.unspliced := by
  refine Std.ExtTreeMap.ext_getElem? fun other => ?_
  rw [getElem?_map_unspliced, Std.ExtTreeMap.getElem?_insert, Std.ExtTreeMap.getElem?_insert,
    getElem?_map_unspliced]
  split <;> rfl

theorem map_unspliced_erase :
    (documents.erase file).map (fun _ document => document.unspliced) =
      (documents.map fun _ document => document.unspliced).erase file := by
  refine Std.ExtTreeMap.ext_getElem? fun other => ?_
  rw [getElem?_map_unspliced, Std.ExtTreeMap.getElem?_erase, Std.ExtTreeMap.getElem?_erase,
    getElem?_map_unspliced]
  split <;> rfl

/-- A document may be replaced by one that the editor cannot tell from it. -/
theorem map_unspliced_insert_of_eq {old : OpenDocument} (hold : documents[file]? = some old)
    (h : document.unspliced = old.unspliced) :
    (documents.insert file document).map (fun _ document => document.unspliced) =
      documents.map fun _ document => document.unspliced := by
  refine Std.ExtTreeMap.ext_getElem? fun other => ?_
  rw [map_unspliced_insert, Std.ExtTreeMap.getElem?_insert]
  split
  case isTrue heq =>
    obtain rfl := Std.LawfulEqCmp.eq_of_compare heq
    rw [getElem?_map_unspliced, hold, h]
    rfl
  case isFalse => rfl

theorem getElem?_of_document? (h : t.document? d p = some (file, document)) :
    t.documents[file]? = some document := by
  obtain ⟨id, -, h⟩ := Option.bind_eq_some_iff.mp h
  obtain ⟨found, hfound, h⟩ := Option.bind_eq_some_iff.mp h
  cases h
  exact hfound

theorem document?_of_getElem? (hid : t.id? d p = some file)
    (h : t.documents[file]? = some document) : t.document? d p = some (file, document) := by
  rw [document?, hid, Option.bind_eq_bind, Option.bind_some, h]
  rfl

namespace Unspliced

theorem id? (h : Unspliced t t') (d : Disk) (p : Path) : t'.id? d p = t.id? d p := by
  rw [Tracker.id?, h.registry_eq, Tracker.id?]

theorem path? (h : Unspliced t t') (file : FileId) : t'.path? file = t.path? file := by
  rw [Tracker.path?, h.registry_eq, Tracker.path?]

theorem document? (h : Unspliced t t') (d : Disk) (p : Path) :
    t'.document? d p =
      (t.document? d p).map fun (file, document) => (file, document.unspliced) := by
  rw [Tracker.document?, h.id?, h.documents_eq, Tracker.document?]
  cases t.id? d p with
  | none => rfl
  | some file =>
      simp only [Option.bind_eq_bind, Option.bind_some, getElem?_map_unspliced]
      cases t.documents[file]? <;> rfl

theorem register (h : Unspliced t t') (d : Disk) (p : Path) :
    Unspliced (t.register d p).1 (t'.register d p).1 ∧
      (t'.register d p).2 = (t.register d p).2 := by
  simp only [Tracker.register, h.registry_eq]
  exact ⟨⟨rfl, h.documents_eq, h.closed_eq, h.timeToLive_eq, h.clock_eq, h.changed⟩, trivial⟩

theorem mark (h : Unspliced t t') (file : FileId) : Unspliced (t.mark file) (t'.mark file) where
  registry_eq := h.registry_eq
  documents_eq := h.documents_eq
  closed_eq := h.closed_eq
  timeToLive_eq := h.timeToLive_eq
  clock_eq := h.clock_eq
  changed other hother := by
    rw [Tracker.mark, Std.ExtTreeSet.mem_insert] at hother ⊢
    exact hother.imp_right (h.changed other)

/-- A mark of the first tracker alone. -/
theorem mark_left (h : Unspliced t t') (file : FileId) : Unspliced (t.mark file) t' where
  registry_eq := h.registry_eq
  documents_eq := h.documents_eq
  closed_eq := h.closed_eq
  timeToLive_eq := h.timeToLive_eq
  clock_eq := h.clock_eq
  changed other hother := by
    rw [Tracker.mark, Std.ExtTreeSet.mem_insert]
    exact .inr (h.changed other hother)

theorem forget (h : Unspliced t t') (file : FileId) :
    Unspliced (t.forget file) (t'.forget file) where
  registry_eq := h.registry_eq
  documents_eq := h.documents_eq
  closed_eq := by rw [Tracker.forget, h.closed_eq, Tracker.forget]
  timeToLive_eq := h.timeToLive_eq
  clock_eq := h.clock_eq
  changed := h.changed

theorem keep (h : Unspliced t t') (file : FileId) (text : String) :
    Unspliced (t.keep file text) (t'.keep file text) where
  registry_eq := h.registry_eq
  documents_eq := h.documents_eq
  closed_eq := by rw [Tracker.keep, h.closed_eq, h.clock_eq, Tracker.keep]
  timeToLive_eq := h.timeToLive_eq
  clock_eq := h.clock_eq
  changed := h.changed

theorem insert (h : Unspliced t t') (file : FileId) (document : OpenDocument) :
    Unspliced { t with documents := t.documents.insert file document }
      { t' with documents := t'.documents.insert file document.unspliced } :=
  ⟨h.registry_eq, by rw [h.documents_eq, map_unspliced_insert], h.closed_eq, h.timeToLive_eq,
    h.clock_eq, h.changed⟩

theorem erase (h : Unspliced t t') (file : FileId) :
    Unspliced { t with documents := t.documents.erase file }
      { t' with documents := t'.documents.erase file } :=
  ⟨h.registry_eq, by rw [h.documents_eq, map_unspliced_erase], h.closed_eq, h.timeToLive_eq,
    h.clock_eq, h.changed⟩

/-- The first tracker alone takes another document that looks the same to the editor. -/
theorem insert_left (h : Unspliced t t') {old : OpenDocument}
    (hold : t.documents[file]? = some old) (hsame : document.unspliced = old.unspliced) :
    Unspliced { t with documents := t.documents.insert file document } t' :=
  ⟨h.registry_eq, by rw [h.documents_eq, map_unspliced_insert_of_eq hold hsame], h.closed_eq,
    h.timeToLive_eq, h.clock_eq, h.changed⟩

theorem keptText? (h : Unspliced t t') (file : FileId) :
    Unspliced (t.keptText? file).1 (t'.keptText? file).1 ∧
      (t'.keptText? file).2 = (t.keptText? file).2 := by
  unfold Tracker.keptText?
  rw [h.closed_eq, h.clock_eq, h.timeToLive_eq]
  split
  case h_1 => exact ⟨h, rfl⟩
  case h_2 kept _ =>
    split
    case isTrue =>
      exact ⟨⟨h.registry_eq, h.documents_eq, rfl, rfl, rfl, h.changed⟩, rfl⟩
    case isFalse => exact ⟨h.forget file, rfl⟩

/-- Reading moves both trackers on alike, and answers alike if there is no splice. -/
theorem textOf (h : Unspliced t t') (d : Disk) (file : FileId) (p : Path) :
    Unspliced (t.textOf d file p).1 (t'.textOf d file p).1 ∧
      ((∀ document, t.documents[file]? = some document → document.editor = none) →
        (t.textOf d file p).2 = (t'.textOf d file p).2) := by
  unfold Tracker.textOf
  rw [h.documents_eq, getElem?_map_unspliced]
  cases hdocument : t.documents[file]? with
  | some document =>
      refine ⟨h, fun hnone => ?_⟩
      have heditor := hnone document rfl
      obtain ⟨served, editor⟩ := document
      subst heditor
      rfl
  | none =>
      obtain ⟨hkept, hanswer⟩ := h.keptText? file
      generalize t.keptText? file = found at hkept hanswer
      generalize t'.keptText? file = found' at hkept hanswer
      obtain ⟨t₁, text⟩ := found
      obtain ⟨t₁', text'⟩ := found'
      dsimp only at hkept hanswer
      subst hanswer
      cases text' with
      | some text => exact ⟨hkept, fun _ => rfl⟩
      | none =>
          cases hread : d.text? p with
          | some text =>
              simp only [Option.map_none]
              exact ⟨hkept.keep file text, fun _ => trivial⟩
          | none =>
              simp only [Option.map_none]
              exact ⟨hkept, fun _ => trivial⟩

theorem contents (h : Unspliced t t') (d : Disk) (p : Path) :
    Unspliced (t.contents d p).1 (t'.contents d p).1 ∧
      (t.Sound → t.isSpliced d p = false → (t.contents d p).2 = (t'.contents d p).2) := by
  obtain ⟨hregistered, hfile⟩ := h.register d p
  obtain ⟨hread, hanswer⟩ := hregistered.textOf d (t.register d p).2 p
  simp only [Tracker.contents, hfile]
  refine ⟨hread, fun hsound hspliced => hanswer fun document hdocument => ?_⟩
  have hopen : t.documents[(t.register d p).2]? = some document := hdocument
  cases hid : t.id? d p with
  | some file =>
      rw [register_of_id? hid] at hopen
      rw [isSpliced, document?_of_getElem? hid hopen, Option.any_some] at hspliced
      exact Option.not_isSome_iff_eq_none.mp (Bool.not_eq_true _ ▸ hspliced)
  | none =>
      -- A file that is registered only now has no document.
      rw [hsound.documents _ (path?_register_of_id?_eq_none hid)] at hopen
      contradiction

theorem change (h : Unspliced t t') (d : Disk) (p : Path) (version : Int)
    (changes : List ContentChange) :
    Unspliced (t.change d p version changes).1 (t'.change d p version changes).1 ∧
      (t.change d p version changes).2 = (t'.change d p version changes).2 := by
  unfold Tracker.change
  rw [h.document?]
  cases t.document? d p with
  | none => exact ⟨h, rfl⟩
  | some found =>
      obtain ⟨file, document⟩ := found
      simp only [Option.map_some, OpenDocument.editorDocument_unspliced]
      rw [← OpenDocument.unspliced_setEditorDocument]
      exact ⟨(h.insert file _).mark file, trivial⟩

theorem closeDocument (h : Unspliced t t') (d : Disk) (p : Path) :
    Unspliced (t.closeDocument d p).1 (t'.closeDocument d p).1 ∧
      (t.closeDocument d p).2 = (t'.closeDocument d p).2 := by
  unfold Tracker.closeDocument
  rw [h.document?]
  cases t.document? d p with
  | none => exact ⟨h, rfl⟩
  | some found =>
      obtain ⟨file, document⟩ := found
      exact ⟨((h.erase file).keep file _).mark file, rfl⟩

theorem openDocument (h : Unspliced t t') (d : Disk) (p : Path) (text : String) (version : Int) :
    Unspliced (t.openDocument d p text version).1 (t'.openDocument d p text version).1 := by
  obtain ⟨hregistered, hfile⟩ := h.register d p
  simp only [Tracker.openDocument, hfile]
  exact ((hregistered.insert _ ⟨.ofText text version, none⟩).forget _).mark _

theorem beginSplice (h : Unspliced t t') (d : Disk) (p : Path) (text : String) :
    Unspliced (t.beginSplice d p text).1 t' := by
  unfold Tracker.beginSplice
  split
  case h_1 file served hdocument =>
    have hspliced : OpenDocument.unspliced ⟨served.setText text, some served⟩ =
        OpenDocument.unspliced ⟨served, none⟩ := rfl
    exact (h.insert_left (getElem?_of_document? hdocument) hspliced).mark_left file
  case h_2 => exact h

theorem endSplice (h : Unspliced t t') (d : Disk) (p : Path) :
    Unspliced (t.endSplice d p).1 t' := by
  unfold Tracker.endSplice
  split
  case h_1 file served editor hdocument =>
    have hended : OpenDocument.unspliced ⟨editor, none⟩ =
        OpenDocument.unspliced ⟨served, some editor⟩ := rfl
    exact (h.insert_left (getElem?_of_document? hdocument) hended).mark_left file
  case h_2 => exact h

/-! ### Steps and runs -/

theorem act_left (h : Unspliced t t') (d : Disk) {action : Action}
    (hsplice : action.isSplice = true) : Unspliced (t.act d action) t' := by
  cases action with
  | beginSplice p text => exact h.beginSplice d p text
  | endSplice p => exact h.endSplice d p
  | _ => contradiction

theorem act (h : Unspliced t t') (d : Disk) {action : Action}
    (hsplice : action.isSplice = false) : Unspliced (t.act d action) (t'.act d action) := by
  cases action with
  | openDocument p text version => exact h.openDocument d p text version
  | change p version changes => exact (h.change d p version changes).1
  | closeDocument p => exact (h.closeDocument d p).1
  | beginSplice p text => contradiction
  | endSplice p => contradiction
  | register p => exact (h.register d p).1
  | read p => exact (h.contents d p).1
  | readId file =>
      simp only [Tracker.act, contentsOfId, h.path?]
      cases t.path? file with
      | some p => exact (h.textOf d file p).1
      | none => exact h
  | notify change =>
      obtain ⟨hregistered, hfile⟩ := h.register d change.path
      simp only [Tracker.act, applyFileChange, hfile]
      exact (hregistered.forget _).mark _
  | invalidate p =>
      simp only [Tracker.act, invalidate, h.id?]
      cases t.id? d p with
      | some file => exact h.forget file
      | none => exact h
  | clearMarks files =>
      refine ⟨h.registry_eq, h.documents_eq, h.closed_eq, h.timeToLive_eq, h.clock_eq,
        fun file hfile => ?_⟩
      obtain ⟨hmarked, hkept⟩ := mem_changed_clearMarks.mp hfile
      exact mem_changed_clearMarks.mpr ⟨h.changed file hmarked, hkept⟩
  | wait milliseconds =>
      exact ⟨h.registry_eq, h.documents_eq, h.closed_eq, h.timeToLive_eq,
        congrArg (· + milliseconds) h.clock_eq, h.changed⟩

theorem runOver (h : Unspliced t t') (steps : List (Disk × Action)) :
    Unspliced (t.runOver steps) (t'.runOver (withoutSplices steps)) := by
  induction steps generalizing t t' with
  | nil => exact h
  | cons step rest ih =>
      obtain ⟨d, action⟩ := step
      cases hsplice : action.isSplice with
      | true =>
          rw [withoutSplices, List.filter_cons_of_neg (by simp [hsplice])]
          exact ih (h.act_left d hsplice)
      | false =>
          rw [withoutSplices, List.filter_cons_of_pos (by simp [hsplice])]
          exact ih (h.act d hsplice)

/-- An editor cannot tell the two trackers apart. -/
theorem looksLike (h : Unspliced t t') (hsound : t.Sound) : t.LooksLike t' where
  change d p version changes := (h.change d p version changes).2
  closeDocument d p := (h.closeDocument d p).2
  version? d p := by
    rw [Tracker.version?, Tracker.version?, h.document?, Option.map_map]
    rfl
  isOpen d p := by rw [Tracker.isOpen, Tracker.isOpen, h.document?, Option.isSome_map]
  openPaths := by
    have hpath : t'.path? = t.path? := funext h.path?
    rw [Tracker.openPaths, Tracker.openPaths, h.documents_eq, Std.ExtTreeMap.keys_map, hpath]
  editorDocument? file := by
    rw [Tracker.editorDocument?, Tracker.editorDocument?, h.documents_eq, getElem?_map_unspliced,
      Option.map_map]
    rfl
  contents d p := (h.contents d p).2 hsound
  changed := h.changed

end Unspliced

theorem Sound.runOver (ht : t.Sound) (steps : List (Disk × Action)) :
    (t.runOver steps).Sound := by
  induction steps generalizing t with
  | nil => exact ht
  | cons step rest ih => exact ih (ht.act step.1 step.2)

theorem unspliced_ofLimits (timeToLive capacity : Nat) :
    Unspliced (ofLimits timeToLive capacity) (ofLimits timeToLive capacity) :=
  ⟨rfl, rfl, rfl, rfl, rfl, fun _ => id⟩

/-- At every moment of a run, the tracker looks to an editor like that of the same run without
splices: its edits are answered alike, its documents have the same texts and versions, and readers
of files that are not spliced just then get the same texts. Splices only add marks. -/
theorem looksLike_withoutSplices (timeToLive capacity : Nat) (steps : List (Disk × Action)) :
    ((ofLimits timeToLive capacity).runOver steps).LooksLike
      ((ofLimits timeToLive capacity).runOver (withoutSplices steps)) :=
  ((unspliced_ofLimits timeToLive capacity).runOver steps).looksLike
    ((sound_ofLimits timeToLive capacity).runOver steps)

end Tracker

end Workbench
