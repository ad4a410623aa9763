import Workbench.Proofs.Maps
import Workbench.Proofs.Scope.Marks
import Workbench.Proofs.Text.Lines
import Workbench.Proofs.Tracker.Provenance
import Workbench.Proofs.Tracker.Splices
import Workbench.Scope.Placeholder
import Workbench.Toy.Compiler

/-!
A document while a scope is read with a token in it, and afterwards. From the beginning of the
splice to its end the tracker serves the text with the token, whatever the compile asks it and
whatever edits arrive; these go to the editor's document, which comes back when the splice ends. If
there is no answer, nothing has happened at all.
-/

namespace Workbench

open Text

/-- A token can be inserted exactly at the positions that name a place in the text, and then it
stands there. -/
theorem insertToken?_eq_some_iff {text token spliced : String} {position : Position} :
    insertToken? text position token = some spliced ↔
      ∃ before after, position.Divides text.toList before after ∧
        spliced = String.ofList (before ++ token.toList ++ after) := by
  have happly {before after : List Char} (h : position.Divides text.toList before after) :
      (TextEdit.insertAt (byteSize before) token).applyTo? text =
        some (String.ofList (before ++ token.toList ++ after)) := by
    rw [← TextEdit.applyTo?_insertAt, h.append_eq, String.ofList_toList]
  simp only [insertToken?, LineTable.ofText, Option.bind_eq_bind, Option.bind_eq_some_iff,
    LineTable.offset?_eq_some_iff]
  constructor
  · rintro ⟨_, ⟨before, after, hdivides, rfl⟩, hspliced⟩
    rw [happly hdivides] at hspliced
    exact ⟨before, after, hdivides, (Option.some.inj hspliced).symm⟩
  · rintro ⟨before, after, hdivides, rfl⟩
    exact ⟨_, ⟨before, after, hdivides, rfl⟩, happly hdivides⟩

/-! ### Edits -/

/-- A change call for a document. -/
structure Edit where
  path : Path
  version : Int
  changes : List ContentChange

/-- A document after some edits. -/
def Document.editAll (document : Document) (edits : List Edit) : Document :=
  edits.foldl (fun document edit => (document.applyChanges edit.version edit.changes).1) document

namespace Tracker

def editAll (t : Tracker) (d : Disk) (edits : List Edit) : Tracker :=
  edits.foldl (fun t edit => (t.change d edit.path edit.version edit.changes).1) t

/-- Whether a compile does an operation: it looks things up, and it clears and sets marks. -/
def Operation.isOfCompile : Operation → Bool
  | .act (.clearMarks _) => true
  | .act action => action.isLookup
  | .mark _ => true

/-- A tracker answers with a text for a path and for the file that it names. -/
structure Serves (t : Tracker) (d : Disk) (p : Path) (file : FileId) (text : String) : Prop where
  contents_eq : (t.contents d p).2 = some text
  contentsOfId_eq : (t.contentsOfId d file).2 = some text

/-- A tracker serves one document for a file and keeps another for the editor; all other documents
are given. -/
structure Splices (t : Tracker) (d : Disk) (p : Path) (file : FileId) (served editor : Document)
    (documents : Std.ExtTreeMap FileId OpenDocument) : Prop where
  id?_eq : t.id? d p = some file
  documents_eq : t.documents = documents.insert file ⟨served, some editor⟩

variable {t : Tracker} {d : Disk} {p : Path} {file : FileId} {served editor : Document}
  {documents : Std.ExtTreeMap FileId OpenDocument} {operation : Operation}
  {operations : List Operation}

theorem document?_eq_some_iff {document : OpenDocument} :
    t.document? d p = some (file, document) ↔
      t.id? d p = some file ∧ t.documents[file]? = some document := by
  refine ⟨fun h => ⟨?_, getElem?_of_document? h⟩, fun h => document?_of_getElem? h.1 h.2⟩
  obtain ⟨id, hid, h⟩ := Option.bind_eq_some_iff.mp h
  obtain ⟨_, -, h⟩ := Option.bind_eq_some_iff.mp h
  cases h
  exact hid

/-- Asking for the text of an open document leaves the tracker as it is. -/
theorem contentsOfId_of_document? {document : OpenDocument}
    (h : t.document? d p = some (file, document)) :
    t.contentsOfId d file = (t, some document.served.text) := by
  obtain ⟨hid, hopen⟩ := document?_eq_some_iff.mp h
  obtain ⟨q, hq, -⟩ := t.registry.inverse.same_of_id? hid
  have hpath : t.path? file = some q := hq
  rw [contentsOfId, hpath]
  simp only [textOf, hopen]

theorem serves_of_document? {document : OpenDocument}
    (h : t.document? d p = some (file, document)) : t.Serves d p file document.served.text where
  contents_eq := by
    obtain ⟨hid, hopen⟩ := document?_eq_some_iff.mp h
    rw [contents_of_id? hid, textOf_eq, hopen]
    rfl
  contentsOfId_eq := by rw [contentsOfId_of_document? h]

theorem spliceToken?_eq_some_iff {position : Position} {token : String} {t' : Tracker} :
    t.spliceToken? d p position token = some (t', file) ↔
      ∃ served before after, t.document? d p = some (file, ⟨served, none⟩) ∧
        position.Divides served.text.toList before after ∧
        t' = (t.beginSplice d p (String.ofList (before ++ token.toList ++ after))).1 := by
  unfold spliceToken?
  simp only [Option.bind_eq_bind, Option.bind_eq_some_iff, Prod.exists]
  constructor
  · rintro ⟨id, ⟨served, editor⟩, hdocument, _, hspliced, h⟩
    obtain ⟨before, after, hdivides, rfl⟩ := insertToken?_eq_some_iff.mp hspliced
    cases editor with
    | none =>
        simp only [beginSplice, hdocument, Option.some.injEq, Prod.mk.injEq] at h
        obtain ⟨rfl, rfl⟩ := h
        exact ⟨served, before, after, hdocument, hdivides, by rw [beginSplice, hdocument]⟩
    | some editor => simp [beginSplice, hdocument] at h
  · rintro ⟨served, before, after, hdocument, hdivides, rfl⟩
    refine ⟨file, _, hdocument, _, insertToken?_eq_some_iff.mpr ⟨before, after, hdivides, rfl⟩, ?_⟩
    simp [beginSplice, hdocument]

theorem splices_beginSplice (h : t.document? d p = some (file, ⟨served, none⟩)) (text : String) :
    (t.beginSplice d p text).1.Splices d p file (served.setText text) served t.documents := by
  rw [beginSplice, h]
  exact ⟨(document?_eq_some_iff.mp h).1, rfl⟩

namespace Splices

variable (h : t.Splices d p file served editor documents)

include h

theorem document?_eq : t.document? d p = some (file, ⟨served, some editor⟩) :=
  document?_of_getElem? h.id?_eq (by rw [h.documents_eq, Std.ExtTreeMap.getElem?_insert_self])

theorem serves : t.Serves d p file served.text := serves_of_document? h.document?_eq

theorem consulted {t' : Tracker} (hconsulted : t.Consulted t') :
    t'.Splices d p file served editor documents :=
  ⟨hconsulted.grows.id? h.id?_eq, hconsulted.documents_eq.trans h.documents_eq⟩

theorem operate (hoperation : operation.isOfCompile) :
    (t.operate d operation).Splices d p file served editor documents := by
  cases operation with
  | mark other => exact ⟨h.id?_eq, h.documents_eq⟩
  | act action =>
      cases action with
      | register q => exact h.consulted (t.consulted_register d q)
      | readId other => exact h.consulted (t.consulted_contentsOfId d other)
      | clearMarks files => exact ⟨h.id?_eq, h.documents_eq⟩
      | _ => contradiction

theorem operateAll (hoperations : ∀ operation ∈ operations, operation.isOfCompile) :
    (t.operateAll (operations.map (Prod.mk d))).Splices d p file served editor documents := by
  induction operations generalizing t with
  | nil => exact h
  | cons operation rest ih =>
      obtain ⟨hoperation, hrest⟩ := List.forall_mem_cons.mp hoperations
      exact ih (h.operate hoperation) hrest

/-- An edit goes to the editor's document. -/
theorem change {edit : Edit} (hpath : d.normalize edit.path = d.normalize p) :
    (t.change d edit.path edit.version edit.changes).1.Splices d p file served
      (editor.applyChanges edit.version edit.changes).1 documents := by
  have hdocument : t.document? d edit.path = some (file, ⟨served, some editor⟩) := by
    rw [document?, id?, hpath]
    exact h.document?_eq
  rw [Tracker.change, hdocument]
  refine ⟨h.id?_eq, ?_⟩
  show t.documents.insert file _ = _
  rw [h.documents_eq, insert_insert]
  rfl

theorem editAll {edits : List Edit}
    (hpaths : ∀ edit ∈ edits, d.normalize edit.path = d.normalize p) :
    (t.editAll d edits).Splices d p file served (editor.editAll edits) documents := by
  induction edits generalizing t editor with
  | nil => exact h
  | cons edit rest ih =>
      obtain ⟨hpath, hrest⟩ := List.forall_mem_cons.mp hpaths
      exact ih (h.change hpath) hrest

/-- When the splice ends the editor's document is served again, and the file is marked. -/
theorem endSplice : (t.endSplice d p).1.documents = documents.insert file ⟨editor, none⟩ ∧
    file ∈ (t.endSplice d p).1.changed := by
  rw [Tracker.endSplice, h.document?_eq]
  refine ⟨?_, mem_changed_mark _ file⟩
  show t.documents.insert file _ = _
  rw [h.documents_eq, insert_insert]

end Splices

end Tracker

namespace Scope

variable {κ : Type} [Compiler κ]

/-! ### The compile -/

theorem isOfCompile_of_isLookup {action : Tracker.Action} (h : action.isLookup) :
    (Tracker.Operation.act action).isOfCompile := by
  cases action with
  | register p => rfl
  | readId file => rfl
  | _ => contradiction

theorem operateAll_acts (t : Tracker) (d : Disk) (actions : List Tracker.Action) :
    t.operateAll ((actions.map Tracker.Operation.act).map (Prod.mk d)) = t.run d actions := by
  rw [Tracker.operateAll, List.foldl_map, List.foldl_map]
  rfl

theorem operateAll_marks (t : Tracker) (d : Disk) (files : List FileId) :
    t.operateAll ((files.map Tracker.Operation.mark).map (Prod.mk d)) =
      files.foldl Tracker.mark t := by
  rw [Tracker.operateAll, List.foldl_map, List.foldl_map]
  rfl

/-- All that a refresh does to the tracker are operations of a compile, one after another. -/
theorem exists_operations_refresh (s : Scope) (c : CompileConfig) (d : Disk) (b : Bench κ)
    (asked : Option FileId) :
    ∃ operations : List Tracker.Operation, (∀ operation ∈ operations, operation.isOfCompile) ∧
      (s.refresh c d b asked).1.tracker = b.tracker.operateAll (operations.map (Prod.mk d)) := by
  obtain ⟨t, ⟨actions, hactions, rfl⟩, hleft⟩ := s.lookedUp_refresh c d b asked
  let marks := if (s.refresh c d b asked).2.2.outcome = .failed then s.pending c b.tracker else []
  -- Both sets of marks are cleared first; after all lookups a failed compile marks its files again.
  refine ⟨.act (.clearMarks (s.ignored c b.tracker)) ::
    .act (.clearMarks (s.pending c b.tracker)) ::
      (actions.map .act ++ marks.map .mark), fun operation hoperation => ?_, ?_⟩
  · simp only [List.mem_cons, List.mem_append, List.mem_map] at hoperation
    rcases hoperation with rfl | rfl | ⟨action, haction, rfl⟩ | ⟨file, -, rfl⟩
    · rfl
    · rfl
    · exact isOfCompile_of_isLookup (hactions action haction)
    · rfl
  · rw [hleft, List.map_cons, List.map_cons, List.map_append]
    show _ = Tracker.operateAll ((b.clearMarks _).clearMarks _).tracker _
    rw [Tracker.operateAll_append, operateAll_acts, operateAll_marks]
    split <;> simp [marks, *]

/-! ### The whole read -/

variable {α : Type}

/-- The read with a token, step by step, with what each step leaves behind whether or not there is an
answer in the end. -/
def tryPlaceholder (s : Scope) (c : CompileConfig) (d : Disk) (b : Bench κ) (p : Path)
    (position : Position) (token : String) (read : Bench κ → Scope → FileId → Bench κ × α) :
    Bench κ × Scope × Option (CompileReport × α) :=
  if b.tracker.isOpen d p then
    let (tracker, file) := b.tracker.register d p
    let (tracker, original) := tracker.contentsOfId d file
    match original.bind fun text => insertToken? text position token with
    | none => ({ b with tracker }, s, none)
    | some spliced =>
      match tracker.beginSplice d p spliced with
      | (tracker, none) => ({ b with tracker }, s, none)
      | (tracker, some _) =>
        let (b, s, report) := s.refresh c d { b with tracker } (some file)
        let (b, answer) := read b s file
        ({ b with tracker := (b.tracker.endSplice d p).1 }, s, some (report, answer))
  else (b, s, none)

/-- The steps come to the same end. Where there is no answer they leave everything as it was. -/
theorem tryPlaceholder_eq (s : Scope) (c : CompileConfig) (d : Disk) (b : Bench κ) (p : Path)
    (position : Position) (token : String) (read : Bench κ → Scope → FileId → Bench κ × α) :
    s.tryPlaceholder c d b p position token read =
      ((s.withPlaceholder c d b p position token read).map fun result =>
        (result.1, result.2.1, some result.2.2)).getD (b, s, none) := by
  unfold tryPlaceholder withPlaceholder Tracker.spliceToken? Tracker.isOpen
  cases hdocument : b.tracker.document? d p with
  | none => rfl
  | some found =>
      obtain ⟨file, served, editor⟩ := found
      have hregister := Tracker.register_of_id? (Tracker.document?_eq_some_iff.mp hdocument).1
      simp only [Option.isSome_some, if_true, hregister,
        Tracker.contentsOfId_of_document? hdocument, Option.bind_some, Option.bind_eq_bind]
      cases insertToken? served.text position token with
      | none => rfl
      | some spliced => cases editor <;> simp [Tracker.beginSplice, hdocument]

/-- A reader that sends edits and has an answer. -/
def editing (d : Disk) (edits : Bench κ → Scope → FileId → List Edit)
    (answer : Bench κ → Scope → FileId → α) (b : Bench κ) (s : Scope) (file : FileId) :
    Bench κ × α :=
  ({ b with tracker := b.tracker.editAll d (edits b s file) }, answer b s file)

/-- What a read with a token goes through: the document before it, divided where the token goes, the
operations of the compile on the tracker, and what the reader finds. -/
structure Course (κ : Type) where
  file : FileId
  document : Document
  before : List Char
  after : List Char
  operations : List Tracker.Operation
  compiled : Bench κ

/-- The text with the token. -/
def Course.text (r : Course κ) (token : String) : String :=
  String.ofList (r.before ++ token.toList ++ r.after)

/-- A read with a token takes this course. The compile does operations of its own kind only, and the
text with the token is served whatever it has done of them, and after any of the reader's edits.
Afterwards the document is what the edits make of the one before, without a splice, and all other
documents are as before. -/
structure Takes (s : Scope) (c : CompileConfig) (d : Disk) (b : Bench κ) (p : Path)
    (position : Position) (token : String) (edits : Bench κ → Scope → FileId → List Edit)
    (r : Course κ) (b' : Bench κ) (s' : Scope) (report : CompileReport) : Prop where
  document?_eq : b.tracker.document? d p = some (r.file, ⟨r.document, none⟩)
  divides : position.Divides r.document.text.toList r.before r.after
  offset?_eq : (LineTable.ofText r.document.text).offset? position = some (byteSize r.before)
  refresh_eq : s.refresh c d { b with tracker := (b.tracker.beginSplice d p (r.text token)).1 }
    (some r.file) = (r.compiled, s', report)
  isOfCompile : ∀ operation ∈ r.operations, operation.isOfCompile
  tracker_eq : r.compiled.tracker =
    (b.tracker.beginSplice d p (r.text token)).1.operateAll (r.operations.map (Prod.mk d))
  during_compile : ∀ operations : List Tracker.Operation,
    (∀ operation ∈ operations, operation.isOfCompile) →
      ((b.tracker.beginSplice d p (r.text token)).1.operateAll (operations.map (Prod.mk d))).Serves
        d p r.file (r.text token)
  during_read : ∀ n, (r.compiled.tracker.editAll d ((edits r.compiled s' r.file).take n)).Serves
    d p r.file (r.text token)
  documents_eq : b'.tracker.documents = b.tracker.documents.insert r.file
    ⟨r.document.editAll (edits r.compiled s' r.file), none⟩
  changed : r.file ∈ b'.tracker.changed

/-- Reading a scope with a token in a document restores the document, whatever the compiler answers
and whatever edits of the document the reader sends. Without an answer nothing has happened: either
the document is not open, or it is spliced already, or the position names no place in its text. -/
theorem withPlaceholder_restores (s : Scope) (c : CompileConfig) (d : Disk) (b : Bench κ) (p : Path)
    (position : Position) (token : String) (edits : Bench κ → Scope → FileId → List Edit)
    (answer : Bench κ → Scope → FileId → α)
    (hedits : ∀ b s file, ∀ edit ∈ edits b s file, d.normalize edit.path = d.normalize p) :
    (s.withPlaceholder c d b p position token (editing d edits answer) = none →
      s.tryPlaceholder c d b p position token (editing d edits answer) = (b, s, none) ∧
      ¬ ∃ file document before after, b.tracker.document? d p = some (file, ⟨document, none⟩) ∧
        position.Divides document.text.toList before after) ∧
    ∀ b' s' report value,
      s.withPlaceholder c d b p position token (editing d edits answer) =
        some (b', s', report, value) →
      s.tryPlaceholder c d b p position token (editing d edits answer) =
        (b', s', some (report, value)) ∧
      ∃ r : Course κ, s.Takes c d b p position token edits r b' s' report ∧
        value = answer r.compiled s' r.file := by
  have hsteps := s.tryPlaceholder_eq c d b p position token (editing d edits answer)
  refine ⟨fun hnone => ⟨by rw [hsteps, hnone]; rfl, ?_⟩, fun b' s' report value hsome =>
    ⟨by rw [hsteps, hsome]; rfl, ?_⟩⟩
  · -- A document that is open, not spliced and has the position can be spliced, and then there is
    -- an answer.
    rintro ⟨file, document, before, after, hdocument, hdivides⟩
    have hsplice : b.tracker.spliceToken? d p position token = some (_, file) :=
      Tracker.spliceToken?_eq_some_iff.mpr ⟨document, before, after, hdocument, hdivides, rfl⟩
    rw [withPlaceholder, hsplice] at hnone
    contradiction
  · obtain ⟨⟨spliced, file⟩, hsplice, hresult⟩ := Option.bind_eq_some_iff.mp hsome
    obtain ⟨document, before, after, hdocument, hdivides, hspliced⟩ :=
      Tracker.spliceToken?_eq_some_iff.mp hsplice
    -- The splice lasts from its beginning through the compile and the edits to its end.
    have hstart := Tracker.splices_beginSplice hdocument
      (String.ofList (before ++ token.toList ++ after))
    rw [← hspliced] at hstart
    obtain ⟨operations, hoperations, hcompiled⟩ :=
      s.exists_operations_refresh c d { b with tracker := spliced } (some file)
    cases hrefresh : s.refresh c d { b with tracker := spliced } (some file) with
    | mk compiled rest =>
        obtain ⟨s₁, report₁⟩ := rest
        rw [hrefresh] at hcompiled
        simp only [hrefresh, editing, Option.pure_def, Option.some.injEq, Prod.mk.injEq] at hresult
        obtain ⟨rfl, rfl, rfl, rfl⟩ := hresult
        have hread := hcompiled ▸ hstart.operateAll hoperations
        obtain ⟨hdocuments, hchanged⟩ := (hread.editAll (hedits compiled s₁ file)).endSplice
        subst hspliced
        exact ⟨⟨file, document, before, after, operations, compiled⟩, {
          document?_eq := hdocument
          divides := hdivides
          offset?_eq := LineTable.offset?_eq_some_iff.mpr ⟨before, after, hdivides, rfl⟩
          refresh_eq := hrefresh
          isOfCompile := hoperations
          tracker_eq := hcompiled
          during_compile := fun _ hothers => (hstart.operateAll hothers).serves
          during_read := fun n => (hread.editAll fun edit hedit =>
            hedits compiled s₁ file edit (List.mem_of_mem_take hedit)).serves
          documents_eq := hdocuments
          changed := hchanged }, rfl⟩

/-! A document is read with a token behind a character of two units, and meanwhile its editor
replaces the whole of it. -/

def typedBench : Bench Toy.CompilerState :=
  { tracker := ((Tracker.ofLimits 5000 256).openDocument Tracker.crowdedDisk ⟨"/A.groovy"⟩
      "/*𝄞*/class A \x7b\n\x7d\n" 1).1
    compiler := {} }

def replaceAll (_ : Bench Toy.CompilerState) (_ : Scope) (_ : FileId) : List Edit :=
  [⟨⟨"/./A.groovy"⟩, 2, [⟨none, "class B \x7b\n\x7d\n"⟩]⟩]

def readTyped (position : Position) :
    Option (Bench Toy.CompilerState × Scope × CompileReport × FileId) :=
  (ofRoot Tracker.crowdedDisk ⟨"/"⟩).withPlaceholder {} Tracker.crowdedDisk typedBench
    ⟨"/A.groovy"⟩ position "new Lost() " (editing Tracker.crowdedDisk replaceAll fun _ _ file => file)

theorem withPlaceholder_restores_typed :
    (∀ b s file, ∀ edit ∈ replaceAll b s file,
      Tracker.crowdedDisk.normalize edit.path = Tracker.crowdedDisk.normalize ⟨"/A.groovy"⟩) ∧
    readTyped ⟨0, 3⟩ = none ∧
    ¬ (∃ file document before after,
      typedBench.tracker.document? Tracker.crowdedDisk ⟨"/A.groovy"⟩ =
        some (file, ⟨document, none⟩) ∧
      (Position.mk 0 3).Divides document.text.toList before after) ∧
    ∃ b' s' report value, readTyped ⟨0, 6⟩ = some (b', s', report, value) ∧
      ∃ r : Course Toy.CompilerState,
        (ofRoot Tracker.crowdedDisk ⟨"/"⟩).Takes {} Tracker.crowdedDisk typedBench ⟨"/A.groovy"⟩
          ⟨0, 6⟩ "new Lost() " replaceAll r b' s' report ∧ value = r.file := by
  have hpaths : ∀ b s file, ∀ edit ∈ replaceAll b s file,
      Tracker.crowdedDisk.normalize edit.path = Tracker.crowdedDisk.normalize ⟨"/A.groovy"⟩ := by
    intro b s file edit hedit
    rw [List.mem_singleton.mp hedit]
    decide +kernel
  have hrestores (position : Position) := withPlaceholder_restores
    (ofRoot Tracker.crowdedDisk ⟨"/"⟩) {} Tracker.crowdedDisk typedBench ⟨"/A.groovy"⟩ position
    "new Lost() " replaceAll (fun _ _ file => file) hpaths
  have hnone : readTyped ⟨0, 3⟩ = none := by
    rw [← Option.isNone_iff_eq_none]
    decide +kernel
  have hsome : (readTyped ⟨0, 6⟩).isSome := by decide +kernel
  obtain ⟨⟨b', s', report, value⟩, hread⟩ := Option.isSome_iff_exists.mp hsome
  exact ⟨hpaths, hnone, ((hrestores ⟨0, 3⟩).1 hnone).2, b', s', report, value, hread,
    ((hrestores ⟨0, 6⟩).2 b' s' report value hread).2⟩

end Scope

end Workbench
