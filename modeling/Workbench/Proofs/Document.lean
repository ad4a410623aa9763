import Workbench.Proofs.Text.Edit

/-!
What a document does with the changes of an editor. As long as its line table is that of its text,
each change becomes an edit between two boundaries of the current text, and the line table is again
that of the text. So whoever knew the old text and applies the edits in order has the new text.
-/

namespace Workbench

open Text

/-- Applies edits one after another, each to the text that the one before it left. -/
def TextEdit.applyAll? (edits : List TextEdit) (text : String) : Option String :=
  edits.foldlM (fun text edit => edit.applyTo? text) text

namespace Document

/-- The line table of a document is that of its text. -/
def InSync (d : Document) : Prop := d.lines = LineTable.ofText d.text

theorem inSync_ofText (text : String) (version : Int) : (ofText text version).InSync := rfl

theorem inSync_setText (d : Document) (text : String) : (d.setText text).InSync := rfl

variable {d : Document}

/-! ### One change -/

/-- What becomes of a document by one change: its bytes are replaced as the edit says that is
returned, and a change without a span in the current text replaces all of it. -/
structure Takes (d : Document) (change : ContentChange) (edit : TextEdit) (d' : Document) :
    Prop where
  inSync : d'.InSync
  replacement_eq : edit.replacement = change.text
  replaceSpan?_eq : d.replaceSpan? edit.span change.text = some d'.text
  applyTo?_eq : edit.applyTo? d.text = some d'.text
  span_eq : ∀ r span, change.range = some r → d.lines.span? r = some span → edit.span = span
  whole : change.range.bind d.lines.span? = none →
    edit.span = Span.whole (byteSize d.text.toList) ∧ d'.text = change.text

/-- The span of an edit ends at boundaries of the text. -/
theorem InSync.isBoundary_editOf (h : d.InSync) (change : ContentChange) :
    IsBoundary d.text.toList (d.editOf change).span.start ∧
      IsBoundary d.text.toList (d.editOf change).span.stop := by
  rw [editOf]
  cases hspan : change.range.bind d.lines.span? with
  | none =>
      rw [h]
      exact ⟨isBoundary_zero _, isBoundary_byteSize _⟩
  | some span =>
      obtain ⟨r, -, hr⟩ := Option.bind_eq_some_iff.mp hspan
      rw [h] at hr
      obtain ⟨hstart, hstop, -⟩ := LineTable.range?_of_span? hr
      exact ⟨hstart, hstop⟩

theorem InSync.takes_applyChange (h : d.InSync) (change : ContentChange) :
    d.Takes change (d.applyChange change).2 (d.applyChange change).1 := by
  obtain ⟨hstart, hstop⟩ := h.isBoundary_editOf change
  obtain ⟨new, hnew⟩ := TextEdit.exists_replaces hstart hstop
  have hreplaced : d.replaceSpan? (d.editOf change).span change.text = some new :=
    replaceSpan?_of_replaces hnew
  have htext : (d.applyChange change).1.text = new := by
    rw [applyChange, hreplaced]
    rfl
  constructor
  case inSync => exact inSync_setText d _
  case replacement_eq => rfl
  case replaceSpan?_eq => rw [htext]; exact hreplaced
  case applyTo?_eq => rw [htext]; exact TextEdit.applyTo?_eq_some_iff.mpr hnew
  case span_eq =>
    intro r span hrange hspan
    show (d.editOf change).span = span
    rw [editOf, hrange, Option.bind_some, hspan, Option.getD_some]
  case whole =>
    intro hnone
    have hspan : (d.editOf change).span = Span.whole (byteSize d.text.toList) := by
      rw [editOf, hnone, h]
      rfl
    exact ⟨hspan, by rw [htext]; exact hnew.eq_of_whole hspan⟩

/-! ### A list of changes -/

theorem applyEach_append (d : Document) (earlier later : List ContentChange) :
    d.applyEach (earlier ++ later) =
      (((d.applyEach earlier).1.applyEach later).1,
        (d.applyEach earlier).2 ++ ((d.applyEach earlier).1.applyEach later).2) := by
  induction earlier generalizing d with
  | nil => rfl
  | cons change rest ih => simp [applyEach, ih]

theorem length_applyEach (d : Document) (changes : List ContentChange) :
    (d.applyEach changes).2.length = changes.length := by
  induction changes generalizing d with
  | nil => rfl
  | cons change rest ih => simp [applyEach, ih]

theorem InSync.applyEach (h : d.InSync) (changes : List ContentChange) :
    (d.applyEach changes).1.InSync := by
  induction changes generalizing d with
  | nil => exact h
  | cons change rest ih => exact ih (h.takes_applyChange change).inSync

theorem InSync.applyAll?_applyEach (h : d.InSync) (changes : List ContentChange) :
    TextEdit.applyAll? (d.applyEach changes).2 d.text = some (d.applyEach changes).1.text := by
  induction changes generalizing d with
  | nil => rfl
  | cons change rest ih =>
      have htakes := h.takes_applyChange change
      show List.foldlM _ _ ((d.applyChange change).2 :: _) = _
      rw [List.foldlM_cons, htakes.applyTo?_eq]
      exact ih htakes.inSync

/-- What the edits that changes are turned into owe to the document before and after. -/
structure Replays (d : Document) (changes : List ContentChange) (edits : List TextEdit)
    (d' : Document) : Prop where
  length_eq : edits.length = changes.length
  applyAll?_eq : TextEdit.applyAll? edits d.text = some d'.text
  inSync : d'.InSync
  takes : ∀ earlier change later, changes = earlier ++ change :: later →
    ∃ edit, edits[earlier.length]? = some edit ∧
      (d.applyEach earlier).1.Takes change edit (d.applyEach (earlier ++ [change])).1

/-- The edits that are returned for changes replay them: there is one for each change, and one after
another they turn the old text into the new one. Each change is carried out in the text that the one
before it left, where its bytes always can be replaced; without a span in that text it replaces all
of it. -/
theorem InSync.replays_applyChanges (h : d.InSync) (version : Int) (changes : List ContentChange) :
    d.Replays changes (d.applyChanges version changes).2 (d.applyChanges version changes).1 where
  length_eq := length_applyEach d changes
  applyAll?_eq := h.applyAll?_applyEach changes
  inSync := h.applyEach changes
  takes := by
    rintro earlier change later rfl
    have htakes := (h.applyEach earlier).takes_applyChange change
    refine ⟨_, ?_, by rw [applyEach_append]; exact htakes⟩
    show (d.applyEach (earlier ++ change :: later)).2[earlier.length]? = _
    rw [applyEach_append, ← length_applyEach d earlier, List.getElem?_append_right (Nat.le_refl _),
      Nat.sub_self]
    rfl

/-- Changes of which the first has a span, and of the others one is reversed, one splits a
character, one lies past the end and one names no range. -/
def unevenChanges : List ContentChange :=
  [⟨some ⟨⟨0, 3⟩, ⟨1, 1⟩⟩, "é"⟩, ⟨some ⟨⟨0, 3⟩, ⟨0, 1⟩⟩, "😀\n"⟩,
    ⟨some ⟨⟨0, 1⟩, ⟨0, 2⟩⟩, "q\r"⟩, ⟨some ⟨⟨4, 0⟩, ⟨5, 0⟩⟩, "r"⟩, ⟨none, "s"⟩]

theorem replays_applyChanges_uneven :
    (ofText "a😀b\r\nc" 1).InSync ∧
    (ofText "a😀b\r\nc" 1).Replays unevenChanges
      ((ofText "a😀b\r\nc" 1).applyChanges 2 unevenChanges).2
      ((ofText "a😀b\r\nc" 1).applyChanges 2 unevenChanges).1 ∧
    ((ofText "a😀b\r\nc" 1).applyChanges 2 unevenChanges).2.map TextEdit.span =
      [⟨5, 9, by decide⟩, ⟨0, 7, by decide⟩, ⟨0, 5, by decide⟩, ⟨0, 2, by decide⟩,
        ⟨0, 1, by decide⟩] ∧
    ((ofText "a😀b\r\nc" 1).applyChanges 2 unevenChanges).1.text = "s" := by
  have hsync := inSync_ofText "a😀b\r\nc" 1
  exact ⟨hsync, hsync.replays_applyChanges 2 unevenChanges, by decide +kernel, by decide +kernel⟩

end Document

end Workbench
