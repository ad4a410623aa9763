import Workbench.Document
import Workbench.Proofs.Text.Bytes
import Workbench.Proofs.Text.Order

/-!
What an edit makes of a text. A text can be divided at the boundaries between its characters and
nowhere else, whether its characters are counted or its bytes are looked at. So to put a text
between the characters in front of a span and those behind it is the same as to put its bytes in the
place of the bytes of the span.
-/

namespace Workbench

open Text

variable {cs before after : List Char} {text new : String} {offset : Nat}

/-! ### Boundaries -/

theorem length_encode (text : String) : (encode text).length = byteSize text.toList := by
  rw [encode_eq]
  induction text.toList with
  | nil => rfl
  | cons c cs ih =>
      rw [List.flatMap_cons, List.length_append, String.length_utf8EncodeChar, ih]
      rfl

theorem utf8ByteSize_eq (text : String) : text.utf8ByteSize = byteSize text.toList := by
  rw [← length_encode]
  rfl

/-- The boundaries of a text are the valid positions of the string. -/
theorem isBoundary_iff_isValid :
    IsBoundary text.toList offset ↔ (⟨offset⟩ : String.Pos.Raw).IsValid text := by
  rw [String.Pos.Raw.isValid_iff_exists_append]
  constructor
  · rintro ⟨before, after, hcs, rfl⟩
    refine ⟨String.ofList before, String.ofList after, ?_, ?_⟩
    · rw [← String.ofList_append, hcs, String.ofList_toList]
    · rw [String.rawEndPos, utf8ByteSize_eq, String.toList_ofList]
  · rintro ⟨first, last, rfl, hoffset⟩
    refine ⟨first.toList, last.toList, String.toList_append.symm, ?_⟩
    rw [← utf8ByteSize_eq]
    exact (congrArg String.Pos.Raw.byteIdx hoffset).symm

theorem isBoundary_zero (cs : List Char) : IsBoundary cs 0 := ⟨[], cs, rfl, rfl⟩

theorem isBoundary_byteSize (cs : List Char) : IsBoundary cs (byteSize cs) :=
  ⟨cs, [], List.append_nil cs, rfl⟩

/-- Two boundaries in order divide a text into three parts. -/
theorem exists_parts {span : Span} (hstart : IsBoundary cs span.start)
    (hstop : IsBoundary cs span.stop) :
    ∃ before middle after, cs = before ++ middle ++ after ∧ byteSize before = span.start ∧
      byteSize (before ++ middle) = span.stop := by
  obtain ⟨before, rest, rfl, hbefore⟩ := hstart
  obtain ⟨first, after, hcs, hfirst⟩ := hstop
  have hle := span.start_le_stop
  rcases List.append_eq_append_iff.mp hcs with ⟨more, rfl, rfl⟩ | ⟨middle, rfl, rfl⟩
  · -- The second place does not come first, so nothing lies between the two.
    have hmore : more = [] := by
      by_contra hne
      have hpos : 0 < byteSize more := measure_pos Char.utf8Size_pos hne
      rw [byteSize_append] at hbefore
      omega
    exact ⟨first, [], rest, by simp [hmore], by simpa [hmore] using hbefore, by simpa using hfirst⟩
  · exact ⟨before, middle, after, (List.append_assoc _ _ _).symm, hbefore, hfirst⟩

/-! ### Edits -/

namespace TextEdit

/-- What an edit asks for: what stands in front of its span and behind it stays, and the replacement
stands between them. -/
def Replaces (e : TextEdit) (text new : String) : Prop :=
  ∃ before middle after, text.toList = before ++ middle ++ after ∧
    byteSize before = e.span.start ∧ byteSize (before ++ middle) = e.span.stop ∧
    new = String.ofList (before ++ e.replacement.toList ++ after)

variable {e : TextEdit}

theorem Replaces.isBoundary (h : e.Replaces text new) :
    IsBoundary text.toList e.span.start ∧ IsBoundary text.toList e.span.stop := by
  obtain ⟨before, middle, after, htext, hstart, hstop, -⟩ := h
  exact ⟨⟨before, middle ++ after, by rw [htext, List.append_assoc], hstart⟩,
    ⟨before ++ middle, after, htext.symm, hstop⟩⟩

theorem exists_replaces (hstart : IsBoundary text.toList e.span.start)
    (hstop : IsBoundary text.toList e.span.stop) : ∃ new, e.Replaces text new := by
  obtain ⟨before, middle, after, h⟩ := exists_parts hstart hstop
  exact ⟨_, before, middle, after, h.1, h.2.1, h.2.2, rfl⟩

/-- An edit of the whole text leaves the replacement only. -/
theorem Replaces.eq_of_whole (h : e.Replaces text new)
    (hspan : e.span = Span.whole (byteSize text.toList)) : new = e.replacement := by
  obtain ⟨before, middle, after, htext, hstart, hstop, rfl⟩ := h
  rw [hspan] at hstart hstop
  obtain ⟨-, rfl⟩ := eq_of_byteSize_eq (htext.symm.trans (List.append_nil _).symm) hstop
  rw [List.append_assoc] at htext
  obtain ⟨rfl, -⟩ := eq_of_byteSize_eq (htext.symm.trans (List.nil_append _).symm) hstart
  simp

theorem applyTo?_eq_some_iff : e.applyTo? text = some new ↔ e.Replaces text new := by
  simp only [applyTo?, Option.bind_eq_bind, Option.bind_eq_some_iff, Prod.exists, Option.pure_def,
    Option.some.injEq, cut?_eq_some_iff Char.utf8Size_pos]
  constructor
  · rintro ⟨before, _, ⟨htext, hstart⟩, middle, after, ⟨rfl, hmiddle⟩, rfl⟩
    have hstop : byteSize (before ++ middle) = e.span.stop := by
      rw [byteSize, measure_append, hstart, hmiddle, Nat.add_sub_of_le e.span.start_le_stop]
    exact ⟨before, middle, after, by rw [htext, List.append_assoc], hstart, hstop, rfl⟩
  · rintro ⟨before, middle, after, htext, hstart, hstop, rfl⟩
    have hmiddle : byteSize middle = e.span.stop - e.span.start := by
      rw [← hstart, ← hstop, byteSize_append, Nat.add_sub_cancel_left]
    exact ⟨before, _, ⟨by rw [htext, List.append_assoc], hstart⟩, middle, after, ⟨rfl, hmiddle⟩,
      rfl⟩

end TextEdit

/-! ### Bytes -/

theorem encode_of_toList_eq (h : text.toList = before ++ after) :
    encode text = encode (String.ofList before) ++ encode (String.ofList after) := by
  rw [← encode_append, ← String.ofList_append, ← h, String.ofList_toList]

theorem take_encode (h : text.toList = before ++ after) :
    (encode text).take (byteSize before) = encode (String.ofList before) := by
  rw [encode_of_toList_eq h, List.take_left' (by rw [length_encode, String.toList_ofList])]

theorem drop_encode (h : text.toList = before ++ after) :
    (encode text).drop (byteSize before) = encode (String.ofList after) := by
  rw [encode_of_toList_eq h, List.drop_left' (by rw [length_encode, String.toList_ofList])]

namespace Document

variable {d : Document} {e : TextEdit}

/-- The bytes that take the place of those of a span are the bytes of the text that the edit asks
for. -/
theorem replaceSpan?_of_replaces (h : e.Replaces d.text new) :
    d.replaceSpan? e.span e.replacement = some new := by
  obtain ⟨hstart, hstop⟩ := h.isBoundary
  have hvalid : (String.Pos.Raw.isValid d.text ⟨e.span.start⟩ &&
      String.Pos.Raw.isValid d.text ⟨e.span.stop⟩) = true := by
    rw [Bool.and_eq_true, String.Pos.Raw.isValid_eq_true_iff, String.Pos.Raw.isValid_eq_true_iff]
    exact ⟨isBoundary_iff_isValid.mp hstart, isBoundary_iff_isValid.mp hstop⟩
  obtain ⟨before, middle, after, htext, hbefore, hmiddle, rfl⟩ := h
  have hfront : (encode d.text).take e.span.start = encode (String.ofList before) := by
    rw [← hbefore, take_encode (by rw [htext, List.append_assoc])]
  have hback : (encode d.text).drop e.span.stop = encode (String.ofList after) := by
    rw [← hmiddle, drop_encode htext]
  simp only [replaceSpan?, if_pos hvalid, hfront, hback]
  rw [← encode_append, ← encode_append, decode?_encode, String.ofList_append, String.ofList_append,
    String.ofList_toList]

theorem isBoundary_of_replaceSpan? {span : Span} {replacement : String}
    (h : d.replaceSpan? span replacement = some new) :
    IsBoundary d.text.toList span.start ∧ IsBoundary d.text.toList span.stop := by
  unfold replaceSpan? at h
  split at h
  case isTrue hvalid =>
    rw [Bool.and_eq_true, String.Pos.Raw.isValid_eq_true_iff,
      String.Pos.Raw.isValid_eq_true_iff] at hvalid
    exact ⟨isBoundary_iff_isValid.mpr hvalid.1, isBoundary_iff_isValid.mpr hvalid.2⟩
  case isFalse => contradiction

theorem replaceSpan?_eq_some_iff :
    d.replaceSpan? e.span e.replacement = some new ↔ e.Replaces d.text new := by
  refine ⟨fun h => ?_, replaceSpan?_of_replaces⟩
  obtain ⟨hstart, hstop⟩ := isBoundary_of_replaceSpan? h
  obtain ⟨found, hfound⟩ := TextEdit.exists_replaces hstart hstop
  rw [replaceSpan?_of_replaces hfound] at h
  exact Option.some.inj h ▸ hfound

/-- Replacing the bytes of a span and applying the edit to the text come to the same, whatever the
span. -/
theorem replaceSpan?_eq_applyTo? (d : Document) (e : TextEdit) :
    d.replaceSpan? e.span e.replacement = e.applyTo? d.text := by
  apply Option.ext
  intro new
  rw [replaceSpan?_eq_some_iff, TextEdit.applyTo?_eq_some_iff]

end Document

end Workbench
