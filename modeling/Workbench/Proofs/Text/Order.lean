import Workbench.Proofs.Text.Conversion

/-!
The order of positions, by line and then by column, is the order of their byte offsets. So the ends
of an editor range are in order just if their offsets are, a range that has a span is the range of
that span, and a later boundary never has an earlier position.
-/

namespace Workbench

open Text

namespace Position

theorem lt_irrefl (p : Position) : ¬ p < p := by
  rw [lt_def]
  omega

theorem le_iff_not_lt {p q : Position} : p ≤ q ↔ ¬ q < p := by
  rw [le_def, lt_def]
  omega

theorem lt_or_eq_or_gt (p q : Position) : p < q ∨ p = q ∨ q < p := by
  obtain ⟨line, character⟩ := p
  obtain ⟨line', character'⟩ := q
  simp only [lt_def, mk.injEq]
  omega

end Position

/-! ### Places and their positions -/

theorem Text.measure_pos {size : Char → Nat} (hsize : ∀ c, 0 < size c) {cs : List Char}
    (h : cs ≠ []) : 0 < measure size cs := by
  obtain ⟨c, cs, rfl⟩ := List.exists_cons_of_ne_nil h
  have := hsize c
  rw [measure_cons]
  omega

/-- Of two first parts of a text, the one that is smaller in one size is smaller in every size. -/
theorem Text.measure_lt_of_measure_lt {size size' : Char → Nat} (hsize : ∀ c, 0 < size' c)
    {first rest first' rest' : List Char} (h : first ++ rest = first' ++ rest')
    (hlt : measure size first < measure size first') :
    measure size' first < measure size' first' := by
  rcases List.append_eq_append_iff.mp h with ⟨more, rfl, -⟩ | ⟨more, rfl, -⟩
  · have hmore : more ≠ [] := by
      rintro rfl
      simp at hlt
    have := measure_pos hsize hmore
    rw [measure_append]
    omega
  · rw [measure_append] at hlt
    omega

theorem exists_between {α : Type} {xs ys xs' ys' : List α} {x : α}
    (h : xs ++ x :: ys = xs' ++ ys') (hlt : xs.length < xs'.length) :
    ∃ between, xs' = xs ++ x :: between ∧ ys = between ++ ys' := by
  rcases List.append_eq_append_iff.mp h with ⟨more, rfl, hmore⟩ | ⟨more, rfl, -⟩
  · rcases List.cons_eq_append_iff.mp hmore with ⟨rfl, -⟩ | ⟨between, rfl, hys⟩
    · simp at hlt
    · exact ⟨between, rfl, hys⟩
  · rw [List.length_append] at hlt
    omega

variable {cs before after before' after' : List Char} {p p' : Position} {offset offset' : Nat}

/-- A place that a greater position names has a greater offset. -/
theorem Position.Divides.byteSize_lt (h : p.Divides cs before after)
    (h' : p'.Divides cs before' after') (hlt : p < p') : byteSize before < byteSize before' := by
  obtain ⟨earlier, _, ending, later, part, rest, hlines, hline, rfl, hpart, rfl, -⟩ := h
  obtain ⟨earlier', _, ending', later', part', rest', hlines', hline', rfl, hpart', rfl, -⟩ := h'
  rcases hlt with hlt | ⟨heq, hlt⟩
  · -- All of the first line, with a terminator that is not empty, stands before the second place.
    obtain ⟨between, rfl, hlater⟩ :=
      exists_between (hlines.symm.trans hlines') (by rw [hline, hline']; exact hlt)
    have hending : ending ≠ .endOfText := fun hend => by
      rw [(isTile_of_splitLines hlines).endOfText_iff.mp hend] at hlater
      simp at hlater
    have := byteSize_chars_pos hending
    simp only [List.flatMap_append, List.flatMap_cons, byteSize_append, byteSize_lineChars]
    omega
  · -- Both places are in one line, so that one of the parts is a first part of the other.
    obtain ⟨rfl, hsame⟩ := List.append_inj (hlines.symm.trans hlines')
      (hline.trans (heq.trans hline'.symm))
    obtain ⟨hcontent, -⟩ := Prod.mk.inj (List.cons.inj hsame).1
    have hunits : unitCount part < unitCount part' := by rwa [hpart, hpart']
    have hbytes : byteSize part < byteSize part' :=
      measure_lt_of_measure_lt Char.utf8Size_pos hcontent hunits
    rw [byteSize_append, byteSize_append]
    omega

namespace LineTable

/-- Positions that have offsets are in the order of these. -/
theorem lt_iff_of_offset? (h : (ofChars cs).offset? p = some offset)
    (h' : (ofChars cs).offset? p' = some offset') : p < p' ↔ offset < offset' := by
  obtain ⟨before, after, hp, rfl⟩ := offset?_eq_some_iff.mp h
  obtain ⟨before', after', hp', rfl⟩ := offset?_eq_some_iff.mp h'
  refine ⟨hp.byteSize_lt hp', fun hlt => ?_⟩
  rcases p.lt_or_eq_or_gt p' with hpp | rfl | hpp
  · exact hpp
  · rw [h] at h'
    exact absurd (Option.some.inj h') (Nat.ne_of_lt hlt)
  · exact absurd (hp'.byteSize_lt hp hpp) (Nat.lt_asymm hlt)

theorem le_iff_of_offset? (h : (ofChars cs).offset? p = some offset)
    (h' : (ofChars cs).offset? p' = some offset') : p ≤ p' ↔ offset ≤ offset' := by
  rw [Position.le_iff_not_lt, lt_iff_of_offset? h' h, Nat.not_lt]

/-! ### Ranges and spans -/

theorem span?_eq_some_iff {t : LineTable} {r : Range} {span : Span} :
    t.span? r = some span ↔
      t.offset? r.start = some span.start ∧ t.offset? r.stop = some span.stop := by
  simp only [span?, Option.bind_eq_bind, Option.bind_eq_some_iff, Span.ofEnds?]
  constructor
  · rintro ⟨start, hstart, stop, hstop, h⟩
    split at h
    · cases h
      exact ⟨hstart, hstop⟩
    · contradiction
  · rintro ⟨hstart, hstop⟩
    exact ⟨_, hstart, _, hstop, by rw [dif_pos span.start_le_stop]⟩

/-- A range has a span just if both of its ends have an offset and come in order. -/
theorem isSome_span?_iff {r : Range} :
    ((ofChars cs).span? r).isSome ↔ ((ofChars cs).offset? r.start).isSome ∧
      ((ofChars cs).offset? r.stop).isSome ∧ r.start ≤ r.stop := by
  simp only [Option.isSome_iff_exists, span?_eq_some_iff]
  constructor
  · rintro ⟨span, hstart, hstop⟩
    exact ⟨⟨_, hstart⟩, ⟨_, hstop⟩, (le_iff_of_offset? hstart hstop).mpr span.start_le_stop⟩
  · rintro ⟨⟨start, hstart⟩, ⟨stop, hstop⟩, hle⟩
    exact ⟨⟨start, stop, (le_iff_of_offset? hstart hstop).mp hle⟩, hstart, hstop⟩

theorem range?_of_span? {r : Range} {span : Span} (h : (ofChars cs).span? r = some span) :
    IsBoundary cs span.start ∧ IsBoundary cs span.stop ∧ (ofChars cs).range? span = some r := by
  obtain ⟨hstart, hstop⟩ := span?_eq_some_iff.mp h
  obtain ⟨hfirst, hposition⟩ := position?_of_offset? hstart
  obtain ⟨hlast, hposition'⟩ := position?_of_offset? hstop
  exact ⟨hfirst, hlast, by simp [range?, hposition, hposition']⟩

/-! ### Boundaries and their positions -/

/-- The position of a boundary has the offset of the boundary, or the one right in front of it. -/
theorem exists_position?_near (h : IsBoundary cs offset) :
    ∃ p found, (ofChars cs).position? offset = some p ∧ (ofChars cs).offset? p = some found ∧
      found ≤ offset ∧ offset ≤ found + 1 := by
  obtain ⟨p, hposition, hsame, hinside⟩ := offset?_of_boundary h
  by_cases hpair : SplitsPair cs offset
  · obtain ⟨first, last, hcs, hsize⟩ := hpair
    exact ⟨p, _, hposition, hinside first last hcs hsize, by omega, by omega⟩
  · exact ⟨p, offset, hposition, hsame hpair, Nat.le_refl _, Nat.le_succ _⟩

theorem position?_mono (h : IsBoundary cs offset) (h' : IsBoundary cs offset')
    (hle : offset ≤ offset') :
    ∃ p p', (ofChars cs).position? offset = some p ∧ (ofChars cs).position? offset' = some p' ∧
      p ≤ p' := by
  obtain ⟨p, found, hp, hfound, hbelow, hnear⟩ := exists_position?_near h
  obtain ⟨p', found', hp', hfound', hbelow', hnear'⟩ := exists_position?_near h'
  refine ⟨p, p', hp, hp', ?_⟩
  rcases Nat.lt_or_eq_of_le hle with hlt | rfl
  · exact (le_iff_of_offset? hfound hfound').mpr (by omega)
  · obtain rfl : p = p' := Option.some.inj (hp.symm.trans hp')
    exact Position.le_iff_not_lt.mpr p.lt_irrefl

/-- How a line table orders the places of the text it was made of. -/
structure Ordered (t : LineTable) (cs : List Char) : Prop where
  isSome_span?_iff : ∀ r, (t.span? r).isSome ↔
    (t.offset? r.start).isSome ∧ (t.offset? r.stop).isSome ∧ r.start ≤ r.stop
  range?_of_span? : ∀ r span, t.span? r = some span →
    IsBoundary cs span.start ∧ IsBoundary cs span.stop ∧ t.range? span = some r
  position?_mono : ∀ offset offset', IsBoundary cs offset → IsBoundary cs offset' →
    offset ≤ offset' → ∃ p p', t.position? offset = some p ∧ t.position? offset' = some p' ∧ p ≤ p'
  lt_iff_of_offset? : ∀ p p' offset offset', t.offset? p = some offset →
    t.offset? p' = some offset' → (p < p' ↔ offset < offset')

/-- The order of places by line and column agrees with their order by byte offset: a range has a
span just if its ends have offsets and come in order, and it is the range of that span; positions
grow with the boundaries, and offsets grow strictly with the positions that have them. -/
theorem ordered_ofText (text : String) : (ofText text).Ordered text.toList where
  isSome_span?_iff _ := isSome_span?_iff
  range?_of_span? _ _ := range?_of_span?
  position?_mono _ _ := position?_mono
  lt_iff_of_offset? _ _ _ _ := lt_iff_of_offset?

end LineTable

end Workbench
