import Workbench.Proofs.Text.Tiling

/-!
Positions against byte offsets. A table of lines finds the line of an offset by where the lines
start, and the two conversions undo each other at every place between two characters. Only the place
inside a pair of carriage return and line feed has no position of its own: it counts as the end of
the line in front of it.
-/

namespace Workbench

open Text

/-- A byte offset between two characters of a text, or at one of its ends. -/
def IsBoundary (cs : List Char) (offset : Nat) : Prop :=
  ∃ before after, before ++ after = cs ∧ byteSize before = offset

/-- A byte offset between a carriage return and its line feed. -/
def SplitsPair (cs : List Char) (offset : Nat) : Prop :=
  ∃ first last, cs = first ++ '\r' :: '\n' :: last ∧ offset = byteSize first + 1

theorem byteSize_append (xs ys : List Char) : byteSize (xs ++ ys) = byteSize xs + byteSize ys :=
  measure_append _ xs ys

theorem byteSize_lineChars (content : List Char) (ending : LineEnding) :
    byteSize (lineChars (content, ending)) = byteSize content + byteSize ending.chars :=
  byteSize_append content ending.chars

theorem eq_of_byteSize_eq {before after before' after' : List Char}
    (h : before ++ after = before' ++ after') (hsize : byteSize before = byteSize before') :
    before = before' ∧ after = after' := by
  have hcut : cut? Char.utf8Size (before' ++ after') (byteSize before') = some (before, after) := by
    rw [← h, ← hsize, cut?_append Char.utf8Size_pos]
  rw [cut?_append Char.utf8Size_pos] at hcut
  obtain ⟨rfl, rfl⟩ := Prod.mk.inj (Option.some.inj hcut)
  exact ⟨rfl, rfl⟩

theorem splitsPair_iff {before after : List Char} :
    SplitsPair (before ++ after) (byteSize before) ↔ InsidePair before after := by
  constructor
  · rintro ⟨first, last, hcs, hsize⟩
    rw [List.append_cons] at hcs
    obtain ⟨rfl, rfl⟩ := eq_of_byteSize_eq hcs (by rw [hsize, byteSize_append]; rfl)
    exact ⟨first, last, rfl, rfl⟩
  · rintro ⟨first, last, rfl, rfl⟩
    exact ⟨first, last, by simp, by rw [byteSize_append]; rfl⟩

/-! ### The line of an offset -/

theorem placeLines_append (start : Nat) (xs ys : List (List Char × LineEnding)) :
    placeLines start (xs ++ ys) =
      placeLines start xs ++ placeLines (start + byteSize (xs.flatMap lineChars)) ys := by
  induction xs generalizing start with
  | nil => simp [placeLines]
  | cons line rest ih => simp [placeLines, ih, lineChars, Nat.add_assoc]

theorem length_placeLines (start : Nat) (lines : List (List Char × LineEnding)) :
    (placeLines start lines).length = lines.length := by
  induction lines generalizing start with
  | nil => rfl
  | cons line rest ih => rw [placeLines, List.length_cons, List.length_cons, ih]

theorem start_le_of_mem_placeLines {start : Nat} {lines : List (List Char × LineEnding)}
    {line : Line} (h : line ∈ placeLines start lines) :
    line.start ≤ start + byteSize (lines.flatMap lineChars) := by
  induction lines generalizing start with
  | nil => contradiction
  | cons head rest ih =>
      rw [List.flatMap_cons, byteSize_append, lineChars, byteSize_append]
      rcases List.mem_cons.mp h with rfl | hrest
      · exact Nat.le_add_right _ _
      · have := ih hrest
        omega

variable {cs content part rest before after : List Char} {ending : LineEnding}
  {earlier later : List (List Char × LineEnding)} {k : Nat} {p : Position}

/-- An offset inside a line, or at the end of the last one, belongs to that line. -/
theorem LineTable.lineNumberAt_eq (hlines : splitLines cs = earlier ++ (content, ending) :: later)
    (hk : k < byteSize (lineChars (content, ending)) ∨ later = []) :
    (LineTable.ofChars cs).lineNumberAt (byteSize (earlier.flatMap lineChars) + k) =
      earlier.length := by
  have hearlier : ∀ line ∈ placeLines 0 earlier,
      decide (line.start ≤ byteSize (earlier.flatMap lineChars) + k) = true := fun line hline => by
    have := start_le_of_mem_placeLines hline
    exact decide_eq_true (by omega)
  have hlater : (placeLines (byteSize (earlier.flatMap lineChars) + byteSize content +
      byteSize ending.chars) later).takeWhile
        (fun line => line.start ≤ byteSize (earlier.flatMap lineChars) + k) = [] := by
    cases later with
    | nil => rfl
    | cons line later =>
        have hk : k < byteSize content + byteSize ending.chars := by
          simpa [byteSize_lineChars] using hk
        apply List.takeWhile_cons_of_neg
        rw [decide_eq_true_eq, Line.start_place]
        omega
  rw [lineNumberAt, lines_ofChars, hlines, placeLines_append, List.takeWhile_append_of_pos hearlier,
    Nat.zero_add, placeLines, List.takeWhile_cons_of_pos (by simp), hlater, List.length_append,
    length_placeLines]
  rfl

theorem LineTable.getElem?_lines_ofChars
    (hlines : splitLines cs = earlier ++ (content, ending) :: later) :
    (LineTable.ofChars cs).lines[earlier.length]? =
      some (.place (byteSize (earlier.flatMap lineChars)) (content, ending)) := by
  simp [lines_ofChars, getElem?_placeLines, hlines]

/-- The position of an offset inside a line: what the offset lies behind of the content of the line
gives the column, and all of the content counts if the offset is inside the terminator. -/
theorem LineTable.position?_eq_some
    (hlines : splitLines cs = earlier ++ (part ++ rest, ending) :: later)
    (hle : k ≤ byteSize (lineChars (part ++ rest, ending)))
    (hk : k < byteSize (lineChars (part ++ rest, ending)) ∨ later = [])
    (hpart : min k (byteSize (part ++ rest)) = byteSize part) :
    (LineTable.ofChars cs).position? (byteSize (earlier.flatMap lineChars) + k) =
      some ⟨earlier.length, unitCount part⟩ := by
  have hsize : byteSize (earlier.flatMap lineChars) + k ≤ (LineTable.ofChars cs).size := by
    show _ ≤ byteSize cs
    rw [← flatMap_splitLines cs, hlines, List.flatMap_append, List.flatMap_cons,
      byteSize_append, byteSize_append]
    omega
  have hcut : min (byteSize (earlier.flatMap lineChars) + k)
      (byteSize (earlier.flatMap lineChars) + byteSize (part ++ rest)) -
        byteSize (earlier.flatMap lineChars) = byteSize part := by
    rw [Nat.add_min_add_left, Nat.add_sub_cancel_left, hpart]
  rw [position?, Nat.min_eq_left hsize, lineNumberAt_eq hlines hk,
    getElem?_lines_ofChars hlines]
  simp only [Option.bind_eq_bind, Option.bind_some, Line.place, hcut, byteSize,
    cut?_append Char.utf8Size_pos, Option.pure_def]

theorem byteSize_chars_pos (h : ending ≠ .endOfText) : 0 < byteSize ending.chars := by
  cases ending with
  | lf | crlf | cr => decide
  | endOfText => contradiction

/-- An offset that a position names has this position. -/
theorem LineTable.position?_of_divides (h : p.Divides cs before after) :
    (LineTable.ofChars cs).position? (byteSize before) = some p := by
  obtain ⟨earlier, _, ending, later, part, rest, hlines, hline, rfl, hpart, rfl, -⟩ := h
  have hpart' : byteSize part ≤ byteSize (part ++ rest) := by
    rw [byteSize_append]
    omega
  have hline' := byteSize_lineChars (part ++ rest) ending
  have hbehind : byteSize part < byteSize (lineChars (part ++ rest, ending)) ∨ later = [] := by
    by_cases hending : ending = .endOfText
    · exact .inr ((isTile_of_splitLines hlines).endOfText_iff.mp hending)
    · have := byteSize_chars_pos hending
      exact .inl (by omega)
  have hposition := position?_eq_some hlines (by omega) hbehind (Nat.min_eq_left hpart')
  rw [hline, hpart] at hposition
  rw [byteSize_append]
  exact hposition

/-- The offset inside a pair has the position of the end of the line in front of it. -/
theorem LineTable.position?_inside {last : List Char}
    (h : p.Divides cs before ('\r' :: '\n' :: last)) :
    (LineTable.ofChars cs).position? (byteSize before + 1) = some p := by
  obtain ⟨earlier, content, later, hlines, hline, hcontent, rfl⟩ := h.exists_crlf
  rw [← List.append_nil content] at hlines
  have hsize : byteSize (lineChars (content ++ [], .crlf)) = byteSize content + 2 := by
    rw [byteSize_lineChars, List.append_nil]
    rfl
  have hmin : min (byteSize content + 1) (byteSize (content ++ [])) = byteSize content := by
    rw [List.append_nil]
    omega
  have hposition := position?_eq_some hlines (by omega) (.inl (by omega)) hmin
  rw [hline, hcontent] at hposition
  rw [byteSize_append, Nat.add_assoc]
  exact hposition

/-! ### Sizes of positions -/

theorem Tiled.length_le_byteSize (h : Tiled (earlier ++ later)) (hlater : later ≠ []) :
    earlier.length ≤ byteSize (earlier.flatMap lineChars) := by
  induction earlier with
  | nil => exact Nat.zero_le _
  | cons line earlier ih =>
      rw [List.cons_append] at h
      generalize hrest : earlier ++ later = rest at h ih
      cases h with
      | last => exact absurd (List.append_eq_nil_iff.mp hrest).2 hlater
      | line _ hending _ hrest =>
          have := ih hrest
          have := byteSize_chars_pos hending
          rw [List.flatMap_cons, byteSize_append, byteSize_lineChars, List.length_cons]
          omega

theorem unitSize_le_utf8Size (c : Char) : unitSize c ≤ c.utf8Size := by
  by_cases h : c.toNat < 0x10000
  · rw [unitSize, if_pos h]
    exact c.utf8Size_pos
  · -- Only a character of four bytes takes two units.
    have hval : ¬ c.val ≤ 0xFFFF := fun hle => h (Nat.lt_succ_of_le hle)
    rw [unitSize, if_neg h, Char.utf8Size]
    grind

theorem unitCount_le_byteSize (cs : List Char) : unitCount cs ≤ byteSize cs := by
  induction cs with
  | nil => exact Nat.le_refl _
  | cons c cs ih => exact Nat.add_le_add (unitSize_le_utf8Size c) ih

/-- No line and no column has a number greater than the offset. -/
theorem Position.Divides.line_add_character_le (h : p.Divides cs before after) :
    p.line + p.character ≤ byteSize before := by
  obtain ⟨earlier, _, ending, later, part, rest, hlines, hline, -, hpart, rfl, -⟩ := h
  have hlength := Tiled.length_le_byteSize (hlines ▸ tiled_splitLines cs) (List.cons_ne_nil _ _)
  have hcolumn := unitCount_le_byteSize part
  rw [byteSize_append]
  omega

/-! ### The two conversions -/

/-- What the conversions of a line table owe to the text it was made of. They undo each other, the
offset inside a pair stands for the one in front of the pair, and no number outgrows the offset. -/
structure LineTable.Converts (t : LineTable) (cs : List Char) : Prop where
  position?_of_offset? : ∀ p offset, t.offset? p = some offset →
    IsBoundary cs offset ∧ t.position? offset = some p
  offset?_of_boundary : ∀ offset, IsBoundary cs offset → ∃ p, t.position? offset = some p ∧
    (¬ SplitsPair cs offset → t.offset? p = some offset) ∧
    ∀ first last, cs = first ++ '\r' :: '\n' :: last → offset = byteSize first + 1 →
      t.offset? p = some (byteSize first)
  offset?_eq_none_iff : ∀ p, t.offset? p = none ↔
    ¬ ∃ offset, IsBoundary cs offset ∧ t.position? offset = some p
  fits : ∀ p offset, t.offset? p = some offset → p.line + p.character ≤ offset ∧ offset ≤ t.size

theorem LineTable.position?_of_offset? {offset : Nat}
    (h : (LineTable.ofChars cs).offset? p = some offset) :
    IsBoundary cs offset ∧ (LineTable.ofChars cs).position? offset = some p := by
  obtain ⟨before, after, hdivides, rfl⟩ := offset?_eq_some_iff.mp h
  exact ⟨⟨before, after, hdivides.append_eq, rfl⟩, position?_of_divides hdivides⟩

/-- A place that is not inside a pair has a position, which has the offset of the place. -/
theorem LineTable.exists_position? (h : ¬ InsidePair before after) :
    ∃ p, (LineTable.ofChars (before ++ after)).position? (byteSize before) = some p ∧
      (LineTable.ofChars (before ++ after)).offset? p = some (byteSize before) := by
  obtain ⟨p, hp⟩ := (exists_divides_iff rfl).mpr h
  exact ⟨p, position?_of_divides hp, offset?_eq_some_iff.mpr ⟨before, after, hp, rfl⟩⟩

/-- The place inside a pair has a position, which has the offset in front of the pair. -/
theorem LineTable.exists_position?_inside (first last : List Char) :
    ∃ p, (LineTable.ofChars (first ++ '\r' :: '\n' :: last)).position? (byteSize first + 1) =
        some p ∧
      (LineTable.ofChars (first ++ '\r' :: '\n' :: last)).offset? p = some (byteSize first) := by
  have hfront : ¬ InsidePair first ('\r' :: '\n' :: last) := fun ⟨_, _, _, h⟩ => by cases h
  obtain ⟨p, hp⟩ := (exists_divides_iff rfl).mpr hfront
  exact ⟨p, position?_inside hp, offset?_eq_some_iff.mpr ⟨first, _, hp, rfl⟩⟩

theorem LineTable.offset?_of_boundary {offset : Nat} (h : IsBoundary cs offset) :
    ∃ p, (LineTable.ofChars cs).position? offset = some p ∧
      (¬ SplitsPair cs offset → (LineTable.ofChars cs).offset? p = some offset) ∧
      ∀ first last, cs = first ++ '\r' :: '\n' :: last → offset = byteSize first + 1 →
        (LineTable.ofChars cs).offset? p = some (byteSize first) := by
  obtain ⟨before, after, rfl, rfl⟩ := h
  by_cases hpair : SplitsPair (before ++ after) (byteSize before)
  · obtain ⟨first, last, hcs, hoffset⟩ := hpair
    rw [hcs, hoffset]
    obtain ⟨p, hposition, hp⟩ := exists_position?_inside first last
    refine ⟨p, hposition, fun hno => absurd ⟨first, last, rfl, rfl⟩ hno, fun _ _ _ hsize => ?_⟩
    rw [hp, Nat.add_right_cancel hsize]
  · obtain ⟨p, hposition, hp⟩ := exists_position? (mt splitsPair_iff.mpr hpair)
    exact ⟨p, hposition, fun _ => hp, fun first last hcs hsize =>
      absurd ⟨first, last, hcs, hsize⟩ hpair⟩

theorem LineTable.exists_offset?_of_position? {offset : Nat} (h : IsBoundary cs offset)
    (hp : (LineTable.ofChars cs).position? offset = some p) :
    ∃ found, (LineTable.ofChars cs).offset? p = some found := by
  obtain ⟨p', hposition, hsame, hinside⟩ := offset?_of_boundary h
  obtain rfl : p' = p := Option.some.inj (hposition.symm.trans hp)
  by_cases hpair : SplitsPair cs offset
  · obtain ⟨first, last, hcs, hsize⟩ := hpair
    exact ⟨_, hinside first last hcs hsize⟩
  · exact ⟨_, hsame hpair⟩

/-- Positions and offsets of a text are each other's inverse, but for the offset inside a pair of
carriage return and line feed, which counts as the offset of the carriage return. A position has no
offset just if no boundary has that position. -/
theorem LineTable.converts_ofText (text : String) : (ofText text).Converts text.toList := by
  show (ofChars text.toList).Converts text.toList
  generalize text.toList = cs
  constructor
  case position?_of_offset? => exact fun p offset => position?_of_offset?
  case offset?_of_boundary => exact fun offset => offset?_of_boundary
  case offset?_eq_none_iff =>
    intro p
    constructor
    · rintro hnone ⟨offset, hoffset, hp⟩
      obtain ⟨found, hfound⟩ := exists_offset?_of_position? hoffset hp
      rw [hnone] at hfound
      contradiction
    · intro hno
      rw [Option.eq_none_iff_forall_ne_some]
      exact fun offset h => hno ⟨offset, position?_of_offset? h⟩
  case fits =>
    intro p offset h
    obtain ⟨before, after, hdivides, rfl⟩ := offset?_eq_some_iff.mp h
    refine ⟨hdivides.line_add_character_le, ?_⟩
    show byteSize before ≤ byteSize cs
    rw [← hdivides.append_eq, byteSize_append]
    exact Nat.le_add_right _ _

end Workbench
