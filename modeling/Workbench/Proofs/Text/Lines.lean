import Workbench.Text.Edit

/-!
Positions in a text. The lines of a text with their terminators make up the text again. A position
divides the text inside the line that it names, behind as many units as its column counts, and its
byte offset is the size of what stands before it.
-/

namespace Workbench

namespace Text

variable {size : Char → Nat} {cs before after : List Char} {n : Nat}

theorem eq_append_of_cut? (h : cut? size cs n = some (before, after)) :
    cs = before ++ after ∧ measure size before = n := by
  fun_induction cut? size cs n generalizing before with
  | case1 cs =>
      cases h
      exact ⟨rfl, rfl⟩
  | case2 => contradiction
  | case3 n c cs hle ih =>
      obtain ⟨⟨first, rest⟩, hcut, h⟩ := Option.map_eq_some_iff.mp h
      cases h
      obtain ⟨rfl, hfirst⟩ := ih hcut
      refine ⟨rfl, ?_⟩
      rw [measure_cons, hfirst]
      omega
  | case4 => contradiction

theorem cut?_append (hsize : ∀ c, 0 < size c) (before after : List Char) :
    cut? size (before ++ after) (measure size before) = some (before, after) := by
  induction before with
  | nil => simp [cut?]
  | cons c before ih =>
      have hpos := hsize c
      obtain ⟨n, hn⟩ : ∃ n, measure size (c :: before) = n + 1 :=
        Nat.exists_eq_add_one.mpr (by rw [measure_cons]; omega)
      have hrest : n + 1 - size c = measure size before := by
        rw [← hn, measure_cons]
        omega
      have hle : size c ≤ n + 1 := by
        rw [← hn, measure_cons]
        omega
      rw [hn, List.cons_append, cut?, if_pos hle, hrest, ih]
      rfl

/-- A text is divided at a size exactly behind a first part of that size. -/
theorem cut?_eq_some_iff (hsize : ∀ c, 0 < size c) :
    cut? size cs n = some (before, after) ↔ cs = before ++ after ∧ measure size before = n := by
  refine ⟨eq_append_of_cut?, ?_⟩
  rintro ⟨rfl, rfl⟩
  exact cut?_append hsize before after

end Text

open Text

/-! ### Lines -/

/-- Puts a character in front of the first of some lines. -/
def consChar (c : Char) : List (List Char × LineEnding) → List (List Char × LineEnding)
  | [] => [([c], .endOfText)]
  | (content, ending) :: rest => (c :: content, ending) :: rest

/-- The lines of a text with what ends them. -/
def splitLines : List Char → List (List Char × LineEnding)
  | [] => [([], .endOfText)]
  | '\n' :: cs => ([], .lf) :: splitLines cs
  | '\r' :: '\n' :: cs => ([], .crlf) :: splitLines cs
  | '\r' :: cs => ([], .cr) :: splitLines cs
  | c :: cs => consChar c (splitLines cs)

/-- A line as it stands in the text, with its terminator. -/
def lineChars (line : List Char × LineEnding) : List Char := line.1 ++ line.2.chars

theorem flatMap_consChar (c : Char) (lines : List (List Char × LineEnding)) :
    (consChar c lines).flatMap lineChars = c :: lines.flatMap lineChars := by
  cases lines with
  | nil => rfl
  | cons line rest => rfl

/-- No character of a text is lost or added when it is divided into lines. -/
theorem flatMap_splitLines (cs : List Char) : (splitLines cs).flatMap lineChars = cs := by
  fun_induction splitLines cs with
  | case1 => rfl
  | case2 cs ih => simp [lineChars, LineEnding.chars, ih]
  | case3 cs ih => simp [lineChars, LineEnding.chars, ih]
  | case4 cs _ ih => simp [lineChars, LineEnding.chars, ih]
  | case5 c cs _ _ _ ih => rw [flatMap_consChar, ih]

theorem exists_append_of_getElem? {α : Type} {xs : List α} {n : Nat} {x : α}
    (h : xs[n]? = some x) : ∃ earlier later, xs = earlier ++ x :: later ∧ earlier.length = n := by
  obtain ⟨hlt, rfl⟩ := List.getElem?_eq_some_iff.mp h
  refine ⟨xs.take n, xs.drop (n + 1), ?_, ?_⟩
  · rw [List.getElem_cons_drop, List.take_append_drop]
  · rw [List.length_take, Nat.min_eq_left (Nat.le_of_lt hlt)]

/-- A line whose content stands at a byte. -/
def Line.place (start : Nat) (line : List Char × LineEnding) : Line :=
  ⟨start, start + byteSize line.1, line.1, line.2⟩

section
variable (start : Nat) (line : List Char × LineEnding)

@[simp] theorem Line.start_place : (Line.place start line).start = start := rfl

@[simp] theorem Line.chars_place : (Line.place start line).chars = lineChars line := rfl

end

/-- Lays lines behind one another, the first at a byte. -/
def placeLines (start : Nat) : List (List Char × LineEnding) → List Line
  | [] => []
  | line :: rest =>
    .place start line :: placeLines (start + byteSize line.1 + byteSize line.2.chars) rest

theorem foldr_consChar (content first : List Char) (ending : LineEnding)
    (rest : List (List Char × LineEnding)) :
    content.foldr consChar ((first, ending) :: rest) = (content ++ first, ending) :: rest := by
  induction content with
  | nil => rfl
  | cons c content ih => rw [List.foldr_cons, ih]; rfl

/-- What is read character by character lies as the lines of the text do, the first of them with the
content in front that had been read before. -/
theorem scanLines_eq {byte start : Nat} {content cs : List Char}
    (hbyte : start + byteSize content = byte) :
    scanLines byte start content cs = placeLines start (content.foldr consChar (splitLines cs)) := by
  fun_induction scanLines byte start content cs with
  | case1 byte start content =>
      rw [splitLines, foldr_consChar, List.append_nil, ← hbyte]
      rfl
  | case2 byte start content cs ih =>
      rw [ih rfl, splitLines, foldr_consChar, List.append_nil, ← hbyte]
      rfl
  | case3 byte start content cs ih =>
      rw [ih rfl, splitLines, foldr_consChar, List.append_nil, ← hbyte]
      rfl
  | case4 byte start content cs hother ih =>
      rw [ih rfl, splitLines, foldr_consChar, List.append_nil, ← hbyte]
      · rfl
      · exact hother
  | case5 byte start content c cs hlf hpair hcr ih =>
      have hlines : splitLines (c :: cs) = consChar c (splitLines cs) := by
        rw [splitLines] <;> assumption
      rw [ih (by simp [← hbyte, Nat.add_assoc]), hlines, List.foldr_append]
      rfl

theorem LineTable.lines_ofChars (cs : List Char) :
    (LineTable.ofChars cs).lines = placeLines 0 (splitLines cs) :=
  scanLines_eq rfl

/-- Each line starts where the lines before it end. -/
theorem getElem?_placeLines (start : Nat) (lines : List (List Char × LineEnding)) (n : Nat) :
    (placeLines start lines)[n]? = lines[n]?.map
      (.place (start + byteSize ((lines.take n).flatMap lineChars))) := by
  induction lines generalizing start n with
  | nil => simp [placeLines]
  | cons line rest ih =>
      cases n with
      | zero => rfl
      | succ n =>
          rw [placeLines, List.getElem?_cons_succ, ih, List.getElem?_cons_succ]
          simp [lineChars, Nat.add_assoc]

/-! ### Positions -/

/-- The place in a text that a position names: inside the content of its line, behind as many
sixteen-bit units as its column says. -/
def Position.Divides (p : Position) (cs before after : List Char) : Prop :=
  ∃ earlier content ending later part rest,
    splitLines cs = earlier ++ (content, ending) :: later ∧ earlier.length = p.line ∧
      content = part ++ rest ∧ unitCount part = p.character ∧
      before = earlier.flatMap lineChars ++ part ∧
      after = rest ++ ending.chars ++ later.flatMap lineChars

theorem Position.Divides.append_eq {p : Position} {cs before after : List Char}
    (h : p.Divides cs before after) : before ++ after = cs := by
  obtain ⟨earlier, content, ending, later, part, rest, hlines, -, rfl, -, rfl, rfl⟩ := h
  rw [← flatMap_splitLines cs, hlines]
  simp [lineChars]

/-- A position has a byte offset exactly if it names a place in the text, and then the offset is
the size of what stands before the place. -/
theorem LineTable.offset?_eq_some_iff {cs : List Char} {p : Position} {offset : Nat} :
    (LineTable.ofChars cs).offset? p = some offset ↔
      ∃ before after, p.Divides cs before after ∧ byteSize before = offset := by
  simp only [offset?, lines_ofChars, getElem?_placeLines, Option.bind_eq_bind, Option.bind_eq_some_iff,
    Option.map_eq_some_iff, Prod.exists, Option.pure_def, Option.some.injEq, Nat.zero_add]
  constructor
  · -- What is cut is the content of the line, so a place inside the terminator has no position.
    rintro ⟨_, ⟨content, ending, hline, rfl⟩, part, rest, hcut, rfl⟩
    obtain ⟨rfl, hpart⟩ := (cut?_eq_some_iff unitSize_pos).mp hcut
    obtain ⟨earlier, later, hlines, hlength⟩ := exists_append_of_getElem? hline
    refine ⟨_, _, ⟨earlier, _, ending, later, part, rest, hlines, hlength, rfl, hpart, rfl, rfl⟩,
      ?_⟩
    simp [hlines, ← hlength]
  · rintro ⟨_, _, ⟨earlier, _, ending, later, part, rest, hlines, hline, rfl, hpart, rfl, rfl⟩, rfl⟩
    refine ⟨_, ⟨part ++ rest, ending, ?_, rfl⟩, part, rest, ?_, ?_⟩
    · rw [hlines, ← hline, List.getElem?_append_right (Nat.le_refl _), Nat.sub_self]
      rfl
    · exact (cut?_eq_some_iff unitSize_pos).mpr ⟨rfl, hpart⟩
    · simp [hlines, ← hline]

/-- Inserting a token at a character boundary divides the text there and puts the token between. -/
theorem TextEdit.applyTo?_insertAt (before after : List Char) (token : String) :
    (insertAt (byteSize before) token).applyTo? (String.ofList (before ++ after)) =
      some (String.ofList (before ++ token.toList ++ after)) := by
  have hcut : cut? Char.utf8Size (before ++ after) (byteSize before) = some (before, after) :=
    cut?_append Char.utf8Size_pos before after
  simp [applyTo?, insertAt, Span.point, String.toList_ofList, hcut, cut?]

end Workbench
