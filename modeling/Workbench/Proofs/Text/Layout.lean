import Mathlib.Data.List.Chain
import Mathlib.Data.List.Infix
import Workbench.Proofs.Text.Conversion

/-!
The layout of a line table. Its lines lie behind one another from the first byte of the text to the
last, each but the last with one terminator behind its content, and together they are the text. How
many lines there are follows from the terminators of the text, which are counted here without
dividing it.
-/

namespace Workbench

open Text

/-! ### Terminators of a text -/

/-- Whether a terminator ends with the first of some characters: with a line feed, or with a
carriage return that has no line feed behind it. -/
def endsTerminator : List Char → Bool
  | '\n' :: _ => true
  | '\r' :: rest => rest.head? != some '\n'
  | _ => false

/-- The number of terminators of a text. -/
def terminatorCount (cs : List Char) : Nat := cs.tails.countP endsTerminator

theorem terminatorCount_cons (c : Char) (cs : List Char) :
    terminatorCount (c :: cs) = terminatorCount cs + if endsTerminator (c :: cs) then 1 else 0 := by
  rw [terminatorCount, List.tails_cons, List.countP_cons]
  rfl

theorem length_consChar {c : Char} {lines : List (List Char × LineEnding)} (h : lines ≠ []) :
    (consChar c lines).length = lines.length := by
  cases lines with
  | nil => contradiction
  | cons line rest => rfl

theorem length_splitLines (cs : List Char) : (splitLines cs).length = terminatorCount cs + 1 := by
  fun_induction splitLines cs with
  | case1 => rfl
  | case2 cs ih => simp [ih, terminatorCount_cons, endsTerminator]
  | case3 cs ih =>
      -- The pair counts once, where its line feed stands.
      simp [ih, terminatorCount_cons, endsTerminator]
  | case4 cs hother ih =>
      have hends : endsTerminator ('\r' :: cs) = true := by
        rw [endsTerminator, bne_iff_ne]
        intro hhead
        obtain ⟨rest, rfl⟩ := List.head?_eq_some_iff.mp hhead
        exact hother rest rfl
      rw [List.length_cons, ih, terminatorCount_cons, if_pos hends]
  | case5 c cs hlf _ hcr ih =>
      have hends : ¬ endsTerminator (c :: cs) = true := by
        rw [endsTerminator] <;> simp_all
      rw [length_consChar (tiled_splitLines cs).ne_nil, ih, terminatorCount_cons, if_neg hends]

/-! ### Neighbours -/

/-- What stands between a line and the next one: a terminator, which is as long as it can be. -/
structure Line.Meets (line next : Line) : Prop where
  ending_ne : line.ending ≠ .endOfText
  start_eq : next.start = line.stop + byteSize line.ending.chars
  alone : line.ending = .cr → next.chars.head? ≠ some '\n'

theorem Line.Meets.start_lt {line next : Line} (h : line.Meets next)
    (hle : line.start ≤ line.stop) : line.start < next.start := by
  have := byteSize_chars_pos h.ending_ne
  rw [h.start_eq]
  omega

variable {cs : List Char} {lines : List (List Char × LineEnding)} {line : Line} {start : Nat}

theorem Tiled.isChain_placeLines (h : Tiled lines) (start : Nat) :
    (placeLines start lines).IsChain Line.Meets := by
  induction h generalizing start with
  | last => exact .singleton _
  | @line content ending rest _ hending halone hrest ih =>
      cases rest with
      | nil => exact .singleton _
      | cons next later =>
          refine .cons_cons ⟨hending, rfl, fun hcr hhead => halone hcr ?_⟩ (ih _)
          -- The next line begins as all that stands behind the terminator does.
          rw [List.flatMap_cons, List.head?_append]
          exact Option.or_eq_some_iff.mpr (.inl hhead)

theorem Tiled.exists_last (h : Tiled lines) :
    ∃ init content, lines = init ++ [(content, .endOfText)] := by
  induction h with
  | last => exact ⟨[], _, rfl⟩
  | @line content ending _ _ _ _ _ ih =>
      obtain ⟨init, last, rfl⟩ := ih
      exact ⟨(content, ending) :: init, last, rfl⟩

/-! ### The table -/

theorem flatMap_chars_placeLines (start : Nat) (lines : List (List Char × LineEnding)) :
    (placeLines start lines).flatMap Line.chars = lines.flatMap lineChars := by
  induction lines generalizing start with
  | nil => rfl
  | cons line rest ih =>
      rw [placeLines, List.flatMap_cons, List.flatMap_cons, ih, Line.chars_place]

theorem exists_append_of_mem_placeLines (h : line ∈ placeLines start lines) :
    ∃ earlier entry later, lines = earlier ++ entry :: later ∧
      line = .place (start + byteSize (earlier.flatMap lineChars)) entry := by
  obtain ⟨n, hn⟩ := List.getElem?_of_mem h
  rw [getElem?_placeLines] at hn
  obtain ⟨entry, hentry, rfl⟩ := Option.map_eq_some_iff.mp hn
  obtain ⟨earlier, later, hlines, rfl⟩ := exists_append_of_getElem? hentry
  exact ⟨earlier, entry, later, hlines, by simp [hlines]⟩

theorem stands_of_mem_lines {cs : List Char} (h : line ∈ (LineTable.ofChars cs).lines) :
    IsContent line.content ∧ ∃ before after, cs = before ++ line.chars ++ after ∧
      byteSize before = line.start ∧ byteSize (before ++ line.content) = line.stop := by
  rw [LineTable.lines_ofChars] at h
  obtain ⟨earlier, ⟨content, ending⟩, later, hlines, rfl⟩ := exists_append_of_mem_placeLines h
  rw [Nat.zero_add]
  refine ⟨(isTile_of_splitLines hlines).content,
    earlier.flatMap lineChars, later.flatMap lineChars, ?_, rfl, byteSize_append _ _⟩
  rw [← flatMap_splitLines cs, hlines, List.flatMap_append, List.flatMap_cons, Line.chars_place,
    List.append_assoc]

theorem start_le_stop_of_mem_lines {cs : List Char} (h : line ∈ (LineTable.ofChars cs).lines) :
    line.start ≤ line.stop := by
  obtain ⟨-, before, after, -, hstart, hstop⟩ := stands_of_mem_lines h
  rw [← hstart, ← hstop, byteSize_append]
  exact Nat.le_add_right _ _

theorem exists_first_line (cs : List Char) :
    ∃ line, (LineTable.ofChars cs).lines.head? = some line ∧ line.start = 0 := by
  obtain ⟨line, rest, hlines⟩ := List.exists_cons_of_ne_nil (tiled_splitLines cs).ne_nil
  exact ⟨.place 0 line, by rw [LineTable.lines_ofChars, hlines]; rfl, rfl⟩

theorem exists_last_line (cs : List Char) :
    ∃ line, (LineTable.ofChars cs).lines.getLast? = some line ∧ line.ending = .endOfText ∧
      line.stop = byteSize cs := by
  obtain ⟨init, content, hlines⟩ := (tiled_splitLines cs).exists_last
  refine ⟨.place (byteSize (init.flatMap lineChars)) (content, .endOfText), ?_, rfl, ?_⟩
  · rw [LineTable.lines_ofChars, hlines, placeLines_append, Nat.zero_add]
    exact List.getLast?_concat
  · show byteSize (init.flatMap lineChars) + byteSize content = byteSize cs
    rw [← flatMap_splitLines cs, hlines, List.flatMap_append, byteSize_append]
    simp [lineChars, LineEnding.chars]

/-- How the lines of a table lie in the text that it was made of. -/
structure LineTable.Tiles (t : LineTable) (cs : List Char) : Prop where
  size_eq : t.size = byteSize cs
  flatMap_chars : t.lines.flatMap Line.chars = cs
  stands : ∀ line ∈ t.lines, ∃ before after, cs = before ++ line.chars ++ after ∧
    byteSize before = line.start ∧ byteSize (before ++ line.content) = line.stop
  content : ∀ line ∈ t.lines, IsContent line.content
  first : ∃ line, t.lines.head? = some line ∧ line.start = 0
  last : ∃ line, t.lines.getLast? = some line ∧ line.ending = .endOfText ∧ line.stop = t.size
  neighbours : t.lines.IsChain Line.Meets
  increasing : t.lines.Pairwise fun line later => line.start < later.start
  lineCount_eq : t.lineCount = terminatorCount cs + 1

/-- The lines of a text tile it: they begin at its first byte and end at its last, there is one
terminator between neighbours and none inside a line, and so there is one line more than there are
terminators. -/
theorem LineTable.tiles_ofText (text : String) : (ofText text).Tiles text.toList := by
  show (ofChars text.toList).Tiles text.toList
  generalize text.toList = cs
  have hchain := (tiled_splitLines cs).isChain_placeLines 0
  rw [← lines_ofChars] at hchain
  constructor
  case size_eq => rfl
  case flatMap_chars => rw [lines_ofChars, flatMap_chars_placeLines, flatMap_splitLines]
  case stands => exact fun _ hline => (stands_of_mem_lines hline).2
  case content => exact fun _ hline => (stands_of_mem_lines hline).1
  case first => exact exists_first_line cs
  case last => exact exists_last_line cs
  case neighbours => exact hchain
  case lineCount_eq => rw [lineCount, lines_ofChars, length_placeLines, length_splitLines]
  case increasing =>
    refine List.pairwise_map.mp (List.isChain_iff_pairwise.mp ((List.isChain_map _).mpr ?_))
    exact hchain.imp_of_mem_imp fun _ _ hline _ hmeets =>
      hmeets.start_lt (start_le_stop_of_mem_lines hline)

/-- A pair is one terminator, a lone carriage return is one, and the last line may be empty. -/
example : (LineTable.ofText "a\r\nb\rc\n").lines.map Line.start = [0, 3, 5, 7] := by decide +kernel

end Workbench
