import Workbench.Proofs.Path.Lexical
import Workbench.Proofs.Text.Order
import Workbench.Toy.Words

/-!
Where words stand. A word starts at the byte that it says, no matter whether it was read off the
whole code of its line or off a piece of it between two commas, and no character is cut there: the
column of this byte is the number of units in front of the word. The lines that words are read off
are lines of the text, if each carriage return of it has a line feed behind it.
-/

namespace Workbench.Toy

open Text

/-! ### Bytes and columns -/

/-- Some characters stand among others, behind so many bytes. -/
def StandsAt (offset : Nat) (part cs : List Char) : Prop :=
  ∃ before after, cs = before ++ part ++ after ∧ byteSize before = offset

variable {base offset byte k : Nat} {part piece code before cs : List Char} {begun : Option Word}
  {w : Word}

theorem StandsAt.trans (h : StandsAt k part piece) (h' : StandsAt offset piece cs) :
    StandsAt (offset + k) part cs := by
  obtain ⟨before, after, rfl, rfl⟩ := h
  obtain ⟨before', after', rfl, rfl⟩ := h'
  exact ⟨before' ++ before, after ++ after', by simp, measure_append _ _ _⟩

theorem standsAt_zero (h : part <+: cs) : StandsAt 0 part cs := by
  obtain ⟨after, rfl⟩ := h
  exact ⟨[], after, rfl, rfl⟩

theorem utf16Col_append (before after : List Char) :
    utf16Col (before ++ after) (byteSize before) = unitCount before := by
  rw [utf16Col, cut?_append Char.utf8Size_pos]

theorem add_byteSize_concat (h : base + byteSize before = byte) (c : Char) :
    base + byteSize (before ++ [c]) = byte + c.utf8Size := by
  simp [← h, Nat.add_assoc]

/-! ### Words -/

/-- A word ends with some characters that stand at a byte. -/
def Word.Ends (w : Word) (base : Nat) (before : List Char) : Prop :=
  ∃ front, before = front ++ w.chars ∧ base + byteSize front = w.start

theorem Word.Ends.push (h : w.Ends base before) (c : Char) :
    (w.push c).Ends base (before ++ [c]) := by
  obtain ⟨front, rfl, hstart⟩ := h
  exact ⟨front, List.append_assoc _ _ _, hstart⟩

theorem Word.Ends.standsAt (h : w.Ends base before) (cs : List Char) :
    ∃ k, StandsAt k w.chars (before ++ cs) ∧ base + k = w.start := by
  obtain ⟨front, rfl, hstart⟩ := h
  exact ⟨_, ⟨front, cs, rfl, rfl⟩, hstart⟩

/-- The words that are found from a byte on, the one that has begun before it among them. -/
theorem exists_standsAt_of_mem_wordsFrom (hbegun : ∀ v ∈ begun, v.Ends base before)
    (hbyte : base + byteSize before = byte) (hw : w ∈ wordsFrom byte begun cs) :
    ∃ k, StandsAt k w.chars (before ++ cs) ∧ base + k = w.start := by
  fun_induction wordsFrom byte begun cs generalizing before with
  | case1 _ begun => exact (hbegun w (Option.mem_toList.mp hw)).standsAt []
  | case2 byte c cs _ ih =>
      rw [List.append_cons]
      refine ih (fun v hv => ?_) (add_byteSize_concat hbyte c) hw
      obtain rfl := Option.some.inj hv
      exact ⟨before, rfl, hbyte⟩
  | case3 byte c cs v _ ih =>
      rw [List.append_cons]
      refine ih (fun v' hv => ?_) (add_byteSize_concat hbyte c) hw
      obtain rfl := Option.some.inj hv
      exact (hbegun v rfl).push c
  | case4 byte c cs v _ ih =>
      rcases List.mem_cons.mp hw with rfl | hw
      · exact (hbegun w rfl).standsAt (c :: cs)
      · rw [List.append_cons]
        exact ih nofun (add_byteSize_concat hbyte c) hw
  | case5 byte c cs _ ih =>
      rw [List.append_cons]
      exact ih nofun (add_byteSize_concat hbyte c) hw

/-- The words of a piece stand where the piece does. -/
theorem standsAt_of_mem_wordsAt (hw : w ∈ wordsAt offset piece)
    (hpiece : StandsAt offset piece cs) : StandsAt w.start w.chars cs := by
  have hnone : ∀ v ∈ (none : Option Word), v.Ends offset [] := nofun
  obtain ⟨k, hk, hstart⟩ := exists_standsAt_of_mem_wordsFrom hnone rfl hw
  exact hstart ▸ hk.trans hpiece

theorem prefix_codeOf (cs : List Char) : codeOf cs <+: cs := by
  induction cs with
  | nil => exact List.prefix_rfl
  | cons c cs ih =>
      unfold codeOf
      split
      case h_1 => exact List.nil_prefix
      case h_2 => exact List.nil_prefix
      case h_3 heq =>
        obtain ⟨rfl, rfl⟩ := List.cons.inj heq
        exact (List.prefix_cons_inj _).mpr ih

/-! ### Parameters -/

theorem exists_standsAt_of_mem_placePieces {pieces : List (List Char)} {offset' : Nat}
    (h : (offset', piece) ∈ placePieces offset pieces) :
    ∃ k, StandsAt k piece ([','].intercalate pieces) ∧ offset + k = offset' := by
  induction pieces generalizing offset with
  | nil => contradiction
  | cons first rest ih =>
      have hfirst : StandsAt 0 first ([','].intercalate (first :: rest)) := by
        cases rest with
        | nil => exact standsAt_zero (by simp)
        | cons second rest =>
            rw [List.intercalate_cons_cons, List.append_assoc]
            exact standsAt_zero (List.prefix_append _ _)
      rw [placePieces] at h
      rcases List.mem_cons.mp h with heq | hrest
      · obtain ⟨rfl, rfl⟩ := Prod.mk.inj heq
        exact ⟨0, hfirst, rfl⟩
      · obtain ⟨k, hk, hoffset⟩ := ih hrest
        cases rest with
        | nil => contradiction
        | cons second rest =>
            have hbehind : StandsAt (byteSize first + 1) ([','].intercalate (second :: rest))
                ([','].intercalate (first :: second :: rest)) :=
              ⟨first ++ [','], [], by simp [List.intercalate_cons_cons], measure_append _ _ _⟩
            exact ⟨_, hk.trans hbehind, by omega⟩

/-- The pieces between the parentheses stand where they are said to. -/
theorem standsAt_of_mem_parameters {pieces : List (Nat × List Char)}
    (h : parameters? code = some pieces) (hpiece : (offset, piece) ∈ pieces) :
    StandsAt offset piece code := by
  rw [parameters?] at h
  split at h
  case h_1 => contradiction
  case h_2 opening inner hbehind =>
    obtain rfl := Option.some.inj h
    obtain ⟨k, hk, rfl⟩ := exists_standsAt_of_mem_placePieces hpiece
    rw [intercalate_splitPieces] at hk
    obtain rfl : opening = '(' := by
      have hhead := List.head?_dropWhile_not (· != '(') code
      rw [hbehind] at hhead
      simpa using hhead
    have hinner : StandsAt (byteSize (code.takeWhile (· != '(')) + 1) inner code := by
      refine ⟨code.takeWhile (· != '(') ++ ['('], [], ?_, measure_append _ _ _⟩
      rw [List.append_nil, List.append_assoc, List.singleton_append, ← hbehind,
        List.takeWhile_append_dropWhile]
    have hclosed := standsAt_zero <| List.takeWhile_prefix (· != ')') (l := inner)
    exact hk.trans (hclosed.trans hinner)

/-! ### Lines -/

/-- Every carriage return has a line feed behind it. -/
def ReturnsPaired (cs : List Char) : Prop :=
  ∀ i < cs.length, cs[i]? = some '\r' → cs[i + 1]? = some '\n'

instance (cs : List Char) : Decidable (ReturnsPaired cs) :=
  inferInstanceAs (Decidable (∀ i < cs.length, _))

theorem returnsPaired_cons {c : Char} : ReturnsPaired (c :: cs) ↔
    (c = '\r' → cs.head? = some '\n') ∧ ReturnsPaired cs := by
  rw [ReturnsPaired, List.length_cons, Nat.forall_lt_succ_left]
  simp [ReturnsPaired, List.head?_eq_getElem?]

/-- The lines that the pieces between line feeds make. -/
def linesOfPieces : List (List Char) → List (List Char)
  | [] => []
  | [piece] => if piece.isEmpty then [] else [piece]
  | piece :: rest => dropReturn piece :: linesOfPieces rest

theorem sourceLines_eq (cs : List Char) : sourceLines cs = linesOfPieces (splitPieces '\n' cs) := by
  rw [sourceLines]
  generalize splitPieces '\n' cs = pieces
  fun_induction linesOfPieces pieces with
  | case1 => rfl
  | case2 piece hempty => simp [hempty]
  | case3 piece hempty => simp [hempty]
  | case4 piece rest hrest ih =>
      obtain ⟨second, rest, rfl⟩ := List.exists_cons_of_ne_nil fun hnil => hrest hnil
      rw [← ih]
      rfl

theorem linesOfPieces_cons {rest : List (List Char)} (h : rest ≠ []) (piece : List Char) :
    linesOfPieces (piece :: rest) = dropReturn piece :: linesOfPieces rest := by
  cases rest with
  | nil => contradiction
  | cons second rest => rfl

theorem sourceLines_feed (line : List Char) (h : '\n' ∉ line) (cs : List Char) :
    sourceLines (line ++ '\n' :: cs) = dropReturn line :: sourceLines cs := by
  rw [sourceLines_eq, sourceLines_eq, splitPieces_append h,
    linesOfPieces_cons (splitPieces_ne_nil _ _)]

theorem eq_nil_of_sourceLines (h : sourceLines cs = []) : cs = [] := by
  have hpieces := intercalate_splitPieces '\n' cs
  rw [sourceLines_eq] at h
  generalize splitPieces '\n' cs = pieces at h hpieces
  fun_cases linesOfPieces pieces with
  | case1 => simpa using hpieces.symm
  | case2 piece hempty => simpa [List.isEmpty_iff.mp hempty] using hpieces.symm
  | case3 piece hempty => simp [linesOfPieces, hempty] at h
  | case4 piece rest hrest => simp [linesOfPieces_cons hrest] at h

theorem dropReturn_cons {c : Char} {cs : List Char} (h : c = '\r' → cs ≠ []) :
    dropReturn (c :: cs) = c :: dropReturn cs := by
  cases cs with
  | nil =>
      have hc : c ≠ '\r' := fun hc => h hc rfl
      simp [dropReturn, hc]
  | cons d cs =>
      rw [dropReturn, dropReturn, List.getLast?_cons_cons]
      split <;> rfl

/-- Puts a character in front of the first of some lines. -/
def consLine (c : Char) : List (List Char) → List (List Char)
  | [] => [[c]]
  | line :: rest => (c :: line) :: rest

theorem sourceLines_cons {c : Char} (hlf : c ≠ '\n') (hcr : c = '\r' → cs.head? ≠ some '\n') :
    sourceLines (c :: cs) = consLine c (sourceLines cs) := by
  have hcs := intercalate_splitPieces '\n' cs
  rw [sourceLines_eq, sourceLines_eq, splitPieces, if_neg hlf]
  cases hpieces : splitPieces '\n' cs with
  | nil => exact absurd hpieces (splitPieces_ne_nil '\n' cs)
  | cons piece rest =>
      rw [hpieces] at hcs
      cases rest with
      | nil => cases piece <;> rfl
      | cons second rest =>
          have hpiece : c = '\r' → piece ≠ [] := by
            rintro hc rfl
            exact hcr hc (by rw [← hcs, List.intercalate_cons_cons]; rfl)
          rw [linesOfPieces_cons (List.cons_ne_nil _ _), linesOfPieces_cons (List.cons_ne_nil _ _),
            dropReturn_cons hpiece]
          rfl

/-- The lines of the toy language are the first lines of the text; at most an empty last one is
missing. -/
theorem prefix_sourceLines (h : ReturnsPaired cs) :
    sourceLines cs <+: (splitLines cs).map Prod.fst := by
  fun_induction splitLines cs with
  | case1 => exact List.nil_prefix
  | case2 cs ih =>
      have hlines := sourceLines_feed [] List.not_mem_nil cs
      rw [List.nil_append] at hlines
      rw [hlines]
      exact (List.prefix_cons_inj []).mpr (ih (returnsPaired_cons.mp h).2)
  | case3 cs ih =>
      have hlines := sourceLines_feed ['\r'] (by decide) cs
      rw [List.singleton_append] at hlines
      rw [hlines]
      exact (List.prefix_cons_inj []).mpr (ih (returnsPaired_cons.mp (returnsPaired_cons.mp h).2).2)
  | case4 cs hother ih =>
      obtain ⟨rest, rfl⟩ := List.head?_eq_some_iff.mp ((returnsPaired_cons.mp h).1 rfl)
      exact absurd rfl (hother rest)
  | case5 c cs hlf _ hcr ih =>
      have hprefix := ih (returnsPaired_cons.mp h).2
      rw [sourceLines_cons hlf fun hc => absurd hc hcr]
      obtain ⟨⟨content, ending⟩, rest, hlines⟩ :=
        List.exists_cons_of_ne_nil (tiled_splitLines cs).ne_nil
      cases hsource : sourceLines cs with
      | nil =>
          obtain rfl := eq_nil_of_sourceLines hsource
          exact List.prefix_rfl
      | cons line others =>
          rw [hsource, hlines, List.map_cons] at hprefix
          obtain ⟨rfl, hothers⟩ := List.cons_prefix_cons.mp hprefix
          rw [hlines]
          exact (List.prefix_cons_inj _).mpr hothers

theorem exists_line_of_sourceLines (h : ReturnsPaired cs) {n : Nat} {raw : List Char}
    (hraw : (sourceLines cs)[n]? = some raw) :
    ∃ earlier ending later, splitLines cs = earlier ++ (raw, ending) :: later ∧
      earlier.length = n := by
  obtain ⟨others, hlines⟩ := prefix_sourceLines h
  have hline : ((splitLines cs).map Prod.fst)[n]? = some raw := by
    rw [← hlines, List.getElem?_append_left (List.getElem?_eq_some_iff.mp hraw).1, hraw]
  rw [List.getElem?_map] at hline
  obtain ⟨⟨_, ending⟩, hentry, rfl⟩ := Option.map_eq_some_iff.mp hline
  obtain ⟨earlier, later, hsplit, hlength⟩ := exists_append_of_getElem? hentry
  exact ⟨earlier, ending, later, hsplit, hlength⟩

end Workbench.Toy
