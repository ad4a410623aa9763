import Mathlib.Data.List.Induction
import Workbench.Proofs.Text.Lines

/-!
The lines of a text lie behind one another like tiles. No content holds a terminator, every line
but the last has one behind it, and behind a carriage return that ends a line alone there is no line
feed. So a place between two characters falls inside the content of just one line, and a position
names it, unless it falls between a carriage return and its line feed.
-/

namespace Workbench

open Text

/-! ### Lines as tiles -/

/-- Characters that can stand inside a line. -/
def IsContent (content : List Char) : Prop := '\r' ∉ content ∧ '\n' ∉ content

/-- Lines as the lines of a text are: each of them knows what may stand behind it. -/
inductive Tiled : List (List Char × LineEnding) → Prop where
  | last {content : List Char} (hcontent : IsContent content) : Tiled [(content, .endOfText)]
  | line {content : List Char} {ending : LineEnding} {rest : List (List Char × LineEnding)}
      (hcontent : IsContent content) (hending : ending ≠ .endOfText)
      (halone : ending = .cr → (rest.flatMap lineChars).head? ≠ some '\n') (hrest : Tiled rest) :
      Tiled ((content, ending) :: rest)

theorem Tiled.ne_nil {lines : List (List Char × LineEnding)} (h : Tiled lines) : lines ≠ [] := by
  cases h <;> exact List.cons_ne_nil _ _

theorem Tiled.consChar {c : Char} {lines : List (List Char × LineEnding)} (hcr : c ≠ '\r')
    (hlf : c ≠ '\n') (h : Tiled lines) : Tiled (consChar c lines) := by
  have hcontent {content : List Char} (h : IsContent content) : IsContent (c :: content) :=
    ⟨by simp [h.1, Ne.symm hcr], by simp [h.2, Ne.symm hlf]⟩
  cases h with
  | last h => exact .last (hcontent h)
  | line h hending halone hrest => exact .line (hcontent h) hending halone hrest

theorem tiled_splitLines (cs : List Char) : Tiled (splitLines cs) := by
  have hempty : IsContent [] := ⟨by simp, by simp⟩
  fun_induction splitLines cs with
  | case1 => exact .last hempty
  | case2 cs ih => exact .line hempty (by simp) (by simp) ih
  | case3 cs ih => exact .line hempty (by simp) (by simp) ih
  | case4 cs hother ih =>
      refine .line hempty (by simp) (fun _ hhead => ?_) ih
      rw [flatMap_splitLines] at hhead
      obtain ⟨rest, rfl⟩ := List.head?_eq_some_iff.mp hhead
      exact hother rest rfl
  | case5 c cs hlf _ hcr ih => exact ih.consChar hcr hlf

/-- What a line of a text owes to the lines behind it. -/
structure IsTile (content : List Char) (ending : LineEnding)
    (later : List (List Char × LineEnding)) : Prop where
  content : IsContent content
  endOfText_iff : ending = .endOfText ↔ later = []
  alone : ending = .cr → (later.flatMap lineChars).head? ≠ some '\n'

theorem Tiled.isTile {earlier later : List (List Char × LineEnding)} {content : List Char}
    {ending : LineEnding} (h : Tiled (earlier ++ (content, ending) :: later)) :
    IsTile content ending later := by
  induction earlier with
  | nil =>
      cases h with
      | last hcontent => exact ⟨hcontent, by simp, by simp⟩
      | line hcontent hending halone hrest =>
          exact ⟨hcontent, by simp [hending, hrest.ne_nil], halone⟩
  | cons line earlier ih =>
      rw [List.cons_append] at h
      generalize hrest : earlier ++ (content, ending) :: later = rest at h ih
      cases h with
      | last => simp at hrest
      | line _ _ _ h => exact ih h

theorem isTile_of_splitLines {cs content : List Char} {ending : LineEnding}
    {earlier later : List (List Char × LineEnding)}
    (h : splitLines cs = earlier ++ (content, ending) :: later) : IsTile content ending later :=
  Tiled.isTile (h ▸ tiled_splitLines cs)

/-- Only the pair has a place inside it. -/
theorem LineEnding.of_chars_eq_append {ending : LineEnding} {first last : List Char}
    (h : ending.chars = first ++ last) (hfirst : first ≠ []) :
    last = [] ∧ ending ≠ .endOfText ∨ first = ['\r'] ∧ last = ['\n'] := by
  obtain ⟨c, first, rfl⟩ := List.exists_cons_of_ne_nil hfirst
  cases ending with
  | endOfText => simp [chars] at h
  | lf | cr => exact .inl ⟨by simp_all [chars], by simp⟩
  | crlf =>
      cases first with
      | nil =>
          obtain ⟨rfl, rfl⟩ := List.cons.inj h
          exact .inr ⟨rfl, rfl⟩
      | cons d first => exact .inl ⟨by simp_all [chars], by simp⟩

/-! ### Places between characters -/

/-- A place falls between a carriage return and a line feed. -/
def InsidePair (before after : List Char) : Prop :=
  ∃ first last, before = first ++ ['\r'] ∧ after = '\n' :: last

/-- A place in a list of texts falls into one of them, and behind all of it only at the end. -/
theorem exists_piece_of_append {α : Type} {f : α → List Char} {pieces : List α}
    {before after : List Char} (hne : pieces ≠ []) (h : pieces.flatMap f = before ++ after) :
    ∃ earlier piece later first last, pieces = earlier ++ piece :: later ∧
      f piece = first ++ last ∧ before = earlier.flatMap f ++ first ∧
      after = last ++ later.flatMap f ∧ (last = [] → later = []) := by
  induction pieces generalizing before with
  | nil => contradiction
  | cons piece rest ih =>
      rw [List.flatMap_cons] at h
      by_cases hrest : rest = []
      · subst hrest
        exact ⟨[], piece, [], before, after, rfl, by simpa using h, by simp, by simp, by simp⟩
      · rcases List.append_eq_append_iff.mp h with
          ⟨beyond, hbefore, hafter⟩ | ⟨last, hpiece, hafter⟩
        · obtain ⟨earlier, other, later, first, last, rfl, hother, rfl, rfl, hlast⟩ :=
            ih hrest hafter
          exact ⟨piece :: earlier, other, later, first, last, rfl, hother, by simp [hbefore], rfl,
            hlast⟩
        · by_cases hlast : last = []
          · -- The place is the end of the piece, which is the beginning of the next one.
            subst hlast
            have hbegin : rest.flatMap f = [] ++ after := hafter.symm
            obtain ⟨earlier, other, later, first, last, rfl, hother, hfirst, rfl, hend⟩ :=
              ih hrest hbegin
            exact ⟨piece :: earlier, other, later, first, last, rfl, hother,
              by simpa [hpiece] using hfirst, rfl, hend⟩
          · exact ⟨[], piece, rest, before, last, rfl, hpiece, by simp, hafter,
              fun h => absurd h hlast⟩

variable {cs before after : List Char} {p : Position}

/-- What ends in a carriage return and is made of lines ends in a line with nothing else behind its
content. -/
theorem exists_cr_of_flatMap_eq {earlier later : List (List Char × LineEnding)} {first : List Char}
    (hlines : splitLines cs = earlier ++ later) (hlater : later ≠ [])
    (h : earlier.flatMap lineChars = first ++ ['\r']) :
    ∃ init content, earlier = init ++ [(content, .cr)] := by
  cases earlier using List.reverseRecOn with
  | nil => simp at h
  | append_singleton init line =>
      obtain ⟨content, ending⟩ := line
      rw [List.append_assoc] at hlines
      have htile := isTile_of_splitLines hlines
      rw [List.flatMap_append, List.flatMap_singleton, lineChars, ← List.append_assoc] at h
      cases ending with
      | cr => exact ⟨init, content, rfl⟩
      | endOfText => exact absurd (htile.endOfText_iff.mp rfl) hlater
      | lf => simpa [LineEnding.chars] using (List.append_inj' h rfl).2
      | crlf =>
          rw [LineEnding.chars, ← List.singleton_append, ← List.append_assoc] at h
          simpa using (List.append_inj' h rfl).2

theorem Position.Divides.not_insidePair (h : p.Divides cs before after) :
    ¬ InsidePair before after := by
  obtain ⟨earlier, content, ending, later, part, rest, hlines, -, rfl, -, hbefore, hafter⟩ := h
  rintro ⟨first, last, hfirst, hlast⟩
  rw [hfirst] at hbefore
  rw [hlast] at hafter
  cases part using List.reverseRecOn with
  | append_singleton part c =>
      -- The content of a line has no carriage return.
      rw [← List.append_assoc] at hbefore
      cases (List.append_inj' hbefore rfl).2
      exact (isTile_of_splitLines hlines).content.1 (by simp)
  | nil =>
      rw [List.append_nil] at hbefore
      obtain ⟨init, content', rfl⟩ :=
        exists_cr_of_flatMap_eq hlines (List.cons_ne_nil _ _) hbefore.symm
      rw [List.append_assoc] at hlines
      have hhead := (isTile_of_splitLines hlines).alone rfl
      simp [lineChars, ← hafter] at hhead

/-- In front of a pair a line ends, and the pair is its terminator. -/
theorem Position.Divides.exists_crlf {last : List Char}
    (h : p.Divides cs before ('\r' :: '\n' :: last)) :
    ∃ earlier content later, splitLines cs = earlier ++ (content, .crlf) :: later ∧
      earlier.length = p.line ∧ unitCount content = p.character ∧
      before = earlier.flatMap lineChars ++ content := by
  obtain ⟨earlier, _, ending, later, part, rest, hlines, hline, rfl, hpart, hbefore, hafter⟩ := h
  have htile := isTile_of_splitLines hlines
  cases rest with
  | cons c rest =>
      cases (List.cons.inj hafter).1
      exact absurd (by simp) htile.content.1
  | nil =>
      rw [List.append_nil] at hlines htile
      cases ending with
      | crlf => exact ⟨earlier, part, later, hlines, hline, hpart, hbefore⟩
      | lf => simp [LineEnding.chars] at hafter
      | cr =>
          have hbehind : '\n' :: last = later.flatMap lineChars := (List.cons.inj hafter).2
          exact absurd (by rw [← hbehind, List.head?_cons]) (htile.alone rfl)
      | endOfText => simp [LineEnding.chars, htile.endOfText_iff.mp rfl] at hafter

/-- A position names each place between two characters, but for that inside a pair. -/
theorem exists_divides_iff (h : before ++ after = cs) :
    (∃ p : Position, p.Divides cs before after) ↔ ¬ InsidePair before after := by
  refine ⟨fun ⟨p, hp⟩ => hp.not_insidePair, fun hpair => ?_⟩
  obtain ⟨earlier, ⟨content, ending⟩, later, first, last, hlines, hline, rfl, rfl, hlast⟩ :=
    exists_piece_of_append (tiled_splitLines cs).ne_nil ((flatMap_splitLines cs).trans h.symm)
  have htile := isTile_of_splitLines hlines
  rcases List.append_eq_append_iff.mp hline with ⟨begun, rfl, hending⟩ | ⟨rest, rfl, rfl⟩
  · by_cases hbegun : begun = []
    · subst hbegun
      exact ⟨⟨earlier.length, unitCount content⟩, earlier, content, ending, later, content, [],
        hlines, rfl, by simp, rfl, by simp, by simp [hending]⟩
    · -- Something of the terminator stands before the place, so the place is inside a pair.
      rcases LineEnding.of_chars_eq_append hending hbegun with ⟨hnone, hsome⟩ | ⟨hbefore, hafter⟩
      · exact absurd (htile.endOfText_iff.mpr (hlast hnone)) hsome
      · subst hbefore hafter
        exact absurd ⟨_, _, (List.append_assoc _ _ _).symm, rfl⟩ hpair
  · exact ⟨⟨earlier.length, unitCount first⟩, earlier, first ++ rest, ending, later, first, rest,
      hlines, rfl, rfl, rfl, rfl, rfl⟩

end Workbench
