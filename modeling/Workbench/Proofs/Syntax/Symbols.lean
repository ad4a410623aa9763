import Mathlib.Data.List.Induction
import Workbench.Syntax.Index

/-!
The symbol at a position. Of all symbols whose ranges hold the position it is the first that
extends least, in lines and then in columns. A range inside another has at most its lines, and on
the same lines at most its columns. But columns are counted from the one in which a range begins to
the one in which it ends, and a range over several lines may end in a column before that. It then
counts as having no columns, like all ranges inside it on the same lines, and the first of them is
taken. In all other cases nothing that holds the position lies inside the symbol found.
-/

namespace Workbench

/-! ### Ranges inside others -/

namespace Range

/-- A range lies inside another one and is not the same. -/
def IsInside (inner outer : Range) : Prop :=
  outer.start ≤ inner.start ∧ inner.stop ≤ outer.stop ∧ inner ≠ outer

/-- Two ranges begin on one line and end on one line. -/
def SharesLines (r s : Range) : Prop :=
  r.start.line = s.start.line ∧ r.stop.line = s.stop.line

theorem contains_iff {r : Range} {p : Position} : r.contains p ↔ r.start ≤ p ∧ p ≤ r.stop := by
  rw [contains, decide_eq_true_eq]

/-- What holds a position does not end on a line before the one on which it begins. -/
theorem line_le_of_contains {r : Range} {p : Position} (h : r.contains p) :
    r.start.line ≤ r.stop.line := by
  rw [contains_iff, Position.le_def, Position.le_def] at h
  omega

end Range

namespace Symbol

variable {s other inner : Symbol} {symbols : List Symbol}

/-! ### The first that extends least -/

theorem isSmaller_iff : s.isSmaller other ↔ s.extent.1 < other.extent.1 ∨
    s.extent.1 = other.extent.1 ∧ s.extent.2 < other.extent.2 := by
  simp [isSmaller]

theorem not_isSmaller_self : ¬ s.isSmaller s := by
  rw [isSmaller_iff]
  omega

/-- A symbol stands in a list behind greater ones only, and in front of no smaller one. -/
def IsFirstLeast (symbols : List Symbol) (s : Symbol) : Prop :=
  ∃ before after, symbols = before ++ s :: after ∧
    (∀ other ∈ before, s.isSmaller other) ∧ ∀ other ∈ after, ¬ other.isSmaller s

namespace IsFirstLeast

theorem mem (h : IsFirstLeast symbols s) : s ∈ symbols := by
  obtain ⟨before, after, rfl, -⟩ := h
  exact List.mem_append_right before List.mem_cons_self

theorem not_isSmaller (h : IsFirstLeast symbols s) (hother : other ∈ symbols) :
    ¬ other.isSmaller s := by
  obtain ⟨before, after, rfl, hbefore, hafter⟩ := h
  rcases List.mem_append.mp hother with hother | hother
  · have hless := hbefore other hother
    rw [isSmaller_iff] at hless ⊢
    omega
  · rcases List.mem_cons.mp hother with rfl | hother
    · exact not_isSmaller_self
    · exact hafter other hother

theorem unique (h : IsFirstLeast symbols s) (h' : IsFirstLeast symbols other) : s = other := by
  -- None of two such symbols can stand between the beginning and the other one.
  have hnext {a b : Symbol} {between after after' : List Symbol} (ha : IsFirstLeast symbols a)
      (hb : b ∈ symbols) (hrest : a :: after = between ++ b :: after')
      (hbetween : ∀ o ∈ between, b.isSmaller o) : a = b := by
    rcases List.cons_eq_append_iff.mp hrest with ⟨-, heq⟩ | ⟨between, rfl, -⟩
    · exact (List.cons.inj heq).1.symm
    · exact absurd (hbetween a List.mem_cons_self) (ha.not_isSmaller hb)
  obtain ⟨before, after, hsymbols, hbefore, -⟩ := id h
  obtain ⟨before', after', hsymbols', hbefore', -⟩ := id h'
  rcases List.append_eq_append_iff.mp (hsymbols.symm.trans hsymbols') with
    ⟨between, rfl, hrest⟩ | ⟨between, rfl, hrest⟩
  · exact hnext h h'.mem hrest fun o ho => hbefore' o (List.mem_append_right _ ho)
  · exact (hnext h' h.mem hrest fun o ho => hbefore o (List.mem_append_right _ ho)).symm

/-- A symbol at the end of a list takes the place of the least one just if it is smaller. -/
theorem concat (h : IsFirstLeast symbols s) (last : Symbol) :
    IsFirstLeast (symbols ++ [last]) (if last.isSmaller s then last else s) := by
  split
  case isTrue hless =>
    refine ⟨symbols, [], rfl, fun other hother => ?_, List.forall_mem_nil _⟩
    have hnot := h.not_isSmaller hother
    rw [isSmaller_iff] at hless hnot ⊢
    omega
  case isFalse hnot =>
    obtain ⟨before, after, rfl, hbefore, hafter⟩ := h
    refine ⟨before, after ++ [last], by simp, hbefore, fun other hother => ?_⟩
    rcases List.mem_append.mp hother with hother | hother
    · exact hafter other hother
    · exact List.mem_singleton.mp hother ▸ hnot

end IsFirstLeast

theorem isFirstLeast_foldl (first : Symbol) (rest : List Symbol) :
    IsFirstLeast (first :: rest)
      (rest.foldl (fun best s => if s.isSmaller best then s else best) first) := by
  induction rest using List.reverseRecOn with
  | nil => exact ⟨[], [], rfl, List.forall_mem_nil _, List.forall_mem_nil _⟩
  | append_singleton init last ih =>
      rw [List.foldl_append]
      exact ih.concat last

theorem smallest?_eq_some_iff : smallest? symbols = some s ↔ IsFirstLeast symbols s := by
  cases symbols with
  | nil =>
      refine iff_of_false (by simp [smallest?]) fun h => ?_
      exact absurd h.mem List.not_mem_nil
  | cons first rest =>
      have hfold := isFirstLeast_foldl first rest
      rw [smallest?, Option.some.injEq]
      exact ⟨fun heq => heq ▸ hfold, fun h => hfold.unique h⟩

theorem isSome_smallest?_iff : (smallest? symbols).isSome ↔ ∃ s, s ∈ symbols := by
  cases symbols <;> simp [smallest?]

/-! ### Inside the least one -/

/-- What lies inside a symbol is smaller, but for what shares the lines of a symbol that ends in no
later column than it begins. -/
theorem not_isSmaller_iff_of_isInside {p : Position} (hinner : inner.range.contains p)
    (h : inner.range.IsInside s.range) :
    ¬ inner.isSmaller s ↔ inner.range.SharesLines s.range ∧
      s.range.stop.character ≤ s.range.start.character := by
  obtain ⟨_, ⟨⟨line, column⟩, ⟨line', column'⟩⟩, _⟩ := s
  obtain ⟨_, ⟨⟨first, column₁⟩, ⟨last, column₂⟩⟩, _⟩ := inner
  obtain ⟨hstart, hstop, hne⟩ := h
  have hlines := Range.line_le_of_contains hinner
  simp only [Position.le_def, ne_eq, Range.mk.injEq, Position.mk.injEq] at hstart hstop hne hlines
  simp only [isSmaller_iff, extent, Range.SharesLines]
  omega

end Symbol

namespace SyntaxIndex

variable (x : SyntaxIndex) (file : FileId) (p : Position)

/-- The symbols of a file; a file without a tree has none. -/
def symbolsIn : List Symbol := ((x.get? file).map FileSyntax.symbols).getD []

/-- The symbols of a file whose ranges hold a position. -/
def symbolsAt : List Symbol := (x.symbolsIn file).filter fun s => s.range.contains p

theorem symbolAt?_eq : x.symbolAt? file p = Symbol.smallest? (x.symbolsAt file p) := by
  rw [symbolAt?, symbolsAt, symbolsIn]
  cases x.get? file <;> rfl

theorem mem_symbolsAt {s : Symbol} :
    s ∈ x.symbolsAt file p ↔ s ∈ x.symbolsIn file ∧ s.range.contains p :=
  List.mem_filter

/-- What is answered for a position in a file. -/
structure PointsOut : Prop where
  isSome_iff : (x.symbolAt? file p).isSome ↔ ∃ s ∈ x.symbolsIn file, s.range.contains p
  /-- No difference of lines is cut off at zero. -/
  line_le : ∀ s ∈ x.symbolsIn file, s.range.contains p → s.range.start.line ≤ s.range.stop.line
  eq_some_iff : ∀ s, x.symbolAt? file p = some s ↔
    Symbol.IsFirstLeast (x.symbolsAt file p) s
  contains : ∀ s, x.symbolAt? file p = some s → s ∈ x.symbolsIn file ∧ s.range.contains p
  /-- Nothing that holds the position lies inside the symbol found, unless this one ends in no later
  column than it begins, and what lies inside shares its lines. -/
  innermost_iff : ∀ s, x.symbolAt? file p = some s →
    ((∀ inner ∈ x.symbolsIn file, inner.range.contains p → ¬ inner.range.IsInside s.range) ↔
      s.range.start.character < s.range.stop.character ∨
        ∀ inner ∈ x.symbolsIn file, inner.range.contains p → inner.range.IsInside s.range →
          ¬ inner.range.SharesLines s.range)

/-- For every position in a file a symbol is found if there is one that holds it; it holds it, and
it is innermost but for symbols on the same lines where it ends in no later column than it
begins. -/
theorem pointsOut_symbolAt? : x.PointsOut file p := by
  have hfound {s : Symbol} : x.symbolAt? file p = some s ↔
      Symbol.IsFirstLeast (x.symbolsAt file p) s := by
    rw [symbolAt?_eq, Symbol.smallest?_eq_some_iff]
  refine ⟨?_, fun s _ => Range.line_le_of_contains, fun s => hfound, fun s hs => ?_,
    fun s hs => ⟨fun hnone => .inr fun inner hinner hat hinside _ => hnone inner hinner hat hinside,
      fun h inner hinner hat hinside => ?_⟩⟩
  · rw [symbolAt?_eq, Symbol.isSome_smallest?_iff]
    simp only [mem_symbolsAt]
  · exact (x.mem_symbolsAt file p).mp (hfound.mp hs).mem
  · have hleast := (hfound.mp hs).not_isSmaller ((x.mem_symbolsAt file p).mpr ⟨hinner, hat⟩)
    obtain ⟨hlines, hcolumns⟩ := (Symbol.not_isSmaller_iff_of_isInside hat hinside).mp hleast
    rcases h with hlater | hnone
    · exact absurd hlater (Nat.not_lt_of_le hcolumns)
    · exact hnone inner hinner hat hinside hlines

/-- A method and what stands inside it, on the same two lines; both end in an earlier column than
they begin. -/
def wrapped : FileSyntax where
  symbols := [⟨"outer", ⟨⟨0, 10⟩, ⟨1, 5⟩⟩, .method⟩, ⟨"inner", ⟨⟨0, 12⟩, ⟨1, 3⟩⟩, .reference⟩]

theorem not_innermost_wrapped :
    ¬ ∀ (x : SyntaxIndex) (file : FileId) (p : Position) (s : Symbol),
        x.symbolAt? file p = some s →
        ∀ inner ∈ x.symbolsIn file, inner.range.contains p → ¬ inner.range.IsInside s.range := by
  intro hclaim
  have hfound : (insert {} 0 wrapped).symbolAt? 0 ⟨0, 12⟩ =
      some ⟨"outer", ⟨⟨0, 10⟩, ⟨1, 5⟩⟩, .method⟩ := by decide +kernel
  have hsymbols : (insert {} 0 wrapped).symbolsIn 0 = wrapped.symbols := by decide +kernel
  refine hclaim _ 0 ⟨0, 12⟩ _ hfound ⟨"inner", ⟨⟨0, 12⟩, ⟨1, 3⟩⟩, .reference⟩ ?_ (by decide) ?_
  · rw [hsymbols]
    decide
  · exact ⟨by decide, by decide, by decide⟩

end SyntaxIndex

end Workbench
