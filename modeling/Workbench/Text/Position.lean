/-!
Places in a text as an editor names them: a zero-based line and a column in sixteen-bit units, and
ranges between two such places.
-/

namespace Workbench

/-- A zero-based line and a zero-based UTF-16 column. -/
structure Position where
  line : Nat
  character : Nat
  deriving DecidableEq, Repr, Inhabited

namespace Position

/-- Positions are ordered by line, then by column. -/
instance : Ord Position where
  compare p q := (compare p.line q.line).then (compare p.character q.character)

instance : LE Position where
  le p q := p.line < q.line ∨ p.line = q.line ∧ p.character ≤ q.character

instance : LT Position where
  lt p q := p.line < q.line ∨ p.line = q.line ∧ p.character < q.character

instance (p q : Position) : Decidable (p ≤ q) :=
  inferInstanceAs (Decidable (p.line < q.line ∨ p.line = q.line ∧ p.character ≤ q.character))

theorem le_def {p q : Position} :
    p ≤ q ↔ p.line < q.line ∨ p.line = q.line ∧ p.character ≤ q.character := Iff.rfl

theorem lt_def {p q : Position} :
    p < q ↔ p.line < q.line ∨ p.line = q.line ∧ p.character < q.character := Iff.rfl

end Position

/-- Two places of a text. Nothing says that the first comes first: editors send what they like. -/
structure Range where
  start : Position
  stop : Position
  deriving DecidableEq, Repr, Inhabited

namespace Range

instance : Ord Range where
  compare r s := (compare r.start s.start).then (compare r.stop s.stop)

def point (p : Position) : Range := ⟨p, p⟩

/-- Both ends belong to a range: a caret right behind a name still selects it. -/
def contains (r : Range) (p : Position) : Bool :=
  decide (r.start ≤ p ∧ p ≤ r.stop)

/-- The range of `width` columns that starts at a place. -/
def across (line column width : Nat) : Range :=
  ⟨⟨line, column⟩, ⟨line, column + width⟩⟩

end Range

/-- A stretch of bytes of a text; its ends are in order. -/
structure Span where
  start : Nat
  stop : Nat
  start_le_stop : start ≤ stop := by omega
  deriving DecidableEq, Repr

namespace Span

/-- The span between two offsets, if they are in order. -/
def ofEnds? (start stop : Nat) : Option Span :=
  if h : start ≤ stop then some ⟨start, stop, h⟩ else none

def point (offset : Nat) : Span := ⟨offset, offset, Nat.le_refl offset⟩

/-- The span of a whole text of `size` bytes. -/
def whole (size : Nat) : Span := ⟨0, size, Nat.zero_le size⟩

end Span

end Workbench
