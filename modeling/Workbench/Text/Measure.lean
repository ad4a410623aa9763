/-!
Sizes of text. A file counts bytes of the UTF-8 form, an editor counts sixteen-bit units of the
UTF-16 form, and both are sums of a size per character. `cut?` is the one way a text is divided at
an offset: it succeeds exactly where the offset falls between two characters.
-/

namespace Workbench.Text

/-- Sixteen-bit units of a character: characters beyond the first plane take a surrogate pair. -/
def unitSize (c : Char) : Nat :=
  if c.toNat < 0x10000 then 1 else 2

/-- The size of a text in which a character `c` counts `size c`. -/
def measure (size : Char → Nat) : List Char → Nat
  | [] => 0
  | c :: cs => size c + measure size cs

/-- The number of bytes of a text in UTF-8. -/
abbrev byteSize (cs : List Char) : Nat := measure Char.utf8Size cs

/-- The number of sixteen-bit units of a text in UTF-16. -/
abbrev unitCount (cs : List Char) : Nat := measure unitSize cs

/-- Divides a text after a first part of size `n`. There is no such division when `n` lies inside
a character or past the end. -/
def cut? (size : Char → Nat) : List Char → Nat → Option (List Char × List Char)
  | cs, 0 => some ([], cs)
  | [], _ + 1 => none
  | c :: cs, n + 1 =>
    if size c ≤ n + 1 then
      (cut? size cs (n + 1 - size c)).map fun (before, after) => (c :: before, after)
    else none

@[simp] theorem measure_nil (size : Char → Nat) : measure size [] = 0 := rfl

@[simp] theorem measure_cons (size : Char → Nat) (c : Char) (cs : List Char) :
    measure size (c :: cs) = size c + measure size cs := rfl

@[simp] theorem measure_append (size : Char → Nat) (xs ys : List Char) :
    measure size (xs ++ ys) = measure size xs + measure size ys := by
  induction xs with
  | nil => simp
  | cons c xs ih => simp [ih, Nat.add_assoc]

theorem unitSize_pos (c : Char) : 0 < unitSize c := by
  unfold unitSize; split <;> omega

/-- Divides a text at the first place where `pattern` occurs, and drops the pattern there. -/
def splitOnce? (pattern : List Char) : List Char → Option (List Char × List Char)
  | [] => if pattern.isEmpty then some ([], []) else none
  | c :: cs =>
    if pattern.isPrefixOf (c :: cs) then some ([], (c :: cs).drop pattern.length)
    else (splitOnce? pattern cs).map fun (before, after) => (c :: before, after)

end Workbench.Text
