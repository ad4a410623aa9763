import Workbench.Registry

/-!
The texts of closed files that are kept for a while. The table holds at most `capacity` texts; to
make room it drops the one that was not used for the longest time.
-/

namespace Workbench

/-- A kept text and the time at which it was put there. -/
structure ClosedText where
  text : String
  cachedAt : Nat
  deriving DecidableEq, Repr

/-- Kept texts, the one used last in front. -/
structure ClosedTexts where
  capacity : Nat
  entries : List (FileId × ClosedText) := []

namespace ClosedTexts

/-- An empty table. It has room for one text at least. -/
def ofCapacity (capacity : Nat) : ClosedTexts := ⟨max 1 capacity, []⟩

/-- The most places of a table that can be addressed: two to the power of 58. -/
def maxPlaces : Nat := 0x400000000000000

/-- Whether a table can have so much room. Room for all texts is made when the table is, and of
eight places one stays free. -/
def isPossible (capacity : Nat) : Bool := 8 * capacity / 7 ≤ maxPlaces

def get? (c : ClosedTexts) (file : FileId) : Option ClosedText := c.entries.lookup file

def erase (c : ClosedTexts) (file : FileId) : ClosedTexts :=
  { c with entries := c.entries.filter fun entry => entry.1 != file }

/-- Puts a text in front, and drops the last ones if there is no room. -/
def put (c : ClosedTexts) (file : FileId) (text : ClosedText) : ClosedTexts :=
  { c with entries := ((file, text) :: (c.erase file).entries).take c.capacity }

def promote (c : ClosedTexts) (file : FileId) : ClosedTexts :=
  match c.get? file with
  | some text => { c with entries := (file, text) :: (c.erase file).entries }
  | none => c

end ClosedTexts

end Workbench
