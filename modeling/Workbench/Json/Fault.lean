/-!
What is wrong with a JSON text, and where. A message that ends in a line and a column names the
place of the fault; lines count from one, so that line zero stands for no place at all.
-/

namespace Workbench.Json

/-- A fault: what is wrong, and the line and the column where it was found. -/
structure Fault where
  text : List Char
  line : Nat
  column : Nat
  deriving DecidableEq, Repr

namespace Fault

/-- Lines and columns are numbers of 64 bits. -/
def placeLimit : Nat := 0x10000000000000000

def lineMark : List Char := " at line ".toList

def columnMark : List Char := " column ".toList

/-- A number of a place, from its digits. Leading zeros do not matter. -/
def place? (digits : List Char) : Option Nat :=
  let n := digits.foldl (fun n c => n * 10 + (c.toNat - '0'.toNat)) 0
  if digits.isEmpty || n ≥ placeLimit then none else some n

/-- The number that ends a text that is written backwards, and what stands before the number and
the mark in front of it. -/
def cutPlace? (mark reversed : List Char) : Option (Nat × List Char) := do
  let n ← place? (reversed.takeWhile Char.isDigit).reverse
  let rest ← mark.reverse.isPrefixOf? (reversed.dropWhile Char.isDigit)
  return (n, rest)

/-- The fault that a message tells of, if the message ends in a place. -/
def ofPlaced? (message : List Char) : Option Fault := do
  let (column, rest) ← cutPlace? columnMark message.reverse
  let (line, rest) ← cutPlace? lineMark rest
  return ⟨rest.reverse, line, column⟩

def ofMessage (message : String) : Fault :=
  (ofPlaced? message.toList).getD ⟨message.toList, 0, 0⟩

/-- The message of a fault. The place is left out when there is none. -/
def message (f : Fault) : String :=
  String.ofList (if f.line = 0 then f.text
    else f.text ++ lineMark ++ (toString f.line).toList ++ columnMark ++ (toString f.column).toList)

end Fault

end Workbench.Json
