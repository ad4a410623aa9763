/-!
Patterns for values of fields: regular expressions with groups, flags, repetitions and sets of
characters. Sets are unions of characters, ranges, named classes and other sets in brackets, and two
sets may be intersected or subtracted. How deeply a pattern nests is limited.
-/

namespace Workbench

namespace Pattern

/-- A flag that a group turns on or off. -/
inductive Flag where
  | ignoreCase
  | multiLine
  | dotMatchesAll
  | swapGreed
  /-- Characters and classes are those of Unicode; without this flag they are bytes. -/
  | unicode
  | carriageReturns
  /-- Blanks and comments in the pattern count for nothing. -/
  | ignoreBlanks
  deriving DecidableEq, Repr

/-- The flags that a group turns on and those that it turns off. -/
structure Flags where
  turnedOn : List Flag
  turnedOff : List Flag
  deriving DecidableEq, Repr

/-- What becomes of a flag. -/
def Flags.apply (flags : Flags) (flag : Flag) (before : Bool) : Bool :=
  if flags.turnedOn.contains flag then true
  else if flags.turnedOff.contains flag then false
  else before

/-- A character of a pattern. -/
structure Literal where
  char : Char
  /-- Whether two hexadecimal digits write it; among bytes it is then a byte. -/
  isHexPair : Bool
  deriving DecidableEq, Repr

/-- The classes that have a letter. -/
inductive LetterClass where
  | digit
  | space
  | word
  deriving DecidableEq, Repr

/-- The classes that have a name between colons. -/
inductive NamedClass where
  | alnum
  | alpha
  | ascii
  | blank
  | cntrl
  | digit
  | graph
  | lower
  | print
  | punct
  | space
  | upper
  | word
  | xdigit
  deriving DecidableEq, Repr

/-- How two sets are joined. -/
inductive SetOperation where
  | intersection
  | difference
  | symmetricDifference
  deriving DecidableEq, Repr

/-- A set of characters as it is written between brackets. -/
inductive CharSet where
  | nothing
  | literal (value : Literal)
  | range (start stop : Literal)
  | named (kind : NamedClass) (isNegated : Bool)
  | letter (kind : LetterClass) (isNegated : Bool)
  | bracketed (isNegated : Bool) (inner : CharSet)
  | union (items : List CharSet)
  | operation (kind : SetOperation) (left right : CharSet)
  deriving Repr

/-- What a pattern asks for between two characters. -/
inductive Assertion where
  /-- The start or the end of a line or of the text. -/
  | anchor
  /-- A place where a word starts or ends, or where none does. -/
  | wordEdge
  deriving DecidableEq, Repr

end Pattern

open Pattern in
/-- A pattern. -/
inductive Pattern where
  | nothing
  /-- Flags that hold up to the end of the group around them. -/
  | switch (flags : Flags)
  | literal (value : Literal)
  | anyChar
  | assertion (kind : Assertion)
  | letter (kind : LetterClass) (isNegated : Bool)
  | set (isNegated : Bool) (inner : CharSet)
  | repetition (body : Pattern)
  | group (flags : Flags) (body : Pattern)
  | alternation (branches : List Pattern)
  | concat (parts : List Pattern)
  deriving Repr

namespace Pattern

def CharSet.ofItems : List CharSet → CharSet
  | [] => .nothing
  | [item] => item
  | items => .union items

def ofParts : List Pattern → Pattern
  | [] => .nothing
  | [part] => part
  | parts => .concat parts

def ofBranches : List Pattern → Pattern
  | [branch] => branch
  | branches => .alternation branches

mutual
def CharSet.depth : CharSet → Nat
  | .bracketed _ inner => inner.depth + 1
  | .union items => depthOfItems items + 1
  | .operation _ left right => max left.depth right.depth + 1
  | _ => 0

def depthOfItems : List CharSet → Nat
  | [] => 0
  | item :: rest => max item.depth (depthOfItems rest)
end

mutual
def depth : Pattern → Nat
  | .set _ inner => inner.depth + 1
  | .repetition body => body.depth + 1
  | .group _ body => body.depth + 1
  | .alternation branches => depthOfParts branches + 1
  | .concat parts => depthOfParts parts + 1
  | _ => 0

def depthOfParts : List Pattern → Nat
  | [] => 0
  | part :: rest => max part.depth (depthOfParts rest)
end

/-- Patterns may not nest more deeply than this. -/
def depthLimit : Nat := 250

end Pattern

end Workbench
