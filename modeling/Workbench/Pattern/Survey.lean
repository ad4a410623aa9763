import Workbench.Pattern.Reader

/-!
Which patterns can be used. Nothing is known here about the classes and the letter case of Unicode,
and a pattern may not match a part of a character, so that among bytes only the first 128 may be
matched. Edges of words can be found among bytes only.
-/

namespace Workbench.Pattern

/-! ### Bytes -/

/-- A set of bytes. -/
abbrev ByteSet := Nat → Bool

namespace ByteSet

def complement (s : ByteSet) : ByteSet := fun b => !s b

/-- A letter in the other case; other bytes stay. -/
def otherCase (b : Nat) : Nat :=
  if 0x41 ≤ b ∧ b ≤ 0x5A then b + 0x20
  else if 0x61 ≤ b ∧ b ≤ 0x7A then b - 0x20
  else b

/-- The bytes of a set and the letters of it in the other case. -/
def fold (s : ByteSet) : ByteSet := fun b => s b || s (otherCase b)

/-- Whether all bytes of a set are among the first 128. -/
def isAscii (s : ByteSet) : Bool := (List.range 0x80).all fun b => !s (0x80 + b)

def between (start stop : Nat) : ByteSet := fun b => start ≤ b && b ≤ stop

/-- The set, if it may be matched. -/
def admitted? (s : ByteSet) : Option ByteSet := if s.isAscii then some s else none

end ByteSet

def LetterClass.bytes : LetterClass → ByteSet
  | digit => fun b => (Char.ofNat b).isDigit
  | space => fun b => (0x9 ≤ b && b ≤ 0xD) || b == 0x20
  | word => fun b => (Char.ofNat b).isAlphanum || b == 0x5F

def NamedClass.bytes : NamedClass → ByteSet
  | alnum => fun b => (Char.ofNat b).isAlphanum
  | alpha => fun b => (Char.ofNat b).isAlpha
  | ascii => fun b => b < 0x80
  | blank => fun b => b == 0x9 || b == 0x20
  | cntrl => fun b => b < 0x20 || b == 0x7F
  | digit => fun b => (Char.ofNat b).isDigit
  | graph => ByteSet.between 0x21 0x7E
  | lower => ByteSet.between 0x61 0x7A
  | print => ByteSet.between 0x20 0x7E
  | punct => fun b => ByteSet.between 0x21 0x7E b && !(Char.ofNat b).isAlphanum
  | space => LetterClass.bytes .space
  | upper => ByteSet.between 0x41 0x5A
  | word => LetterClass.bytes .word
  | xdigit => fun b => (Json.hexValue? (Char.ofNat b)).isSome

def SetOperation.apply (kind : SetOperation) (left right : ByteSet) : ByteSet := fun b =>
  match kind with
  | intersection => left b && right b
  | difference => left b && !right b
  | symmetricDifference => left b != right b

/-- The byte that a character of a set stands for. Only the first 128 characters are bytes. -/
def Literal.byte? (l : Literal) : Option Nat :=
  if l.char.toNat < 0x80 then some l.char.toNat else none

/-- A set as it is under flags and a negation, if it may be matched. -/
def closed? (ignoresCase isNegated : Bool) (s : ByteSet) : Option ByteSet :=
  let s := if ignoresCase then s.fold else s
  (if isNegated then s.complement else s).admitted?

mutual
/-- The bytes of a set, if it may be used among bytes. -/
def CharSet.bytes? (ignoresCase : Bool) : CharSet → Option ByteSet
  | .nothing => some fun _ => false
  | .literal value => value.byte?.map fun b => ByteSet.between b b
  | .range start stop => do return ByteSet.between (← start.byte?) (← stop.byte?)
  | .named kind isNegated => closed? ignoresCase isNegated kind.bytes
  | .letter kind isNegated => closed? false isNegated kind.bytes
  | .bracketed isNegated inner => do closed? ignoresCase isNegated (← inner.bytes? ignoresCase)
  | .union items => bytesOfItems? ignoresCase items
  | .operation kind left right => do
    let left ← left.bytes? ignoresCase
    let right ← right.bytes? ignoresCase
    return if ignoresCase then kind.apply left.fold right.fold else kind.apply left right

def bytesOfItems? (ignoresCase : Bool) : List CharSet → Option ByteSet
  | [] => some fun _ => false
  | item :: rest => do
    let first ← item.bytes? ignoresCase
    let others ← bytesOfItems? ignoresCase rest
    return fun b => first b || others b
end

/-! ### Characters -/

mutual
/-- Whether a set can be used among characters. Classes with a letter are not known, and where the
case is ignored no character can be named. -/
def CharSet.isKnown (ignoresCase : Bool) : CharSet → Bool
  | .nothing => true
  | .literal _ => !ignoresCase
  | .range _ _ => !ignoresCase
  | .named _ _ => !ignoresCase
  | .letter _ _ => false
  | .bracketed _ inner => inner.isKnown ignoresCase
  | .union items => areKnown ignoresCase items
  | .operation _ left right => left.isKnown ignoresCase && right.isKnown ignoresCase

/-- Whether some sets can be used among characters. -/
def areKnown (ignoresCase : Bool) : List CharSet → Bool
  | [] => true
  | item :: rest => item.isKnown ignoresCase && areKnown ignoresCase rest
end

/-! ### Patterns -/

/-- What is known behind a part of a pattern: the flags in force there, and whether edges of words
among characters were asked for. -/
structure Survey where
  ignoresCase : Bool := false
  isUnicode : Bool := true
  asksForEdges : Bool := false
  deriving DecidableEq, Repr

/-- The survey under flags. -/
def Survey.under (s : Survey) (flags : Flags) : Survey :=
  { s with
    ignoresCase := flags.apply .ignoreCase s.ignoresCase
    isUnicode := flags.apply .unicode s.isUnicode }

/-- The survey where a group ends: the flags are those before it. -/
def Survey.leave (before inside : Survey) : Survey :=
  { before with asksForEdges := inside.asksForEdges }

/-- The survey, if a condition holds. -/
def Survey.when? (s : Survey) (condition : Bool) : Option Survey :=
  if condition then some s else none

/-- Whether a character can be used. Among bytes a pair of hexadecimal digits may not name a byte
that is no character. -/
def Survey.admits (s : Survey) (l : Literal) : Bool :=
  if s.isUnicode then !s.ignoresCase else !l.isHexPair || l.char.toNat < 0x80

mutual
/-- Goes through a pattern from left to right; there is no survey behind something that cannot be
used. -/
def survey? : Pattern → Survey → Option Survey
  | .nothing, s => some s
  | .switch flags, s => some (s.under flags)
  | .literal value, s => s.when? (s.admits value)
  | .anyChar, s => s.when? s.isUnicode
  | .assertion .anchor, s => some s
  | .assertion .wordEdge, s => some { s with asksForEdges := s.asksForEdges || s.isUnicode }
  | .letter _ isNegated, s => s.when? (!s.isUnicode && !isNegated)
  | .set isNegated inner, s =>
    if s.isUnicode then s.when? (inner.isKnown s.ignoresCase)
    else s.when? ((CharSet.bracketed isNegated inner).bytes? s.ignoresCase).isSome
  | .repetition body, s => survey? body s
  | .group flags body, s => (survey? body (s.under flags)).map s.leave
  | .alternation branches, s => surveyAll? branches s
  | .concat parts, s => surveyAll? parts s

def surveyAll? : List Pattern → Survey → Option Survey
  | [], s => some s
  | part :: rest, s => (survey? part s).bind (surveyAll? rest)
end

/-- Why a text cannot be used as a pattern. -/
inductive Error where
  /-- It is no pattern, or names what is not known. -/
  | unusable
  /-- It asks for edges of words among characters. -/
  | wordEdges
  deriving DecidableEq, Repr

def Error.message : Error → String
  | unusable => "error building NFA"
  | wordEdges =>
    "unsupported regex feature for DFAs: cannot build DFAs for regexes with Unicode word " ++
      "boundaries; switch to ASCII word boundaries, or heuristically enable Unicode word " ++
      "boundaries or use a different regex engine"

def parse (text : List Char) : Except Error Pattern :=
  match parse? text with
  | none => .error .unusable
  | some pattern =>
    match survey? pattern {} with
    | none => .error .unusable
    | some s => if s.asksForEdges then .error .wordEdges else .ok pattern

end Workbench.Pattern
