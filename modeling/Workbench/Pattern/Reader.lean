import Workbench.Json.Reader
import Workbench.Pattern.Basic
import Workbench.Text.Blank
import Workbench.Text.Letter

/-!
Reading patterns. A reader goes through a pattern from left to right; it knows whether blanks count
and which names of groups are taken. A text that is no pattern has no value.
-/

namespace Workbench.Pattern

/-- Where a reader is. -/
structure Cursor where
  rest : List Char
  /-- Whether blanks and comments are skipped here. -/
  ignoresBlanks : Bool := false
  /-- The names of the groups so far. -/
  names : List String := []

/-- A reader of something at a cursor. -/
abbrev Reader (α : Type) := Cursor → Option (α × Cursor)

namespace Cursor

/-- Skips blanks and comments. A comment goes from `#` to the end of the line. -/
def skipVoid : (inComment : Bool) → List Char → List Char
  | _, [] => []
  | true, c :: rest => skipVoid (c != '\n') rest
  | false, c :: rest =>
    if Text.isBlank c then skipVoid false rest
    else if c = '#' then skipVoid true rest
    else c :: rest

/-- Skips blanks and comments where they do not count. -/
def skip (s : Cursor) : Cursor :=
  if s.ignoresBlanks then { s with rest := skipVoid false s.rest } else s

/-- The cursor behind some characters. -/
def behind (s : Cursor) (rest : List Char) : Cursor := { s with rest }

/-- The cursor behind some characters and the blanks that follow, if something follows them. -/
def next? (s : Cursor) (rest : List Char) : Option Cursor :=
  let s := (s.behind rest).skip
  if s.rest.isEmpty then none else some s

/-- The first character that is neither a blank nor the sign of a comment. -/
def peekVoid : (seen : Bool) → List Char → Option Char
  | _, [] => none
  | seen, c :: rest =>
    if Text.isBlank c then peekVoid seen rest
    else if !seen && c = '#' then peekVoid true rest
    else some c

/-- The character that is looked at behind a hyphen. Where blanks do not count it is the first that
is no blank, but comments are not passed over. -/
def peek (s : Cursor) (rest : List Char) : Option Char :=
  if s.ignoresBlanks then peekVoid false rest <|> rest.head? else rest.head?

end Cursor

/-! ### Escapes -/

/-- The characters with a meaning of their own. -/
def isMeta (c : Char) : Bool := "\\.+*?()|[]\x7b\x7d^$#&-~".toList.contains c

/-- The characters that stand for themselves behind a backslash. -/
def isEscapable (c : Char) : Bool :=
  isMeta c || (c.toNat < 0x80 && !c.isAlphanum && c != '<' && c != '>')

/-- What one part of a pattern that is no group, set or repetition stands for. -/
inductive Primitive where
  | literal (value : Literal)
  | letter (kind : LetterClass) (isNegated : Bool)
  | assertion (kind : Assertion)

/-- A primitive that is a character. -/
def Primitive.plain (c : Char) : Primitive := .literal ⟨c, false⟩

/-- The character of some hexadecimal digits, of which `count` are still to come. Blanks between
them are skipped where they do not count. -/
def hexDigits? : (count : Nat) → (value : Nat) → Reader Nat
  | 0, value, s => some (value, s)
  | count + 1, value, s =>
    match s.skip.rest with
    | [] => none
    | c :: rest =>
      match Json.hexValue? c with
      | none => none
      | some digit => hexDigits? count (16 * value + digit) (s.behind rest)

/-- The character with a number of `count` hexadecimal digits. -/
def hexLiteral? (count : Nat) : Reader Primitive := fun s => do
  let (value, s) ← hexDigits? count 0 s
  if value < 0xD800 ∨ (0xDFFF < value ∧ value < 0x110000) then
    return (.literal ⟨Char.ofNat value, count = 2⟩, s)
  else none

/-- What a letter behind a backslash stands for, if it is one character or none. -/
def escaped? : Char → Option Primitive
  | 'a' => some (.plain '\x07')
  | 'f' => some (.plain '\x0c')
  | 't' => some (.plain '\t')
  | 'n' => some (.plain '\n')
  | 'r' => some (.plain '\r')
  | 'v' => some (.plain '\x0b')
  | 'd' => some (.letter .digit false)
  | 's' => some (.letter .space false)
  | 'w' => some (.letter .word false)
  | 'D' => some (.letter .digit true)
  | 'S' => some (.letter .space true)
  | 'W' => some (.letter .word true)
  | 'A' => some (.assertion .anchor)
  | 'z' => some (.assertion .anchor)
  | 'b' => some (.assertion .wordEdge)
  | 'B' => some (.assertion .wordEdge)
  | '<' => some (.assertion .wordEdge)
  | '>' => some (.assertion .wordEdge)
  | c => if isEscapable c then some (.plain c) else none

/-- What stands behind a backslash. Properties of characters are not known here, and neither are
references to groups. -/
def escape? : Reader Primitive := fun s =>
  match s.rest with
  | [] => none
  | 'x' :: rest => hexLiteral? 2 (s.behind rest)
  | 'u' :: rest => hexLiteral? 4 (s.behind rest)
  | 'U' :: rest => hexLiteral? 8 (s.behind rest)
  | c :: rest => (escaped? c).map fun primitive => (primitive, s.behind rest)

/-! ### Sets -/

/-- The named classes. -/
def namedClass? : String → Option NamedClass
  | "alnum" => some .alnum
  | "alpha" => some .alpha
  | "ascii" => some .ascii
  | "blank" => some .blank
  | "cntrl" => some .cntrl
  | "digit" => some .digit
  | "graph" => some .graph
  | "lower" => some .lower
  | "print" => some .print
  | "punct" => some .punct
  | "space" => some .space
  | "upper" => some .upper
  | "word" => some .word
  | "xdigit" => some .xdigit
  | _ => none

/-- A named class behind its opening bracket and colon, and the rest behind it. -/
def named? (cs : List Char) : Option (CharSet × List Char) :=
  let (isNegated, cs) := match cs with
    | '^' :: rest => (true, rest)
    | rest => (false, rest)
  match cs.dropWhile (· != ':') with
  | ':' :: ']' :: rest =>
    (namedClass? (String.ofList (cs.takeWhile (· != ':')))).map fun kind =>
      (.named kind isNegated, rest)
  | _ => none

/-- One end of a range, or a class. -/
def setPrimitive? : Reader Primitive := fun s =>
  match s.rest with
  | [] => none
  | '\\' :: rest => escape? (s.behind rest)
  | c :: rest => some (.plain c, s.behind rest)

/-- The set that a primitive stands for; assertions are no sets. -/
def Primitive.toSet? : Primitive → Option CharSet
  | .literal value => some (.literal value)
  | .letter kind isNegated => some (.letter kind isNegated)
  | .assertion _ => none

/-- The range between two primitives, which have to be characters in order. -/
def rangeOf? : (start stop : Primitive) → Option CharSet
  | .literal start, .literal stop =>
    if start.char ≤ stop.char then some (.range start stop) else none
  | _, _ => none

/-- A character, a class, or a range. A hyphen at the end of the set or before another one makes no
range. -/
def setItem? : Reader CharSet := fun s => do
  let (start, s) ← setPrimitive? s
  let s := s.skip
  match s.rest with
  | [] => none
  | '-' :: rest =>
    if s.peek rest = some ']' ∨ s.peek rest = some '-' then return (← start.toSet?, s)
    else
      let (stop, s) ← setPrimitive? (← s.next? rest)
      return (← rangeOf? start stop, s)
  | _ => return (← start.toSet?, s)

/-- Hyphens at the start of a set, which stand for themselves. -/
def leadingHyphens : (fuel : Nat) → Cursor → List CharSet × Cursor
  | 0, s => ([], s)
  | fuel + 1, s =>
    match s.rest with
    | '-' :: rest =>
      let (items, s) := leadingHyphens fuel (s.behind rest).skip
      (.literal ⟨'-', false⟩ :: items, s)
    | _ => ([], s)

/-- The start of a set behind its opening bracket: whether it is negated, and the characters that
stand for themselves only there, hyphens or a closing bracket. -/
def setStart? : Reader (Bool × List CharSet) := fun s => do
  let s := s.skip
  let (isNegated, s) := match s.rest with
    | '^' :: rest => (true, (s.behind rest).skip)
    | _ => (false, s)
  let (items, s) := leadingHyphens s.rest.length s
  match items, s.rest with
  | [], ']' :: rest => return ((isNegated, [.literal ⟨']', false⟩]), ← s.next? rest)
  | _, _ => return ((isNegated, items), s)

/-- A set joined to the one before it. -/
def joined : Option (SetOperation × CharSet) → CharSet → CharSet
  | none, right => right
  | some (kind, left), right => .operation kind left right

mutual
/-- A set behind its opening bracket, and whether it is negated. -/
def set? : (fuel : Nat) → Reader (Bool × CharSet)
  | 0, _ => none
  | fuel + 1, s => do
    let ((isNegated, items), s) ← setStart? s
    let (inner, s) ← setBody? fuel none items.reverse s
    return ((isNegated, inner), s)

/-- The rest of a set, behind items that come last first, and the set that they are joined to. -/
def setBody? : (fuel : Nat) → Option (SetOperation × CharSet) → List CharSet → Reader CharSet
  | 0, _, _, _ => none
  | fuel + 1, left, items, s =>
    let s := s.skip
    let here := joined left (.ofItems items.reverse)
    match s.rest with
    | [] => none
    | ']' :: rest => some (here, s.behind rest)
    | '&' :: '&' :: rest => setBody? fuel (some (.intersection, here)) [] (s.behind rest)
    | '-' :: '-' :: rest => setBody? fuel (some (.difference, here)) [] (s.behind rest)
    | '~' :: '~' :: rest => setBody? fuel (some (.symmetricDifference, here)) [] (s.behind rest)
    | '[' :: ':' :: rest =>
      match named? rest with
      | some (item, rest) => setBody? fuel left (item :: items) (s.behind rest)
      | none => nested? fuel left items (s.behind (':' :: rest))
    | '[' :: rest => nested? fuel left items (s.behind rest)
    | _ => do
      let (item, s) ← setItem? s
      setBody? fuel left (item :: items) s

/-- The rest of a set in which another one has just opened. -/
def nested? : (fuel : Nat) → Option (SetOperation × CharSet) → List CharSet → Reader CharSet
  | 0, _, _, _ => none
  | fuel + 1, left, items, s => do
    let ((isNegated, inner), s) ← set? fuel s
    setBody? fuel left (.bracketed isNegated inner :: items) s
end

/-! ### Groups -/

def flag? : Char → Option Flag
  | 'i' => some .ignoreCase
  | 'm' => some .multiLine
  | 's' => some .dotMatchesAll
  | 'U' => some .swapGreed
  | 'u' => some .unicode
  | 'R' => some .carriageReturns
  | 'x' => some .ignoreBlanks
  | _ => none

/-- The flags that letters name. Those behind a hyphen are turned off; no flag comes twice, and
something has to stand behind the hyphen. -/
def flags? (cs : List Char) : Option Flags := do
  let turnedOn ← (cs.takeWhile (· != '-')).mapM flag?
  let turnedOff ← ((cs.dropWhile (· != '-')).drop 1).mapM flag?
  if (turnedOn ++ turnedOff).eraseDups.length < turnedOn.length + turnedOff.length then none
  else if cs.contains '-' && turnedOff.isEmpty then none
  else return ⟨turnedOn, turnedOff⟩

/-- Whether a character may stand in the name of a group. -/
def isNameChar (c : Char) : Bool :=
  c = '_' || c = '.' || c = '[' || c = ']' || Text.isLetterOrNumber c

/-- Whether a text is the name of a group. -/
def isName : List Char → Bool
  | [] => false
  | c :: rest => (c = '_' || Text.isLetter c) && rest.all isNameChar

/-- What an opening parenthesis starts. -/
inductive Opening where
  /-- Flags that hold up to the end of the group around them. -/
  | switch (flags : Flags)
  | group (flags : Flags)

/-- The start of a group with a name. Every name is new. -/
def nameOpening? (rest : List Char) : Reader Opening := fun s =>
  let name := rest.takeWhile (· != '>')
  match rest.drop name.length with
  | '>' :: rest =>
    if isName name && !s.names.contains (String.ofList name) then
      some (.group ⟨[], []⟩, { s with rest, names := String.ofList name :: s.names })
    else none
  | _ => none

/-- The start of a group with flags, or flags alone. -/
def flagsOpening? (rest : List Char) : Reader Opening := fun s => do
  let letters := rest.takeWhile fun c => c != ':' && c != ')'
  match rest.drop letters.length with
  | ':' :: rest => return (.group (← flags? letters), s.behind rest)
  | ')' :: rest =>
    if letters.isEmpty then none else return (.switch (← flags? letters), s.behind rest)
  | _ => none

/-- What stands behind an opening parenthesis. There are no conditions on what comes before or
behind. -/
def opening? : Reader Opening := fun s =>
  let s := s.skip
  match s.rest with
  | '?' :: '=' :: _ => none
  | '?' :: '!' :: _ => none
  | '?' :: '<' :: '=' :: _ => none
  | '?' :: '<' :: '!' :: _ => none
  | '?' :: 'P' :: '<' :: rest => nameOpening? rest s
  | '?' :: '<' :: rest => nameOpening? rest s
  | '?' :: rest => flagsOpening? rest s
  | _ => some (.group ⟨[], []⟩, s)

/-- The cursor under flags. -/
def Cursor.under (s : Cursor) (flags : Flags) : Cursor :=
  { s with ignoresBlanks := flags.apply .ignoreBlanks s.ignoresBlanks }

def isRepeatable : Pattern → Bool
  | .nothing => false
  | .switch _ => false
  | _ => true

/-- A repetition may have a question mark behind it. -/
def dropLazy : List Char → List Char
  | '?' :: rest => rest
  | rest => rest

def Primitive.toPattern : Primitive → Pattern
  | .literal value => .literal value
  | .letter kind isNegated => .letter kind isNegated
  | .assertion kind => .assertion kind

mutual
def branches? : (fuel : Nat) → Reader Pattern
  | 0, _ => none
  | fuel + 1, s => do
    let (first, s) ← parts? fuel [] s
    let (others, s) ← moreBranches? fuel s
    return (ofBranches (first :: others), s)

def moreBranches? : (fuel : Nat) → Reader (List Pattern)
  | 0, _ => none
  | fuel + 1, s =>
    match s.rest with
    | '|' :: rest => do
      let (branch, s) ← parts? fuel [] (s.behind rest)
      let (others, s) ← moreBranches? fuel s
      return (branch :: others, s)
    | _ => some ([], s)

/-- One branch, behind parts that come last first. Braces that count repetitions need a closing
brace, and the texts that are read here hold none. -/
def parts? : (fuel : Nat) → List Pattern → Reader Pattern
  | 0, _, _ => none
  | fuel + 1, before, s => do
    let s := s.skip
    match s.rest with
    | [] => return (ofParts before.reverse, s)
    | '|' :: _ => return (ofParts before.reverse, s)
    | ')' :: _ => return (ofParts before.reverse, s)
    | '(' :: rest =>
      match ← opening? (s.behind rest) with
      | (.switch flags, s) => parts? fuel (.switch flags :: before) (s.under flags)
      | (.group flags, inner) =>
        let (body, after) ← branches? fuel (inner.under flags)
        match after.rest with
        | ')' :: rest =>
          parts? fuel (.group flags body :: before)
            { after with rest, ignoresBlanks := s.ignoresBlanks }
        | _ => none
    | '[' :: rest =>
      let ((isNegated, inner), s) ← set? fuel (s.behind rest)
      parts? fuel (.set isNegated inner :: before) s
    | '\x7b' :: _ => none
    | '\\' :: rest =>
      let (primitive, s) ← escape? (s.behind rest)
      parts? fuel (primitive.toPattern :: before) s
    | c :: rest =>
      if c = '?' ∨ c = '*' ∨ c = '+' then
        match before with
        | [] => none
        | body :: before =>
          if isRepeatable body then
            parts? fuel (.repetition body :: before) (s.behind (dropLazy rest))
          else none
      else if c = '.' then parts? fuel (.anyChar :: before) (s.behind rest)
      else if c = '^' ∨ c = '$' then parts? fuel (.assertion .anchor :: before) (s.behind rest)
      else parts? fuel (.literal ⟨c, false⟩ :: before) (s.behind rest)
end

def parse? (text : List Char) : Option Pattern := do
  let (pattern, s) ← branches? (3 * text.length + 3) ⟨text, false, []⟩
  if s.rest.isEmpty && pattern.depth ≤ depthLimit then return pattern else none

end Workbench.Pattern
