import Workbench.Json.Number
import Workbench.Text.Bytes

/-!
Reading JSON. The reader accepts exactly the JSON grammar, one value with blanks around it. Members
keep their order and repeated keys are kept; what a repeated key means is up to the use of it. What
is read are bytes, and each is taken for the character with its number: the grammar has signs below
128 only, and bytes between quotes are put together to a text at the end.
-/

namespace Workbench.Json

def isBlank (c : Char) : Bool := c = ' ' || c = '\n' || c = '\t' || c = '\r'

def skipBlanks (cs : List Char) : List Char := cs.dropWhile isBlank

def hexValue? (c : Char) : Option Nat :=
  if '0' ≤ c ∧ c ≤ '9' then some (c.toNat - '0'.toNat)
  else if 'a' ≤ c ∧ c ≤ 'f' then some (c.toNat - 'a'.toNat + 10)
  else if 'A' ≤ c ∧ c ≤ 'F' then some (c.toNat - 'A'.toNat + 10)
  else none

/-- The number written by four hexadecimal digits. -/
def fourDigits? : List Char → Option (Nat × List Char)
  | a :: b :: c :: d :: rest => do
    let a ← hexValue? a
    let b ← hexValue? b
    let c ← hexValue? c
    let d ← hexValue? d
    return (((a * 16 + b) * 16 + c) * 16 + d, rest)
  | _ => none

/-- A piece of a text between quotes: a character, or a sixteen-bit unit written by its number. -/
inductive Piece where
  | char (c : Char)
  | unit (n : Nat)

/-- The character of a short escape. -/
def shortEscape? : Char → Option Char
  | '"' => some '"'
  | '\\' => some '\\'
  | '/' => some '/'
  | 'b' => some '\x08'
  | 'f' => some '\x0c'
  | 'n' => some '\n'
  | 'r' => some '\r'
  | 't' => some '\t'
  | _ => none

/-- The pieces up to the closing quote, and what follows it. `skip` characters belong to an escape
that has been read already. -/
def pieces? : (skip : Nat) → List Char → Option (List Piece × List Char)
  | _, [] => none
  | skip + 1, _ :: cs => pieces? skip cs
  | 0, '"' :: cs => some ([], cs)
  | 0, '\\' :: cs =>
    match cs with
    | [] => none
    | 'u' :: digits => do
      let (n, _) ← fourDigits? digits
      let (rest, after) ← pieces? 5 cs
      return (.unit n :: rest, after)
    | c :: _ => do
      let c ← shortEscape? c
      let (rest, after) ← pieces? 1 cs
      return (.char c :: rest, after)
  | 0, c :: cs =>
    if c.toNat < 0x20 then none
    else do
      let (rest, after) ← pieces? 0 cs
      return (.char c :: rest, after)

/-- Whether a unit is the first half of a surrogate pair. -/
def isHigh (n : Nat) : Bool := 0xD800 ≤ n && n < 0xDC00

/-- Whether a unit is the second half of a surrogate pair. -/
def isLow (n : Nat) : Bool := 0xDC00 ≤ n && n < 0xE000

def charBytes (c : Char) : List UInt8 := Text.encode (String.singleton c)

/-- Puts the pieces of a text together; half of a surrogate pair denotes nothing. -/
def join? : List Piece → Option (List UInt8)
  | [] => some []
  | .char c :: rest => (join? rest).map (c.toNat.toUInt8 :: ·)
  | .unit n :: rest =>
    if isHigh n then
      match rest with
      | .unit m :: rest' =>
        if isLow m then
          let c := Char.ofNat (0x10000 + (n - 0xD800) * 0x400 + (m - 0xDC00))
          (join? rest').map (charBytes c ++ ·)
        else none
      | _ => none
    else if isLow n then none
    else (join? rest).map (charBytes (Char.ofNat n) ++ ·)

def readText? (cs : List Char) : Option (Option String × List Char) := do
  let (pieces, rest) ← pieces? 0 cs
  return ((join? pieces).bind Text.decode?, rest)

/-- The leading decimal digits of a text and what follows them. There has to be one. -/
def readDigits? (cs : List Char) : Option (List Char × List Char) :=
  match cs.span Char.isDigit with
  | ([], _) => none
  | (digits, rest) => some (digits, rest)

/-- Reads the digits behind a point, if there is one. -/
def readPlaces? : List Char → Option (Option (List Char) × List Char)
  | '.' :: cs => (readDigits? cs).map fun (digits, rest) => (some digits, rest)
  | cs => some (none, cs)

/-- Whether a minus sign stands here, and what follows a sign. -/
def readSigned : List Char → Bool × List Char
  | '-' :: rest => (true, rest)
  | '+' :: rest => (false, rest)
  | rest => (false, rest)

def readExponent? : List Char → Option (Option Int × List Char)
  | c :: cs =>
    if c = 'e' ∨ c = 'E' then do
      let (negative, rest) := readSigned cs
      let (digits, rest) ← readDigits? rest
      let n : Int := digitsValue digits
      return (some (if negative then -n else n), rest)
    else some (none, c :: cs)
  | [] => some (none, [])

/-- Reads a number. A number that is too large denotes nothing. -/
def readNumber? (cs : List Char) : Option (Json × List Char) := do
  let (negative, cs) := match cs with
    | '-' :: rest => (true, rest)
    | rest => (false, rest)
  let (whole, rest) ← readDigits? cs
  if whole.head? = some '0' ∧ 1 < whole.length then none
  else
    let (places, rest) ← readPlaces? rest
    let (exponent, rest) ← readExponent? rest
    return ((number? negative whole places exponent).getD .unreadable, rest)

def expect? (word : List Char) (cs : List Char) : Option (List Char) :=
  if word.isPrefixOf cs then some (cs.drop word.length) else none

/-- An object, unless one of its keys denotes nothing. -/
def ofMembers (members : List (Option String × Json)) : Json :=
  match members.mapM fun (key, value) => key.map fun key => (key, value) with
  | some members => .obj members
  | none => .unreadable

mutual
def readValue? : (fuel : Nat) → List Char → Option (Json × List Char)
  | 0, _ => none
  | fuel + 1, cs =>
    match cs with
    | 'n' :: _ => (expect? ['n', 'u', 'l', 'l'] cs).map fun rest => (.null, rest)
    | 't' :: _ => (expect? ['t', 'r', 'u', 'e'] cs).map fun rest => (.bool true, rest)
    | 'f' :: _ => (expect? ['f', 'a', 'l', 's', 'e'] cs).map fun rest => (.bool false, rest)
    | '"' :: cs => do
      let (text, rest) ← readText? cs
      return (match text with
        | some text => .str text
        | none => .unreadable, rest)
    | '[' :: cs =>
      match skipBlanks cs with
      | ']' :: rest => some (.arr [], rest)
      | cs => do
        let (items, rest) ← readItems? fuel cs
        return (.arr items, rest)
    | '\x7b' :: cs =>
      match skipBlanks cs with
      | '\x7d' :: rest => some (.obj [], rest)
      | cs => do
        let (members, rest) ← readMembers? fuel cs
        return (ofMembers members, rest)
    | cs => readNumber? cs

def readItems? : (fuel : Nat) → List Char → Option (List Json × List Char)
  | 0, _ => none
  | fuel + 1, cs => do
    let (item, rest) ← readValue? fuel cs
    match skipBlanks rest with
    | ']' :: rest => return ([item], rest)
    | ',' :: rest =>
      let (items, rest) ← readItems? fuel (skipBlanks rest)
      return (item :: items, rest)
    | _ => none

def readMembers? : (fuel : Nat) → List Char → Option (List (Option String × Json) × List Char)
  | 0, _ => none
  | fuel + 1, cs =>
    match cs with
    | '"' :: cs => do
      let (key, rest) ← readText? cs
      match skipBlanks rest with
      | ':' :: rest =>
        let (value, rest) ← readValue? fuel (skipBlanks rest)
        match skipBlanks rest with
        | '\x7d' :: rest => return ([(key, value)], rest)
        | ',' :: rest =>
          let (members, rest) ← readMembers? fuel (skipBlanks rest)
          return ((key, value) :: members, rest)
        | _ => none
      | _ => none
    | _ => none
end

/-- Reads one value with blanks around it. Every call reads a byte before it calls again, so twice
the number of bytes is fuel enough. -/
def read? (bytes : List UInt8) : Option Json := do
  let cs := bytes.map fun byte => Char.ofNat byte.toNat
  let (value, rest) ← readValue? (2 * cs.length + 2) (skipBlanks cs)
  if (skipBlanks rest).isEmpty then return value else none

end Workbench.Json
