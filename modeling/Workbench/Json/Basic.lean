import Std.Data.TreeMap
import Workbench.Decimal.Shortest

/-!
JSON values and their two written forms. Between quotes only the quote, the backslash and control
characters are escaped; five control characters have a short escape and the others are written by
their number. The compact form has no blanks, the pretty form one member a line and two blanks for
each level. A number that is no integer has the fewest digits that read back.
-/

namespace Workbench

/-- A JSON value. -/
inductive Json where
  | null
  | bool (value : Bool)
  | int (value : Int)
  | float (value : Binary64)
  | str (value : String)
  | arr (items : List Json)
  | obj (members : List (String × Json))
  /-- Something well formed that denotes no value here: a number that is too large, or a text with
  half of a surrogate pair or with bytes of no text. Readers skip it where its value does not
  matter. -/
  | unreadable
  deriving Inhabited

namespace Json

/-- One hexadecimal digit, in lower case. -/
def hexDigit (n : Nat) : Char :=
  if n < 10 then Char.ofNat ('0'.toNat + n) else Char.ofNat ('a'.toNat + (n - 10))

def escapeChar (c : Char) : List Char :=
  match c with
  | '"' => ['\\', '"']
  | '\\' => ['\\', '\\']
  | '\n' => ['\\', 'n']
  | '\r' => ['\\', 'r']
  | '\t' => ['\\', 't']
  | '\x08' => ['\\', 'b']
  | '\x0c' => ['\\', 'f']
  | c =>
    if c.toNat < 0x20 then
      ['\\', 'u', '0', '0', hexDigit (c.toNat / 16), hexDigit (c.toNat % 16)]
    else [c]

def quote (text : String) : List Char :=
  '"' :: (text.toList.flatMap escapeChar ++ ['"'])

/-- Digits and a power of ten, with the point behind the first digit and a sign before the
power. -/
def scientific (digits : List Char) (power : Int) : List Char :=
  let exponent := 'e' :: (if power < 0 then '-' else '+') :: (toString power.natAbs).toList
  match digits with
  | [] => exponent
  | [d] => d :: exponent
  | d :: ds => d :: '.' :: ds ++ exponent

/-- A number that is no integer. Of two equally near decimals the even one is written; the form is
positional if the point stands at most five places before the first digit and sixteen behind it. -/
def floatChars : Binary64 → List Char
  | .finite negative m q =>
    let magnitude := if m = 0 then ['0', '.', '0'] else
      let (n, p) := Binary64.shortest .even m q
      let digits := (toString n).toList
      let point := p + digits.length
      if -5 < point ∧ point ≤ 16 then (Binary64.positional n p).toList
      else scientific digits (point - 1)
    if negative then '-' :: magnitude else magnitude
  | _ => ['n', 'u', 'l', 'l']

mutual
def compactChars : Json → List Char
  | null => ['n', 'u', 'l', 'l']
  | bool true => ['t', 'r', 'u', 'e']
  | bool false => ['f', 'a', 'l', 's', 'e']
  | int value => (toString value).toList
  | float value => floatChars value
  | str value => quote value
  | arr items => '[' :: (compactItems items ++ [']'])
  | obj members => '\x7b' :: (compactMembers members ++ ['\x7d'])
  | unreadable => []

/-- The items of an array, with commas between them. -/
def compactItems : List Json → List Char
  | [] => []
  | [item] => compactChars item
  | item :: rest => compactChars item ++ ',' :: compactItems rest

/-- The members of an object, with commas between them. -/
def compactMembers : List (String × Json) → List Char
  | [] => []
  | [(key, value)] => quote key ++ ':' :: compactChars value
  | (key, value) :: rest => quote key ++ ':' :: compactChars value ++ ',' :: compactMembers rest
end

def compact (j : Json) : String := String.ofList j.compactChars

mutual
/-- A value whose objects have their members in the order of the keys; of several members with one
key the last counts. -/
def sortKeys : Json → Json
  | arr items => arr (sortItems items)
  | obj members => obj (sortMembers members).toList
  | null => null
  | bool value => bool value
  | int value => int value
  | float value => float value
  | str value => str value
  | unreadable => unreadable

/-- The items of an array, each with its keys sorted. -/
def sortItems : List Json → List Json
  | [] => []
  | item :: rest => sortKeys item :: sortItems rest

def sortMembers : List (String × Json) → Std.TreeMap String Json
  | [] => ∅
  | (key, value) :: rest => (sortMembers rest).insertIfNew key (sortKeys value)
end

def newline (level : Nat) : List Char := '\n' :: List.replicate (2 * level) ' '

mutual
/-- The pretty form of a value that stands on a line of the given level. -/
def prettyChars (level : Nat) : Json → List Char
  | arr [] => ['[', ']']
  | obj [] => ['\x7b', '\x7d']
  | arr items => '[' :: (prettyItems (level + 1) items ++ newline level ++ [']'])
  | obj members => '\x7b' :: (prettyMembers (level + 1) members ++ newline level ++ ['\x7d'])
  | null => compactChars null
  | bool value => compactChars (bool value)
  | int value => compactChars (int value)
  | float value => compactChars (float value)
  | str value => compactChars (str value)
  | unreadable => []

/-- The items of an array, each on a line of its own. -/
def prettyItems (level : Nat) : List Json → List Char
  | [] => []
  | [item] => newline level ++ prettyChars level item
  | item :: rest => newline level ++ prettyChars level item ++ ',' :: prettyItems level rest

/-- The members of an object, each on a line of its own. -/
def prettyMembers (level : Nat) : List (String × Json) → List Char
  | [] => []
  | [(key, value)] => newline level ++ quote key ++ ':' :: ' ' :: prettyChars level value
  | (key, value) :: rest =>
    newline level ++ quote key ++ ':' :: ' ' :: prettyChars level value ++
      ',' :: prettyMembers level rest
end

def pretty (j : Json) : String := String.ofList (j.prettyChars 0)

end Json

end Workbench
