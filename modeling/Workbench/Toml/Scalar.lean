import Workbench.Json.Reader
import Workbench.Toml.Value

/-!
Scalars of TOML: texts, numbers, dates and times. Every reader takes what it reads off the front of
a text and returns the rest.
-/

namespace Workbench.Toml

/-- A reader of something at the front of a text. -/
abbrev Reader (α : Type) := List Char → Option (α × List Char)

/-! ### Texts -/

/-- The blanks within a line. -/
def isSpace (c : Char) : Bool := c = ' ' || c = '\t'

/-- The characters that may stand in a line. -/
def isPlain (c : Char) : Bool :=
  c = '\t' || (0x20 ≤ c.toNat && c.toNat ≤ 0x7E) || 0x80 ≤ c.toNat

/-- A line break: a line feed, or a carriage return and a line feed. -/
def newline? : List Char → Option (List Char)
  | '\n' :: rest => some rest
  | '\r' :: '\n' :: rest => some rest
  | _ => none

/-- The character of a code point; halves of surrogate pairs are none. -/
def scalar? (n : Nat) : Option Char :=
  if n < 0xD800 ∨ (0xDFFF < n ∧ n < 0x110000) then some (Char.ofNat n) else none

/-- The character with a number of `count` hexadecimal digits. -/
def numbered? (count : Nat) (cs : List Char) : Option (Char × List Char) := do
  let digits := cs.take count
  if digits.length < count then none
  else
    let values ← digits.mapM Json.hexValue?
    let c ← scalar? (values.foldl (fun n d => 16 * n + d) 0)
    return (c, cs.drop count)

/-- The character of an escape, behind the backslash. -/
def escape? : Reader Char
  | 'b' :: rest => some ('\x08', rest)
  | 't' :: rest => some ('\t', rest)
  | 'n' :: rest => some ('\n', rest)
  | 'f' :: rest => some ('\x0c', rest)
  | 'r' :: rest => some ('\r', rest)
  | '"' :: rest => some ('"', rest)
  | '\\' :: rest => some ('\\', rest)
  | 'u' :: rest => numbered? 4 rest
  | 'U' :: rest => numbered? 8 rest
  | _ => none

/-- A text in quotes, behind the opening quote. -/
def basic? : (fuel : Nat) → Reader (List Char)
  | 0, _ => none
  | _, [] => none
  | _, '"' :: rest => some ([], rest)
  | fuel + 1, '\\' :: rest => do
    let (c, rest) ← escape? rest
    let (cs, rest) ← basic? fuel rest
    return (c :: cs, rest)
  | fuel + 1, c :: rest =>
    if isPlain c then (basic? fuel rest).map fun (cs, rest) => (c :: cs, rest) else none

/-- A text in apostrophes, behind the opening one. It has no escapes. -/
def literal? : Reader (List Char)
  | [] => none
  | c :: rest =>
    if c = '\'' then some ([], rest)
    else if isPlain c then (literal? rest).map fun (cs, rest) => (c :: cs, rest)
    else none

def skipLines : (fuel : Nat) → List Char → List Char
  | 0, cs => cs
  | fuel + 1, cs =>
    match newline? cs with
    | some rest => skipLines fuel rest
    | none =>
      match cs with
      | c :: rest => if isSpace c then skipLines fuel rest else c :: rest
      | [] => []

/-- The rest behind a backslash that ends a line: blanks and line breaks after it count for
nothing. -/
def continuation? (cs : List Char) : Option (List Char) :=
  (newline? (cs.dropWhile isSpace)).map fun rest => skipLines rest.length rest

/-- The end of a text of several lines: three marks, before which up to two more may stand. -/
def longEnd? (mark : Char) : Reader (List Char)
  | a :: b :: c :: rest =>
    if a = mark ∧ b = mark ∧ c = mark then
      match rest with
      | d :: e :: rest' =>
        if d = mark ∧ e = mark then some ([mark, mark], rest')
        else if d = mark then some ([mark], e :: rest')
        else some ([], rest)
      | [d] => if d = mark then some ([mark], []) else some ([], [d])
      | [] => some ([], [])
    else none
  | _ => none

/-- A text of several lines, behind the opening marks. Line breaks become line feeds. -/
def long? (mark : Char) (hasEscapes : Bool) : (fuel : Nat) → Reader (List Char)
  | 0, _ => none
  | fuel + 1, cs =>
    match longEnd? mark cs with
    | some found => some found
    | none =>
      match newline? cs with
      | some rest => (long? mark hasEscapes fuel rest).map fun (cs, rest) => ('\n' :: cs, rest)
      | none =>
        match cs with
        | [] => none
        | c :: rest =>
          if hasEscapes && c = '\\' then
            match continuation? rest with
            | some rest => long? mark hasEscapes fuel rest
            | none => do
              let (c, rest) ← escape? rest
              let (cs, rest) ← long? mark hasEscapes fuel rest
              return (c :: cs, rest)
          else if isPlain c then
            (long? mark hasEscapes fuel rest).map fun (cs, rest) => (c :: cs, rest)
          else none

/-- A text without the line break that may follow opening marks. -/
def dropNewline (cs : List Char) : List Char := (newline? cs).getD cs

/-- A text of one line, with its marks. -/
def shortText? : Reader String
  | '"' :: rest => (basic? (rest.length + 1) rest).map fun (cs, rest) => (String.ofList cs, rest)
  | '\'' :: rest => (literal? rest).map fun (cs, rest) => (String.ofList cs, rest)
  | _ => none

def text? : Reader String
  | '"' :: '"' :: '"' :: rest =>
    (long? '"' true (rest.length + 1) (dropNewline rest)).map fun (cs, rest) =>
      (String.ofList cs, rest)
  | '\'' :: '\'' :: '\'' :: rest =>
    (long? '\'' false (rest.length + 1) (dropNewline rest)).map fun (cs, rest) =>
      (String.ofList cs, rest)
  | cs => shortText? cs

/-! ### Numbers -/

/-- Further digits; an underscore may stand between two of them. -/
def moreDigits (isDigit : Char → Bool) : List Char → List Char × List Char
  | [] => ([], [])
  | c :: rest =>
    if isDigit c then
      let (digits, rest) := moreDigits isDigit rest
      (c :: digits, rest)
    else
      match c, rest with
      | '_', d :: rest' =>
        if isDigit d then
          let (digits, rest) := moreDigits isDigit rest'
          (d :: digits, rest)
        else ([], c :: rest)
      | _, _ => ([], c :: rest)

/-- One or more digits. -/
def digits? (isDigit : Char → Bool) : Reader (List Char)
  | c :: rest =>
    if isDigit c then
      let (digits, rest) := moreDigits isDigit rest
      some (c :: digits, rest)
    else none
  | [] => none

/-- A sign, if there is one; says whether it is a minus. -/
def sign : List Char → Bool × List Char
  | '-' :: rest => (true, rest)
  | '+' :: rest => (false, rest)
  | rest => (false, rest)

/-- Decimal digits without a leading zero, except for zero itself. -/
def decimal? : Reader (List Char)
  | '0' :: rest => some (['0'], rest)
  | cs => digits? Char.isDigit cs

/-- The number that digits of a base write. -/
def numberOf (base : Nat) (digits : List Char) : Nat :=
  digits.foldl (fun n d => n * base + (Json.hexValue? d).getD 0) 0

/-- Integers reach from minus this number up to it: two to the power of 63. -/
def wordLimit : Nat := 0x8000000000000000

def word? (n : Int) : Option Value :=
  if -(wordLimit : Int) ≤ n ∧ n < wordLimit then some (.int n) else none

/-- An integer of a base that is a power of two, behind its mark. -/
def based? (base : Nat) (isDigit : Char → Bool) (cs : List Char) : Option (Value × List Char) := do
  let (digits, rest) ← digits? isDigit cs
  return (← word? (numberOf base digits), rest)

def integer? : Reader Value
  | '0' :: 'x' :: rest => based? 16 (fun c => (Json.hexValue? c).isSome) rest
  | '0' :: 'o' :: rest => based? 8 (fun c => '0' ≤ c && c ≤ '7') rest
  | '0' :: 'b' :: rest => based? 2 (fun c => c = '0' || c = '1') rest
  | cs => do
    let (negative, cs) := sign cs
    let (digits, rest) ← decimal? cs
    let n : Int := numberOf 10 digits
    return (← word? (if negative then -n else n), rest)

/-- The digits of a fraction, if there is one. -/
def fraction? : Reader (List Char)
  | '.' :: rest => digits? Char.isDigit rest
  | _ => none

/-- An exponent, if there is one. -/
def exponent? : Reader Int
  | c :: rest =>
    if c = 'e' ∨ c = 'E' then do
      let (negative, rest) := sign rest
      let (digits, rest) ← digits? Char.isDigit rest
      let n : Int := numberOf 10 digits
      return (if negative then -n else n, rest)
    else none
  | [] => none

/-- A word of a number that is no decimal. -/
def special? (negative : Bool) : Reader Binary64
  | 'i' :: 'n' :: 'f' :: rest => some (.infinite negative, rest)
  | 'n' :: 'a' :: 'n' :: rest => some (.notANumber, rest)
  | _ => none

/-- A number with a fraction or an exponent. A positive one may not be too large. -/
def float? (cs : List Char) : Option (Value × List Char) :=
  let (negative, cs) := sign cs
  match special? negative cs with
  | some (x, rest) => some (.float x, rest)
  | none => do
    let (whole, rest) ← decimal? cs
    let (places, power, rest) ← match fraction? rest with
      | some (places, rest) =>
        match exponent? rest with
        | some (power, rest) => some (places, power, rest)
        | none => some (places, 0, rest)
      | none => (exponent? rest).map fun (power, rest) => ([], power, rest)
    let x := Binary64.ofDecimal negative (numberOf 10 (whole ++ places)) (power - places.length)
    if x = .infinite false then none else some (.float x, rest)

/-! ### Dates and times -/

/-- A number of exactly `count` decimal digits between two bounds. -/
def fixed? (count low high : Nat) (cs : List Char) : Option (Nat × List Char) :=
  let digits := cs.take count
  let n := numberOf 10 digits
  if digits.length = count ∧ digits.all Char.isDigit ∧ low ≤ n ∧ n ≤ high then
    some (n, cs.drop count)
  else none

def symbol? (symbol : Char) : List Char → Option (List Char)
  | c :: rest => if c = symbol then some rest else none
  | [] => none

def daysIn (year month : Nat) : Nat :=
  if month = 2 then if year % 4 = 0 ∧ (year % 100 ≠ 0 ∨ year % 400 = 0) then 29 else 28
  else if [4, 6, 9, 11].contains month then 30
  else 31

/-- The rest behind a date. -/
def date? (cs : List Char) : Option (List Char) := do
  let (year, cs) ← fixed? 4 0 9999 cs
  let (month, cs) ← fixed? 2 1 12 (← symbol? '-' cs)
  let (_, cs) ← fixed? 2 1 (daysIn year month) (← symbol? '-' cs)
  return cs

/-- The rest behind a time of the day. -/
def time? (cs : List Char) : Option (List Char) := do
  let (_, cs) ← fixed? 2 0 23 cs
  let (_, cs) ← fixed? 2 0 59 (← symbol? ':' cs)
  let (_, cs) ← fixed? 2 0 60 (← symbol? ':' cs)
  match cs with
  | '.' :: rest =>
    if rest.head?.any Char.isDigit then return rest.dropWhile Char.isDigit else none
  | _ => return cs

/-- The rest behind the distance from universal time, if there is one. -/
def zone (cs : List Char) : List Char :=
  match cs with
  | [] => []
  | c :: rest =>
    if c = 'Z' ∨ c = 'z' then rest
    else if c = '+' ∨ c = '-' then
      (do
        let (_, cs) ← fixed? 2 0 23 rest
        let (_, cs) ← fixed? 2 0 59 (← symbol? ':' cs)
        return cs : Option (List Char)).getD (c :: rest)
    else c :: rest

/-- A date, a time, or both. -/
def moment? (cs : List Char) : Option (Value × List Char) :=
  match date? cs with
  | none => (time? cs).map fun rest => (.moment, rest)
  | some rest =>
    match rest with
    | c :: after =>
      if c = 'T' ∨ c = 't' ∨ c = ' ' then
        match time? after with
        | some rest => some (.moment, zone rest)
        | none => some (.moment, c :: after)
      else some (.moment, c :: after)
    | [] => some (.moment, [])

/-- A number, a date or a time. -/
def number? (cs : List Char) : Option (Value × List Char) :=
  moment? cs <|> float? cs <|> integer? cs

end Workbench.Toml
