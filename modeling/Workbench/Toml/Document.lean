import Workbench.Toml.Scalar

/-!
Documents of TOML: lines that assign values to keys and headers that open tables. A document that
breaks a rule of the grammar or names a key twice has no value.
-/

namespace Workbench.Toml

/-! ### Keys and values -/

/-- The characters of a key without marks. -/
def isBare (c : Char) : Bool := c.isAlphanum || c = '-' || c = '_'

def skipSpaces (cs : List Char) : List Char := cs.dropWhile isSpace

def keyPart? (cs : List Char) : Option (String × List Char) :=
  if cs.head?.any isBare then some (String.ofList (cs.takeWhile isBare), cs.dropWhile isBare)
  else shortText? cs

/-- The parts of a key with points between them. -/
def keyParts? : (fuel : Nat) → Reader (List String)
  | 0, _ => none
  | fuel + 1, cs => do
    let (part, rest) ← keyPart? cs
    match skipSpaces rest with
    | '.' :: rest =>
      let (parts, rest) ← keyParts? fuel (skipSpaces rest)
      return (part :: parts, rest)
    | _ => return ([part], rest)

/-- Keys have fewer parts than this, and arrays and tables in braces lie in fewer others. -/
def depthLimit : Nat := 80

/-- A key: parts with points between them, not too many of them. -/
def key? : Reader (List String) := fun cs => do
  let (parts, rest) ← keyParts? cs.length cs
  if parts.length < depthLimit then return (parts, rest) else none

/-- The rest behind a comment, if one starts here; its characters have to be plain. -/
def comment? : List Char → Option (List Char)
  | '#' :: rest =>
    let after := rest.dropWhile isPlain
    if after.isEmpty || (newline? after).isSome then some after else none
  | cs => some cs

/-- Skips blanks, line breaks and comments. -/
def skipVoid : (fuel : Nat) → List Char → Option (List Char)
  | 0, cs => some cs
  | fuel + 1, cs => do
    let cs := skipLines cs.length cs
    match cs with
    | '#' :: _ => skipVoid fuel (← comment? cs)
    | _ => return cs

/-- Skips blanks, line breaks and comments. -/
def void? (cs : List Char) : Option (List Char) := skipVoid cs.length cs

/-- Drops a word that has to stand here. -/
def word (word : String) (value : Value) (cs : List Char) : Option (Value × List Char) :=
  if word.toList.isPrefixOf cs then some (value, cs.drop word.length) else none

mutual
/-- A value that may open so many arrays and tables, one in the other. -/
def value? : (fuel depth : Nat) → Reader Value
  | 0, _, _ => none
  | fuel + 1, depth, cs =>
    match depth, cs with
    | _, [] => none
    | 0, '[' :: _ => none
    | 0, '\x7b' :: _ => none
    | depth + 1, '[' :: rest =>
      (items? fuel depth rest).map fun (items, rest) => (.array items, rest)
    | depth + 1, '\x7b' :: rest =>
      match skipSpaces rest with
      | '\x7d' :: rest => some (.table [], rest)
      | rest => (members? fuel depth [] rest).map fun (members, rest) =>
          (.table (membersToValue members), rest)
    | _, 't' :: _ => word "true" (.bool true) cs
    | _, 'f' :: _ => word "false" (.bool false) cs
    | _, c :: _ =>
      if c = '"' ∨ c = '\'' then (text? cs).map fun (text, rest) => (.text text, rest)
      else number? cs

/-- The items of an array up to its end. A comma may stand behind the last one. -/
def items? : (fuel depth : Nat) → Reader (List Value)
  | 0, _, _ => none
  | fuel + 1, depth, cs => do
    match ← void? cs with
    | ']' :: rest => return ([], rest)
    | cs =>
      let (item, rest) ← value? fuel depth cs
      match ← void? rest with
      | ']' :: rest => return ([item], rest)
      | ',' :: rest =>
        let (items, rest) ← items? fuel depth rest
        return (item :: items, rest)
      | _ => none

/-- The members of a table in braces up to its end, after some that were read already. -/
def members? : (fuel depth : Nat) → (before : Items) → Reader Items
  | 0, _, _, _ => none
  | fuel + 1, depth, before, cs => do
    let (key, rest) ← key? (skipSpaces cs)
    match skipSpaces rest with
    | '=' :: rest =>
      let (value, rest) ← value? fuel depth (skipSpaces rest)
      let items ← assign key value before
      match skipSpaces rest with
      | '\x7d' :: rest => return (items, rest)
      | ',' :: rest => members? fuel depth items rest
      | _ => none
    | _ => none
end

/-! ### Lines -/

/-- A document so far: its items, and the keys of the header that was read last. -/
structure State where
  items : Items := []
  header : List String := []

/-- The rest behind the end of a line; a comment may stand before it. -/
def lineEnd? (cs : List Char) : Option (List Char) := do
  let rest ← comment? (skipSpaces cs)
  if rest.isEmpty then return [] else newline? rest

/-- Opens a table or the next table of an array. -/
def State.openAt (s : State) (key : List String) (opening : String → Inside) : Option State := do
  let last ← key.getLast?
  let items ← descend false (opening last) key.dropLast false s.items
  return ⟨items, key⟩

def State.assignAt (s : State) (key : List String) (value : Value) : Option State := do
  let items ← descend false (fun _ items => assign key value items) s.header false s.items
  return { s with items }

def header? (close : List Char) (opening : String → Inside) (s : State) (cs : List Char) :
    Option (State × List Char) := do
  let (key, rest) ← key? (skipSpaces cs)
  let rest := skipSpaces rest
  if close.isPrefixOf rest then
    return (← s.openAt key opening, rest.drop close.length)
  else none

def assignment? (s : State) (cs : List Char) : Option (State × List Char) := do
  let (key, rest) ← key? cs
  match skipSpaces rest with
  | '=' :: rest =>
    let (value, rest) ← value? (2 * rest.length + 2) (depthLimit - 1) (skipSpaces rest)
    return (← s.assignAt key value, rest)
  | _ => none

/-- Reads a line that is neither blank nor a comment. -/
def line? (s : State) : List Char → Option (State × List Char)
  | '[' :: '[' :: rest => header? [']', ']'] openElement s rest
  | '[' :: rest => header? [']'] openTable s rest
  | cs => assignment? s cs

def lines? : (fuel : Nat) → State → List Char → Option State
  | 0, _, _ => none
  | fuel + 1, s, cs => do
    match ← void? cs with
    | [] => return s
    | cs =>
      let (s, rest) ← line? s cs
      lines? fuel s (← lineEnd? rest)

def dropMark : List Char → List Char
  | c :: rest => if c = '\ufeff' then rest else c :: rest
  | [] => []

def parse? (text : String) : Option (List (String × Value)) := do
  let cs := dropMark text.toList
  let s ← lines? (cs.length + 1) {} cs
  return membersToValue s.items

end Workbench.Toml
