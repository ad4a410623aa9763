import Workbench.Decimal.Binary64

/-!
TOML values, and the tables of a document while it is being read. A document remembers how each
table came about, because a table may be opened once only, and because keys with points make tables
that headers may not open again.
-/

namespace Workbench.Toml

/-- A value. Members of a table are in the order in which the document names them. -/
inductive Value where
  | text (value : String)
  | int (value : Int)
  | float (value : Binary64)
  | bool (value : Bool)
  /-- A date or a time. -/
  | moment
  | array (items : List Value)
  | table (members : List (String × Value))
  deriving Inhabited

/-- What stands under a key of a document. -/
inductive Item where
  | value (value : Value)
  /-- A table. It is implicit until a header opens it, and dotted if a key with points made it. -/
  | table (isImplicit isDotted : Bool) (members : List (String × Item))
  /-- An array whose tables are opened by headers. -/
  | tables (elements : List (List (String × Item)))
  deriving Inhabited

/-- The items of a table. -/
abbrev Items := List (String × Item)

/-- Puts another item under a key that is there. -/
def Items.replace (items : Items) (key : String) (item : Item) : Items :=
  items.map fun (k, old) => if k = key then (k, item) else (k, old)

/-- What is done inside a table, which is told whether the table is dotted. -/
abbrev Inside := Bool → Items → Option Items

/-- Goes along keys into tables, which are made if they are missing, and does something in the last
one. Keys with points do not go into tables that a header has opened. -/
def descend (dotted : Bool) (inside : Inside) : List String → Inside
  | [], hereDotted, items => inside hereDotted items
  | key :: rest, _, items =>
    match items.lookup key with
    | none => do
      let inner ← descend dotted inside rest dotted []
      return items ++ [(key, .table true dotted inner)]
    | some (.value _) => none
    | some (.tables elements) =>
      match elements.getLast? with
      | none => none
      | some last => do
        let last ← descend dotted inside rest false last
        return Items.replace items key (.tables (elements.dropLast ++ [last]))
    | some (.table isImplicit isDotted inner) =>
      if dotted && !isImplicit then none
      else do
        let inner ← descend dotted inside rest isDotted inner
        return Items.replace items key (.table isImplicit isDotted inner)

/-- Puts a value under a new key. A key with points adds only to dotted tables, a plain key only
to others. -/
def addValue (hasPoints : Bool) (key : String) (value : Value) : Inside
  | isDotted, items =>
    if isDotted != hasPoints || (items.lookup key).isSome then none
    else some (items ++ [(key, .value value)])

/-- Puts a value under a key, which may have points. -/
def assign (key : List String) (value : Value) (items : Items) : Option Items :=
  match key.getLast? with
  | none => none
  | some last =>
    let path := key.dropLast
    descend true (addValue (!path.isEmpty) last value) path false items

/-- Opens a table by its header. One that came about on the way to another header may be opened,
and counts from here in the order of its neighbours. -/
def openTable (key : String) : Inside
  | _, items =>
    match items.lookup key with
    | none => some (items ++ [(key, .table false false [])])
    | some (.table true false inner) =>
      some (items.filter (fun item => item.1 != key) ++ [(key, .table false false inner)])
    | some _ => none

/-- Opens the next table of an array by its header. -/
def openElement (key : String) : Inside
  | _, items =>
    match items.lookup key with
    | none => some (items ++ [(key, .tables [[]])])
    | some (.tables elements) => some (Items.replace items key (.tables (elements ++ [[]])))
    | some _ => none

mutual
/-- The value that an item comes to. -/
def Item.toValue : Item → Value
  | .value value => value
  | .table _ _ members => .table (membersToValue members)
  | .tables elements => .array (elementsToValue elements)

def membersToValue : List (String × Item) → List (String × Value)
  | [] => []
  | (key, item) :: rest => (key, item.toValue) :: membersToValue rest

/-- The tables that the elements of an array come to. -/
def elementsToValue : List (List (String × Item)) → List Value
  | [] => []
  | members :: rest => .table (membersToValue members) :: elementsToValue rest
end

end Workbench.Toml
