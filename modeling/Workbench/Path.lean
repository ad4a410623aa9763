import Workbench.Sorting

/-!
Paths. A path is a text; what it names is its sequence of components. Repeated and trailing
separators and inner `.` pieces are no components, so `a//b`, `a/./b` and `a/b/` have the same
components as `a/b`, while a leading `.` is a component of its own. Identity, order and nesting of
paths go by components, and the text is kept for display and for the disk.
-/

namespace Workbench

/-- One component of a path. -/
inductive Component where
  /-- The leading separator of an absolute path. -/
  | root
  /-- A leading `.`. -/
  | current
  /-- A piece `..`. -/
  | parent
  | name (text : String)
  deriving DecidableEq, Repr, Inhabited

namespace Component

/-- The place of a component's kind in the order of components. -/
def rank : Component → Nat
  | root => 0
  | current => 1
  | parent => 2
  | name _ => 3

def name? : Component → Option String
  | name text => some text
  | _ => none

/-- The name a component compares by; only names have one. -/
def label : Component → String
  | name text => text
  | _ => ""

instance : Ord Component where
  compare a b := (compare a.rank b.rank).then (compare a.label b.label)

theorem compare_eq_compareLex :
    (compare : Component → Component → Ordering) =
      compareLex (compareOn rank) (compareOn label) := rfl

instance : Std.TransOrd Component := by
  unfold Std.TransOrd
  rw [compare_eq_compareLex]
  infer_instance

instance : Std.LawfulEqOrd Component where
  eq_of_compare {a b} h := by
    have h : (compare a.rank b.rank).then (compare a.label b.label) = .eq := h
    obtain ⟨hrank, hlabel⟩ := Ordering.then_eq_eq.1 h
    have hrank := Std.LawfulEqOrd.eq_of_compare hrank
    have hlabel := Std.LawfulEqOrd.eq_of_compare hlabel
    cases a <;> cases b <;> simp_all [rank, label]

def text : Component → String
  | root => ""
  | current => "."
  | parent => ".."
  | name text => text

end Component

/-- Divides a text at every occurrence of a separator. There is always a first piece. -/
def splitPieces (separator : Char) : List Char → List (List Char)
  | [] => [[]]
  | c :: cs =>
    if c = separator then [] :: splitPieces separator cs
    else match splitPieces separator cs with
      | [] => [[c]]
      | piece :: rest => (c :: piece) :: rest

/-- A path as it is written. -/
structure Path where
  text : String
  deriving DecidableEq, Repr, Inhabited

namespace Path

/-- The pieces of a path between separators, as written. -/
def pieces (p : Path) : List String :=
  (splitPieces '/' p.text.toList).map String.ofList

def isAbsolute (p : Path) : Bool :=
  p.text.toList.head? == some '/'

/-- The component that a piece stands for behind other pieces. -/
def innerComponent? : String → Option Component
  | "" => none
  | "." => none
  | ".." => some .parent
  | piece => some (.name piece)

def components (p : Path) : List Component :=
  if p.isAbsolute then .root :: p.pieces.filterMap innerComponent?
  else match p.pieces with
    | "." :: rest => .current :: rest.filterMap innerComponent?
    | pieces => pieces.filterMap innerComponent?

/-- The plain spelling of a sequence of components. -/
def ofComponents : List Component → Path
  | .root :: rest => ⟨"/" ++ "/".intercalate (rest.map Component.text)⟩
  | cs => ⟨"/".intercalate (cs.map Component.text)⟩

/-- The absolute path that goes through the given names. -/
def absolute (names : List String) : Path :=
  ⟨"/" ++ "/".intercalate names⟩

/-- Whether two texts spell the same sequence of components. -/
def same (p q : Path) : Bool := p.components == q.components

/-- Paths are ordered by their components. -/
def order (p q : Path) : Ordering := compare p.components q.components

def isWithin (root p : Path) : Bool :=
  root.components.isPrefixOf p.components

/-- The last component, if it is a name. -/
def fileName? (p : Path) : Option String :=
  p.components.getLast?.bind Component.name?

/-- The path without its last component. The root and the empty path have no parent. -/
def parent? (p : Path) : Option Path :=
  match p.components.getLast? with
  | none => none
  | some .root => none
  | some _ => some (ofComponents p.components.dropLast)

/-- The part of a name behind its last point; a name whose only point leads it has none. -/
def nameExtension? (name : String) : Option String :=
  match (splitPieces '.' name.toList).reverse with
  | [] => none
  | [_] => none
  | [_, []] => none
  | last :: _ => some (String.ofList last)

def extension? (p : Path) : Option String :=
  p.fileName?.bind nameExtension?

/-- `q` as seen from `p`: an absolute `q` stands for itself. -/
def join (p q : Path) : Path :=
  if q.isAbsolute then q
  else if p.text.isEmpty || p.text.toList.getLast? == some '/' then ⟨p.text ++ q.text⟩
  else ⟨p.text ++ "/" ++ q.text⟩

def child (p : Path) (name : String) : Path := p.join ⟨name⟩

/-- One step of the lexical normal form; the stack holds the components so far, last first. -/
def normalStep (isAbsolute : Bool) (stack : List Component) : Component → List Component
  | .root => stack
  | .current => stack
  | .name text => .name text :: stack
  | .parent =>
    match stack with
    | .name _ :: rest => rest
    | _ => if isAbsolute then stack else .parent :: stack

/-- The components of the lexical normal form: no `.`, and `..` only in front of a relative
path. -/
def normalComponents (p : Path) : List Component :=
  let stack := p.components.foldl (normalStep p.isAbsolute) []
  if p.isAbsolute then .root :: stack.reverse else stack.reverse

/-- The lexical normal form of a path. -/
def normal (p : Path) : Path := ofComponents p.normalComponents

end Path

def Path.sort (paths : List Path) : List Path :=
  (sortBy (fun a b => compare a.1 b.1) (paths.map fun p => (p.components, p))).map Prod.snd

/-- Paths in order, one for each sequence of components. -/
def Path.sortUnique (paths : List Path) : List Path :=
  Workbench.sortUnique Path.order paths

end Workbench
