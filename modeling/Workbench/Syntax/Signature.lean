import Std.Data.ExtTreeMap
import Workbench.Sorting

/-!
The surface of classes. A class is captured with its members and interfaces in a fixed order, so
that equality of captures does not see the order of declarations. The drift between two captures
names every class that other files may see differently.
-/

namespace Workbench

/-- A method as other classes see it. -/
structure MethodSignature where
  name : String
  parameters : List String
  returns : String
  modifiers : Nat
  deriving DecidableEq, Repr

instance : Ord MethodSignature where
  compare a b :=
    (compare a.name b.name).then <|
    (compare a.parameters b.parameters).then <|
    (compare a.returns b.returns).then <|
    compare a.modifiers b.modifiers

/-- A field as other classes see it. -/
structure FieldSignature where
  name : String
  type : String
  modifiers : Nat
  deriving DecidableEq, Repr

instance : Ord FieldSignature where
  compare a b :=
    (compare a.name b.name).then <|
    (compare a.type b.type).then <|
    compare a.modifiers b.modifiers

/-- The flags of a member. -/
inductive Modifier where
  | isPublic
  | isPrivate
  | isProtected
  | isStatic
  | isFinal
  | isAbstract
  deriving DecidableEq, Repr

namespace Modifier

/-- The bit of a flag. -/
def bit : Modifier → Nat
  | isPublic => 1
  | isPrivate => 2
  | isProtected => 4
  | isStatic => 8
  | isFinal => 16
  | isAbstract => 1024

def ofKeyword? : String → Option Modifier
  | "public" => some isPublic
  | "private" => some isPrivate
  | "protected" => some isProtected
  | "static" => some isStatic
  | "final" => some isFinal
  | "abstract" => some isAbstract
  | _ => none

/-- The flags named by some keywords, as one number. -/
def flags (keywords : List String) : Nat :=
  keywords.foldl (fun acc keyword => acc ||| ((ofKeyword? keyword).map bit).getD 0) 0

end Modifier

/-- The surface of one class. -/
structure ClassSignature where
  name : String
  superclass : Option String
  interfaces : List String
  methods : List MethodSignature
  fields : List FieldSignature
  deriving DecidableEq, Repr

namespace ClassSignature

/-- Captures a class: interfaces and members are put in order. -/
def capture (name : String) (superclass : Option String) (interfaces : List String)
    (methods : List MethodSignature) (fields : List FieldSignature) : ClassSignature :=
  ⟨name, superclass, sortBy compare interfaces, sortBy compare methods, sortBy compare fields⟩

end ClassSignature

/-- Captured classes by name. -/
abbrev Surface := Std.ExtTreeMap String ClassSignature

/-- The surface of some classes; of several with one name the last counts. -/
def Surface.ofClasses (classes : List ClassSignature) : Surface :=
  classes.foldl (fun surface c => surface.insert c.name c) ∅

/-- How a class differs between two captures. -/
inductive Drift where
  | changed (name : String)
  | removed (name : String)
  | added (name : String)
  deriving DecidableEq, Repr

/-- How the class `old` of the first surface differs in the second. -/
def Drift.ofClass? (after : Surface) (name : String) (old : ClassSignature) : Option Drift :=
  match after[name]? with
  | none => some (.removed name)
  | some new => if new = old then none else some (.changed name)

/-- The differences between two surfaces: first the classes of the first one that changed or went
away, then the new ones of the second, both in the order of their names. -/
def Surface.drift (before after : Surface) : List Drift :=
  (before.toList.filterMap fun (name, old) => Drift.ofClass? after name old) ++
    (after.keys.filter fun name => !before.contains name).map Drift.added

end Workbench
