import Std.Data.ExtTreeMap
import Std.Data.ExtTreeSet
import Workbench.Registry
import Workbench.Syntax.Signature
import Workbench.Text.Position

/-!
Syntax trees by file, and which file declares which class. A tree is kept as far as other parts
need it: the classes a file declares, the class names it refers to, and its symbols.
-/

namespace Workbench

/-- What a symbol names. -/
inductive SymbolKind where
  | declaredClass
  | method
  | field
  | reference
  deriving DecidableEq, Repr

/-- The name of a kind of symbol. -/
def SymbolKind.name : SymbolKind → String
  | declaredClass => "class"
  | method => "method"
  | field => "field"
  | reference => "reference"

/-- A name at a range of a file. -/
structure Symbol where
  name : String
  range : Range
  kind : SymbolKind
  deriving DecidableEq, Repr

namespace Symbol

/-- How far a symbol's range extends, in lines and then in columns. -/
def extent (s : Symbol) : Nat × Nat :=
  (s.range.stop.line - s.range.start.line, s.range.stop.character - s.range.start.character)

/-- Whether a symbol extends less far than another. -/
def isSmaller (s other : Symbol) : Bool :=
  s.extent.1 < other.extent.1 || (s.extent.1 == other.extent.1 && s.extent.2 < other.extent.2)

/-- The first of the symbols that extend least. -/
def smallest? : List Symbol → Option Symbol
  | [] => none
  | s :: rest => some (rest.foldl (fun best s => if s.isSmaller best then s else best) s)

end Symbol

/-- The tree of one file. -/
structure FileSyntax where
  classes : List ClassSignature := []
  references : Std.ExtTreeSet String := ∅
  symbols : List Symbol := []

/-- The trees of files, and the file that declares each class. -/
structure SyntaxIndex where
  files : Std.ExtTreeMap FileId FileSyntax := ∅
  declarations : Std.ExtTreeMap String FileId := ∅

namespace SyntaxIndex

def get? (x : SyntaxIndex) (file : FileId) : Option FileSyntax := x.files[file]?

/-- Takes the tree of a file away, and with it the declarations that name this file. -/
def erase (x : SyntaxIndex) (file : FileId) : SyntaxIndex :=
  match x.get? file with
  | none => x
  | some tree =>
    { files := x.files.erase file
      declarations := tree.classes.foldl (fun declared c =>
        if declared[c.name]? = some file then declared.erase c.name else declared)
        x.declarations }

/-- Replaces the tree of a file. A class that several files declare belongs to the last of them. -/
def insert (x : SyntaxIndex) (file : FileId) (tree : FileSyntax) : SyntaxIndex :=
  let x := x.erase file
  { files := x.files.insert file tree
    declarations := tree.classes.foldl (fun declared c => declared.insert c.name file)
      x.declarations }

def declaringFile? (x : SyntaxIndex) (name : String) : Option FileId := x.declarations[name]?

def classesIn (x : SyntaxIndex) (file : FileId) : List ClassSignature :=
  ((x.get? file).map FileSyntax.classes).getD []

/-- The names of all declared classes, in order. -/
def classNames (x : SyntaxIndex) : List String := x.declarations.keys

def symbolAt? (x : SyntaxIndex) (file : FileId) (p : Position) : Option Symbol := do
  let tree ← x.get? file
  Symbol.smallest? (tree.symbols.filter fun s => s.range.contains p)

/-- The surface of the classes that some files declare. -/
def surfaceOf (x : SyntaxIndex) (files : List FileId) : Surface :=
  Surface.ofClasses (files.flatMap x.classesIn)

/-- The other files that declare what a file refers to. -/
def dependenciesOf (x : SyntaxIndex) (file : FileId) : Std.ExtTreeSet FileId :=
  match x.get? file with
  | none => ∅
  | some tree =>
    .ofList ((tree.references.toList.filterMap x.declaringFile?).filter (· != file))

end SyntaxIndex

end Workbench
