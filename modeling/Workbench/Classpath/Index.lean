import Std.Data.ExtTreeMap
import Std.Data.ExtTreeSet
import Workbench.Classpath.Entry
import Workbench.Log.Event

/-!
The classes of a classpath by their binary names. Entries that cannot be read are skipped, each
with a warning, so that one broken archive never hides the rest; of several entries with the same
class the first one counts.
-/

namespace Workbench

/-- Where a class stands: the number of the entry, and the class file in it. -/
structure ClassLocation where
  entry : Nat
  path : String
  deriving DecidableEq, Repr

namespace ClassFile

/-- The extension of class files, with its point. -/
def suffix : List Char := ".class".toList

/-- The directory of an archive whose classes shadow others and are left out. -/
def overlayDir : List Char := "META-INF/".toList

/-- Descriptions of modules and packages are no classes. -/
def descriptions : List String := ["module-info", "package-info"]

/-- The binary name of a class file: points between packages, no extension. -/
def binaryName? (file : String) : Option String :=
  let cs := file.toList
  if suffix.isSuffixOf cs then
    let stem := cs.take (cs.length - suffix.length)
    let simple := (splitPieces '/' stem).getLast?.getD stem
    if descriptions.contains (String.ofList simple) then none
    else some (String.ofList (stem.map fun c => if c = '/' then '.' else c))
  else none

/-- The last part of a binary name, behind packages and enclosing classes. -/
def simpleName (binaryName : String) : String :=
  let name := (splitPieces '.' binaryName.toList).getLast?.getD []
  String.ofList ((splitPieces '$' name).getLast?.getD name)

end ClassFile

/-- The class files in a directory, by their ways from it. -/
def Disk.classFilesIn (d : Disk) (top : Place) : List String :=
  (d.walk top fun _ => true).filterMap fun (place, node) =>
    match node with
    | .file _ _ =>
      if place.getLast?.bind Path.nameExtension? = some "class" then
        some ("/".intercalate (place.drop top.length))
      else none
    | _ => none

/-- The class files of an archive. Overlays for other releases are left out. -/
def Content.classFiles? (c : Content) : Option (List String) :=
  c.entryNames?.map fun names => names.filter fun name =>
    ClassFile.suffix.isSuffixOf name.toList && !ClassFile.overlayDir.isPrefixOf name.toList

/-- The class files of an entry, if it can be read. A removed working directory is an empty one. -/
def ClasspathEntry.classFiles? (d : Disk) (e : ClasspathEntry) : Option (List String) :=
  match e.kind with
  | .classDir =>
    if d.isDir e.path then
      match d.resolve e.path with
      | .ok place => some (d.classFilesIn place)
      | .error _ => some []
    else none
  | .jar => (d.file? e.path).bind fun (content, _) => content.classFiles?

/-- The classes of a classpath. -/
structure ClasspathIndex where
  entries : List ClasspathEntry := []
  classes : Std.ExtTreeMap String ClassLocation := ∅
  simpleNames : Std.ExtTreeSet String := ∅

namespace ClasspathIndex

def logTarget : String := "grove.classpath"

def unreadableEntry (e : ClasspathEntry) : LogEvent :=
  ⟨.warn, logTarget, "failed to index classpath entry", [("entry", e.path.text)]⟩

/-- Adds the class files of an entry; a class that is there already stays where it is. -/
def addFiles (entry : Nat) (classes : Std.ExtTreeMap String ClassLocation)
    (files : List String) : Std.ExtTreeMap String ClassLocation :=
  files.foldl (fun classes file =>
    match ClassFile.binaryName? file with
    | some name => classes.insertIfNew name ⟨entry, file⟩
    | none => classes) classes

/-- Adds the classes of entries, the first of which has the given number. -/
def addEntries (d : Disk) (number : Nat) (classes : Std.ExtTreeMap String ClassLocation) :
    List ClasspathEntry → Std.ExtTreeMap String ClassLocation
  | [] => classes
  | e :: rest =>
    match e.classFiles? d with
    | some files => addEntries d (number + 1) (addFiles number classes files) rest
    | none => addEntries d (number + 1) classes rest

def build (d : Disk) (entries : List ClasspathEntry) : ClasspathIndex :=
  let classes := addEntries d 0 ∅ entries
  { entries, classes, simpleNames := .ofList (classes.keys.map ClassFile.simpleName) }

def buildWarnings (d : Disk) (entries : List ClasspathEntry) : List LogEvent :=
  (entries.filter fun e => (e.classFiles? d).isNone).map unreadableEntry

def lookup? (x : ClasspathIndex) (binaryName : String) : Option ClassLocation :=
  x.classes[binaryName]?

def contains (x : ClasspathIndex) (binaryName : String) : Bool := x.classes.contains binaryName

def containsSimpleName (x : ClasspathIndex) (name : String) : Bool := x.simpleNames.contains name

/-- The binary names from a text on, in order. -/
def namesFrom (x : ClasspathIndex) (start : String) : List String :=
  x.classes.keys.filter fun name => (compare start name).isLE

/-- The binary names that begin with a text, in order. Those from the text on are read as far as
they begin with it. -/
def namesBeginning (x : ClasspathIndex) (start : String) : List String :=
  (x.namesFrom start).takeWhile fun name => start.toList.isPrefixOf name.toList

def size (x : ClasspathIndex) : Nat := x.classes.size

def isEmpty (x : ClasspathIndex) : Bool := x.classes.isEmpty

end ClasspathIndex

end Workbench
