import Workbench.Classpath.Entry
import Workbench.Classpath.Stamp
import Workbench.Json.Reader

/-!
The stored record of the classpaths of a workspace, and its JSON form. A structure may also be
written as the array of its fields in order; fields that nobody knows are skipped, and a field that
stands twice makes the record unusable.
-/

namespace Workbench

/-- What is stored for one project. -/
structure ProjectRecord where
  stamps : StampMap := ∅
  classpath : List ClasspathEntry := []
  runtimeVersion : Option String := none

def ProjectRecord.resolved (r : ProjectRecord) : ResolvedClasspath :=
  ⟨r.classpath, r.runtimeVersion⟩

/-- What is stored for a workspace. -/
structure ClasspathRecord where
  version : Nat
  /-- Projects by the texts of their normal paths. -/
  projects : Std.ExtTreeMap String ProjectRecord := ∅
  discovered : List Path := []

namespace ClasspathRecord

/-- The version of the stored form. A record of another version counts as none. -/
def currentVersion : Nat := 1

def empty : ClasspathRecord := ⟨currentVersion, ∅, []⟩

def project? (r : ClasspathRecord) (project : Path) : Option ProjectRecord :=
  r.projects[project.text]?

end ClasspathRecord

/-! ### Writing -/

def StampMap.toJson (stamps : StampMap) : Json :=
  .obj (stamps.toList.map fun (file, stamp) => (file, .str stamp))

def ProjectRecord.toJson (r : ProjectRecord) : Json :=
  .obj ([("stamps", StampMap.toJson r.stamps),
    ("classpath", .arr (r.classpath.map ClasspathEntry.toJson))] ++
    match r.runtimeVersion with
    | some version => [("runtime_version", .str version)]
    | none => [])

def ClasspathRecord.toJson (r : ClasspathRecord) : Json :=
  .obj [("version", .int r.version),
    ("projects", .obj (r.projects.toList.map fun (key, project) => (key, project.toJson))),
    ("discovered_projects", .arr (r.discovered.map fun p => .str p.text))]

def ClasspathRecord.render (r : ClasspathRecord) : String := r.toJson.pretty

/-! ### Reading -/

namespace Json

/-- The value of a field; the outer `none` means that it stands twice. -/
def field? (members : List (String × Json)) (name : String) : Option (Option Json) :=
  match members.filter fun member => member.1 == name with
  | [] => some none
  | [member] => some (some member.2)
  | _ => none

/-- The fields of a structure in the order of their names, from an object or from an array. -/
def fields? (names : List String) : Json → Option (List (Option Json))
  | .obj members => names.mapM (field? members)
  | .arr items =>
    if items.length ≤ names.length then
      some (items.map some ++ List.replicate (names.length - items.length) none)
    else none
  | _ => none

def text? : Json → Option String
  | .str text => some text
  | _ => none

def word32? : Json → Option Nat
  | .int n => if 0 ≤ n ∧ n < 0x100000000 then some n.toNat else none
  | _ => none

def optionalText? : Option Json → Option (Option String)
  | none => some none
  | some .null => some none
  | some (.str text) => some (some text)
  | some _ => none

def listOf? {α : Type} (read : Json → Option α) : Json → Option (List α)
  | .arr items => items.mapM read
  | _ => none

/-- A map from texts; of several members with one key the last counts. -/
def mapOf? {α : Type} (read : Json → Option α) : Json → Option (Std.ExtTreeMap String α)
  | .obj members => do
    let pairs ← members.mapM fun (key, value) => (read value).map fun value => (key, value)
    return pairs.foldl (fun map (key, value) => map.insert key value) ∅
  | _ => none

def orDefault? {α : Type} (default : α) (read : Json → Option α) : Option Json → Option α
  | none => some default
  | some j => read j

end Json

/-- The name of a choice: a text, or in an object also the only key, with nothing to it. -/
def Json.choice? (inObject : Bool) : Json → Option String
  | .str name => some name
  | .obj [(name, .null)] => if inObject then some name else none
  | _ => none

def Json.isObject : Json → Bool
  | .obj _ => true
  | _ => false

def ClasspathEntry.ofJson? (j : Json) : Option ClasspathEntry := do
  match ← j.fields? ["kind", "path"] with
  | [some kind, some path] =>
    let kind ← (kind.choice? j.isObject).bind EntryKind.ofName?
    let path ← path.text?
    return ⟨kind, ⟨path⟩⟩
  | _ => none

def ProjectRecord.ofJson? (j : Json) : Option ProjectRecord := do
  match ← j.fields? ["stamps", "classpath", "runtime_version"] with
  | [some stamps, some classpath, runtimeVersion] =>
    let stamps ← Json.mapOf? Json.text? stamps
    let classpath ← Json.listOf? ClasspathEntry.ofJson? classpath
    let runtimeVersion ← Json.optionalText? runtimeVersion
    return ⟨stamps, classpath, runtimeVersion⟩
  | _ => none

namespace ClasspathRecord

/-- The version of a stored record, whatever else it holds. -/
def version? (j : Json) : Option Nat := do
  match ← j.fields? ["version"] with
  | [some version] => version.word32?
  | _ => none

def ofJson? (j : Json) : Option ClasspathRecord := do
  match ← j.fields? ["version", "projects", "discovered_projects"] with
  | [some version, projects, discovered] =>
    let version ← version.word32?
    let projects ← Json.orDefault? ∅ (Json.mapOf? ProjectRecord.ofJson?) projects
    let discovered ←
      Json.orDefault? [] (Json.listOf? fun j => j.text?.map Path.mk) discovered
    return ⟨version, projects, discovered⟩
  | _ => none

/-- Reads a stored record. The version is looked at before the rest, so that a record of another
version is never half read. -/
def parse? (bytes : List UInt8) : Option ClasspathRecord := do
  let j ← Json.read? bytes
  let version ← version? j
  if version = currentVersion then ofJson? j else none

end ClasspathRecord

end Workbench
