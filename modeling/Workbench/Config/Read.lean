import Workbench.Config.Basic
import Workbench.Decimal.Shortest
import Workbench.Disk.Basic
import Workbench.Text.Quoted
import Workbench.Toml.Document

/-!
Reading a configuration from TOML. Unknown keys are skipped. A section is a table, or an array of
its fields in order; the first value of a wrong kind, in the order of the document, is reported.
-/

namespace Workbench

/-- Why there is no configuration. -/
inductive ConfigError where
  | unreadable (path : Path) (error : DiskError)
  | malformed
  /-- A value of another kind than expected. -/
  | wrongKind (found expected : String)
  /-- A number outside the range of its field. -/
  | outOfRange (found : Int) (expected : String)
  deriving DecidableEq, Repr

/-- The text of an error; a malformed document has none. -/
def ConfigError.message? : ConfigError → Option String
  | unreadable path error =>
    some ("failed to read config file " ++ path.text ++ ": " ++ error.message)
  | malformed => none
  | wrongKind found expected =>
    some ("failed to parse toml config: invalid type: " ++ found ++ ", expected " ++ expected)
  | outOfRange found expected =>
    some ("failed to parse toml config: invalid value: integer \x60" ++ toString found ++
      "\x60, expected " ++ expected)

/-- How a value is named where another kind was expected. Dates count as tables. -/
def Toml.Value.describe : Toml.Value → String
  | .text value => "string " ++ Text.showQuoted value
  | .int value => "integer \x60" ++ toString value ++ "\x60"
  | .float value => "floating point \x60" ++ value.render ++ "\x60"
  | .bool value => "boolean \x60" ++ toString value ++ "\x60"
  | .moment => "map"
  | .array _ => "sequence"
  | .table _ => "map"

namespace ConfigReader

/-- Reads a value, or says what is wrong with it. -/
abbrev Read (α : Type) := Toml.Value → Except ConfigError α

/-- The error of a value that is not what was expected. -/
def wrong {α : Type} (expected : String) (value : Toml.Value) : Except ConfigError α :=
  .error (.wrongKind value.describe expected)

def number (limit : Nat) (expected : String) : Read Nat
  | .int n => if 0 ≤ n ∧ n < limit then .ok n.toNat else .error (.outOfRange n expected)
  | value => wrong expected value

/-- A size, of 64 bits. -/
def size : Read Nat := number 0x10000000000000000 "usize"

def word32 : Read Nat := number 0x100000000 "u32"

def word64 : Read Nat := number 0x10000000000000000 "u64"

def bool : Read Bool
  | .bool b => .ok b
  | value => wrong "a boolean" value

def text : Read String
  | .text s => .ok s
  | value => wrong "a string" value

def path : Read Path
  | .text s => .ok ⟨s⟩
  | value => wrong "path string" value

def texts : Read (List String)
  | .array items => items.mapM text
  | value => wrong "a sequence" value

/-- A field of a section: its name, and how its value is put into the section. -/
structure Field (σ : Type) where
  name : String
  put : Toml.Value → σ → Except ConfigError σ

/-- A field that a reader reads and a function sets. -/
def Field.of {σ α : Type} (name : String) (read : Read α) (set : α → σ → σ) : Field σ :=
  ⟨name, fun value s => (read value).map fun a => set a s⟩

/-- Puts members into a section in their order; those that are no fields are skipped. -/
def putMembers {σ : Type} (fields : List (Field σ)) :
    List (String × Toml.Value) → σ → Except ConfigError σ
  | [], s => .ok s
  | (key, value) :: rest, s =>
    match fields.find? fun field => field.name == key with
    | none => putMembers fields rest s
    | some field => do putMembers fields rest (← field.put value s)

/-- Puts items into the fields of a section in order; what there is no field for is skipped. -/
def putItems {σ : Type} : List (Field σ) → List Toml.Value → σ → Except ConfigError σ
  | field :: fields, value :: rest, s => do putItems fields rest (← field.put value s)
  | _, _, s => .ok s

/-- Reads a section: a table, or an array of its fields. A date counts as a table without known
members. -/
def section_ {σ : Type} (kind : String) (fields : List (Field σ)) (start : σ) : Read σ
  | .table members => putMembers fields members start
  | .array items => putItems fields items start
  | .moment => .ok start
  | value => wrong ("struct " ++ kind) value

def loggingFields : List (Field LoggingConfig) :=
  [.of "level" text fun v c => { c with level := v },
    .of "json" bool fun v c => { c with json := v },
    .of "stderr" bool fun v c => { c with stderr := v },
    .of "file" path fun v c => { c with file := some v }]

def compileFields : List (Field CompileConfig) :=
  [.of "max_incremental_changes" size fun v c => { c with maxIncrementalChanges := v },
    .of "max_working_set" size fun v c => { c with maxWorkingSet := v },
    .of "forward_depth" word32 fun v c => { c with forwardDepth := v },
    .of "max_compile_files" size fun v c => { c with maxCompileFiles := v },
    .of "source_extensions" texts fun v c => { c with sourceExtensions := v },
    .of "worker_threads" size fun v c => { c with workerThreads := v }]

def documentsFields : List (Field DocumentsConfig) :=
  [.of "closed_file_ttl_ms" word64 fun v c => { c with closedFileTtlMs := v },
    .of "closed_file_capacity" size fun v c => { c with closedFileCapacity := v }]

def classpathFields : List (Field ClasspathConfig) :=
  [.of "cache_dir" path fun v c => { c with cacheDir := some v },
    .of "sample_size" size fun v c => { c with sampleSize := v },
    .of "build_file_names" texts fun v c => { c with buildFileNames := v }]

def sections : List (Field Config) :=
  [.of "logging" (section_ "LoggingConfig" loggingFields {}) fun v c => { c with logging := v },
    .of "compile" (section_ "CompileConfig" compileFields {}) fun v c => { c with compile := v },
    .of "documents" (section_ "DocumentsConfig" documentsFields {})
      fun v c => { c with documents := v },
    .of "classpath" (section_ "ClasspathConfig" classpathFields {})
      fun v c => { c with classpath := v }]

end ConfigReader

namespace Config

/-- The name of the configuration file of a workspace. -/
def fileName : String := "grove.toml"

def parse (text : String) : Except ConfigError Config :=
  match Toml.parse? text with
  | none => .error .malformed
  | some members => ConfigReader.putMembers ConfigReader.sections members {}

def load (d : Disk) (p : Path) : Except ConfigError Config :=
  match d.readText p with
  | .ok text => parse text
  | .error e => .error (.unreadable p e)

/-- The configuration of a workspace and the file it comes from; without a file, the defaults. -/
def loadForWorkspace (d : Disk) (root : Path) : Except ConfigError (Config × Option Path) :=
  let p := root.child fileName
  if d.isFile p then (load d p).map fun c => (c, some p)
  else .ok ({}, none)

end Config

end Workbench
