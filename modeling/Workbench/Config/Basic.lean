import Workbench.Classpath.Discovery
import Workbench.Log.Filter
import Workbench.Path

/-!
The configuration of a workspace: four sections, every field of which has a default. Some values
are well formed but cannot work as intended; they are reported as warnings.
-/

namespace Workbench

/-- How the program logs. -/
structure LoggingConfig where
  /-- A level, or a filter. -/
  level : String := "info"
  json : Bool := false
  stderr : Bool := true
  /-- A file that is appended to. -/
  file : Option Path := none
  deriving DecidableEq, Repr, Inhabited

/-- Limits of compiles. -/
structure CompileConfig where
  /-- The most changed files with which a compile may be incremental. -/
  maxIncrementalChanges : Nat := 3
  /-- The most files of an incremental compile. -/
  maxWorkingSet : Nat := 50
  /-- How far an incremental compile follows dependencies. -/
  forwardDepth : Nat := 2
  /-- The most source files of a project that a full compile takes. -/
  maxCompileFiles : Nat := 1000
  /-- The extensions of source files, without a point. -/
  sourceExtensions : List String := ["groovy", "java"]
  /-- Threads for work in the background; zero leaves the choice to the program. -/
  workerThreads : Nat := 0
  deriving DecidableEq, Repr, Inhabited

/-- How long and how many texts of closed files are kept. -/
structure DocumentsConfig where
  closedFileTtlMs : Nat := 5000
  closedFileCapacity : Nat := 256
  deriving DecidableEq, Repr, Inhabited

/-- How classpaths are stored and trusted. -/
structure ClasspathConfig where
  cacheDir : Option Path := none
  sampleSize : Nat := 3
  buildFileNames : List String := defaultBuildFileNames
  deriving DecidableEq, Repr, Inhabited

/-- The whole configuration. -/
structure Config where
  logging : LoggingConfig := {}
  compile : CompileConfig := {}
  documents : DocumentsConfig := {}
  classpath : ClasspathConfig := {}
  deriving DecidableEq, Repr, Inhabited

/-- Whether a path has the extension of a source file. -/
def CompileConfig.isSourceFile (c : CompileConfig) (p : Path) : Bool :=
  p.extension?.any c.sourceExtensions.contains

/-- The number of threads, if it is configured. -/
def CompileConfig.configuredThreads? (c : CompileConfig) : Option Nat :=
  if c.workerThreads = 0 then none else some c.workerThreads

namespace LoggingConfig

/-- The names of levels that may be written in any case. -/
def bareLevels : List String := ["trace", "debug", "info", "warn", "error"]

/-- The filter that a level stands for. Bare levels are put in lower case, `warning` is `warn`, and
nothing is `info`; anything else is a filter already. -/
def normalizeLevel (level : String) : String :=
  let level := Text.trim level
  let lower := Text.lower level
  if level.isEmpty then "info"
  else if lower = "warning" then "warn"
  else if bareLevels.contains lower then lower
  else level

/-- The filter of the configured level; a level that cannot be read counts as `info`. There is none
if a directive would be cut inside a character. -/
def configuredFilter? (c : LoggingConfig) : Option LogFilter :=
  match LogFilter.parse (normalizeLevel c.level) with
  | .ok filter => some filter
  | .error .torn => none
  | .error _ => some .information

/-- The filter in force: the configured level and behind it what the environment says. If they
cannot be read together, the environment counts alone, and if it cannot be read either, the
configured level. There is none if a directive would be cut inside a character. -/
def filter? (c : LoggingConfig) (fromEnvironment : Option String) : Option LogFilter :=
  let given := Text.trim (fromEnvironment.getD "")
  if given.isEmpty then c.configuredFilter?
  else match LogFilter.parse (normalizeLevel c.level ++ "," ++ given) with
    | .ok filter => some filter
    | .error .torn => none
    | .error _ =>
      match LogFilter.parse given with
      | .ok filter => some filter
      | .error .torn => none
      | .error _ => c.configuredFilter?

end LoggingConfig

/-- A value that cannot work as intended: the name of the field and why. -/
structure ConfigWarning where
  field : String
  message : String
  deriving DecidableEq, Repr

namespace Config

def warnIf (condition : Bool) (field message : String) : List ConfigWarning :=
  if condition then [⟨field, message⟩] else []

def warnings (c : Config) : List ConfigWarning :=
  warnIf (c.compile.maxWorkingSet = 0) "compile.max_working_set"
    "0 disables incremental compilation entirely" ++
  warnIf (c.compile.maxCompileFiles = 0) "compile.max_compile_files"
    "0 admits only open documents into full compiles" ++
  warnIf c.compile.sourceExtensions.isEmpty "compile.source_extensions"
    "no source extensions configured; project files will never compile" ++
  warnIf c.classpath.buildFileNames.isEmpty "classpath.build_file_names"
    "no build files configured; projects cannot be discovered" ++
  match LogFilter.parse (LoggingConfig.normalizeLevel c.logging.level) with
  | .ok _ => []
  | .error e =>
    [⟨"logging.level",
      "invalid filter directive (" ++ e.message ++ "); falling back to \x60info\x60"⟩]

end Config

end Workbench
