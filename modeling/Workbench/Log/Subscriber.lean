import Workbench.Config.Basic
import Workbench.Disk.Change
import Workbench.Environment
import Workbench.Json.Basic

/-!
The subscriber of log events. It is installed once for the whole process; it writes the events that
pass its filter to the error stream, to a file, or to both, as plain lines or as JSON.
-/

namespace Workbench

namespace LogEvent

/-- A level in five columns. -/
def paddedLevel (level : LogLevel) : String :=
  String.ofList (List.replicate (5 - level.label.length) ' ') ++ level.label

def plain (e : LogEvent) : String :=
  paddedLevel e.level ++ " " ++ e.target ++ ": " ++ e.message ++
    String.join (e.fields.map fun (name, value) => " " ++ name ++ "=" ++ value)

def toJson (time : String) (e : LogEvent) : Json :=
  .obj [("timestamp", .str time), ("level", .str e.level.label),
    ("fields", .obj (("message", .str e.message) ::
      e.fields.map fun (name, value) => (name, .str value))),
    ("target", .str e.target)]

/-- One line of a log, with its time. -/
def line (json : Bool) (time : String) (e : LogEvent) : String :=
  if json then (e.toJson time).compact else time ++ " " ++ e.plain

end LogEvent

/-- Where events go. -/
structure Subscriber where
  filter : LogFilter
  json : Bool
  stderr : Bool
  file : Option Path

/-- The logging of a process: the disk, the subscriber, and what the error stream holds. -/
structure LogProcess where
  disk : Disk
  /-- The first attempt to install a subscriber is the only one. -/
  attempted : Bool := false
  /-- Somebody else's subscriber is installed. -/
  foreign : Bool := false
  subscriber : Option Subscriber := none
  stderr : List String := []

namespace LogProcess

/-- The time of every line; no answer shows it. -/
def time : String := "1970-01-01T00:00:00Z"

def appendLine (d : Disk) (p : Path) (line : String) : Disk :=
  let more := Text.encode (line ++ "\n")
  match d.modify p fun file =>
      match file with
      | some (content, modified) => (content.append more, modified)
      | none => (⟨more⟩, Disk.writeTime) with
  | .ok d => d
  | .error _ => d

/-- Writes an event, if a subscriber is there and lets it through. -/
def log (s : LogProcess) (e : LogEvent) : LogProcess :=
  match s.subscriber with
  | none => s
  | some subscriber =>
    if subscriber.filter.passes e then
      let line := e.line subscriber.json time
      { s with
        disk := match subscriber.file with
          | some p => appendLine s.disk p line
          | none => s.disk
        stderr := if subscriber.stderr then s.stderr ++ [line] else s.stderr }
    else s

/-- The warning about a log file that cannot be opened. -/
def unopenedFile (p : Path) : LogEvent :=
  ⟨.warn, "grove.config", "log file could not be opened; writing to the remaining sinks",
    [("path", p.text)]⟩

/-- Opens the log file; answers with the disk and the file, if it can be opened. -/
def openFile (d : Disk) (file : Option Path) : Disk × Option Path :=
  match file with
  | none => (d, none)
  | some p =>
    match d.ensureFile p with
    | .ok d => (d, some p)
    | .error _ => (d, none)

/-- Installs a subscriber for a configuration; answers whether this call installed it. The log file
is opened even if somebody else's subscriber is there. Without a filter nothing is installed. -/
def install (s : LogProcess) (env : Environment) (c : LoggingConfig) : LogProcess × Bool :=
  if s.attempted then (s, false)
  else
    let (disk, opened) := openFile s.disk c.file
    let s := { s with attempted := true, disk }
    match c.filter? env.logFilter with
    | none => (s, false)
    | some filter =>
      if s.foreign then (s, false)
      else
        let s := { s with subscriber := some ⟨filter, c.json, c.stderr, opened⟩ }
        match c.file, opened with
        | some p, none => (s.log (unopenedFile p), true)
        | _, _ => (s, true)

end LogProcess

end Workbench
