import Workbench.Log.Event
import Workbench.Path
import Workbench.Pattern.Survey
import Workbench.Text.Measure

/-!
Filters of log events. A filter is a list of directives between commas. A directive is a level for
all events, a target, or a target and a level for the events whose target begins with it. Brackets
behind the target name a span, and braces in them a field and perhaps its value, which is a number
or a pattern; the directive then speaks only about what happens in the span or has the field. Of the
directives that match an event the one with the longest target decides.
-/

namespace Workbench

/-- How much is let through: nothing, or everything up to a level. -/
abbrev Verbosity := Option LogLevel

namespace Verbosity

def rank (v : Verbosity) : Nat := (v.map LogLevel.rank).getD 0

def name : Verbosity → String
  | none => "off"
  | some level => Text.lower level.label

/-- The verbosities by their numbers. -/
def ofRank? : Nat → Option Verbosity
  | 0 => some none
  | 1 => some (some .error)
  | 2 => some (some .warn)
  | 3 => some (some .info)
  | 4 => some (some .debug)
  | 5 => some (some .trace)
  | _ => none

/-- The number that a text of digits writes; a plus sign may lead it. -/
def number? (cs : List Char) : Option Nat :=
  let digits := match cs with
    | '+' :: rest => rest
    | rest => rest
  if digits.isEmpty || !digits.all Char.isDigit then none
  else some (digits.foldl (fun n d => n * 10 + (d.toNat - '0'.toNat)) 0)

/-- The verbosity that a text names, in any case, or writes as a number. -/
def ofText? (text : String) : Option Verbosity :=
  match number? text.toList with
  | some n => ofRank? n
  | none =>
    match Text.lower text with
    | "off" => some none
    | "error" => some (some .error)
    | "warn" => some (some .warn)
    | "info" => some (some .info)
    | "debug" => some (some .debug)
    | "trace" => some (some .trace)
    | _ => none

end Verbosity

/-- A field that a directive asks for, by its name and perhaps by its value. -/
structure FieldTest where
  name : String
  value : Option String
  deriving DecidableEq, Repr

/-- Lets events through up to a level: all events, or those of a target, in a span, or with a
field. -/
structure LogDirective where
  target : Option String
  verbosity : Verbosity
  span : Option String := none
  field : Option FieldTest := none
  deriving DecidableEq, Repr

/-- What is wrong with a filter. -/
inductive FilterError where
  | directive
  | level
  /-- The value of a field is no pattern. -/
  | field (error : Pattern.Error)
  /-- A directive would be cut inside a character. -/
  | torn
  deriving DecidableEq, Repr

def FilterError.message : FilterError → String
  | directive => "invalid filter directive"
  | level =>
    "error parsing level filter: expected one of \"off\", \"error\", \"warn\", \"info\", " ++
      "\"debug\", \"trace\", or a number 0-5"
  | field error => "invalid field filter: " ++ error.message
  | torn => "directive cut inside a character"

namespace LogDirective

def mayBegin (c : Char) : Bool := Text.isLetterOrNumber c || c = '-' || c = ':' || c = '_'

/-- A directive of one part: a level, or a target, which lets everything through. -/
def ofPart (part : List Char) : LogDirective :=
  match Verbosity.ofText? (String.ofList part) with
  | some verbosity => { target := none, verbosity }
  | none => { target := some (String.ofList part), verbosity := some .trace }

/-- The two parts of a text before and behind so many bytes. -/
def cutAt (cs : List Char) (size : Nat) : Except FilterError (List Char × List Char) :=
  match Text.cut? Char.utf8Size cs size with
  | some parts => .ok parts
  | none => .error .torn

/-- The text between two places, which are counted in bytes. -/
def between (cs : List Char) (start stop : Nat) : Except FilterError (List Char) := do
  let (front, _) ← cutAt cs stop
  let (_, part) ← cutAt front start
  return part

/-- The verbosity that is written from a place on. An empty one lets everything through. -/
def verbosityFrom (cs : List Char) (start : Nat) : Except FilterError Verbosity := do
  let (_, level) ← cutAt cs start
  if level.isEmpty then return some .trace
  else match Verbosity.ofText? (String.ofList level) with
    | some verbosity => return verbosity
    | none => throw .level

/-- A text without the sign in front of it. -/
def dropSign : List Char → List Char
  | '+' :: rest => rest
  | '-' :: rest => rest
  | rest => rest

/-- Whether a text is an exponent, or nothing. -/
def isExponent : List Char → Bool
  | [] => true
  | c :: rest =>
    let digits := dropSign rest
    (c = 'e' || c = 'E') && !digits.isEmpty && digits.all Char.isDigit

/-- Whether a text is a number: digits, with a point beside or between them and with an exponent, or
a word for what is no decimal. A sign may lead it. -/
def isNumber (cs : List Char) : Bool :=
  let cs := dropSign cs
  let whole := cs.takeWhile Char.isDigit
  let (places, rest) := match cs.drop whole.length with
    | '.' :: rest => (rest.takeWhile Char.isDigit, rest.dropWhile Char.isDigit)
    | rest => ([], rest)
  ["inf", "infinity", "nan"].contains (Text.lower (String.ofList cs)) ||
    (!(whole ++ places).isEmpty && isExponent rest)

/-- The test that a text asks for: a name, and a value if there is a `=`. What stands behind another
`=` counts for nothing. A value that is no number has to be a pattern. -/
def fieldTest (text : List Char) : Except FilterError FieldTest := do
  match splitPieces '=' text with
  | name :: value :: _ =>
    let test : FieldTest := ⟨String.ofList name, some (String.ofList value)⟩
    if isNumber value then return test
    else match Pattern.parse value with
      | .ok _ => return test
      | .error e => throw (.field e)
  | _ => return ⟨String.ofList text, none⟩

/-- Reads the end of a directive behind its brackets: nothing, or a level. -/
def parseLevel (cs : List Char) (directive : LogDirective) (place : Nat) :
    List Char → Except FilterError LogDirective
  | [] => .ok directive
  | '=' :: _ => do return { directive with verbosity := ← verbosityFrom cs (place + 1) }
  | _ => .error .directive

/-- Reads a directive behind an opening brace: the field, then the brackets close. -/
def parseField (cs : List Char) (directive : LogDirective) (place : Nat) (body : List Char) :
    Except FilterError LogDirective := do
  let inner := body.takeWhile (· != '\x7d')
  let stop := place + Text.byteSize inner
  match body.drop inner.length with
  | [] => throw .directive
  | _ :: rest =>
    let text ← between cs place stop
    if text.isEmpty then throw .directive
    else
      let field ← fieldTest text
      match rest with
      | ']' :: rest => parseLevel cs { directive with field := some field } (stop + 2) rest
      | _ => throw .directive

/-- Reads a directive behind an opening bracket: the name of a span, a field in braces, or both. -/
def parseSpan (cs : List Char) (directive : LogDirective) (place : Nat) (body : List Char) :
    Except FilterError LogDirective := do
  let inner := body.takeWhile fun c => c != ']' && c != '\x7b'
  let stop := place + Text.byteSize inner
  match body.drop inner.length with
  | [] => throw .directive
  | c :: rest =>
    let name := String.ofList (← between cs place stop)
    if c = ']' then parseLevel cs { directive with span := some name } (stop + 1) rest
    else
      let span := if name.isEmpty then none else some name
      parseField cs { directive with span } (stop + 1) rest

/-- Reads a directive. Blanks around it are skipped in the search for its first character and for
the marks between its parts, but they belong to the parts: places are counted without the blanks in
front, and the parts are what stands at these places of the whole directive. -/
def parse (cs : List Char) : Except FilterError LogDirective := do
  match Text.trimChars cs with
  | [] => throw .directive
  | '[' :: rest => parseSpan cs { target := none, verbosity := some .trace } 1 rest
  | c :: rest =>
    if !mayBegin c then throw .directive
    else
      let body := c :: rest
      let head := body.takeWhile fun c => c != '=' && c != '['
      let stop := Text.byteSize head
      match body.drop head.length with
      | [] => return ofPart cs
      | mark :: rest =>
        let directive : LogDirective :=
          { target := some (String.ofList (← between cs 0 stop)), verbosity := some .trace }
        if mark = '=' then parseLevel cs directive stop (mark :: rest)
        else parseSpan cs directive (stop + 1) rest

/-- Whether a directive speaks about events outside of spans. The value of a field is known inside
of spans only. -/
def isStatic (directive : LogDirective) : Bool :=
  directive.span.isNone && !directive.field.any fun test => test.value.isSome

/-- Whether a directive speaks about a target. -/
def covers (directive : LogDirective) (target : String) : Bool :=
  match directive.target with
  | none => true
  | some start => start.toList.isPrefixOf target.toList

/-- Whether an event has the field that a directive asks for. -/
def findsField (directive : LogDirective) (e : LogEvent) : Bool :=
  match directive.field with
  | none => true
  | some test => e.fieldNames.contains test.name

/-- The length of a directive's target; a directive for all events has none. -/
def weight (directive : LogDirective) : Nat :=
  match directive.target with
  | none => 0
  | some start => start.utf8ByteSize + 1

/-- Directives with the same target are ordered by the fields that they ask for. -/
def fieldName? (directive : LogDirective) : Option String := directive.field.map FieldTest.name

/-- Whether a directive decides at least as much as another one: it has the longer target, or of
two equally long ones the greater field. -/
def outranks (a b : LogDirective) : Bool :=
  ((compare b.weight a.weight).then (compare b.fieldName? a.fieldName?)).isLE

end LogDirective

/-- Directives in the order in which they were given. -/
structure LogFilter where
  directives : List LogDirective
  deriving DecidableEq, Repr

namespace LogFilter

/-- Reads a filter; empty pieces between commas are skipped. -/
def parse (text : String) : Except FilterError LogFilter := do
  let pieces := (splitPieces ',' text.toList).filter fun piece => !piece.isEmpty
  return ⟨← pieces.mapM LogDirective.parse⟩

/-- The filter that lets through what is at least an information. -/
def information : LogFilter := ⟨[{ target := none, verbosity := some .info }]⟩

/-- Whether a directive asks for the value of a field. -/
def asksForValue (f : LogFilter) : Bool :=
  f.directives.any fun directive => directive.field.any fun test => test.value.isSome

/-- The most verbose level of all directives; without directives nothing passes. Where values are
asked for, everything may pass. -/
def maxVerbosity (f : LogFilter) : Verbosity :=
  if f.asksForValue then some .trace
  else f.directives.foldl (fun most directive =>
    if most.rank < directive.verbosity.rank then directive.verbosity else most) none

/-- The directive that decides about an event outside of spans: of those that speak about it the one
that outranks the others, and of equal ones the last. -/
def deciding? (f : LogFilter) (e : LogEvent) : Option LogDirective :=
  (f.directives.filter fun directive =>
    directive.isStatic && directive.covers e.target && directive.findsField e).foldl
    (fun best directive =>
      match best with
      | none => some directive
      | some other => if directive.outranks other then some directive else some other) none

def passes (f : LogFilter) (e : LogEvent) : Bool :=
  match f.deciding? e with
  | none => false
  | some directive => e.level.rank ≤ directive.verbosity.rank

end LogFilter

end Workbench
