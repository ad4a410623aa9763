import Workbench.Diagnostic
import Workbench.Syntax.Index
import Workbench.Toy.Words

/-!
The parser of the toy language, a language of lines:

    class Main extends Base implements Runnable, Closeable {
        Util helper
        void run(String name, int count) {
            def u = new Util()
        }
    }

Outside all braces a line may declare a class, directly inside a class it may declare a member, and
deeper every word is a mention. What a line is follows from the braces before it alone, so braces
and declarations are read apart from each other. A file whose braces do not match has no tree.
-/

namespace Workbench.Toy

open Text

/-! ### Braces -/

/-- The braces from a byte of the code of a line on: the depth behind them, and an error for every
closing brace that nothing opened. -/
def scanBraces (line : Nat) (code : List Char) :
    (byte depth : Nat) → List Char → Nat × List Diagnostic
  | _, depth, [] => (depth, [])
  | byte, depth, c :: cs =>
    if c = '\x7b' then scanBraces line code (byte + c.utf8Size) (depth + 1) cs
    else if c = '\x7d' then
      match depth with
      | depth + 1 => scanBraces line code (byte + c.utf8Size) depth cs
      | 0 =>
        let (depth, errors) := scanBraces line code (byte + c.utf8Size) 0 cs
        let column := utf16Col code byte
        (depth, ⟨Range.across line column 1, .error, "unexpected '\x7d'", none⟩ :: errors)
    else scanBraces line code (byte + c.utf8Size) depth cs

/-- The error for braces that are still open at the end of a file. -/
def missingBrace (lastLine : Nat) : Diagnostic :=
  ⟨Range.point ⟨lastLine, 0⟩, .error, "missing '\x7d'", none⟩

/-! ### Findings -/

def builtinTypes : List String :=
  ["void", "boolean", "byte", "char", "short", "int", "long", "float", "double", "def", "var",
    "String", "Object"]

/-- What the parser finds at a range of a file. -/
inductive Finding where
  /-- A declaration, or a mention in a body. -/
  | symbol (symbol : Symbol)
  /-- The use of a class as a type. -/
  | typeUse (name : String) (range : Range)
  deriving DecidableEq, Repr

namespace Finding

/-- Every finding is a symbol of its file. -/
def toSymbol : Finding → Symbol
  | symbol s => s
  | typeUse name range => ⟨name, range, .reference⟩

/-- The use of a class, if a finding is one. -/
def use? : Finding → Option (String × Range)
  | symbol _ => none
  | typeUse name range => some (name, range)

end Finding

/-- The use of a word as a type. Built-in types and what does not start with a letter are no
uses. -/
def useOf (line : Nat) (code : List Char) (w : Word) : List Finding :=
  if builtinTypes.contains w.text || !w.startsWithLetter then []
  else [.typeUse w.text (w.range line code)]

def symbolOf (line : Nat) (code : List Char) (kind : SymbolKind) (w : Word) : Finding :=
  .symbol ⟨w.text, w.range line code, kind⟩

/-! ### Lines -/

def isModifier (w : Word) : Bool := (Modifier.ofKeyword? w.text).isSome

/-- What the words behind the name of a class say. -/
structure Heritage where
  superclass : Option String := none
  interfaces : List String := []
  /-- `extends` has come, and its class has not. -/
  expectsSuper : Bool := false
  inImplements : Bool := false

def Heritage.step (isInterface : Bool) (h : Heritage) (w : Word) : Heritage :=
  match w.text with
  | "extends" => { h with expectsSuper := true }
  | "implements" => { h with inImplements := true }
  | name =>
    if h.inImplements || (h.expectsSuper && isInterface) then
      { h with interfaces := h.interfaces ++ [name] }
    else if h.expectsSuper then { h with superclass := some name, expectsSuper := false }
    else h

/-- The words behind the name of a class that name other classes. -/
def heritageWords (ws : List Word) : List Word :=
  ws.filter fun w => w.text != "extends" && w.text != "implements"

/-- The class that a line declares, without members, and what is found on the line. -/
def classHeader? (line : Nat) (code : List Char) (ws : List Word) :
    Option (ClassSignature × List Finding) :=
  match ws.dropWhile isModifier with
  | keyword :: name :: rest =>
    if keyword.text = "class" ∨ keyword.text = "interface" then
      let h := rest.foldl (Heritage.step (keyword.text = "interface")) {}
      some (⟨name.text, h.superclass, h.interfaces, [], []⟩,
        symbolOf line code .declaredClass name :: (heritageWords rest).flatMap (useOf line code))
    else none
  | _ => none

/-- A member of a class. -/
inductive Member where
  | method (m : MethodSignature)
  | field (f : FieldSignature)

def addMember (c : ClassSignature) : Member → ClassSignature
  | .method m => { c with methods := c.methods ++ [m] }
  | .field f => { c with fields := c.fields ++ [f] }

/-- The flags of a member. Without another visibility it is public. -/
def memberFlags (ws : List Word) : Nat :=
  let flags := Modifier.flags ((ws.takeWhile isModifier).map Word.text)
  if flags &&& (Modifier.isPrivate.bit ||| Modifier.isProtected.bit) = 0 then
    flags ||| Modifier.isPublic.bit
  else flags

/-- The type of a parameter; a single word is a name without a type. -/
def parameterType? : List Word → Option String
  | [] => none
  | [_] => some "def"
  | type :: _ => some type.text

def parameterUse (line : Nat) (code : List Char) : List Word → List Finding
  | type :: _ :: _ => useOf line code type
  | _ => []

/-- The member that a line declares, and what is found on the line. -/
def member? (line : Nat) (code : List Char) (ws : List Word) : Option (Member × List Finding) :=
  match ws.dropWhile isModifier with
  | type :: name :: _ =>
    if type.text = "new" ∨ name.text = "new" then none
    else match parameters? code with
      | none =>
        some (.field ⟨name.text, type.text, memberFlags ws⟩,
          useOf line code type ++ [symbolOf line code .field name])
      | some pieces =>
        let parameters := pieces.map fun (offset, piece) => wordsAt offset piece
        some (.method ⟨name.text, parameters.filterMap parameterType?, type.text, memberFlags ws⟩,
          useOf line code type ++ parameters.flatMap (parameterUse line code) ++
            [symbolOf line code .method name])
  | _ => none

/-- The mentions in a line of a body. -/
def mentions (line : Nat) (code : List Char) (ws : List Word) : List Finding :=
  (ws.filter Word.startsWithLetter).map (symbolOf line code .reference)

/-- The uses of classes behind `new`. -/
def creations (line : Nat) (code : List Char) : List Word → List Finding
  | w :: type :: rest =>
    (if w.text = "new" then useOf line code type else []) ++ creations line code (type :: rest)
  | _ => []

/-! ### Files -/

/-- What is known behind some lines of a file. -/
structure Reading where
  line : Nat := 0
  depth : Nat := 0
  /-- The classes so far with their members as declared, the last one first. -/
  classes : List ClassSignature := []
  findings : List Finding := []
  errors : List Diagnostic := []

/-- The declarations of one line, by the depth at which it starts. -/
def readDeclarations (r : Reading) (code : List Char) (ws : List Word) :
    List ClassSignature × List Finding :=
  match r.depth with
  | 0 =>
    match classHeader? r.line code ws with
    | some (c, findings) => (c :: r.classes, findings)
    | none => (r.classes, [])
  | 1 =>
    match r.classes with
    | [] => ([], [])
    | c :: rest =>
      match member? r.line code ws with
      | some (m, findings) => (addMember c m :: rest, findings)
      | none => (c :: rest, [])
  | _ => (r.classes, mentions r.line code ws)

def readLine (r : Reading) (raw : List Char) : Reading :=
  let code := codeOf raw
  let ws := wordsAt 0 code
  let (classes, findings) := readDeclarations r code ws
  let (depth, errors) := scanBraces r.line code 0 r.depth code
  { line := r.line + 1
    depth
    classes
    findings := r.findings ++ findings ++ creations r.line code ws
    errors := r.errors ++ errors }

def readFile (text : String) : Reading := (sourceLines text.toList).foldl readLine {}

/-- A parsed file: its tree, and the uses of classes that it does not declare itself. -/
structure Parsed where
  tree : FileSyntax
  typeUses : List (String × Range)

def finish (c : ClassSignature) : ClassSignature :=
  .capture c.name c.superclass c.interfaces c.methods c.fields

def Reading.toParsed (r : Reading) : Parsed :=
  let classes := r.classes.reverse.map finish
  let uses := r.findings.filterMap Finding.use?
  { tree :=
      { classes
        references := .ofList (uses.map Prod.fst)
        symbols := r.findings.map Finding.toSymbol }
    typeUses := uses.filter fun (name, _) => !classes.any fun c => c.name == name }

/-- All errors of a reading: closing braces that nothing opened, then those that nothing
closed. -/
def Reading.allErrors (r : Reading) : List Diagnostic :=
  r.errors ++ (if r.depth = 0 then [] else [missingBrace (r.line - 1)])

def parse (text : String) : Except (List Diagnostic) Parsed :=
  let r := readFile text
  if r.allErrors.isEmpty then .ok r.toParsed else .error r.allErrors

end Workbench.Toy
