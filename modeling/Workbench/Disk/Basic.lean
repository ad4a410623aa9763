import Std.Data.ExtTreeMap
import Workbench.Archive.Directory
import Workbench.Path
import Workbench.Sorting

/-!
A disk as a value: directories, files and symbolic links at places, a place being the names on the
way from the root. Following a path goes step by step; each step starts in a directory, a link is
replaced by the steps of its target, and only so many links are followed in one look-up. The working
directory moves with the directories that are moved. If it is removed, nothing can be entered from
it any more, but the way up from it stays.
-/

namespace Workbench

/-- The names on the way from the root to an entry; the root is the empty way. -/
abbrev Place := List String

/-- The order of places: those nearer to the root come first, and places equally far from it are
ordered by their names. -/
def Place.order : Place → Place → Ordering := compareLex (compareOn List.length) compare

instance : Std.TransCmp Place.order := by
  unfold Place.order
  infer_instance

instance : Std.LawfulEqCmp Place.order where
  eq_of_compare {a b} h := by
    have h : (compareOn List.length a b).then (compare a b) = .eq := h
    exact Std.LawfulEqCmp.eq_of_compare (Ordering.then_eq_eq.1 h).2

/-- What a file holds. -/
structure Content where
  bytes : List UInt8
  deriving DecidableEq, Inhabited

namespace Content

def size (c : Content) : Nat := c.bytes.length

/-- The content as a text, if it is one. -/
def text? (c : Content) : Option String := Text.decode? c.bytes

def entryNames? (c : Content) : Option (List String) := Archive.names? c.bytes

def ofText (text : String) : Content := ⟨Text.encode text⟩

def ofNames (names : List String) : Content := ⟨Archive.ofNames (names.map Text.encode)⟩

def append (c : Content) (more : List UInt8) : Content := ⟨c.bytes ++ more⟩

end Content

/-- What stands at a place. -/
inductive Node where
  | dir
  /-- A file and its modification time in milliseconds since 1970. -/
  | file (content : Content) (modified : Int)
  | link (target : String)
  deriving DecidableEq, Inhabited

/-- Why the disk refuses an operation. -/
inductive DiskError where
  | notFound
  | notDirectory
  | isDirectory
  | alreadyExists
  | nameTooLong
  | tooManyLinks
  | busy
  | notText
  /-- A path holds a character that the disk takes for the end of the path. -/
  | pathCut
  | noSpace
  | inputOutput
  deriving DecidableEq, Repr

def DiskError.message : DiskError → String
  | notFound => "No such file or directory (os error 2)"
  | notDirectory => "Not a directory (os error 20)"
  | isDirectory => "Is a directory (os error 21)"
  | alreadyExists => "File exists (os error 17)"
  | nameTooLong => "File name too long (os error 36)"
  | tooManyLinks => "Too many levels of symbolic links (os error 40)"
  | busy => "Device or resource busy (os error 16)"
  | notText => "stream did not contain valid UTF-8"
  | pathCut => "file name contained an unexpected NUL byte"
  | noSpace => "No space left on device (os error 28)"
  | inputOutput => "Input/output error (os error 5)"

/-- Whether the disk itself refuses; otherwise what was asked of it or what it gave makes no
sense. -/
def DiskError.isSystem : DiskError → Bool
  | notText => false
  | pathCut => false
  | _ => true

/-- What goes wrong when the bytes of a new file are written. -/
inductive WriteFault where
  /-- There is room for so many bytes only. -/
  | full (room : Nat)
  /-- All bytes are written, but the device does not take them. -/
  | unflushed
  deriving DecidableEq, Repr

/-- Everything on the disk but the root, which is always a directory, and the working directory. -/
structure Disk where
  nodes : Std.ExtTreeMap Place Node Place.order
  /-- The working directory, or the nearest directory above it that was not removed. -/
  cwd : Place
  /-- How many directories on the way from there down to the working directory were removed. -/
  removed : Nat := 0
  fault : Option WriteFault := none

/-- One step of a look-up. -/
inductive Step where
  /-- Stay in the directory, and require that it is one. -/
  | stay
  | up
  | into (name : String)
  deriving DecidableEq, Repr

/-- The step that a piece of a path asks for. -/
def Step.ofPiece : String → Step
  | "" => stay
  | "." => stay
  | ".." => up
  | piece => into piece

/-- The steps of a path, from the root or from the directory where it is read. -/
def Path.steps (p : Path) : List Step := p.pieces.map Step.ofPiece

/-- How far a look-up gets before it meets a link. -/
inductive Progress where
  | found (place : Place)
  /-- The directory is there, and the last name is free in it. -/
  | vacant (place : Place)
  | detour (dir : Place) (target : String) (rest : List Step)

/-- Where a look-up ends. -/
inductive Landing where
  | found (place : Place)
  | vacant (place : Place)
  /-- In a directory that was removed. -/
  | removed
  deriving DecidableEq, Repr

/-- Names are limited to this many bytes. -/
def maxNameBytes : Nat := 255

/-- Paths are limited to this many bytes. -/
def maxPathBytes : Nat := 4095

/-- What is wrong with the text of a path: it is empty or holds a character that would end it. -/
def Path.flaw? (p : Path) : Option DiskError :=
  if p.text.toList.contains '\x00' then some .pathCut
  else if p.text.isEmpty then some .notFound
  else none

/-- Why a path cannot be looked up whatever is on the disk: its text is wrong or too long. -/
def Path.refusal? (p : Path) : Option DiskError :=
  match p.flaw? with
  | some e => some e
  | none => if maxPathBytes < p.text.utf8ByteSize then some .nameTooLong else none

/-- The bytes of the path from the root to a place. -/
def Place.pathBytes : Place → Nat
  | [] => 0
  | name :: rest => 1 + name.utf8ByteSize + pathBytes rest

/-- Whether the path from the root to a place is short enough. -/
def Place.fits (place : Place) : Bool := place.pathBytes ≤ maxPathBytes

/-- A look-up follows at most this many links. -/
def maxLinks : Nat := 40

namespace Disk

/-- What stands at a place. -/
def node? (d : Disk) (place : Place) : Option Node :=
  if place.isEmpty then some .dir else d.nodes[place]?

/-- Goes along steps from a place up to the first link. -/
def advance (d : Disk) : Place → List Step → Except DiskError Progress
  | place, [] => .ok (.found place)
  | place, step :: rest =>
    match d.node? place with
    | none => .error .notFound
    | some (.file _ _) => .error .notDirectory
    | some (.link _) => .error .notDirectory
    | some .dir =>
      match step with
      | .stay => advance d place rest
      | .up => advance d place.dropLast rest
      | .into name =>
        if maxNameBytes < name.utf8ByteSize then .error .nameTooLong
        else match d.node? (place ++ [name]) with
          | none => if rest.isEmpty then .ok (.vacant (place ++ [name])) else .error .notFound
          | some (.link target) => .ok (.detour place target rest)
          | some _ => advance d (place ++ [name]) rest

/-- Where the steps of a path begin when it is read in a directory. -/
def origin (dir : Place) (p : Path) : Place :=
  if p.isAbsolute then [] else dir

/-- Goes along steps from a place and follows up to `links` links. -/
def chase (d : Disk) : (links : Nat) → Place → List Step → Except DiskError Landing
  | links, place, steps =>
    match advance d place steps with
    | .error e => .error e
    | .ok (.found place) => .ok (.found place)
    | .ok (.vacant place) => .ok (.vacant place)
    | .ok (.detour dir target rest) =>
      match links with
      | 0 => .error .tooManyLinks
      | links + 1 => chase d links (origin dir ⟨target⟩) ((Path.mk target).steps ++ rest)

/-- What is left of some steps when they have come up out of removed directories, if they do.
Nothing can be entered in a removed directory. -/
def leave : (removed : Nat) → List Step → Except DiskError (Option (List Step))
  | 0, steps => .ok (some steps)
  | _ + 1, [] => .ok none
  | removed + 1, .stay :: rest => leave (removed + 1) rest
  | removed + 1, .up :: rest => leave removed rest
  | _ + 1, .into _ :: _ => .error .notFound

/-- Goes along some steps of a path, from the root or from the working directory. -/
def follow (d : Disk) (p : Path) (steps : List Step) : Except DiskError Landing :=
  match p.refusal? with
  | some e => .error e
  | none =>
    if p.isAbsolute then d.chase maxLinks [] steps
    else match leave d.removed steps with
      | .error e => .error e
      | .ok none => .ok .removed
      | .ok (some steps) => d.chase maxLinks d.cwd steps

/-- Where a path leads. -/
def look (d : Disk) (p : Path) : Except DiskError Landing := d.follow p p.steps

/-- The place of the entry that a path names, with all links followed. -/
def resolve (d : Disk) (p : Path) : Except DiskError Place :=
  match d.look p with
  | .error e => .error e
  | .ok (.found place) => .ok place
  | .ok _ => .error .notFound

/-- What a path names, with all links followed. -/
def stat (d : Disk) (p : Path) : Except DiskError Node :=
  match d.look p with
  | .error e => .error e
  | .ok .removed => .ok .dir
  | .ok (.vacant _) => .error .notFound
  | .ok (.found place) =>
    match d.node? place with
    | some node => .ok node
    | none => .error .notFound

def existsAt (d : Disk) (p : Path) : Bool :=
  match d.stat p with
  | .ok _ => true
  | .error _ => false

def isDir (d : Disk) (p : Path) : Bool :=
  match d.stat p with
  | .ok .dir => true
  | _ => false

/-- The content and the modification time of the file that a path names. -/
def file? (d : Disk) (p : Path) : Option (Content × Int) :=
  match d.stat p with
  | .ok (.file content modified) => some (content, modified)
  | _ => none

def bytes? (d : Disk) (p : Path) : Option (List UInt8) :=
  (d.file? p).map fun (content, _) => content.bytes

def isFile (d : Disk) (p : Path) : Bool := (d.file? p).isSome

def readText (d : Disk) (p : Path) : Except DiskError String := do
  match ← d.stat p with
  | .file content _ =>
    match content.text? with
    | some text => .ok text
    | none => .error .notText
  | _ => .error .isDirectory

def text? (d : Disk) (p : Path) : Option String := (d.readText p).toOption

/-! ### Walks -/

/-- An entry by its name, if it stands in the directory. -/
def childOf? (dir : Place) : Place × Node → Option (String × Node)
  | (place, node) =>
    if place.dropLast == dir then place.getLast?.map fun name => (name, node) else none

/-- The entries of a directory, in the order of their names. -/
def children (d : Disk) (dir : Place) : List (String × Node) :=
  sortBy (fun a b => compare a.1 b.1) (d.nodes.toList.filterMap (childOf? dir))

/-- The names in a directory, in order. -/
def names (d : Disk) (dir : Place) : List String := (d.children dir).map Prod.fst

/-- What a walk meets at one entry of a directory. It goes on below a directory, unless the name is
one that it does not enter; then it passes over the directory with all that is in it. Links are not
followed. -/
def walkChild (enter : String → Bool) (below : Place → List (Place × Node)) (dir : Place) :
    String × Node → List (Place × Node)
  | (name, .dir) => if enter name then (dir ++ [name], .dir) :: below (dir ++ [name]) else []
  | (name, node) => [(dir ++ [name], node)]

/-- Walks through a directory, entry after entry, down to so many levels below. -/
def walkLevels (d : Disk) (enter : String → Bool) : (levels : Nat) → Place → List (Place × Node)
  | 0, _ => []
  | levels + 1, dir => (d.children dir).flatMap (walkChild enter (walkLevels d enter levels) dir)

/-- How many names the longest way on the disk has. -/
def depth (d : Disk) : Nat := (d.nodes.keys.map List.length).max?.getD 0

/-- The entries strictly below a directory that a walk meets, in the order in which it goes. -/
def walk (d : Disk) (top : Place) (enter : String → Bool) : List (Place × Node) :=
  d.walkLevels enter d.depth top

/-! ### Normal paths

A path is first normalized lexically. Then its longest existing ancestor is replaced by the place
of that ancestor, and the remaining names are attached again, so that a file keeps its normal path
after it is deleted. -/

/-- The places that steps enter by names, up to the first link. -/
def entered (d : Disk) : Place → List Step → List Place
  | _, [] => []
  | place, .stay :: rest => entered d place rest
  | place, .up :: rest => entered d place.dropLast rest
  | place, .into name :: rest =>
    match d.node? (place ++ [name]) with
    | some (.link _) => [place ++ [name]]
    | _ => (place ++ [name]) :: entered d (place ++ [name]) rest

/-- The places that a look-up enters by names, with those of the links that it follows. -/
def way (d : Disk) : (links : Nat) → Place → List Step → List Place
  | links, place, steps =>
    entered d place steps ++
      match advance d place steps with
      | .ok (.detour dir target rest) =>
        match links with
        | 0 => []
        | links + 1 => way d links (origin dir ⟨target⟩) ((Path.mk target).steps ++ rest)
      | _ => []

/-- The place of an entry on the way from the root. Each place that is entered is spelled out from
the root, so it is not the path that must not be too long, but those of all these places. There is
no such way through a removed working directory. -/
def locate (d : Disk) (p : Path) : Except DiskError Place :=
  if d.removed ≠ 0 ∧ !p.isAbsolute then .error .notFound
  else match p.flaw? with
    | some e => .error e
    | none =>
      match d.chase maxLinks (origin d.cwd p) p.steps with
      | .error e => .error e
      | .ok (.found place) =>
        if (d.way maxLinks (origin d.cwd p) p.steps).all Place.fits then .ok place
        else .error .nameTooLong
      | .ok _ => .error .notFound

/-- Replaces the longest existing ancestor of a path by its place. The components are given last
first, and `rest` holds the names taken off so far. -/
def anchor? (d : Disk) : (reversed : List Component) → (rest : List String) → Option Path
  | reversed, rest =>
    match d.locate (Path.ofComponents reversed.reverse) with
    | .ok place => some (Path.absolute (place ++ rest))
    | .error _ =>
      match reversed with
      | .name text :: up => anchor? d up (text :: rest)
      | _ => none

/-- The normal path: the identity by which files and projects are known. -/
def normalize (d : Disk) (p : Path) : Path :=
  (d.anchor? p.normalComponents.reverse []).getD p.normal

end Disk

end Workbench
