import Workbench.Disk.Basic

/-!
Operations that change a disk. Each either refuses and leaves the disk as it is, or makes exactly
the entries it names.
-/

namespace Workbench.Disk

def put (d : Disk) (place : Place) (node : Node) : Disk :=
  { d with nodes := d.nodes.insert place node }

def drop (d : Disk) (place : Place) : Disk :=
  { d with nodes := d.nodes.erase place }

/-- The modification time of files that the program itself writes; no answer shows it. -/
def writeTime : Int := 0

/-- The directory and the name of the entry that a path names, without following a link there.
The path has to end in a name. -/
def entry (d : Disk) (p : Path) : Except DiskError (Place × String) :=
  match p.steps.getLast? with
  | some (.into name) =>
    match d.follow p (p.steps.dropLast ++ [.stay]) with
    | .error e => .error e
    | .ok (.found dir) =>
      if maxNameBytes < name.utf8ByteSize then .error .nameTooLong else .ok (dir, name)
    | .ok _ => .error .notFound
  | some .stay => .error .notDirectory
  | _ => .error .busy

/-- Makes the directories along the rest of a way whose steps `done` lead from `start` to `place`.
A link is looked up with all of the way before it. What was made before a refusal stays. -/
def makeAlong (d : Disk) (start : Place) (done : List Step) (place : Place) :
    List Step → Disk × Option DiskError
  | [] => (d, none)
  | .stay :: rest => makeAlong d start (done ++ [.stay]) place rest
  | .up :: rest => makeAlong d start (done ++ [.up]) place.dropLast rest
  | .into name :: rest =>
    if maxNameBytes < name.utf8ByteSize then (d, some .nameTooLong)
    else match d.node? (place ++ [name]) with
      | none =>
        makeAlong (d.put (place ++ [name]) .dir) start (done ++ [.into name]) (place ++ [name]) rest
      | some .dir => makeAlong d start (done ++ [.into name]) (place ++ [name]) rest
      | some _ =>
        match d.chase maxLinks start (done ++ [.into name] ++ [.stay]) with
        | .ok (.found next) => makeAlong d start (done ++ [.into name]) next rest
        | _ => (d, some .alreadyExists)

/-- Makes the directories along a path from where it begins. -/
def makeFrom (d : Disk) (p : Path) : Disk × Option DiskError :=
  if p.isAbsolute then d.makeAlong [] [] [] p.steps
  else match leave d.removed p.steps with
    | .ok (some steps) => d.makeAlong d.cwd [] d.cwd steps
    | .ok none => (d, none)
    | .error e => (d, some e)

/-- Makes a directory and all that are missing above it. Nothing is missing above the empty path,
and nothing is made if the path is refused for another reason than that something is missing. -/
def makeDirs (d : Disk) (p : Path) : Disk × Option DiskError :=
  if p.text.isEmpty || d.isDir p then (d, none)
  else match d.look p with
    | .ok (.found _) => (d, some .alreadyExists)
    | .ok .removed => (d, none)
    | .ok (.vacant _) => d.makeFrom p
    | .error .notFound => d.makeFrom p
    | .error e => (d, some e)

/-- Opens a file for writing, following links, and changes it; a missing file starts empty. -/
def modify (d : Disk) (p : Path) (change : Option (Content × Int) → Content × Int) :
    Except DiskError Disk :=
  match d.look p with
  | .error e => .error e
  | .ok .removed => .error .isDirectory
  | .ok (.vacant place) =>
    let (content, modified) := change none
    .ok (d.put place (.file content modified))
  | .ok (.found place) =>
    match d.node? place with
    | some (.file content modified) =>
      let (content, modified) := change (some (content, modified))
      .ok (d.put place (.file content modified))
    | _ => .error .isDirectory

/-- Makes sure that a file is there, and keeps what it holds. -/
def ensureFile (d : Disk) (p : Path) : Except DiskError Disk :=
  d.modify p fun file => file.getD (⟨[]⟩, writeTime)

def removeFile (d : Disk) (p : Path) : Except DiskError Disk :=
  match d.entry p with
  | .error e => .error e
  | .ok (dir, name) =>
    match d.node? (dir ++ [name]) with
    | none => .error .notFound
    | some .dir => .error .isDirectory
    | some _ => .ok (d.drop (dir ++ [name]))

/-- Removes everything at or below a place. A working directory there is removed too. -/
def prune (d : Disk) (place : Place) : Disk :=
  let nodes := d.nodes.filter fun other _ => !place.isPrefixOf other
  if place.isPrefixOf d.cwd then
    { d with
      nodes
      cwd := place.dropLast
      removed := d.removed + (d.cwd.length + 1 - place.length) }
  else { d with nodes }

/-- The place that a place at or below `source` has when `source` is moved. -/
def movedPlace (source target place : Place) : Place :=
  if source.isPrefixOf place then target ++ place.drop source.length else place

/-- Moves everything at or below one place to another, where all else is removed before. -/
def transplant (d : Disk) (source target : Place) : Disk :=
  if source = target then d
  else
    let d := d.prune target
    { d with
      nodes := .ofList (d.nodes.toList.map fun (place, node) =>
        (movedPlace source target place, node)) Place.order
      cwd := movedPlace source target d.cwd }

/-- Moves the entry at one path to another, replacing a file there. -/
def rename (d : Disk) (source target : Path) : Except DiskError Disk := do
  let (sourceDir, sourceName) ← d.entry source
  let (targetDir, targetName) ← d.entry target
  match d.node? (sourceDir ++ [sourceName]), d.node? (targetDir ++ [targetName]) with
  | none, _ => .error .notFound
  | some .dir, some .dir =>
    .ok (d.transplant (sourceDir ++ [sourceName]) (targetDir ++ [targetName]))
  | some .dir, some _ => .error .notDirectory
  | some .dir, none => .ok (d.transplant (sourceDir ++ [sourceName]) (targetDir ++ [targetName]))
  | some _, some .dir => .error .isDirectory
  | some node, _ =>
    .ok ((d.drop (sourceDir ++ [sourceName])).put (targetDir ++ [targetName]) node)

def makeLink (d : Disk) (p : Path) (target : String) : Except DiskError Disk := do
  let (dir, name) ← d.entry p
  match d.node? (dir ++ [name]) with
  | some _ => .error .alreadyExists
  | none => .ok (d.put (dir ++ [name]) (.link target))

end Workbench.Disk
