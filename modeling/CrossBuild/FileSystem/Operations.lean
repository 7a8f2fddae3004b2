import CrossBuild.FileSystem.Walk
import CrossBuild.Task
import CrossBuild.Text.Newline

/-!
# File operations

Looking at paths, and the operations that create, copy and remove what stands there. An operation
that fails names the path it was given.
-/

namespace CrossBuild.FileSystem

/-- Whether a path cannot be handed to the system because it holds a null character. -/
def hasNul (p : Path) : Bool :=
  p.toString.toList.contains '\x00'

def faultAt (e : Errno) (p : Path) : Failure :=
  .file (.fault e p.toString)

/-! ## Looking -/

/-- The location a path leads to. -/
def place (fs : FileSystem) (follow : Bool) (p : Path) : Except Failure Location :=
  if hasNul p then .error .nulInPath
  else
    match fs.locate follow p with
    | .ok l => .ok l
    | .error e => .error (faultAt e p)

/-- What stands at a path, and where. -/
def lookup (fs : FileSystem) (follow : Bool) (p : Path) : Except Failure (Location × Node) :=
  match fs.place follow p with
  | .error f => .error f
  | .ok l =>
    match fs.node? l with
    | some node => .ok (l, node)
    | none => .error (faultAt .noEntry p)

/-- Whether a failed look means that nothing is there. -/
def meansAbsent : Failure → Bool
  | .nulInPath => true
  | .file (.fault e _) => e == .noEntry || e == .notDirectory || e == .linkLoop
  | _ => false

/-- Whether something with the property stands at a path. -/
def test (fs : FileSystem) (follow : Bool) (property : Node → Bool) (p : Path) :
    Except Failure Bool :=
  match fs.lookup follow p with
  | .ok (_, node) => .ok (property node)
  | .error f => if meansAbsent f then .ok false else .error f

def isFile (fs : FileSystem) (p : Path) : Except Failure Bool :=
  fs.test true (fun node => node matches .file ..) p

def isDirectory (fs : FileSystem) (p : Path) : Except Failure Bool :=
  fs.test true (fun node => node matches .directory) p

def isPresent (fs : FileSystem) (p : Path) : Except Failure Bool :=
  fs.test true (fun _ => true) p

/-- Whether a link stands at a path, wherever it leads. -/
def isLink (fs : FileSystem) (p : Path) : Except Failure Bool :=
  fs.test false (fun node => node matches .link ..) p

/-- The content of the file at a path. -/
def content (fs : FileSystem) (p : Path) : Except Failure Bytes :=
  match fs.lookup true p with
  | .ok (_, .file content _) => .ok content
  | .ok (_, _) => .error (faultAt .isDirectory p)
  | .error f => .error f

/-- The text of the file at a path, with line ends as line feeds. -/
def text (fs : FileSystem) (p : Path) : Except Failure String :=
  match fs.content p with
  | .error f => .error f
  | .ok content =>
    match Utf8.decode content with
    | .ok cs => .ok (String.ofList (Text.unifyNewlines cs))
    | .error u => .error (.undecodable u)

/-- The names in the directory at a path, in order. -/
def names (fs : FileSystem) (p : Path) : Except Failure (List String) :=
  match fs.lookup true p with
  | .ok (l, .directory) => .ok (fs.childNames l)
  | .ok (_, _) => .error (faultAt .notDirectory p)
  | .error f => .error f

/-! ## Changing -/

/-- Changes the file system by a function that may refuse. -/
def change (f : FileSystem → Except Failure FileSystem) : Task FileSystem Unit :=
  fun fs =>
    match f fs with
    | .ok fs => (.ok (), fs)
    | .error e => (.error e, fs)

/-- Creates the file at a path or replaces its content. -/
def write (p : Path) (content : Bytes) : Task FileSystem Unit :=
  change fun fs =>
    match fs.place true p with
    | .error f => .error f
    | .ok l =>
      match fs.node? l with
      | some (.file _ executable) => .ok (fs.put l (.file content executable))
      | none => .ok (fs.put l (.file content false))
      | some _ => .error (faultAt .isDirectory p)

def writeText (p : Path) (text : String) : Task FileSystem Unit :=
  write p (.ofString text)

/-- Creates a directory where nothing stands. -/
def makeDirectory (p : Path) : Task FileSystem Unit :=
  change fun fs =>
    match fs.place false p with
    | .error f => .error f
    | .ok l =>
      match fs.node? l with
      | none => .ok (fs.put l .directory)
      | some _ => .error (faultAt .exists p)

/-- Succeeds after a failed creation if a directory is there all the same. -/
def unlessDirectory (p : Path) (f : Failure) : Task FileSystem Unit := do
  if ← Task.ask fun fs => fs.isDirectory p then return () else throw f

/-- Whether a failure says that a path has no parent directory. -/
def isNoEntry : Failure → Bool
  | .file (.fault .noEntry _) => true
  | _ => false

/-- Whether a failure comes from the system and not from the path's text. -/
def isFileError : Failure → Bool
  | .file _ => true
  | _ => false

/-- Creates a directory whose parent is there, unless it is a directory already. -/
def ensureDirectory (p : Path) : Task FileSystem Unit := do
  match ← Task.attempt (makeDirectory p) with
  | .ok () => return ()
  | .error f => if isFileError f then unlessDirectory p f else throw f

/-- Creates a directory and the parents it lacks. A directory that is there is left alone. -/
def makeDirectories (p : Path) : Task FileSystem Unit := do
  match ← Task.attempt (makeDirectory p) with
  | .ok () => return ()
  | .error f =>
    if isNoEntry f then
      if _h : p.parts = [] then throw f
      else
        makeDirectories p.parent
        ensureDirectory p
    else if isFileError f then unlessDirectory p f
    else throw f
termination_by p.parts.length
decreasing_by
  simp only [Path.parent, List.length_dropLast]
  have := List.length_pos_iff.2 _h
  omega

/-- Removes the file or link at a path. -/
def unlink (p : Path) : Task FileSystem Unit :=
  change fun fs =>
    match fs.lookup false p with
    | .error f => .error f
    | .ok (_, .directory) => .error (faultAt .isDirectory p)
    | .ok (l, _) => .ok (fs.remove l)

/-- Removes the file or link at a path, if there is one. -/
def unlinkIfPresent (p : Path) : Task FileSystem Unit := do
  match ← Task.attempt (unlink p) with
  | .ok () => return ()
  | .error f => if isNoEntry f then return () else throw f

/-- The fault of removing a directory by a path whose last part is not its name. -/
def removalFault? (p : Path) : Option Errno :=
  match p.parts.getLast? with
  | none => some (if p.isAbsolute then .busy else .invalid)
  | some ".." => some .notEmpty
  | some _ => none

/-- Removes a directory with all that it holds. A link is refused, and what is no directory too. A
directory that cannot be removed by this path is emptied first. -/
def removeTree (p : Path) : Task FileSystem Unit := fun fs =>
  match fs.lookup false p with
  | .error f => (.error f, fs)
  | .ok (_, .link _) =>
    match fs.lookup true p with
    | .error f => (.error f, fs)
    | .ok _ => (.error (.file .treeAtLink), fs)
  | .ok (_, .file ..) => (.error (.file (.treeAtFile p)), fs)
  | .ok (l, .directory) =>
    match removalFault? p with
    | none => (.ok (), fs.removeBelow l)
    | some e =>
      let emptied := { fs with nodes := fs.nodes.filter fun entry =>
        !(l.isPrefixOf entry.1 && entry.1 != l) }
      (.error (faultAt e p), emptied)

/-- Whether two paths lead to the same thing. -/
def isSame (fs : FileSystem) (p q : Path) : Except Failure Bool :=
  match fs.lookup true p, fs.lookup true q with
  | .ok (l, _), .ok (m, _) => .ok (l == m)
  | .error .nulInPath, _ | _, .error .nulInPath => .error .nulInPath
  | _, _ => .ok false

/-- Writes the content of one file to another path. -/
def copyFile (source target : Path) : Task FileSystem Unit := do
  if ← Task.ask fun fs => fs.isSame source target then
    throw (.file (.sameFile source target))
  let content ← Task.ask fun fs => fs.content source
  write target content

/-- Gives what stands at a path another path, where nothing stands. -/
def move (source target : Path) : Task FileSystem Unit :=
  change fun fs =>
    match fs.lookup false source, fs.place false target with
    | .error f, _ | _, .error f => .error f
    | .ok (l, _), .ok m => .ok (fs.moveBelow l m)

/-- Lets the file at a path be run. -/
def setExecutable (p : Path) : Task FileSystem Unit :=
  change fun fs =>
    match fs.lookup true p with
    | .error f => .error f
    | .ok (l, .file content _) => .ok (fs.put l (.file content true))
    | .ok _ => .ok fs

end CrossBuild.FileSystem
