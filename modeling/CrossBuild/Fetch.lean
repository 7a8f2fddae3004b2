import CrossBuild.Archive.Extract
import CrossBuild.Settings
import CrossBuild.Text.Lowercase
import CrossBuild.Workspace

/-!
# Fetching dependencies

Downloading and unpacking the compiler and the sources of the script engine. What is there already
is left alone, and what fails before anything was unpacked leaves nothing behind.
-/

namespace CrossBuild.Fetch

open Workspace FileSystem

/-! ## The compiler's release for a machine -/

/-- The word for a system in the names of releases. -/
def systemWord? : String → Option String
  | "windows" => some "windows"
  | "darwin" => some "macos"
  | "linux" => some "linux"
  | _ => none

/-- The word for a machine in the names of releases. -/
def machineWord? : String → Option String
  | "x86_64" | "amd64" => some "x86_64"
  | "arm64" | "aarch64" => some "aarch64"
  | _ => none

/-- The release for a machine. An empty word stands for the machine that asks. -/
def release (around : Surroundings) (system machine : Option String) : Except Failure String :=
  let pick (given : Option String) (own : String) : String :=
    Text.lower ((Settings.given? given).getD own)
  let system := pick system around.system
  let machine := pick machine around.machine
  match systemWord? system, machineWord? machine with
  | some s, some m => .ok (m ++ "-" ++ s)
  | _, _ => .error (.fetch (.unsupportedPlatform system machine))

/-! ## Downloading -/

/-- How many seconds a download may take. -/
def defaultTimeout : Int := 60

/-- Why a reply is not the file that was asked for. -/
def refusal? : Reply → Option String
  | .refused reason => some reason
  | .answered status _ _ => if 400 ≤ status then some s!"{status} error" else none

/-- Writes the body of a reply to a file; tells why it is incomplete. -/
def receive (target : Path) : Reply → Task FileSystem (Option String)
  | .refused _ => return none
  | .answered _ chunks broken => do
    write target chunks.flatten
    return broken

/-- Removes what is left of a download, and reports why it failed. -/
def abandon (url : String) (target : Path) (reason : String) : Task Workspace Unit := do
  if ← look (·.isPresent target) then unlink target
  throw (.fetch (.download url reason))

/-- Downloads a file. A download that fails leaves no file. -/
def download (server : Server) (url : String) (target : Path) (timeout : Int) :
    Task Workspace Unit := do
  info s!"Downloading {url}"
  let reply ← send server ⟨url, timeout⟩
  match refusal? reply with
  | some reason => abandon url target reason
  | none =>
    match ← Task.attempt (onFiles (receive target reply)) with
    | .ok none => return ()
    | .ok (some reason) => abandon url target reason
    | .error (.file e) => abandon url target e.message
    | .error f => throw f

/-! ## Unpacking -/

/-- Unpacks an archive into a directory, which is created if it is missing. -/
def extract (archive target : Path) : Task FileSystem Unit := do
  makeDirectories target
  let unpack : Task FileSystem (Option String) := do
    let bytes ← Task.ask fun fs => fs.content archive
    if Zip.isArchive bytes then
      return (← Zip.extract bytes target).map Zip.Fault.message
    else throw (.fetch (.unknownArchive archive))
  match ← Task.attempt unpack with
  | .ok none => return ()
  | .ok (some reason) => throw (.fetch (.extract archive reason))
  | .error (.file e) => throw (.fetch (.extract archive e.message))
  | .error f => throw f

/-- The directory that wraps the whole content of a directory, or the directory itself. -/
def singleRoot (fs : FileSystem) (p : Path) : Except Failure Path := do
  match ← fs.names p with
  | [name] =>
    let inner : Path := ⟨p.anchor, p.parts ++ [name]⟩
    if ← fs.isDirectory inner then return inner else return p
  | _ => return p

/-- Moves what a directory holds into an empty one, and removes the first. -/
def pour (source target : Path) : Task FileSystem Unit :=
  change fun fs => do
    let l ← fs.place true source
    let m ← fs.place true target
    return (fs.remove m).moveBelow l m

/-- Moves something to a path where nothing stands. A directory for which that fails is poured into
a new one, with the parents that the path lacks. -/
def relocate (item target : Path) : Task FileSystem Unit := do
  match ← Task.attempt (move item target) with
  | .ok () => return ()
  | .error f =>
    if ← Task.ask fun fs => .ok ((fs.isDirectory item).toOption.getD false) then
      Zip.makeMissing target
      pour item target
    else throw f

/-- Moves something into a directory, in place of what has its name there. -/
def replaceWith (item target : Path) : Task FileSystem Unit := do
  let directory ← Task.ask fun fs => fs.isDirectory target
  let link ← Task.ask fun fs => fs.isLink target
  if directory && !link then removeTree target
  else if link || (← Task.ask fun fs => fs.isPresent target) then unlink target
  relocate item target

/-- Moves the content of an unpacked archive, without its wrapping directory, into a directory. -/
def merge (unpacked target : Path) : Task FileSystem Unit := do
  makeDirectories target
  let root ← Task.ask fun fs => singleRoot fs unpacked
  for name in ← Task.ask fun fs => fs.names root do
    replaceWith ⟨root.anchor, root.parts ++ [name]⟩ (target / name)

/-- Removes a directory with all that it holds, if something is there. -/
def discard (temporary : Path) : Task FileSystem Unit := do
  match ← Task.attempt (removeTree temporary) with
  | .ok () => return ()
  | .error f => if isNoEntry f then return () else throw f

/-- Downloads an archive, unpacks it, and merges its content into a directory. Everything before
the merging happens in the directory `temporary`, which is removed in any case. -/
def install (server : Server) (temporary : Path) (url : String) (target : Path) (suffix : String) :
    Task Workspace Unit := do
  makeDirectory temporary
  let work : Task Workspace Unit := do
    let archive := temporary / ("archive" ++ suffix)
    download server url archive defaultTimeout
    let unpacked := temporary / "unpacked"
    onFiles (extract archive unpacked)
    match ← Task.attempt (onFiles (merge unpacked target)) with
    | .ok () => return ()
    | .error (.file e) => throw (.fetch (.install target e))
    | .error f => throw f
  Task.thenAlways work (onFiles (discard temporary))

/-! ## The dependencies -/

def engineUrl : String :=
  "https://github.com/bellard/quickjs/archive/refs/heads/master.tar.gz"

/-- The archive of a release of the compiler. -/
def compilerUrl (version release extension : String) : String :=
  s!"https://ziglang.org/download/{version}/zig-{release}-{version}.{extension}"

/-- Installs the sources of the script engine unless they are there. Gives their directory. -/
def engine (server : Server) (around : Surroundings) (temporary : Path) (s : Settings) :
    Task Workspace Path := do
  let target ← Task.ofExcept (s.enginePath around)
  if ← look (·.isDirectory target) then
    info "QuickJS source already downloaded."
  else
    install server temporary engineUrl target ".tar.gz"
    info s!"QuickJS sources installed in {target}"
  return target

/-- Installs the compiler unless it is there. Gives its path. -/
def compiler (server : Server) (around : Surroundings) (temporary : Path) (s : Settings) :
    Task Workspace Path := do
  let target ← Task.ofExcept (s.compilerPath around)
  if ← look (·.isPresent target) then
    info s!"Zig {s.compilerVersion} already installed."
  else
    let release ← Task.ofExcept (release around none none)
    let extension := if release.endsWith "windows" then "zip" else "tar.xz"
    install server temporary (compilerUrl s.compilerVersion release extension) target.parent
      ("." ++ extension)
    if !(← look (·.isPresent target)) then throw (.fetch (.compilerMissing target))
    setExecutable target
    info s!"Zig {s.compilerVersion} installed successfully at {target}"
  return target

/-- Installs everything. -/
def all (server : Server) (around : Surroundings) (temporary : Path) (s : Settings) :
    Task Workspace Unit := do
  info "=== FETCHING DEPENDENCIES ==="
  let _ ← engine server around temporary s
  let _ ← compiler server around temporary s

end CrossBuild.Fetch
