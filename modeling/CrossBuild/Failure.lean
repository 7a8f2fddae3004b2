import CrossBuild.FileSystem.Error
import CrossBuild.Text.Utf8
import CrossBuild.Validation

/-!
# Failures

Everything that ends an operation early, as causes, and the text that a user reads.
-/

namespace CrossBuild

/-- Why a project's manifest is refused. -/
inductive ManifestFault
  | missing (root : Path)
  | unreadable (path : Path) (reason : String)
  | notAnObject (path : Path)
  | invalid (path : Path) (report : Report)
  deriving DecidableEq, Repr

/-- Why a source file is not patched. -/
inductive PatchFault
  | anchorMissing (patch : String) (anchor : Option String)
  | unreadable (path : Path) (reason : FileError)
  | unwritable (path : Path) (reason : FileError)
  deriving DecidableEq, Repr

/-- Why no target can be built at all. -/
inductive SetupFault
  | compilerMissing (path : Path)
  | engineMissing (path : Path)
  | moduleMissing (name : String) (path : Path)
  | hostToolMissing (path : Path)
  | hostToolFailed (phase target tail : String)
  deriving DecidableEq, Repr

/-- Why a dependency is not installed. -/
inductive FetchFault
  | unsupportedPlatform (system machine : String)
  | download (url reason : String)
  | unknownArchive (archive : Path)
  | extract (archive : Path) (reason : String)
  | install (target : Path) (reason : FileError)
  | compilerMissing (path : Path)
  deriving DecidableEq, Repr

inductive Failure
  | file (e : FileError)
  | undecodable (u : Utf8.Undecodable)
  | nulInPath
  | linkLoop (path : String)
  | noHome
  | emptyName (path : Path)
  | unknownFamily (word : String)
  | unknownTarget (id : String)
  | unsupportedHost (system machine : String)
  | assetWithoutSource (name : String)
  | longInteger (message : String)
  | invalid (report : Report)
  | manifest (f : ManifestFault)
  | patch (f : PatchFault)
  | setup (f : SetupFault)
  | fetch (f : FetchFault)
  | crash (text : String)
  /-- An option's value was taken away from the command line. -/
  | lostValue
  deriving DecidableEq, Repr

def ManifestFault.message : ManifestFault → String
  | .missing root => s!"package.json not found in {root}"
  | .unreadable path reason => s!"Cannot read {path}: {reason}"
  | .notAnObject path => s!"{path} must hold a JSON object"
  | .invalid path report => s!"Invalid manifest {path}: " ++ report.message

def PatchFault.message : PatchFault → String
  | .anchorMissing patch anchor =>
    s!"Anchor not found for patch '{patch}': " ++ (anchor.map Text.quoted).getD "None"
  | .unreadable path reason => s!"Cannot read {path}: " ++ reason.message
  | .unwritable path reason => s!"Cannot write {path}: " ++ reason.message

def SetupFault.message : SetupFault → String
  | .compilerMissing path => s!"zig not found at {path}; run `qjs-builder fetch` first"
  | .engineMissing path => s!"QuickJS sources not found at {path}"
  | .moduleMissing name path => s!"Native source for module '{name}' not found: {path}"
  | .hostToolMissing path => s!"HOST_PRECOMPILER not found: {path}"
  | .hostToolFailed phase target tail => s!"Host {phase} build failed for {target}: {tail}"

def FetchFault.message : FetchFault → String
  | .unsupportedPlatform system machine => s!"Unsupported platform/arch: {system} {machine}"
  | .download url reason => s!"Failed to download {url}: {reason}"
  | .unknownArchive archive => s!"Unsupported archive type: {archive}"
  | .extract archive reason => s!"Failed to extract {archive}: {reason}"
  | .install target reason => s!"Failed to install into {target}: " ++ reason.message
  | .compilerMissing path => s!"zig executable missing after install: {path}"

/-- What a user reads. -/
def Failure.message : Failure → String
  | .file e => e.message
  | .undecodable u => u.message
  | .nulInPath => "embedded null byte"
  | .linkLoop path => "Symlink loop from " ++ Text.quoted path
  | .noHome => "Could not determine home directory."
  | .emptyName path => path.quoted ++ " has an empty name"
  | .unknownFamily word => Text.quoted word ++ " is not a valid OsFamily"
  | .unknownTarget id => s!"Unknown target: {id}"
  | .unsupportedHost system machine => s!"Unsupported host platform: {system} {machine}"
  | .assetWithoutSource name => s!"Asset without source path: {name}"
  | .longInteger message => message
  | .invalid report => report.message
  | .manifest f => f.message
  | .patch f => f.message
  | .setup f => f.message
  | .fetch f => f.message
  | .crash text => text
  | .lostValue => "not enough values to unpack (expected 1, got 0)"

end CrossBuild
