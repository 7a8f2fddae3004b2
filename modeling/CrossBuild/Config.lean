import CrossBuild.Manifest
import CrossBuild.Settings
import CrossBuild.Target

/-!
# Build configurations

Everything that one run needs, worked out before it starts.
-/

namespace CrossBuild

structure Config where
  root : Path
  application : String
  /-- The entry script. -/
  entry : Path
  optimized : Bool
  modules : List Module
  compiler : Path
  engine : Path
  /-- Where the text of the process starter is. -/
  starter : Option Path
  host : Target
  /-- A precompiler to use on this machine instead of building one. -/
  hostPrecompiler : Option Path
  targets : List Target
  profile : Profile
  /-- How many seconds a tool may run. -/
  timeout : Int
  /-- How many targets are built at the same time. -/
  jobs : Nat
  deriving DecidableEq, Repr

namespace Config

def buildDirectory (c : Config) : Path := c.root / "build"

def toolsDirectory (c : Config) : Path := c.root / "bin"

def distDirectory (c : Config) : Path := c.root / "dist"

def entryDirectory (c : Config) : Path := c.entry.parent

/-- The directories that never enter a build tree. -/
def excluded (c : Config) : List Path :=
  [c.buildDirectory, c.toolsDirectory, c.distDirectory, c.root / "node_modules"]

/-- Where the build tree of a target goes. -/
def buildTree (c : Config) (t : Target) : Path := c.buildDirectory / t.id

/-- Where a patched source file is. -/
def engineFile (c : Config) (f : EngineFile) : Path := c.engine / f.name

/-- Works the configuration out. The host is the given machine, or the one that runs the build. -/
def create (around : Surroundings) (fs : FileSystem) (root : Path) (m : Manifest) (s : Settings)
    (targetIds : List String) (system machine : Option String) : Except Failure Config := do
  let root ← fs.resolve root
  let host ← Target.host (system.getD around.system) (machine.getD around.machine)
  let entry ← fs.resolve (root / m.input)
  let modules ← m.registrations fs root
  let compiler ← s.compilerPath around
  let engine ← s.enginePath around
  let targets ← Target.select targetIds
  return {
    root, entry, host, modules, compiler, engine, targets
    application := m.name
    optimized := m.optimized
    starter := (Settings.given? s.starter).map .ofString
    hostPrecompiler := (Settings.given? s.hostPrecompiler).map .ofString
    profile := .standard s.engineVersion
    timeout := s.timeout
    jobs := (max 1 s.jobs).toNat }

end Config

end CrossBuild
