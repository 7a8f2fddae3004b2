/-!
# The build profile

The compiler flags and the source files of the script engine that every target of a run shares,
and the places in those sources where patches go.
-/

namespace CrossBuild

/-- The source files of the engine that are patched for the time of a run. -/
inductive EngineFile
  | library
  | interpreter
  | precompiler
  deriving DecidableEq, Repr

namespace EngineFile

def name : EngineFile → String
  | .library => "quickjs-libc.c"
  | .interpreter => "qjs.c"
  | .precompiler => "qjsc.c"

/-- The patched files, in the order in which they are patched. -/
def all : List EngineFile := [.library, .interpreter, .precompiler]

end EngineFile

namespace Anchor

/-- Where declarations go, in every file. -/
def libraryHeader : String := "#include \"quickjs-libc.h\""

/-- What the process starter goes before. -/
def workerClass : String := "static JSClassDef js_worker_class = \x7b"

/-- The table entry of the function that starts a process. -/
def execEntry : String := "    JS_CFUNC_DEF(\"exec\", 1, js_os_exec ),"

/-- The call after which native modules are set up. -/
def osSetup : String := "js_init_module_os(ctx, \"os\");"

/-- The call after which native modules are listed for embedding. -/
def osListing : String := "namelist_add(&cmodule_list, \"os\", \"os\", 0);"

end Anchor

structure Profile where
  id : String
  /-- The version of the engine, as it reports it. -/
  engineVersion : String
  sources : List String
  commonFlags : List String
  stripSymbols : Bool
  plainLevel : List String
  optimizedLevel : List String
  optimizedDarwinLinker : List String
  /-- What the precompiler leaves out of optimized applications. -/
  featureFlags : List String
  deriving DecidableEq, Repr

namespace Profile

/-- The profile for a version of the engine. -/
def standard (engineVersion : String) : Profile where
  id := "quickjs-zig-cc"
  engineVersion := engineVersion
  sources := ["quickjs.c", "libregexp.c", "libunicode.c", "cutils.c", EngineFile.library.name,
    "dtoa.c"]
  commonFlags := ["-Wno-ignored-attributes"]
  stripSymbols := true
  plainLevel := ["-O2"]
  optimizedLevel := ["-O3", "-flto"]
  optimizedDarwinLinker := ["-fuse-ld=lld"]
  featureFlags := ["-fno-eval", "-fno-regexp", "-fno-proxy", "-fno-map", "-fno-typedarray",
    "-fno-promise"]

/-- The version of the engine that is meant when none is named. -/
def defaultVersion : String := "2024-01-13"

/-- The optimization flags of a target. -/
def levelFlags (p : Profile) (optimized darwin : Bool) : List String :=
  if optimized then p.optimizedLevel ++ (if darwin then p.optimizedDarwinLinker else [])
  else p.plainLevel

/-- The flags of the precompiler. -/
def precompilerFlags (p : Profile) (optimized : Bool) : List String :=
  if optimized then p.featureFlags else []

end Profile

/-- A stand-in for the interpreter's built-in console, which is left out. -/
def consoleStub : String :=
  "const unsigned char qjsc_repl[] = \x7b0\x7d; const unsigned int qjsc_repl_size = 0;\n"

end CrossBuild
