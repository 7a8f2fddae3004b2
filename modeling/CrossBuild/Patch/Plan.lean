import CrossBuild.Patch.Basic
import CrossBuild.Profile

/-!
# The patch plan

The patches that make native modules known to the script engine and give it a process starter on
Windows. Every module is declared in all three files; the interpreter also sets it up, and the
precompiler lists it for embedding.
-/

namespace CrossBuild.Patch

/-- The declaration of a module's setup function. -/
def declarationText (name : String) : String :=
  s!"JSModuleDef *js_init_module_{name}(JSContext *ctx, const char *module_name);"

/-- The call of a module's setup function. -/
def setupText (name : String) : String :=
  s!"js_init_module_{name}(ctx, \"{name}\");"

/-- The listing of a module for embedding. -/
def listingText (name : String) : String :=
  s!"namelist_add(&cmodule_list, \"{name}\", \"{name}\", 0);"

def declaration (name : String) : Patch where
  marker := declarationText name
  insertion := "\n\n" ++ declarationText name
  anchor := some Anchor.libraryHeader
  description := s!"declare js_init_module_{name}"

def setup (name : String) : Patch where
  marker := setupText name
  insertion := "\n    " ++ setupText name
  anchor := some Anchor.osSetup
  description := s!"register module {name}"

def listing (name : String) : Patch where
  marker := listingText name
  insertion := "\n    " ++ listingText name
  anchor := some Anchor.osListing
  description := s!"embed module {name}"

/-- Makes the process functions of Windows known to the library. -/
def processHeader : Patch where
  marker := "#include <process.h>"
  insertion := "#if defined(_WIN32)\n#include <process.h>\n#endif\n"
  position := .front
  description := "win32 process.h guard"

/-- The name of the process starter for Windows. -/
def starterName : String := "js_os_exec_win32"

/-- The table entry of the process starter for Windows. -/
def starterEntry : String := "    JS_CFUNC_DEF(\"exec\", 1, " ++ starterName ++ " ),"

/-- Inserts the text of the process starter. -/
def starterText (text : String) : Patch where
  marker := starterName ++ "("
  insertion := text ++ "\n"
  anchor := some Anchor.workerClass
  position := .before
  description := "win32 exec implementation"

/-- Makes the function table choose the process starter on Windows. -/
def starterTable : Patch where
  marker := starterEntry
  insertion :=
    "#if defined(_WIN32)\n" ++ starterEntry ++ "\n#else\n" ++ Anchor.execEntry ++ "\n#endif"
  anchor := some Anchor.execEntry
  position := .replace
  required := false
  description := "os.exec function table entry"

/-- The patches of a file for some modules and maybe a process starter, in the order in which they
are applied. -/
def plan (modules : List String) (starter : Option String) : EngineFile → List Patch
  | .library =>
    processHeader :: modules.map declaration ++
      (match starter with
       | some text => [starterText text, starterTable]
       | none => [])
  | .interpreter => modules.flatMap fun name => [declaration name, setup name]
  | .precompiler => modules.flatMap fun name => [declaration name, listing name]

end CrossBuild.Patch
