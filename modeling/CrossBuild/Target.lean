import CrossBuild.Task
import CrossBuild.Text.Lowercase

/-!
# Targets

The platforms that a project is built for: a fixed table, choosing from it, and finding the entry
of the machine that runs the build.
-/

namespace CrossBuild

/-- A family of operating systems, as script names spell it. -/
inductive OsFamily
  | win32
  | linux
  | darwin
  deriving DecidableEq, Repr

namespace OsFamily

def all : List OsFamily := [.win32, .linux, .darwin]

def word : OsFamily → String
  | .win32 => "win32"
  | .linux => "linux"
  | .darwin => "darwin"

/-- The family with the word. -/
def ofWord? (s : String) : Option OsFamily :=
  all.find? fun f => f.word == s

def ofWord (s : String) : Except Failure OsFamily :=
  match ofWord? s with
  | some f => .ok f
  | none => .error (.unknownFamily s)

@[simp] theorem ofWord?_word (f : OsFamily) : ofWord? f.word = some f := by
  cases f <;> decide

theorem word_of_ofWord? {s : String} {f : OsFamily} (h : ofWord? s = some f) : f.word = s := by
  have := List.find?_some h
  simpa using this

end OsFamily

/-- One combination of architecture and operating system. -/
structure Target where
  id : String
  family : OsFamily
  /-- The file name of the script interpreter built for the target. -/
  interpreter : String
  /-- The file name of the script compiler built for the target. -/
  precompiler : String
  /-- What an application's file name ends in. -/
  suffix : String
  linkFlags : List String
  compileFlags : List String
  deriving DecidableEq, Repr

namespace Target

def windows (id interpreter precompiler suffix : String) : Target :=
  ⟨id, .win32, interpreter, precompiler, suffix, ["-lm"], ["-D_GNU_SOURCE"]⟩

def posix (id : String) (family : OsFamily) (interpreter precompiler suffix : String) : Target :=
  ⟨id, family, interpreter, precompiler, suffix, ["-lm", "-lpthread", "-ldl"],
    ["-D_GNU_SOURCE", "-DCONFIG_PTHREAD"]⟩

def windows64 : Target :=
  windows "x86_64-windows-gnu" "qjs_win64.exe" "qjsc_win64.exe" "_win64.exe"

def windows32 : Target :=
  windows "x86-windows-gnu" "qjs_win32.exe" "qjsc_win32.exe" "_win32.exe"

def linux64 : Target :=
  posix "x86_64-linux-gnu" .linux "qjs_linux64" "qjsc_linux64" "_linux64"

def linux32 : Target :=
  posix "x86-linux-gnu" .linux "qjs_linux32" "qjsc_linux32" "_linux32"

def linuxArm : Target :=
  posix "aarch64-linux-gnu" .linux "qjs_linux_arm64" "qjsc_linux_arm64" "_linux_arm64"

def macArm : Target :=
  posix "aarch64-macos" .darwin "qjs_mac_arm" "qjsc_mac_arm" "_mac_arm"

def macIntel : Target :=
  posix "x86_64-macos" .darwin "qjs_mac_intel" "qjsc_mac_intel" "_mac_intel"

/-- The table of targets; results are reported in its order. -/
def all : List Target :=
  [windows64, windows32, linux64, linux32, linuxArm, macArm, macIntel]

theorem nodup_ids : (all.map id).Nodup := by decide

/-- The target with the id. -/
def ofId (id : String) : Except Failure Target :=
  match all.find? fun t => t.id == id with
  | some t => .ok t
  | none => .error (.unknownTarget id)

/-- The targets with the ids, in the order of the table; all of them when there are no ids. The
first unknown id is refused. -/
def select (ids : List String) : Except Failure (List Target) :=
  if ids.isEmpty then .ok all
  else
    match ids.mapM ofId with
    | .ok _ => .ok (all.filter fun t => ids.contains t.id)
    | .error f => .error f

/-- The target that the machine running the build is. -/
def host (system machine : String) : Except Failure Target :=
  let system := Text.lower system
  let machine := Text.lower machine
  let arm := machine == "arm64" || machine == "aarch64"
  match system with
  | "darwin" => .ok (if arm then macArm else macIntel)
  | "linux" => .ok (if arm then linuxArm else linux64)
  | "windows" | "win32" => .ok windows64
  | _ => .error (.unsupportedHost system machine)

/-- The architecture: what stands before the first dash of the id. -/
def architecture (t : Target) : String :=
  String.ofList (t.id.toList.takeWhile (· != '-'))

/-- The file name of an application built for the target. -/
def applicationName (t : Target) (application : String) : String :=
  application ++ t.suffix

end Target

end CrossBuild
