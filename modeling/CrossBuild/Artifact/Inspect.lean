import CrossBuild.Artifact.Sha256
import CrossBuild.Receipt.Basic
import CrossBuild.Workspace

/-!
# Program files

Telling the kind of a program file by its first bytes, and whether it is the one that a target
needs. Of the three kinds only one tells its machine.
-/

namespace CrossBuild

/-- The kind of a program file. -/
inductive Format
  | elf
  | pe
  | macho
  | unknown
  deriving DecidableEq, Repr

/-- The machine of a program file: by name, or by its number when it has no known name. -/
inductive Machine
  | named (name : String)
  | numbered (n : Nat)
  deriving DecidableEq, Repr

namespace Format

def word : Format → String
  | .elf => "ELF"
  | .pe => "PE"
  | .macho => "MACHO"
  | .unknown => "UNKNOWN"

/-- The kind that a family's programs have. -/
def ofFamily : OsFamily → Format
  | .win32 => .pe
  | .linux => .elf
  | .darwin => .macho

/-- The marks of the third kind: of 64 bits, of 32 bits, and of several machines in one. -/
def machoMarks : List Bytes :=
  [[0xCF, 0xFA, 0xED, 0xFE], [0xCE, 0xFA, 0xED, 0xFE], [0xCA, 0xFE, 0xBA, 0xBE]]

/-- The kind by the first four bytes. -/
def ofBytes (bytes : Bytes) : Format :=
  let magic := bytes.take 4
  if magic = [0x7F, 0x45, 0x4C, 0x46] then .elf
  else if magic.take 2 = [0x4D, 0x5A] then .pe
  else if magic ∈ machoMarks then .macho
  else .unknown

end Format

namespace Machine

/-- The machines with a name. -/
def table : List (Nat × String) :=
  [(0, "EM_NONE"), (2, "EM_SPARC"), (3, "EM_386"), (8, "EM_MIPS"), (20, "EM_PPC"),
   (21, "EM_PPC64"), (22, "EM_S390"), (40, "EM_ARM"), (50, "EM_IA_64"), (62, "EM_X86_64"),
   (183, "EM_AARCH64"), (243, "EM_RISCV"), (247, "EM_BPF"), (258, "EM_LOONGARCH")]

def ofNumber (n : Nat) : Machine :=
  match valueOf? n table with
  | some name => .named name
  | none => .numbered n

/-- The machine in the header of a file of the first kind. The fifth byte gives the size of words
and with it that of the header, the sixth the order of bytes; a header that is cut off or has
other values there cannot be read. -/
def ofHeader? (bytes : Bytes) : Option Machine :=
  let size := match bytes.getD 4 0 with
    | 1 => some 52
    | 2 => some 64
    | _ => none
  match size, bytes.getD 5 0, bytes.drop 18 with
  | some size, 1, low :: high :: _ =>
    if size ≤ bytes.length then some (ofNumber (high.toNat * 256 + low.toNat)) else none
  | some size, 2, high :: low :: _ =>
    if size ≤ bytes.length then some (ofNumber (high.toNat * 256 + low.toNat)) else none
  | _, _, _ => none

/-- The machine that programs for an architecture have. -/
def ofArchitecture? : String → Option String
  | "x86_64" => some "EM_X86_64"
  | "x86" => some "EM_386"
  | "aarch64" => some "EM_AARCH64"
  | _ => none

end Machine

namespace Artifact

open Workspace

/-- The kind of the file at a path, and its machine if the kind tells it. -/
def inspect (p : Path) : Task Workspace (Format × Option Machine) := do
  let bytes ← look (·.content p)
  match Format.ofBytes bytes with
  | .elf =>
    match Machine.ofHeader? bytes with
    | some m => return (.elf, some m)
    | none =>
      warning s!"ELF header unreadable for {p}"
      return (.elf, none)
  | format => return (format, none)

/-- The hash of the file at a path. -/
def hash (p : Path) : Task Workspace String :=
  look fun fs => do return Sha256.hexHash (← fs.content p)

/-- Whether a kind and a machine are those of a target. -/
def isFor (t : Target) (format : Format) (machine : Option Machine) : Bool :=
  format == .ofFamily t.family &&
    match machine, Machine.ofArchitecture? t.architecture with
    | some machine, some expected => machine == .named expected
    | _, _ => true

/-- Describes the file that was built for a target. A file of the wrong kind is reported and marked,
and a machine without a name is refused. -/
def describe (p : Path) (t : Target) : Task Workspace Artifact := do
  let (format, machine) ← inspect p
  let matchesTarget := isFor t format machine
  if !matchesTarget then
    warning s!"{t.id}: {format.word} output does not look like a {t.family.word} binary"
  let sha256 ← hash p
  let bytes ← look (·.content p)
  match machine with
  | some (.numbered _) =>
    throw (.invalid ⟨"ArtifactMeta", [⟨[.name "machine"], .stringType⟩]⟩)
  | some (.named name) =>
    return ⟨p.toString, sha256, bytes.length, format.word, some name, matchesTarget⟩
  | none => return ⟨p.toString, sha256, bytes.length, format.word, none, matchesTarget⟩

end Artifact

end CrossBuild
