import CrossBuild.Patch.Basic
import CrossBuild.Text.SourceText
import CrossBuild.Workspace

/-!
# The patch ledger

The source files under patching and the markers that were inserted into each. Before a file is
changed for the first time it is copied beside itself; restoring copies every such backup back and
removes it.
-/

namespace CrossBuild

/-- A file under patching. -/
structure PatchRecord where
  source : Path
  backup : Path
  applied : List String
  deriving DecidableEq, Repr

/-- The files under patching, in the order in which they came. -/
abbrev Ledger := List (Path × PatchRecord)

/-- A workspace with a ledger. -/
structure PatchState where
  work : Workspace
  ledger : Ledger

namespace PatchState

/-- A task on the workspace alone. -/
def onWork {α : Type} (t : Task Workspace α) : Task PatchState α :=
  Task.onPart (·.work) (fun w s => { s with work := w }) t

instance : MonadLift (Task Workspace) (Task PatchState) := ⟨onWork⟩

end PatchState

namespace Ledger

open Workspace FileSystem

/-- Where a file is backed up: beside itself. -/
def backupOf (p : Path) : Except Failure Path :=
  match p.withName? (p.name ++ ".bak") with
  | some backup => .ok backup
  | none => .error (.emptyName p)

/-- A file without markers. -/
def freshRecord (p : Path) : Except Failure PatchRecord := do
  return ⟨p, ← backupOf p, []⟩

/-- The ledger of some files. -/
def ofPaths (paths : List Path) : Except Failure Ledger :=
  paths.foldlM (fun ledger p => do return assign p (← freshRecord p) ledger) []

/-- The ledger with a file taken in if it is new. -/
def enter (ledger : Ledger) (p : Path) : Except Failure (PatchRecord × Ledger) :=
  match valueOf? p ledger with
  | some record => .ok (record, ledger)
  | none =>
    match freshRecord p with
    | .ok record => .ok (record, assign p record ledger)
    | .error f => .error f

/-- The markers inserted by now, by file name; files without any are left out. -/
def markers (ledger : Ledger) : List (String × List String) :=
  ledger.foldl (fun found (_, record) =>
    if record.applied.isEmpty then found else assign record.source.name record.applied found) []

/-- Notes an inserted marker. -/
def note (p : Path) (marker : String) : Task PatchState Unit :=
  Task.update fun s => { s with ledger := s.ledger.map fun (key, record) =>
    if key = p then (key, { record with applied := record.applied ++ [marker] })
    else (key, record) }

/-- Forgets the markers of a file. -/
def clear (p : Path) : Task PatchState Unit :=
  Task.update fun s => { s with ledger := s.ledger.map fun (key, record) =>
    if key = p then (key, { record with applied := [] }) else (key, record) }

/-- Applies patches to a text one after the other and notes those that change it. -/
def applyAll (p : Path) : List Patch → SourceText → Task PatchState SourceText
  | [], text => return text
  | patch :: rest, text =>
    match patch.apply SourceText.ofString text with
    | .present => applyAll p rest text
    | .done changed => do
      if changed != text then note p patch.marker
      applyAll p rest changed
    | .skipped => do
      warning patch.skippedMessage
      applyAll p rest text
    | .anchorMissing => throw patch.anchorFault

/-- Turns a file error into another failure; other failures stay. -/
def renameFileError {σ α : Type} (f : FileError → PatchFault) (t : Task σ α) : Task σ α := do
  match ← Task.attempt t with
  | .ok a => return a
  | .error (.file e) => throw (.patch (f e))
  | .error e => throw e

/-- Backs a file up unless that was done before, and writes its new text. -/
def replaceText (record : PatchRecord) (text : SourceText) : Task FileSystem Unit := do
  if !(← Task.ask (·.isPresent record.backup)) then copyFile record.source record.backup
  write record.source text.toBytes

/-- Applies patches to a file. Tells whether the file was changed; if not, nothing is written. -/
def patchFile (p : Path) (patches : List Patch) : Task PatchState Bool := do
  let (record, ledger) ← Task.ask fun s => enter s.ledger p
  Task.update fun s => { s with ledger }
  let content ← renameFileError (.unreadable record.source) (look (·.content record.source))
  let before := SourceText.ofBytes content
  let text ← applyAll p patches before
  if text = before then return false
  renameFileError (.unwritable record.source) (onFiles (replaceText record text))
  info s!"{record.source.name} patched"
  return true

/-- Copies a backup back and removes it. -/
def restoreFile (record : PatchRecord) : Task FileSystem Unit := do
  copyFile record.backup record.source
  unlink record.backup

/-- Restores files one after the other. A file that cannot be restored is reported and the next one
is restored all the same. Gives the restored files. -/
def restoreEach : List (Path × PatchRecord) → Task PatchState (List Path)
  | [] => return []
  | (key, record) :: rest => do
    if !(← look (·.isPresent record.backup)) then return ← restoreEach rest
    match ← Task.attempt (onFiles (restoreFile record)) with
    | .ok () =>
      clear key
      info s!"Restored original: {record.source.name}"
      return record.source :: (← restoreEach rest)
    | .error (.file e) =>
      warning (s!"Could not restore {record.source}: " ++ e.message)
      restoreEach rest
    | .error f => throw f

/-- Restores every file that has a backup. -/
def restore : Task PatchState (List Path) := do
  restoreEach (← Task.ask fun s => .ok s.ledger)

end Ledger

end CrossBuild
