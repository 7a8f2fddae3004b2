import CrossBuild.SourceTree.Disk
import CrossBuild.SourceTree.Resolve
import CrossBuild.Workspace

/-!
# Build trees

The copy of a source directory that one family of operating systems is built from.
-/

namespace CrossBuild.BuildTree

open Workspace FileSystem SourceTree

/-- Resolves what is at `source` for a family. Imports that leave the tree are looked up on disk. -/
def resolved (fs : FileSystem) (source : Path) (family : OsFamily) (exclude : List Path) :
    Except Failure Resolution := do
  let tree ← scan fs exclude source
  tree.resolve family (some fun path => fs.isFile (source / path))

/-- Writes the tree for a family to `target`, which is emptied before. Neither `target` nor an
excluded directory is taken into the tree. -/
def build (source target : Path) (family : OsFamily) (exclude : List Path) :
    Task Workspace Resolution := do
  if !(← look (·.isDirectory source)) then throw (.file (.noSourceDirectory source))
  if ← look (·.isPresent target) then removeTree target
  let skip ← look fun fs => (exclude ++ [target]).mapM fs.resolve
  let r ← look fun fs => resolved fs source family skip
  let _ ← r.tree.write target
  for w in r.rebindings do
    info s!"[{family.word}] {w.file}: swapping import {w.swap.old} -> {w.swap.new}"
  return r

end CrossBuild.BuildTree
