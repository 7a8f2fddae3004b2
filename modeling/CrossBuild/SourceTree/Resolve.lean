import CrossBuild.Import
import CrossBuild.SourceTree.Basic
import CrossBuild.Path.Lexical

/-!
# Resolving a tree for a family

From a source tree to the tree that a family of operating systems needs. Scripts of other families
are dropped, and so is a general script whose variant for the family is there. Imports are rebound
to the variant where one exists, in the tree or, by a question to the outside, elsewhere.
-/

namespace CrossBuild.SourceTree

/-- A rebound import of a script. -/
structure Rebinding where
  file : String
  swap : Import.Swap
  deriving DecidableEq, Repr

/-- What resolving gives: the tree, the scripts left out, and the rebound imports. -/
structure Resolution where
  tree : SourceTree
  dropped : List String
  rebindings : List Rebinding
  deriving DecidableEq, Repr

/-- Whether a script stays, among its siblings. -/
def keeps (family : OsFamily) (siblings : List String) (name : String) : Bool :=
  match (ScriptName.ofString name).family with
  | some own => own == family
  | none => !siblings.contains (ScriptName.specific name family)

section
variable {m : Type → Type} [Monad m]

/-- Whether an import of `path` by a script below `directories` finds a file. A file of the tree
answers at once, and a directory of the tree is no file. The outside is asked about paths that
leave the tree and about those the tree does not know. -/
def importFound (root : SourceTree) (outside : Option (String → m Bool))
    (directories : List String) (path : String) : m Bool :=
  let short := Lexical.shorten (Lexical.joinAll (directories ++ [path]))
  let ask := match outside with
    | some present => present (String.ofList short)
    | none => pure false
  if Lexical.leaves short then ask
  else
    match root.get? (Lexical.names short) with
    | some entry => pure entry.isFile
    | none => ask

/-- Resolves a part of a directory, given the names of the whole directory. -/
def resolveIn (family : OsFamily) (root : SourceTree) (outside : Option (String → m Bool))
    (directories siblings : List String) : SourceTree → m Resolution
  | .nil => pure ⟨.nil, [], []⟩
  | .directory name children rest => do
    let inner ← resolveIn family root outside (directories ++ [name]) children.names children
    let r ← resolveIn family root outside directories siblings rest
    return ⟨.directory name inner.tree r.tree, inner.dropped ++ r.dropped,
      inner.rebindings ++ r.rebindings⟩
  | .asset name source rest => do
    let r ← resolveIn family root outside directories siblings rest
    return { r with tree := .asset name source r.tree }
  | .script name text rest => do
    let file := String.ofList (Lexical.joinAll (directories ++ [name]))
    if keeps family siblings name then
      let (text, swaps) ←
        Import.rebind family.word (importFound root outside directories) (text.getD "")
      let r ← resolveIn family root outside directories siblings rest
      return ⟨.script name (some text) r.tree, r.dropped, swaps.map (⟨file, ·⟩) ++ r.rebindings⟩
    else
      let r ← resolveIn family root outside directories siblings rest
      return { r with dropped := file :: r.dropped }

/-- Resolves a whole tree. -/
def resolve (family : OsFamily) (outside : Option (String → m Bool)) (t : SourceTree) :
    m Resolution :=
  resolveIn family t outside [] t.names t

end

end CrossBuild.SourceTree
