import CrossBuild.FileSystem.Operations

/-!
# Resolving paths

The absolute path without links and double dots that a path means. Parts that are missing stay as
they are. A link that is met while it is being resolved ends the resolution, and the path up to
there is reported as a loop.
-/

namespace CrossBuild.FileSystem

/-- Follows parts from `here`. The flag says whether all parts were followed; `pending` holds the
links that are being resolved and `nesting` bounds their number. -/
def follow (fs : FileSystem) (nesting : Nat) (pending : List Location) (here : Location) :
    List String → Bool × Location
  | [] => (true, here)
  | part :: rest =>
    if part = "." then fs.follow nesting pending here rest
    else if part = ".." then fs.follow nesting pending here.dropLast rest
    else
      let next := here ++ [part]
      match fs.node? next with
      | some (.link target) =>
        match nesting with
        | 0 => (false, next ++ rest)
        | nesting + 1 =>
          if next ∈ pending then (false, next ++ rest)
          else
            let start := if target.startsWith "/" then [] else here
            match fs.follow nesting (next :: pending) start (linkParts target) with
            | (true, l) => fs.follow (nesting + 1) pending l rest
            | (false, l) => (false, l ++ rest)
      | _ => fs.follow nesting pending next rest
termination_by parts => (nesting, parts.length)

/-- A location with the double dots of a loop's unresolved rest taken away. -/
def tidy (l : Location) : Location :=
  l.foldl (fun done part =>
    if part = "." then done else if part = ".." then done.dropLast else done ++ [part]) []

/-- The path of a location. -/
def pathOf (l : Location) : Path := ⟨.root, l⟩

/-- The path without links and double dots. -/
def resolve (fs : FileSystem) (p : Path) : Except Failure Path :=
  if hasNul p then .error .nulInPath
  else
    let (_, l) := fs.follow (fs.nodes.length + 1) [] (fs.origin p) p.parts
    let resolved := pathOf (tidy l)
    match fs.locate true resolved with
    | .error .linkLoop => .error (.linkLoop resolved.toString)
    | _ => .ok resolved

end CrossBuild.FileSystem
