import CrossBuild.Text.Split

/-!
# Paths by their text

Joining and shortening of paths without a look at any file: an absolute path replaces what comes
before it, double dots take away a part, and a null character ends a path.
-/

namespace CrossBuild.Lexical

/-- The path `b` as seen from `a`. -/
def join (a b : List Char) : List Char :=
  if b.head? = some '/' then b
  else if a.isEmpty || a.getLast? == some '/' then a ++ b
  else a ++ '/' :: b

/-- A path along several names. -/
def joinAll : List String → List Char
  | [] => []
  | first :: rest => rest.foldl (fun path name => join path name.toList) first.toList

/-- The leading slashes that a shortened path keeps: exactly two, or one. -/
def leading : List Char → List Char
  | '/' :: '/' :: '/' :: _ => ['/']
  | '/' :: '/' :: _ => ['/', '/']
  | '/' :: _ => ['/']
  | _ => []

/-- One part after the parts `done`, last one first: double dots take the last part away, unless
there is none to take. -/
def step (absolute : Bool) (done : List (List Char)) (part : List Char) : List (List Char) :=
  if part = [] ∨ part = ['.'] then done
  else if part = ['.', '.'] then
    match done with
    | [] => if absolute then [] else [part]
    | last :: before => if last = ['.', '.'] then part :: done else before
  else part :: done

/-- The parts of a shortened path. -/
def parts (absolute : Bool) (path : List Char) : List (List Char) :=
  ((Text.splitAt '/' path).foldl (step absolute) []).reverse

/-- The shortened path, up to a null character; a dot if nothing is left. -/
def shorten (path : List Char) : List Char :=
  let slashes := leading path
  let short := slashes ++ Text.joinWith '/' (parts (!slashes.isEmpty) path)
  let short := short.takeWhile (· != '\x00')
  if short.isEmpty then ['.'] else short

/-- Whether a shortened path leaves the directory it is seen from. -/
def leaves (path : List Char) : Bool :=
  path == ['.', '.'] || ['.', '.', '/'].isPrefixOf path || path.head? == some '/'

/-- The names along a path that does not leave. -/
def names (path : List Char) : List String :=
  ((Text.splitAt '/' path).filter fun part => part != [] && part != ['.']).map String.ofList

end CrossBuild.Lexical
