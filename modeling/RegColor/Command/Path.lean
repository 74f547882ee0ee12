/-!
# Paths

Paths are texts whose parts are divided by slashes. `Path.clean` gives the shortest path with the
same meaning, as far as the text alone tells: no empty part, no `.`, and `..` only at the start.
-/

namespace RegColor.Path

/-- The parts of a path, empty ones included. -/
def parts (path : String) : List String :=
  (path.toList.splitOn '/').map String.ofList

/-- Whether a path starts at the root. -/
def isAbsolute (path : String) : Bool := path.toList.head? = some '/'

/-- Adds a part to a clean path, the last part of which comes first. -/
def push (absolute : Bool) (done : List String) (part : String) : List String :=
  if part = "" ∨ part = "." then done
  else if part = ".." then
    match done with
    | [] => if absolute then [] else [".."]
    | last :: before => if last = ".." then ".." :: done else before
  else part :: done

/-- The shortest path with the same meaning. -/
def clean (path : String) : String :=
  let absolute := isAbsolute path
  let body := "/".intercalate ((parts path).foldl (push absolute) []).reverse
  if absolute then "/" ++ body
  else if body = "" then "."
  else body

/-- The directory that a path lies in. -/
def parent (path : String) : String :=
  clean (String.ofList (path.toList.reverse.dropWhile (· ≠ '/')).reverse)

/-- The path as written without its last part and the slash before it, unless nothing remains. -/
def above? (path : String) : Option String :=
  match (path.toList.reverse.dropWhile (· = '/')).dropWhile (· ≠ '/') with
  | _ :: c :: cs => some (String.ofList (c :: cs).reverse)
  | _ => none

/-- A path and those above it, as written. Each is shorter than the one before, so `fuel` may be the
length of the path. -/
def chain : (fuel : Nat) → String → List String
  | 0, path => [path]
  | fuel + 1, path =>
    match above? path with
    | some above => path :: chain fuel above
    | none => [path]

/-- The path of a name in a directory. -/
def join (dir name : String) : String := clean (dir ++ "/" ++ name)

end RegColor.Path
