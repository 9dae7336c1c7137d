import Wiring.Text.Affix

/-!
# Paths as text

Paths with slashes between their parts, joined and taken apart without looking at any file system.
A path keeps the way it was written, because messages show it.
-/

namespace Wiring.Path

/-- A path inside another. A path that starts with a slash stays as it is. -/
def join (base inner : String) : String :=
  if inner.startsWith "/" then inner
  else if base.isEmpty ∨ base.endsWith "/" then base ++ inner
  else base ++ "/" ++ inner

/-- A path, given in reverse, without slashes and current-folder parts at its end; a path that is
nothing else keeps its first part. -/
def trimReversed : List Char → List Char
  | ['/'] => ['/']
  | '/' :: cs => trimReversed cs
  | ['.', '/'] => ['/']
  | '.' :: '/' :: cs => trimReversed cs
  | cs => cs

/-- The folder that a path lies in, as it is written in the path; empty for a single name, and none
for the root and for nothing. -/
def parent? (path : String) : Option String :=
  let reversed := trimReversed path.toList.reverse
  let before := reversed.dropWhile (· != '/')
  match reversed with
  | [] => none
  | ['/'] => none
  | _ => some (String.ofList (trimReversed before).reverse)

/-- A path, the folder it lies in, the folder that one lies in, and so on, up to the first name of
the path. Each folder is shorter than what lies in it, so `fuel` never runs out when it exceeds
the length of the path. -/
def upward : (fuel : Nat) → String → List String
  | 0, _ => []
  | fuel + 1, path =>
    match parent? path with
    | none => []
    | some folder => path :: upward fuel folder

/-- A path and the folders around it, from the inside out. -/
def ancestors (path : String) : List String := upward (path.length + 1) path

/-- The folder that a file lies in, a dot for the current one. -/
def folderOf (path : String) : String :=
  match parent? path with
  | some folder => if folder.isEmpty then "." else folder
  | none => "."

end Wiring.Path
