import Wiring.CommandLine.Path

/-!
# Files

The few file operations a run needs, as an interface, and a tree of files held in memory that
offers them. Paths are followed part by part from the folder the run starts in, and an operation
fails for the reason that the first part in its way gives.
-/

namespace Wiring

/-- Why a file operation fails. -/
inductive FileFault where
  | notFound
  | alreadyThere
  | notFolder
  | isFolder
  | nameTooLong
  /-- The path holds the character U+0000. -/
  | zeroInPath
  /-- Any other reason, in words. -/
  | other (reason : String)
  deriving DecidableEq, Repr, Inhabited

/-- The reason in words. -/
def FileFault.message : FileFault → String
  | notFound => "No such file or directory (os error 2)"
  | alreadyThere => "File exists (os error 17)"
  | notFolder => "Not a directory (os error 20)"
  | isFolder => "Is a directory (os error 21)"
  | nameTooLong => "File name too long (os error 36)"
  | zeroInPath => "file name contained an unexpected NUL byte"
  | other reason => reason

/-- The file operations of a run. -/
structure Files (m : Type → Type) where
  /-- The text of a file. -/
  read : String → m (Except FileFault String)
  /-- Whether there is a file or a folder. -/
  isThere : String → m Bool
  /-- Whether there is a folder. -/
  isFolder : String → m Bool
  /-- Make a folder in one that exists. -/
  makeFolder : String → m (Except FileFault Unit)
  /-- Write a file whose folder exists. -/
  write : String → String → m (Except FileFault Unit)

namespace Files

variable {m : Type → Type} [Monad m] (fs : Files m)

/-- Make a folder in one that exists, unless it is there. -/
def ensureFolder (path : String) : m (Except FileFault Unit) := do
  match ← fs.makeFolder path with
  | .error .alreadyThere =>
    return if ← fs.isFolder path then .ok () else .error .alreadyThere
  | answer => return answer

/-- Make the first of some paths, each of which lies in the one after it. The outer ones are made
only where the inner one cannot be made for want of them, and it is tried again after that. -/
def ensureFolders : List String → m (Except FileFault Unit)
  | [] => return .ok ()
  | path :: outer => do
    match ← ensureFolder fs path with
    | .error .notFound =>
      match ← ensureFolders outer with
      | .error e => return .error e
      | .ok _ => ensureFolder fs path
    | answer => return answer

/-- Make a folder and the folders it lies in. -/
def makeFolders (path : String) : m (Except FileFault Unit) :=
  ensureFolders fs (Path.ancestors path)

end Files

/-- Files and folders held in memory. A place is the list of names that lead to it from the folder
the run starts in; `..` at its head leads out of that folder, and `/` to the root. -/
structure FileTree where
  files : List (List String × String) := []
  folders : List (List String) := []
  deriving Repr, Inhabited

namespace FileTree

/-- The longest name of a file, in bytes. -/
def nameLimit : Nat := 255

/-- The longest path, in bytes. -/
def pathLimit : Nat := 4095

/-- Whether a place lies outside the folder the run starts in. -/
def isOutside (place : List String) : Bool :=
  place.head? == some ".." || place.head? == some "/"

/-- The text of the file at a place. -/
def file? (t : FileTree) (place : List String) : Option String := t.files.lookup place

/-- Whether there is a folder at a place: one that the run starts under, one that was made, or one
that a file or a folder lies in. -/
def holdsFolder (t : FileTree) (place : List String) : Bool :=
  place.all (fun name => name == ".." || name == "/")
    || t.files.any (fun (path, _) => place.isPrefixOf path && place.length < path.length)
    || t.folders.any fun path => place.isPrefixOf path

/-- The place around another; the root is around itself. -/
def around (place : List String) : List String :=
  if place = ["/"] then place
  else if place.all (· == "..") then place ++ [".."]
  else place.dropLast

/-- The parts of a path. -/
def parts (path : String) : List String := (Text.pieces '/' path.toList).map String.ofList

/-- Follow the parts of a path from a folder to the place it leads to. Every part but the last has
to be a folder. -/
def follow (t : FileTree) : (folder : List String) → List String → Except FileFault (List String)
  | folder, [] => .ok folder
  | folder, part :: rest =>
    if part = "" ∨ part = "." then follow t folder rest
    else if part = ".." then follow t (around folder) rest
    else if nameLimit < part.utf8ByteSize then .error .nameTooLong
    else
      let place := folder ++ [part]
      if rest.isEmpty then .ok place
      else if t.holdsFolder place then follow t place rest
      else if (t.file? place).isSome then .error .notFolder
      else .error .notFound

/-- Refuse a path that can lead nowhere. -/
def checkPath (path : String) : Except FileFault Unit :=
  if path.toList.any (·.toNat == 0) then .error .zeroInPath
  else if path.isEmpty then .error .notFound
  else if pathLimit < path.utf8ByteSize then .error .nameTooLong
  else .ok ()

/-- Where the parts of a path are followed from. -/
def origin (path : String) : List String := if path.startsWith "/" then ["/"] else []

/-- The place a path leads to. -/
def locate (t : FileTree) (path : String) : Except FileFault (List String) := do
  checkPath path
  t.follow (origin path) (parts path)

/-- The text of the file at a path. -/
def read (t : FileTree) (path : String) : Except FileFault String := do
  let place ← t.locate path
  match t.file? place with
  | some text => return text
  | none => if t.holdsFolder place then .error .isFolder else .error .notFound

/-- Whether a path leads to a file or a folder. -/
def isThere (t : FileTree) (path : String) : Bool :=
  match t.locate path with
  | .ok place => (t.file? place).isSome || t.holdsFolder place
  | .error _ => false

/-- Whether a path leads to a folder. -/
def isFolder (t : FileTree) (path : String) : Bool :=
  match t.locate path with
  | .ok place => t.holdsFolder place
  | .error _ => false

/-- Make a folder in one that exists. A path that ends in a dot names a folder that is there, if
it names any. -/
def makeFolder (t : FileTree) (path : String) : Except FileFault FileTree := do
  checkPath path
  match (parts path).reverse.dropWhile (·.isEmpty) with
  | [] => .error .alreadyThere
  | name :: outer =>
    let folder ← t.follow (origin path) (outer.reverse ++ [""])
    let place ← t.follow folder [name]
    if name = "." ∨ name = ".." ∨ (t.file? place).isSome ∨ t.holdsFolder place then
      .error .alreadyThere
    else return { t with folders := t.folders ++ [place] }

/-- The files with the text at a place replaced or added. -/
def putFile (place : List String) (text : String) :
    List (List String × String) → List (List String × String)
  | [] => [(place, text)]
  | (p, old) :: rest =>
    if p = place then (p, text) :: rest else (p, old) :: putFile place text rest

/-- Write the file at a path. -/
def write (t : FileTree) (path text : String) : Except FileFault FileTree := do
  let place ← t.locate path
  if t.holdsFolder place then .error .isFolder
  else return { t with files := putFile place text t.files }

/-- An operation that changes the tree unless it fails. -/
def change (operation : FileTree → Except FileFault FileTree) :
    StateM FileTree (Except FileFault Unit) := fun t =>
  match operation t with
  | .ok t' => (.ok (), t')
  | .error e => (.error e, t)

/-- The file operations on a tree. -/
def operations : Files (StateM FileTree) where
  read path := fun t => (t.read path, t)
  isThere path := fun t => (t.isThere path, t)
  isFolder path := fun t => (t.isFolder path, t)
  makeFolder path := change (·.makeFolder path)
  write path text := change (·.write path text)

/-- The tree of files given by their paths. The null device, an empty file, is there beside
them. -/
def ofFiles (files : List (String × String)) : FileTree where
  files := files.map (fun (path, text) => ((parts path).filter (!·.isEmpty), text))
    ++ [(["/", "dev", "null"], "")]

end FileTree

end Wiring
