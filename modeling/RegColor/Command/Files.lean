import RegColor.Command.Path

/-!
# Files

What a command needs of a file system, `FileAccess`, and a file system kept in memory, `Files`, that
provides it. `FileAccess` has the elementary operations; `makeDirectories` and `replace` are built on
them. Errors name the operation and the path they are about.
-/

namespace RegColor

/-- Why a file operation fails. -/
inductive FileProblem where
  | missing
  | present
  | isDirectory
  | notDirectory
  | nameTooLong
  | invalid
  | other (text : String)
deriving DecidableEq, Repr

def FileProblem.text : FileProblem → String
  | missing => "no such file or directory"
  | present => "file exists"
  | isDirectory => "is a directory"
  | notDirectory => "not a directory"
  | nameTooLong => "file name too long"
  | invalid => "invalid argument"
  | other text => text

/-- A failed file operation. -/
inductive FileError where
  | opening (path : String) (problem : FileProblem)
  | reading (path : String) (problem : FileProblem)
  | makingDirectory (path : String) (problem : FileProblem)
  | inspecting (path : String) (problem : FileProblem)
  | overDirectory
  | writing (problem : FileProblem)
deriving DecidableEq, Repr

/-- The text of a file error. -/
def FileError.message : FileError → String
  | opening path p => s!"open {path}: {p.text}"
  | reading path p => s!"read {path}: {p.text}"
  | makingDirectory path p => s!"mkdir {path}: {p.text}"
  | inspecting path p => s!"failed to stat output path: lstat {path}: {p.text}"
  | overDirectory => "cannot write to a directory"
  | writing p => p.text

/-- What can stand at a path. -/
inductive FileKind where
  | file
  | directory
deriving DecidableEq, Repr

/-- The elementary file operations of a command: reading a file, telling what stands at a path,
making one directory, and writing a file. -/
structure FileAccess (m : Type → Type) where
  read : String → m (Except FileError ByteArray)
  kind : String → m (Except FileProblem FileKind)
  makeDirectory : String → m (Except FileProblem Unit)
  write : String → String → m (Except FileProblem Unit)

namespace FileAccess

variable {m : Type → Type} [Monad m] (fs : FileAccess m)

/-- Makes a directory and those above it, given as a chain that starts with the directory. A
directory that is there already is no failure. -/
def makeDirectories : List String → m (Except FileError Unit)
  | [] => return .ok ()
  | path :: above => do
    match ← fs.kind path with
    | .ok .directory => return .ok ()
    | .ok .file => return .error (.makingDirectory path .notDirectory)
    | .error _ =>
      match ← makeDirectories above with
      | .error e => return .error e
      | .ok () =>
        match ← fs.makeDirectory path with
        | .ok () => return .ok ()
        | .error p =>
          match ← fs.kind path with
          | .ok .directory => return .ok ()
          | _ => return .error (.makingDirectory path p)

/-- Writes a file, in place of one that is there. -/
def replace (path content : String) : m (Except FileError Unit) := do
  let writeIt : m (Except FileError Unit) := do
    match ← fs.write path content with
    | .ok () => return .ok ()
    | .error p => return .error (.writing p)
  match ← fs.kind path with
  | .ok .directory => return .error .overDirectory
  | .ok .file => writeIt
  | .error .missing => writeIt
  | .error p => return .error (.inspecting path p)

end FileAccess

/-! ## Files in memory -/

/-- Files with their contents, and directories, by the parts of their paths from the root. The
directories that hold a file or the working directory `home` need not be listed. The working directory
has a name of its own that nobody knows: there is a slash in it, so no path spells it. -/
structure Files where
  files : List (List String × ByteArray) := []
  directories : List (List String) := []
  home : List String := ["tmp", "/"]

/-- What stands at a path. -/
inductive FileEntry where
  | file (content : ByteArray)
  | directory (path : List String)

namespace Files

/-- How many bytes a name may have. -/
def nameLimit : Nat := 255

/-- How many bytes a path may have. -/
def pathLimit : Nat := 4095

/-- The parts of a path from the root, as far as the text tells. -/
def locate (t : Files) (path : String) : List String :=
  let start := if Path.isAbsolute path then [] else t.home.reverse
  ((Path.parts path).foldl (Path.push true) start).reverse

/-- The directories at the root of every machine. -/
def rootDirectories : List (List String) :=
  ["bin", "dev", "etc", "home", "lib", "proc", "sys", "tmp", "usr", "var"].map ([·])

/-- Files below the working directory from their paths and contents, with the null device and the
directories at the root. -/
def ofList (entries : List (String × String)) : Files where
  directories := rootDirectories
  files := (["dev", "null"], ByteArray.empty) ::
    entries.map (fun (path, content) => (({} : Files).locate path, content.toUTF8))

/-- What stands at a place. -/
def entry? (t : Files) (path : List String) : Option FileEntry :=
  match t.files.lookup path with
  | some content => some (.file content)
  | none =>
    if path.isPrefixOf t.home || path ∈ t.directories || t.files.any (fun f => path.isPrefixOf f.1) then
      some (.directory path)
    else none

/-- Follows the parts of a path. The directory above the root is the root. -/
def walk (t : Files) (here : FileEntry) : List String → Except FileProblem FileEntry
  | [] => .ok here
  | part :: parts =>
    match here with
    | .file _ => .error .notDirectory
    | .directory path =>
      if part = "" ∨ part = "." then t.walk here parts
      else if part = ".." then t.walk (.directory path.dropLast) parts
      else if nameLimit < part.utf8ByteSize then .error .nameTooLong
      else
        match t.entry? (path ++ [part]) with
        | none => .error .missing
        | some e => t.walk e parts

/-- Why a text is no path at all. -/
def pathProblem? (path : String) : Option FileProblem :=
  if path.toList.contains '\x00' then some .invalid
  else if path = "" then some .missing
  else if pathLimit < path.utf8ByteSize then some .nameTooLong
  else none

/-- Where a path starts. -/
def startOf (t : Files) (path : String) : FileEntry :=
  .directory (if Path.isAbsolute path then [] else t.home)

/-- What a path names. -/
def find (t : Files) (path : String) : Except FileProblem FileEntry :=
  match pathProblem? path with
  | some p => .error p
  | none => t.walk (t.startOf path) (Path.parts path)

/-- Reads a file. -/
def read (t : Files) (path : String) : Except FileError ByteArray :=
  match t.find path with
  | .error p => .error (.opening path p)
  | .ok (.directory _) => .error (.reading path .isDirectory)
  | .ok (.file content) => .ok content

/-- What kind of thing a path names. -/
def kind (t : Files) (path : String) : Except FileProblem FileKind :=
  (t.find path).map fun
    | .file _ => .file
    | .directory _ => .directory

/-- Makes a directory in one that exists. Slashes at the end of the path do not matter. -/
def makeDirectory (t : Files) (path : String) : Except FileProblem Files := do
  let parts := ((Path.parts path).reverse.dropWhile (· = "")).reverse
  let name := parts.getLastD "."
  match pathProblem? path with
  | some p => .error p
  | none =>
    match ← t.walk (t.startOf path) parts.dropLast with
    | .file _ => .error .notDirectory
    | .directory dir =>
      if name = "." ∨ name = ".." then .error .present
      else
        match t.walk (.directory dir) [name] with
        | .ok _ => .error .present
        | .error .missing => .ok { t with directories := (dir ++ [name]) :: t.directories }
        | .error p => .error p

/-- Writes a file in a directory that exists. -/
def write (t : Files) (path content : String) : Files :=
  let place := t.locate path
  { t with files := (place, content.toUTF8) :: t.files.filter (·.1 ≠ place) }

/-- The file operations on files in memory. -/
def access : FileAccess (StateM Files) where
  read path := return (← get).read path
  kind path := return (← get).kind path
  makeDirectory path := do
    match (← get).makeDirectory path with
    | .ok t => set t; return .ok ()
    | .error p => return .error p
  write path content := do
    modify (·.write path content)
    return .ok ()

/-- The files below the working directory that are not among those of `t`, by path. -/
def added (t later : Files) : List (String × ByteArray) :=
  (later.files.filter (fun f => t.home.isPrefixOf f.1 && (t.files.lookup f.1).isNone)).map
    (fun (path, content) => ("/".intercalate (path.drop t.home.length), content))

end Files

end RegColor
