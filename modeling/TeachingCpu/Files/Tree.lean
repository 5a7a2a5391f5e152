import TeachingCpu.Files.Error
import TeachingCpu.Text.Split

/-!
# Files in directories

A tree of directories and files, seen from a working directory. A path is a text whose components
stand between slashes; empty components and `.` stay where they are, `..` goes to the directory
above. A path that ends with a slash names a directory.
-/

namespace TeachingCpu

/-- The components that lead from the working directory to a place. They start with `..` for a
place outside of it, and with `/` for one that is found from the root of all directories. -/
abbrev Location := List String

/-- Directories and files below the working directory. -/
structure FileTree where
  directories : List Location := []
  files : List (Location × List UInt8) := []
deriving DecidableEq, Repr

namespace FileTree

/-- What a path leads to. -/
inductive Entry where
  | directory (place : Location)
  | file (place : Location) (bytes : List UInt8)
  /-- Nothing, in a directory that exists. -/
  | absent (place : Location)
deriving DecidableEq, Repr

/-- The directory above a place. -/
def parent (place : Location) : Location :=
  match place.getLast? with
  | none | some ".." => place ++ [".."]
  | some "/" => place
  | _ => place.dropLast

/-- Whether a place is a directory. The working directory is one, and so are those above it. -/
def isDirectory (t : FileTree) (place : Location) : Bool :=
  place.all (fun c => c == ".." || c == "/") || t.directories.contains place

/-- The contents of the file at a place. -/
def fileAt? (t : FileTree) (place : Location) : Option (List UInt8) := t.files.lookup place

/-- Longest component of a path, in bytes. -/
def maxComponent : Nat := 255

/-- Longest path, in bytes. -/
def maxPath : Nat := 4095

/-- Follows components from a directory. -/
def walk (t : FileTree) (place : Location) : List String → Except FileError Entry
  | [] => .ok (.directory place)
  | "." :: rest => t.walk place rest
  | ".." :: rest => t.walk (parent place) rest
  | c :: rest =>
    let next := place ++ [c]
    if maxComponent < c.utf8ByteSize then .error .nameTooLong
    else if t.isDirectory next then t.walk next rest
    else match t.fileAt? next, rest with
      | some bytes, [] => .ok (.file next bytes)
      | some _, _ :: _ => .error .notDirectory
      | none, [] => .ok (.absent next)
      | none, _ :: _ => .error .notFound

/-- The components of a path, without the empty ones. -/
def components (path : String) : List String :=
  ((Text.splitAtChar '/' path.toList).filter (!·.isEmpty)).map String.ofList

/-- Whether a path is found from the root of all directories. -/
def isAbsolute (path : String) : Bool := path.toList.head? == some '/'

/-- Whether a path ends with a slash. -/
def namesDirectory (path : String) : Bool := path.toList.getLast? == some '/'

/-- Follows components from where a path starts, if the path as a text is one. -/
def follow (t : FileTree) (path : String) (pieces : List String) : Except FileError Entry :=
  if path.isEmpty then .error .notFound
  else if path.toList.contains '\x00' then .error .nulInName
  else if maxPath < path.utf8ByteSize then .error .nameTooLong
  else t.walk (if isAbsolute path then ["/"] else []) pieces

/-- What a path leads to. -/
def locate (t : FileTree) (path : String) : Except FileError Entry :=
  t.follow path (components path)

/-- The directory that a path without its last component leads to. -/
def locateFolder (t : FileTree) (path : String) : Except FileError Entry :=
  t.follow path ((components path).dropLast ++ ["."])

/-- Stores the contents of the file at a place. -/
def put (t : FileTree) (place : Location) (bytes : List UInt8) : FileTree :=
  { t with files := (place, bytes) :: t.files.filter (·.1 ≠ place) }

/-- The contents of a file. -/
def read (t : FileTree) (path : String) : Except FileError (List UInt8) :=
  match t.locate path with
  | .error e => .error e
  | .ok (.directory _) => .error .isDirectory
  | .ok (.absent _) => .error .notFound
  | .ok (.file _ bytes) => if namesDirectory path then .error .notDirectory else .ok bytes

/-- Makes a file or changes its contents. A path that names a directory is refused once the
directory around it is found, whatever its last component. -/
def update (t : FileTree) (path : String) (change : List UInt8 → List UInt8) :
    Except FileError FileTree :=
  if namesDirectory path then
    match t.locateFolder path with
    | .error e => .error e
    | .ok _ => .error .isDirectory
  else match t.locate path with
    | .error e => .error e
    | .ok (.directory _) => .error .isDirectory
    | .ok (.absent place) => .ok (t.put place (change []))
    | .ok (.file place bytes) => .ok (t.put place (change bytes))

/-- Makes a file or replaces its contents. -/
def write (t : FileTree) (path : String) (bytes : List UInt8) : Except FileError FileTree :=
  t.update path fun _ => bytes

/-- Makes a file or adds to its contents. -/
def append (t : FileTree) (path : String) (bytes : List UInt8) : Except FileError FileTree :=
  t.update path fun old => old ++ bytes

/-- Removes a file. -/
def remove (t : FileTree) (path : String) : Except FileError FileTree :=
  match t.locate path with
  | .error e => .error e
  | .ok (.directory _) => .error .isDirectory
  | .ok (.absent _) => .error .notFound
  | .ok (.file place _) =>
    if namesDirectory path then .error .notDirectory
    else .ok { t with files := t.files.filter (·.1 ≠ place) }

/-- The tree with a directory, and with those that lead to it. -/
def addDirectory (t : FileTree) (place : Location) : FileTree :=
  let places := (List.range place.length).map fun i => place.take (i + 1)
  { t with directories := t.directories ++ places.filter (!t.directories.contains ·) }

/-- The tree with a file, and with the directories that lead to it. -/
def addFile (t : FileTree) (place : Location) (bytes : List UInt8) : FileTree :=
  (t.addDirectory place.dropLast).put place bytes

end FileTree

end TeachingCpu
