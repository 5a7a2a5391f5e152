import TeachingCpu.Files.Table
import TeachingCpu.Files.Tree

/-!
# Storage

The files that a running program reaches: a table in memory, or a directory. In a directory a
name may not lead out of it, so a name is plain only if it is a relative path without `..`.
-/

namespace TeachingCpu

/-- The files that a running program reaches. -/
inductive Storage where
  | table (files : FileTable)
  | directory (root : String) (tree : FileTree)
deriving DecidableEq, Repr

namespace Storage

/-- Whether a name leads to a place below a directory: it is relative, does not start with the
component `.`, and has no component `..`. -/
def isPlain (name : String) : Bool :=
  match Text.splitAtChar '/' name.toList with
  | [] => false
  | first :: rest =>
    first ≠ [] && first ≠ ['.'] && (first :: rest).all (· ≠ ['.', '.'])

/-- The path of a name below a directory. A slash stands between them, once. -/
def resolve (root name : String) : Except FileError String :=
  if isPlain name then
    if root.isEmpty || FileTree.namesDirectory root then .ok (root ++ name)
    else .ok (root ++ "/" ++ name)
  else .error (.invalidName name)

/-- The contents of a file, if there is one with that name. -/
def read (s : Storage) (name : String) : Except FileError (Option (List UInt8)) :=
  match s with
  | .table files => .ok (files.find? name)
  | .directory root tree => do
    let path ← resolve root name
    match tree.read path with
    | .ok bytes => return some bytes
    | .error .notFound => return none
    | .error e => throw e

/-- Makes a file or replaces its contents. -/
def save (s : Storage) (name : String) (bytes : List UInt8) : Except FileError Storage :=
  match s with
  | .table files => .ok (.table (files.save name bytes))
  | .directory root tree => do
    let path ← resolve root name
    return .directory root (← tree.write path bytes)

/-- Makes a file or adds to its contents. -/
def append (s : Storage) (name : String) (bytes : List UInt8) : Except FileError Storage :=
  match s with
  | .table files => .ok (.table (files.append name bytes))
  | .directory root tree => do
    let path ← resolve root name
    return .directory root (← tree.append path bytes)

/-- Removes a file if there is one with that name. -/
def delete (s : Storage) (name : String) : Except FileError Storage :=
  match s with
  | .table files => .ok (.table (files.delete name))
  | .directory root tree => do
    let path ← resolve root name
    match tree.remove path with
    | .ok tree => return .directory root tree
    | .error .notFound => return s
    | .error e => throw e

end Storage

end TeachingCpu
