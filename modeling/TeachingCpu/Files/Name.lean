import TeachingCpu.Text.Split

/-!
# Names of files

The last component of a path is the name of the file. What stands in front of the last dot of a
name, if anything does, is its stem, and what stands behind it is its extension.
-/

namespace TeachingCpu.FileName

/-- The last component of a path that is neither empty nor `.`, in characters. -/
def last? (path : String) : Option (List Char) :=
  let pieces := (Text.splitAtChar '/' path.toList).filter fun c => c ≠ [] && c ≠ ['.']
  pieces.getLast?.filter (· ≠ ['.', '.'])

/-- Splits a name at its last dot, if something stands in front of it. -/
def splitStem? (name : List Char) : Option (List Char × List Char) :=
  let extension := (name.reverse.takeWhile (· != '.')).reverse
  match (name.reverse.dropWhile (· != '.')).reverse with
  | [] => none
  | front =>
    let stem := front.dropLast
    if stem.isEmpty then none else some (stem, extension)

/-- The extension of the file that a path names. -/
def extension? (path : String) : Option String := do
  let name ← last? path
  let (_, extension) ← splitStem? name
  return String.ofList extension

/-- A path that ends with the name of its file, without the extension. The dot in front of the
extension stays. -/
def dropExtension (path : String) : String :=
  match extension? path with
  | some extension => String.ofList (path.toList.take (path.toList.length - extension.length))
  | none => path

/-- A path that ends with the name of its file, with another extension of the file. The old
extension goes first: where that leaves `..`, which names a directory and no file, nothing takes
its place. -/
def withExtension (path extension : String) : String :=
  let bare := dropExtension path
  match last? bare with
  | none => bare
  | some name =>
    let stem := match splitStem? name with
      | some (stem, _) => stem
      | none => name
    let folder := bare.toList.take (bare.toList.length - name.length)
    String.ofList (folder ++ stem) ++ "." ++ extension

end TeachingCpu.FileName
