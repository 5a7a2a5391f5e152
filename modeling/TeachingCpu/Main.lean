import TeachingCpu.CommandLine.Execute

/-!
# The program

Gathers what a command line needs from the world, follows it, and hands over what it shows and
writes.
-/

namespace TeachingCpu

/-- The entries of a directory, or nothing where there is none. -/
def listDirectory (path : String) : IO (Option (List String)) := do
  try
    let entries ← (← IO.FS.realPath path).readDir
    return some (entries.toList.map fun entry => entry.fileName)
  catch _ => return none

/-- The text of a place as a path. -/
def pathOf (place : Location) : String :=
  match place with
  | "/" :: rest => "/" ++ String.intercalate "/" rest
  | [] => "."
  | place => String.intercalate "/" place

/-- Adds a file or a directory to a tree, with all that is below it down to a depth. -/
def gather (tree : FileTree) (place : Location) : Nat → IO FileTree
  | 0 => return tree
  | depth + 1 => do
    match ← listDirectory (pathOf place) with
    | some names =>
      names.foldlM (fun tree name => gather tree (place ++ [name]) depth)
        (tree.addDirectory place)
    | none =>
      try
        let bytes ← IO.FS.readBinFile (pathOf place)
        return tree.put place bytes.data.toList
      catch _ => return tree

/-- The directories on the way to a path, and what the path leads to. -/
def gatherPath (tree : FileTree) (path : String) (depth : Nat) : IO FileTree := do
  let start : Location := if FileTree.isAbsolute path then ["/"] else []
  let step (state : FileTree × Location) (name : String) : IO (FileTree × Location) := do
    let (tree, place) := state
    let next :=
      if name = "." then place
      else if name = ".." then FileTree.parent place
      else place ++ [name]
    match ← listDirectory (pathOf next) with
    | some _ => return (tree.addDirectory next, next)
    | none => return (tree, next)
  let (tree, place) ← (FileTree.components path).foldlM step (tree, start)
  gather tree place depth

/-- How deep the directory of a program's files is searched. -/
def storageDepth : Nat := 16

/-- The files that a command reaches. -/
def gatherFor : CommandLine.Command → IO FileTree
  | .run path options _ => do
    let tree ← gatherPath {} path 1
    match options.storage with
    | some root => gatherPath tree root storageDepth
    | none => return tree
  | .compile path target _ => do
    let tree ← gatherPath {} path 1
    gatherPath tree (target.getD path) 1
  | .disassemble path target => do
    let tree ← gatherPath {} path 1
    gatherPath tree (target.getD path) 1
  | .check path _ => gatherPath {} path 1

/-- Writes the files that changed and removes those that are gone. -/
def handOver (old new : FileTree) : IO Unit := do
  for (place, bytes) in new.files do
    if old.fileAt? place ≠ some bytes then
      IO.FS.writeBinFile (pathOf place) ⟨bytes.toArray⟩
  for (place, _) in old.files do
    if (new.fileAt? place).isNone then
      IO.FS.removeFile (pathOf place)

/-- The variables of the environment that matter. -/
def readEnvironment : IO (List (String × String)) := do
  ["TINYCPU_TRACE", "TINYCPU_PC_WRITE", "CLICOLOR_FORCE", "CLICOLOR", "NO_COLOR",
    "COLORTERM"].filterMapM fun name => do
    match ← IO.getEnv name with
    | some value => return some (name, value)
    | none => return none

/-- Follows a command line. -/
def runProgram (arguments : List String) : IO UInt32 := do
  let request : Option CommandLine.Request :=
    (CommandLine.Invocation.ofArguments arguments).map fun i => i.request
  let files ← match request with
    | some (.perform command) => gatherFor command
    | _ => pure {}
  let input ← match request with
    | some (.perform (.run ..)) => (← IO.getStdin).readToEnd
    | _ => pure ""
  let environment ← readEnvironment
  let onTerminal ← (← IO.getStdout).isTty
  match CommandLine.execute arguments { environment, onTerminal, files, input } with
  | none => return 1
  | some ending =>
    IO.print ending.screen
    ending.diagnostics.forM fun line => IO.eprintln line
    handOver files ending.files
    return ending.exitStatus.toUInt32

end TeachingCpu

/-- Follows the command line of the program. -/
def main (arguments : List String) : IO UInt32 := TeachingCpu.runProgram arguments
