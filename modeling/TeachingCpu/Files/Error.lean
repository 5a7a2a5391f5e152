/-!
# What can go wrong with a file
-/

namespace TeachingCpu

/-- The ways in which a named file cannot be reached. -/
inductive FileError where
  /-- The name does not lead to a place below the directory of the files. -/
  | invalidName (name : String)
  | nulInName
  | notFound
  | notDirectory
  | isDirectory
  | nameTooLong
deriving DecidableEq, Repr

namespace FileError

/-- The kind of an error. -/
def kind : FileError → String
  | .invalidName _ | .nulInName => "InvalidInput"
  | .notFound => "NotFound"
  | .notDirectory => "NotADirectory"
  | .isDirectory => "IsADirectory"
  | .nameTooLong => "InvalidFilename"

/-- The text of an error. -/
def message : FileError → String
  | .invalidName name => "`" ++ name ++ "` is not a relative file name"
  | .nulInName => "file name contained an unexpected NUL byte"
  | .notFound => "No such file or directory (os error 2)"
  | .notDirectory => "Not a directory (os error 20)"
  | .isDirectory => "Is a directory (os error 21)"
  | .nameTooLong => "File name too long (os error 36)"

end FileError

end TeachingCpu
