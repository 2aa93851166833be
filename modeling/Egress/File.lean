/-!
Files, as far as the program deals with them.

The program reads whole files and writes whole files. What a path leads to is known before either.
-/

set_option autoImplicit false

namespace Egress

/-- Why the system refuses to work on a file. -/
inductive FileProblem
  /-- There is no such file, or no directory to put it in. -/
  | missing
  /-- A part of the path that should be a directory is none. -/
  | notDirectory
  | isDirectory
  deriving DecidableEq

def FileProblem.message : FileProblem → String
  | .missing => "No such file or directory (os error 2)"
  | .notDirectory => "Not a directory (os error 20)"
  | .isDirectory => "Is a directory (os error 21)"

/-- What a path leads to. -/
inductive FileState
  /-- Nothing; the problem is one of making a file there. -/
  | absent (problem : Option FileProblem)
  | directory
  | file (bytes : List UInt8)

namespace FileState

def exists? : FileState → Bool
  | .absent _ => false
  | _ => true

/-- What keeps a file from being written. -/
def writeProblem? : FileState → Option FileProblem
  | .absent problem => problem
  | .directory => some .isDirectory
  | .file _ => none

end FileState

end Egress
