import Egress.Cli.Program

/-!
The program: reads what the outside has to say and carries out what a run ends in.
-/

set_option autoImplicit false

namespace Egress.Cli

/-- The problem with a file that an error of the system tells of. -/
def problemOf? : IO.Error → Option FileProblem
  | .noFileOrDirectory .. => some .missing
  | .inappropriateType _ code _ => some (if code = 21 then .isDirectory else .notDirectory)
  | _ => none

/-- What a path leads to. -/
def lookUp (path : String) : IO FileState :=
  try
    return .file (← IO.FS.readBinFile path).toList
  catch e =>
    match problemOf? e with
    | some .isDirectory => return .directory
    | problem => return .absent (problem.filter (· ≠ .missing))

/-- The variables of the environment that count. -/
def environment : IO (Dict String) :=
  Config.variableNames.foldlM (fun env name => do
    return (← IO.getEnv name).elim env (env.insert name)) Dict.empty

/-- Writes the file of an outcome; what keeps it from being written, if anything. -/
def writeFile (outcome : Outcome) : IO (Option String) :=
  match outcome.written with
  | none => return none
  | some (path, text) =>
    try
      IO.FS.writeFile path text
      return none
    catch e => return some ("Error: " ++ (problemOf? e).elim (toString e) FileProblem.message)

end Egress.Cli

open Egress.Cli in
def main (arguments : List String) : IO UInt32 := do
  let outcome ← run (← environment) lookUp arguments
  match outcome.error.or (← writeFile outcome) with
  | some error =>
    IO.eprintln error
    return UInt32.ofNat (max outcome.exitCode 1)
  | none =>
    IO.print outcome.output
    return UInt32.ofNat outcome.exitCode
