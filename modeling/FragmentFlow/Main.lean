import FragmentFlow.Command.Folder

/-!
# The program

Reads the files that a command line names, carries the command out, and prints
what it has to say.
-/

namespace FragmentFlow.Command

/-- The files that a command line may name. -/
def namedFiles (arguments : List String) : List String :=
  match request? arguments with
  | some (.check files settings ..) => settings.toList ++ files
  | some (.graphs file _ settings _) => settings.toList ++ [file]
  | _ => []

/-- What is wrong with a path that cannot be read; a text that is no text has no
such fault. -/
def pathFault? : IO.Error → Option PathFault
  | .noFileOrDirectory .. => some .missing
  | .inappropriateType _ code _ => some (if code = 21 then .isDirectory else .notDirectory)
  | .invalidArgument .. => some .nameTooLong
  | _ => none

/-- The text of a file, or why it cannot be read. -/
def fileText (file : String) : IO (Except String String) := do
  try
    return .ok (← IO.FS.readFile file)
  catch error =>
    match pathFault? error, error with
    | some fault, _ => return .error fault.message
    | none, .userError _ => return .error "stream did not contain valid UTF-8"
    | none, error => return .error (toString error)

end FragmentFlow.Command

open FragmentFlow

/-- Carries out the command line of the program. -/
def main (arguments : List String) : IO UInt32 := do
  let mut texts : List (String × Except String String) := []
  for file in Command.namedFiles arguments do
    texts := (file, ← Command.fileText file) :: texts
  let found := texts
  let files (file : String) : Except String String :=
    (found.lookup file).getD (.error Command.PathFault.missing.message)
  let palette : Palette := if ← (← IO.getStdout).isTty then .coloured else .plain
  let outcome := Command.run palette files arguments
  IO.print outcome.output
  if let some problem := outcome.problem then
    IO.eprintln (palette.paint "1;31" "error:" ++ " " ++ problem.message)
  return UInt32.ofNat outcome.code
