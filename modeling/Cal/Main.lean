import Cal.Command.Basic

/-!
# The program `cal`

Reads what the command line asks for, and prints what the command says about it.
-/

namespace Cal.Command

/-- Why a file could not be read, in the words of the operating system. -/
def ReadFailure.ofError : IO.Error → ReadFailure
  | .noFileOrDirectory .. => .notFound
  | .inappropriateType _ code details | .otherError code details
  | .permissionDenied _ code details | .invalidArgument _ code details
  | .resourceExhausted _ code details => .unreadable s!"{details} (os error {code})"
  | error => .unreadable (toString error)

/-- The bytes of a file, or of standard input. -/
def Options.read (options : Options) : IO (Except ReadFailure ByteArray) := do
  try
    match options.file? with
    | some name => return .ok (← IO.FS.readBinFile name)
    | none => return .ok (← (← IO.getStdin).readBinToEnd)
  catch error =>
    return .error (.ofError error)

/-- Prints what there is to print. -/
def Output.print (output : Output) : IO UInt32 := do
  IO.print output.stdout
  IO.eprint output.stderr
  return output.code

end Cal.Command

open Cal.Command in
/-- Checks the program that the command line names. -/
def main (arguments : List String) : IO UInt32 := do
  match Request.ofArguments arguments with
  | .error error => (usageError error).print
  | .ok .help => (Output.mk 0 help "").print
  | .ok (.check options) =>
    IO.print options.banner
    (← IO.getStdout).flush
    (options.conclude (← options.read)).print
