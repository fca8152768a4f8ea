import Cal.Command.Options
import Cal.Report.Basic

/-!
# The command

What the command `cal` prints and how it exits, given what it was asked to do and what it has read.
A program that cannot be read, is not text, or is too long is not parsed: the reason goes to
standard error. Otherwise the outcome of the parse goes to standard output. The exit code is zero
only for a program that was accepted.
-/

namespace Cal.Command

/-- The largest program in bytes that is parsed. -/
def sizeLimit : Nat := 1000000

/-- Why there is nothing to parse: there is no such file, or it cannot be read. -/
inductive ReadFailure
  | notFound
  | unreadable (reason : String)
deriving DecidableEq

/-- What the command prints, and its exit code. -/
structure Output where
  code : UInt32
  stdout : String
  stderr : String
deriving DecidableEq

/-- A text and the end of its line. -/
def line (text : String) : String := text ++ "\n"

/-- What is printed before standard input is read. -/
def Options.banner (options : Options) : String :=
  match options.file?, options.format with
  | none, .pretty => line "Reading from standard input..."
  | _, _ => ""

/-- What is reported if there is nothing to parse. -/
def Options.readError (options : Options) (failure : ReadFailure) : String :=
  match options.file?, failure with
  | some name, .notFound => line ("File " ++ name ++ " not found.")
  | some name, .unreadable reason => because ("failed to read " ++ name) reason
  | none, .notFound => because "failed to read standard input" "entity not found"
  | none, .unreadable reason => because "failed to read standard input" reason
where
  because (problem reason : String) : String :=
    line ("Error: " ++ problem ++ "\n\nCaused by:\n    " ++ reason)

/-- What is reported of a program that is too long. -/
def tooLarge (size : Nat) : String :=
  line s!"Error: source file exceeds {sizeLimit / 1000000}MB limit ({size} bytes)"

/-- What is printed of an outcome. -/
def Format.outcomeText : Format → Outcome → String
  | .pretty, .ok _ => line "Parsed successfully."
  | .pretty, .error error => line error.message ++ line "Encountered errors during parse."
  | .json, outcome => line (Outcome.report outcome).render

/-- What comes of a program that has been read. -/
def Options.checkText (options : Options) (text : String) : Output :=
  if text.utf8ByteSize > sizeLimit then ⟨1, "", tooLarge text.utf8ByteSize⟩
  else
    let outcome := parseText text
    ⟨if outcome.isOk then 0 else 1, options.format.outcomeText outcome, ""⟩

/-- What comes of the bytes that have been read, or of the failure to read them. -/
def Options.conclude (options : Options) (content : Except ReadFailure ByteArray) : Output :=
  match content with
  | .error failure => ⟨1, "", options.readError failure⟩
  | .ok bytes =>
    match String.fromUTF8? bytes with
    | some text => options.checkText text
    | none => ⟨1, "", options.readError (.unreadable "stream did not contain valid UTF-8")⟩

/-- All that is printed, from the banner on. -/
def Options.respond (options : Options) (content : Except ReadFailure ByteArray) : Output :=
  let output := options.conclude content
  { output with stdout := options.banner ++ output.stdout }

/-- The help text. -/
def help : String :=
  String.join (["Check the syntax of CAL programs", "", "Usage: cal [--format FORMAT] [FILE]", "",
    "  FILE             the program; standard input is read when it is left out",
    "  --format FORMAT  how to report: pretty (the default) or json",
    "  -h, --help       print this help"].map line)

/-- What is printed of a command line that asks for nothing. -/
def usageError (error : UsageError) : Output :=
  ⟨2, "", line ("error: " ++ error.message) ++ line "" ++ line "For more information, try '--help'."⟩

end Cal.Command
