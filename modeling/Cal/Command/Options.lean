/-!
# Command lines

What the command `cal` is asked to do: to check the program in a file, or on standard input where
no file is named, and to report in words or in JSON. After the argument `--` every argument is a
file name, and so is a single dash anywhere.
-/

namespace Cal.Command

/-- How an outcome is reported. -/
inductive Format
  | pretty
  | json
deriving DecidableEq

/-- The format with a given name. Case matters, and names are not abbreviated. -/
def Format.ofName? : String → Option Format
  | "pretty" => some pretty
  | "json" => some json
  | _ => none

/-- What to check and how to report it. -/
structure Options where
  file? : Option String
  format : Format
deriving DecidableEq

/-- Why a command line says nothing that can be done. -/
inductive UsageError
  | unknownOption (argument : String)
  | secondFile (argument : String)
  | emptyFile
  | missingFormat
  | unknownFormat (name : String)
  | repeatedFormat
deriving DecidableEq

/-- What a command line asks for. -/
inductive Request
  | help
  | check (options : Options)
deriving DecidableEq

/-- The message for people. -/
def UsageError.message : UsageError → String
  | unknownOption argument => "unexpected argument '" ++ argument ++ "'"
  | secondFile argument => "unexpected second file '" ++ argument ++ "'"
  | emptyFile => "the name of the file is empty"
  | missingFormat => "a value is required for '--format'"
  | unknownFormat name => "invalid value '" ++ name ++ "' for '--format': pretty or json"
  | repeatedFormat => "the option '--format' cannot be given twice"

/-- What is known of a command line after some of its arguments. -/
structure Given where
  file? : Option String
  format? : Option Format

namespace Given

/-- Nothing has been given. -/
def nothing : Given := ⟨none, none⟩

/-- A file has been named. -/
def withFile (given : Given) (name : String) : Except UsageError Given :=
  if given.file?.isSome then .error (.secondFile name)
  else if name.isEmpty then .error .emptyFile
  else .ok { given with file? := some name }

/-- A format has been named. -/
def withFormat (given : Given) (name : String) : Except UsageError Given :=
  match Format.ofName? name with
  | none => .error (.unknownFormat name)
  | some format =>
    if given.format?.isSome then .error .repeatedFormat else .ok { given with format? := some format }

/-- The options that have been given. What has not been given is standard input, in words. -/
def toOptions (given : Given) : Options := ⟨given.file?, given.format?.getD .pretty⟩

end Given

/-- What an argument holds after `start`, if it begins so. -/
def afterStart? (start argument : String) : Option String :=
  if start.toList.isPrefixOf argument.toList then
    some (String.ofList (argument.toList.drop start.toList.length))
  else none

/-- The name that an argument of the form `--format=name` holds. -/
def formatName? (argument : String) : Option String := afterStart? "--format=" argument

/-- Whether an argument asks for help. The short form may have more letters after it. -/
def isHelp (argument : String) : Bool := argument = "--help" || (afterStart? "-h" argument).isSome

/-- Whether an argument is an option. -/
def isOption (argument : String) : Bool :=
  (afterStart? "-" argument).any fun option => option ≠ ""

/-- Reads the arguments of a command line, from the first to the last. -/
def readArguments (given : Given) : List String → Except UsageError Request
  | [] => .ok (.check given.toOptions)
  | "--" :: files => do
    let given ← files.foldlM Given.withFile given
    return .check given.toOptions
  | ["--format"] => .error .missingFormat
  | "--format" :: name :: arguments => do readArguments (← given.withFormat name) arguments
  | argument :: arguments => do
    match formatName? argument with
    | some name => readArguments (← given.withFormat name) arguments
    | none =>
      if isHelp argument then return .help
      else if isOption argument then throw (.unknownOption argument)
      else readArguments (← given.withFile argument) arguments

/-- What a command line asks for. -/
def Request.ofArguments (arguments : List String) : Except UsageError Request :=
  readArguments .nothing arguments

end Cal.Command
