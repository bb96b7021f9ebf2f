import StackCode.Text.Basic

namespace StackCode

/-!
# Command-line arguments

Arguments are read from left to right. Whatever does not begin with a hyphen names
the input, the last such argument winning; every other argument must be an option.
The argument after an output option is its value whatever it looks like. Where
nothing else is asked for, the program is written beside the input.
-/

/-- What the arguments ask for. -/
structure Options where
  input : Text
  /-- The file to write the program's image to, if any. -/
  output : Option Text
  /-- Whether the input is a source and not an image. -/
  assembles : Bool
  runs : Bool
  verbose : Bool
  lists : Bool
  deriving Repr, DecidableEq

/-- Why arguments ask for nothing that can be done. -/
inductive UsageDefect where
  /-- There are none. -/
  | noArguments
  /-- They ask for help. -/
  | helpRequested
  /-- An output option is the last argument. -/
  | missingOutput
  /-- No option is spelled so. -/
  | unknownOption (argument : Text)
  /-- No argument names the input. -/
  | missingInput
  deriving Repr, DecidableEq

/-- The wording of a defect; asking for help is none, and so is asking for nothing. -/
def UsageDefect.complaint? : UsageDefect → Option Text
  | .noArguments => none
  | .helpRequested => none
  | .missingOutput => some "Error: -o requires an output filename"
  | .unknownOption argument =>
      some (Text.concat ["Error: Unknown option '", argument, "'"])
  | .missingInput => some "Error: No input file specified"

namespace Options

/-- What has been asked for by the arguments so far; a name not given is empty. -/
structure Flags where
  input : Text := []
  output : Text := []
  assembles : Bool := false
  runs : Bool := false
  verbose : Bool := false
  lists : Bool := false
  deriving Repr, DecidableEq

/-- Whether an argument asks for help. -/
def asksForHelp (argument : Text) : Bool :=
  decide (argument = "-h" ∨ argument = "--help")

/-- Read arguments after those that have given some flags. -/
def readFlags (flags : Flags) : List Text → Except UsageDefect Flags
  | [] => .ok flags
  | argument :: rest =>
      if argument = "-o" ∨ argument = "--output" then
        match rest with
        | [] => .error .missingOutput
        | name :: rest => readFlags { flags with output := name } rest
      else if argument = "-a" ∨ argument = "--assemble" then
        readFlags { flags with assembles := true } rest
      else if argument = "-r" ∨ argument = "--run" then
        readFlags { flags with runs := true } rest
      else if argument = "-v" ∨ argument = "--verbose" then
        readFlags { flags with verbose := true } rest
      else if argument = "-d" ∨ argument = "--disassemble" then
        readFlags { flags with lists := true } rest
      else if asksForHelp argument then
        .error .helpRequested
      else if argument.startsWith (CodeUnit.ofChar '-') then
        .error (.unknownOption argument)
      else
        readFlags { flags with input := argument } rest

/-- A name without an ending, whatever the case of its letters; as it is if it has another. -/
def dropEnding? (ending : Text) (name : Text) : Option Text :=
  if ending.isSuffixOf (name.map CodeUnit.lowerCase) then
    some (name.take (name.length - ending.length))
  else
    none

/-- The name of the image that is written beside an input. -/
def imageName (input : Text) : Text :=
  ((dropEnding? ".asm" input).orElse fun _ => dropEnding? ".s" input).getD input ++
    ".spvm"

/-- The file to write to: the one asked for, or one beside the input if nothing else is done. -/
def Flags.selectedOutput (flags : Flags) : Option Text :=
  if !flags.output.isEmpty then
    some flags.output
  else if flags.runs || flags.lists then
    none
  else
    some (imageName flags.input)

/-- What a list of arguments asks for. -/
def ofArguments (arguments : List Text) : Except UsageDefect Options :=
  if arguments.isEmpty then
    .error .noArguments
  else
    match readFlags {} arguments with
    | .error defect => .error defect
    | .ok flags =>
        if flags.input.isEmpty then
          .error .missingInput
        else
          .ok
            { input := flags.input
              output := flags.selectedOutput
              assembles := flags.assembles
              runs := flags.runs
              verbose := flags.verbose
              lists := flags.lists }

end Options

end StackCode
