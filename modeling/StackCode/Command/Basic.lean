import StackCode.Assembly
import StackCode.Command.Options
import StackCode.Console
import StackCode.FileStore
import StackCode.Image

namespace StackCode

/-!
# The command

The command loads a program, lists it, writes its image and runs it, as far as its
arguments ask for, in this order, and stops at the first failure. `Command.perform`
does so for a host, the files and streams that the command has to do with, and gives
the status it ends with: zero if all went well, one otherwise.
-/

/-- What can go wrong after the arguments have been understood. -/
inductive Failure where
  /-- The input cannot be assembled. -/
  | assembly (error : AssemblyError)
  /-- The input is no image. -/
  | image (error : Image.LoadError)
  /-- A file cannot be read or written. -/
  | file (error : FileError)
  /-- The program fails while it runs. -/
  | execution (fault : Fault)
  deriving Repr, DecidableEq

namespace Failure

/-- The name of a failure's kind. -/
def name : Failure → Text
  | .assembly { defect := .unresolvedLabels _, .. } => "UnresolvedLabelError"
  | .assembly { defect := .operand _, .. } => "Error"
  | .assembly _ => "ParseError"
  | .image _ => "LoadError"
  | .file _ => "FileError"
  | .execution _ => "ExecutionFault"

/-- The wording of a failure. -/
def message : Failure → Text
  | .assembly error => error.message
  | .image error => error.message
  | .file error => error.message
  | .execution fault => fault.message

/-- The line that reports a failure. -/
def report (failure : Failure) : Text :=
  Text.concat [failure.name, ": ", failure.message]

end Failure

/-- A program with its annotations. -/
structure Loaded where
  program : Program
  annotations : Annotations := {}
  deriving DecidableEq

namespace Loaded

/-- Assemble the source that a read of a path has given. -/
def ofSourceFile (path : Text) (content : Except FileFault Bytes) :
    Except Failure Assembly :=
  match content with
  | .error fault => .error (.file (.ofFault FileError.reading path fault))
  | .ok content =>
      match Assembly.ofFile path content with
      | .error error => .error (.assembly error)
      | .ok assembly => .ok assembly

/-- Decode the image that a read of a path has given. -/
def ofImageFile (path : Text) (content : Except FileFault Bytes) :
    Except Failure Program :=
  match content with
  | .error fault => .error (.file (.ofFault FileError.reading path fault))
  | .ok content =>
      match Image.load (some path) content with
      | .error error => .error (.image error)
      | .ok program => .ok program

/-- The program that the options ask for, from what a read of the input has given. -/
def ofInput (options : Options) (content : Except FileFault Bytes) :
    Except Failure Loaded :=
  if options.assembles then
    match ofSourceFile options.input content with
    | .error failure => .error failure
    | .ok assembly =>
        .ok
          { program := assembly.program
            annotations := assembly.annotations.setVerbose options.verbose }
  else
    match ofImageFile options.input content with
    | .error failure => .error failure
    | .ok program =>
        .ok
          { program := program
            annotations := ({} : Annotations).setVerbose options.verbose }

/-- The machine that is about to run a program. -/
def machine (loaded : Loaded) : Machine where
  program := loaded.program
  annotations := loaded.annotations

end Loaded

/-- Write the image of a program to a path. -/
def FileStore.saveProgram (store : FileStore) (path : Text) (program : Program) :
    Except Failure FileStore :=
  match store.write path (Image.encode program) with
  | .error fault => .error (.file (.ofFault FileError.writing path fault))
  | .ok store => .ok store

/-- The files and streams that the command has to do with. -/
structure Host where
  files : FileStore
  /-- The input that has not been read. -/
  input : Bytes := []
  /-- What has been written to the output, write by write. -/
  output : Array Text := #[]
  /-- What has been written to the error output, write by write. -/
  errors : Array Text := #[]

namespace Host

/-- Write to the output. -/
def write (text : Text) (host : Host) : Host :=
  { host with output := host.output.push text }

/-- Write a line to the output. -/
def writeLine (line : Text) (host : Host) : Host :=
  host.write (line ++ [CodeUnit.lineFeed])

/-- Write a line to the error output. -/
def complain (line : Text) (host : Host) : Host :=
  { host with errors := host.errors.push (line ++ [CodeUnit.lineFeed]) }

end Host

namespace Command

/-- The text that explains the arguments. -/
def usage : Text :=
  Text.joined [CodeUnit.lineFeed]
    ["SPVM stack machine",
      "",
      "Usage: spvm <file> [options]",
      "",
      "Options:",
      "  -a, --assemble       Input is assembly source (default: .SPVM binary)",
      "  -r, --run            Run the program",
      "  -v, --verbose        Print listings and stop at breakpoints",
      "  -d, --disassemble    Print the program listing",
      "  -o, --output <file>  Write the program as a .SPVM binary",
      "  -h, --help           Show this help message",
      "",
      "Examples:",
      "  spvm hello.asm -a -r",
      "  spvm hello.asm -a -o hello.spvm",
      "  spvm hello.spvm -r -v"]

/-- The status of a command that has done what it was asked for. -/
def success : Nat := 0

/-- The status of a command that has not. -/
def failure : Nat := 1

/-- The status of arguments that ask for nothing: help among them makes it a success. -/
def usageStatus (arguments : List Text) : Nat :=
  if arguments.any Options.asksForHelp then success else failure

/-- The line that tells that an image has been written. -/
def savedText (program : Program) (path : Text) : Text :=
  Text.concat
    ["Wrote ", Text.ofNat program.size, " instructions to ", path]

/-- The line that tells how a program has ended. -/
def exitText (code : Word) : Text :=
  Text.concat ["[simulation exited with code ", Word.text code, "]"]

/-- The listing of a program that has not begun to run. -/
def listingText (loaded : Loaded) : Text :=
  Text.joined [CodeUnit.lineFeed]
    (Listing.program loaded.program loaded.annotations none)

/-- What an event writes to the output, if anything. -/
def eventText? : Event → Option Text
  | .printed text => some text
  | .listed text => some text
  | .written text => some text
  | .asked _ _ => none

/-- Explain the arguments, after a complaint if they are defective. -/
def explain (defect : UsageDefect) (host : Host) : Host :=
  let host :=
    match defect.complaint? with
    | none => host
    | some complaint => host.complain complaint
  host.writeLine usage

/-- List a program if it is asked for. -/
def list (options : Options) (loaded : Loaded) (host : Host) : Host :=
  if options.lists then host.writeLine (listingText loaded) else host

/-- Write a program's image if it is asked for. -/
def save (options : Options) (loaded : Loaded) (host : Host) :
    Except Failure Host :=
  match options.output with
  | none => .ok host
  | some path =>
      match host.files.saveProgram path loaded.program with
      | .error failure => .error failure
      | .ok files =>
          .ok
            ({ host with files := files }.writeLine
              (savedText loaded.program path))

/-- Run a program: its exit code or its fault, and the host afterwards. -/
def simulate (fuel : Nat) (loaded : Loaded) (host : Host) :
    Option (Except Fault Word × Host) :=
  let session : Session Console :=
    { machine := loaded.machine, respondent := { unread := host.input } }
  match session.run fuel with
  | none => none
  | some (result, session) =>
      some
        (result,
          { host with
            input := session.respondent.unread
            output := host.output ++ session.log.toList.filterMap eventText? })

/-- Run a program if it is asked for, and tell how it has ended. -/
def finish (fuel : Nat) (options : Options) (loaded : Loaded) (host : Host) :
    Option (Nat × Host) :=
  if options.runs then
    match simulate fuel loaded host with
    | none => none
    | some (.ok code, host) => some (success, host.writeLine (exitText code))
    | some (.error fault, host) =>
        some (failure, host.complain (Failure.execution fault).report)
  else
    some (success, host)

/-- Do what the options ask for. -/
def perform (fuel : Nat) (options : Options) (host : Host) :
    Option (Nat × Host) :=
  match Loaded.ofInput options (host.files.read options.input) with
  | .error error => some (failure, host.complain error.report)
  | .ok loaded =>
      let host := list options loaded host
      match save options loaded host with
      | .error error => some (failure, host.complain error.report)
      | .ok host => finish fuel options loaded host

/--
The command: its status and the host afterwards.

Nothing is said if the program still runs after a given number of instructions.
-/
def run (fuel : Nat) (arguments : List Text) (host : Host) :
    Option (Nat × Host) :=
  match Options.ofArguments arguments with
  | .error defect => some (usageStatus arguments, explain defect host)
  | .ok options => perform fuel options host

end Command

end StackCode
