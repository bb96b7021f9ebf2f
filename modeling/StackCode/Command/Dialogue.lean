import StackCode.Command.Basic

namespace StackCode

/-!
# The dialogue of the command with its host

A command that runs on files and streams which are not at hand calls its host for each
thing that it has to do with them, and goes on by what the host tells. `Dialogue` is what
it does next, and `Dialogue.ofArguments` is what it does from the beginning. The calls
come in the order in which `Command.run` does the same things to a host that is a value.
A machine that is run may never stop, so a dialogue holds the machine and is continued
from it by `Dialogue.ofMachine`, one instruction at a time.
-/

/-- Something that a host is called to do. -/
inductive HostCall where
  /-- Read a file. -/
  | read (path : Text)
  /-- Write a file. -/
  | write (path : Text) (content : Bytes)
  /-- Write to the output. -/
  | print (text : Text)
  /-- Write a line to the error output. -/
  | complain (line : Text)
  /-- Read a line of the input. -/
  | readLine

/-- What a host tells once it has done what it was called to do. -/
def HostCall.Outcome : HostCall → Type
  | .read _ => Except FileFault Bytes
  | .write _ _ => Except FileFault Unit
  | .print _ => Unit
  | .complain _ => Unit
  | .readLine => Option Text

/-- What a command does next. -/
inductive Dialogue where
  /-- It ends. -/
  | ended (status : Nat)
  /-- It calls its host, and goes on by what that tells. -/
  | call (request : HostCall) (goOn : request.Outcome → Dialogue)
  /-- It runs a machine. -/
  | running (machine : Machine)
  /-- It asks whether a machine that has been shown is to go on. -/
  | asking (machine : Machine)

namespace Dialogue

/-- Write texts to the output, one after the other. -/
def printAll (texts : List Text) (rest : Dialogue) : Dialogue :=
  texts.foldr (fun text later => .call (.print text) fun _ => later) rest

/-- Write a line to the output. -/
def printLine (line : Text) (rest : Dialogue) : Dialogue :=
  .call (.print (line ++ [CodeUnit.lineFeed])) fun _ => rest

/-- Report a failure and end. -/
def fail (error : Failure) : Dialogue :=
  .call (.complain error.report) fun _ => .ended Command.failure

/-- Execute the next instruction of a machine. -/
def execute (machine : Machine) : Dialogue :=
  let (machine, printed) := machine.executeNext
  printAll printed (.running machine)

/-- Run a machine on: one instruction, or a question before it, or its end. -/
def ofMachine (machine : Machine) : Dialogue :=
  match machine.status.result? with
  | some (.ok code) =>
      printLine (Command.exitText code) (.ended Command.success)
  | some (.error fault) => fail (.execution fault)
  | none =>
      if machine.stopsAtBreakpoint then
        .call (.print machine.stateText) fun _ => .asking machine
      else
        execute machine

/-- Do what an answer says about a machine, or ask again if it is not understood. -/
def ofAnswer (machine : Machine) : Answer → Dialogue
  | .proceed => execute machine
  | .abort => .running machine.abort
  | .unclear => .call (.print Console.complaint) fun _ => .asking machine

/-- Ask whether a machine is to go on. -/
def ofQuestion (machine : Machine) : Dialogue :=
  let question := Machine.questionText machine.pointer
  .call (.print (Console.promptText question)) fun _ =>
    .call .readLine fun (line : Option Text) =>
      ofAnswer machine (Answer.ofInput line)

/-- Run a program if it is asked for; a verbose machine is shown first. -/
def finish (options : Options) (loaded : Loaded) : Dialogue :=
  if options.runs then
    if loaded.annotations.verbose then
      .call (.print loaded.machine.stateText) fun _ => .running loaded.machine
    else
      .running loaded.machine
  else
    .ended Command.success

/-- Write a program's image if it is asked for, and go on. -/
def save (options : Options) (loaded : Loaded) : Dialogue :=
  match options.output with
  | none => finish options loaded
  | some path =>
      .call (.write path (Image.encode loaded.program))
        fun (written : Except FileFault Unit) =>
          match written with
          | .error fault => fail (.file (.ofFault FileError.writing path fault))
          | .ok () =>
              printLine (Command.savedText loaded.program path)
                (finish options loaded)

/-- List a program if it is asked for, and go on. -/
def list (options : Options) (loaded : Loaded) : Dialogue :=
  if options.lists then
    printLine (Command.listingText loaded) (save options loaded)
  else
    save options loaded

/-- Do what the options ask for. -/
def ofOptions (options : Options) : Dialogue :=
  .call (.read options.input) fun (content : Except FileFault Bytes) =>
    match Loaded.ofInput options content with
    | .error error => fail error
    | .ok loaded => list options loaded

/-- Explain the arguments, after a complaint if they are defective, and end. -/
def explain (defect : UsageDefect) (status : Nat) : Dialogue :=
  let explained := printLine Command.usage (.ended status)
  match defect.complaint? with
  | none => explained
  | some complaint => .call (.complain complaint) fun _ => explained

/-- The command from its beginning. -/
def ofArguments (arguments : List Text) : Dialogue :=
  match Options.ofArguments arguments with
  | .error defect => explain defect (Command.usageStatus arguments)
  | .ok options => ofOptions options

end Dialogue

end StackCode
