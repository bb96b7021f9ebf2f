import StackCode.Command.Dialogue

namespace StackCode

/-!
# The program

The command on the files and streams of the process. What it does, and in which order,
is its dialogue; what stands here does what one call asks for and tells what came of it.
-/

namespace Terminal

/-- Write a text to the output. -/
def print (text : Text) : IO Unit := do
  IO.print text.toDisplay
  (← IO.getStdout).flush

/-- Write a line to the error output. -/
def complain (line : Text) : IO Unit :=
  IO.eprint (line ++ [CodeUnit.lineFeed]).toDisplay

/-- The fault that an error of the file system amounts to. -/
def fault : IO.Error → FileFault
  | .noFileOrDirectory .. => .missing
  | _ => .notDirectory

/-- Read a file. -/
def readFile (path : Text) : IO (Except FileFault Bytes) := do
  try
    let content ← IO.FS.readBinFile path.toDisplay
    return .ok content.toList
  catch error =>
    return .error (fault error)

/-- Write a file. -/
def writeFile (path : Text) (content : Bytes) : IO (Except FileFault Unit) := do
  try
    IO.FS.writeBinFile path.toDisplay content.toByteArray
    return .ok ()
  catch error =>
    return .error (fault error)

/-- Read a line of the input after the octets of it that have been read. -/
partial def readLine (line : Array UInt8) : IO (Option Text) := do
  let next ← (← IO.getStdin).read 1
  match next.toList with
  | [] =>
      return (Console.readLine? line.toList).map Prod.fst
  | byte :: _ =>
      let line := line.push byte
      if byte = Console.lineEnd then
        return (Console.readLine? line.toList).map Prod.fst
      else
        readLine line

/-- Do what a call asks for. -/
def serve : (request : HostCall) → IO request.Outcome
  | .read path => readFile path
  | .write path content => writeFile path content
  | .print text => print text
  | .complain line => complain line
  | .readLine => readLine #[]

/-- Follow a dialogue to its end, call by call. -/
partial def follow : Dialogue → IO Nat
  | .ended status => return status
  | .call request goOn => do follow (goOn (← serve request))
  | .running machine => follow (.ofMachine machine)
  | .asking machine => follow (.ofQuestion machine)

end Terminal

end StackCode

/-- The command line. -/
def main (arguments : List String) : IO UInt32 := do
  let arguments := arguments.map StackCode.Text.ofString
  let status ← StackCode.Terminal.follow (.ofArguments arguments)
  return status.toUInt32
