import StackCode.Annotations
import StackCode.Statement.Line
import StackCode.Text.Line
import StackCode.Text.Utf8

namespace StackCode

/-!
# Assembly

A source is assembled in one pass over its lines. A label that is used before its
definition gives a `PUSH` of zero whose address is kept as pending under the
label's name; the definition patches all addresses pending for it. A name may be
defined once, and none may be pending at the end.
-/

/-- Names with the addresses that wait for them, in the order of first use. -/
abbrev PendingTable := List (Text × List Nat)

/-- Names with the addresses that they stand for, in the order of definition. -/
abbrev LabelTable := List (Text × Nat)

/-- Why a source cannot be assembled. -/
inductive AssemblyDefect where
  /-- A line holds no statement. -/
  | statement (defect : Statement.Defect)
  /-- A name is defined again. -/
  | duplicateLabel (name : Text) (address : Nat)
  /-- Names are used and never defined. -/
  | unresolvedLabels (pending : PendingTable)
  /-- An instruction is asked for that there is not. -/
  | operand (defect : Instruction.OperandDefect)
  deriving Repr, DecidableEq

/-- A defect, the file that has it, and the line, counted from one. -/
structure AssemblyError where
  defect : AssemblyDefect
  file : Text
  line : Nat
  deriving Repr, DecidableEq

/-- The wording of one name's pending addresses. -/
def pendingText (name : Text) (addresses : List Nat) : Text :=
  Text.concat
    ["'", name, "' (referenced at ",
      Text.joined ", " (addresses.map fun (address : Nat) => addressText address), ")"]

/-- The wording of a defect. -/
def AssemblyDefect.reason : AssemblyDefect → Text
  | .statement defect => defect.reason
  | .duplicateLabel name address =>
      Text.concat
        ["label '", name, "' already defined at address ", addressText address]
  | .unresolvedLabels pending =>
      "could not resolve labels " ++
        Text.joined ", "
          (pending.map fun (name, addresses) => pendingText name addresses)
  | .operand defect => defect.reason

/-- The wording of a defect with its place; that of an operand names no place. -/
def AssemblyError.message (error : AssemblyError) : Text :=
  match error.defect with
  | .operand defect => defect.reason
  | defect =>
      Text.concat [error.file, ":", Text.ofNat error.line, ": ", defect.reason]

/-- What a source assembles to. -/
structure Assembly where
  program : Program
  annotations : Annotations
  labels : LabelTable
  deriving DecidableEq

/-- What the lines of a source so far have assembled to. -/
structure Draft where
  program : Program := #[]
  labels : LabelTable := []
  pending : PendingTable := []
  annotations : Annotations := {}
  deriving DecidableEq

namespace PendingTable

/-- Let an address wait for a name. -/
def add (name : Text) (address : Nat) : PendingTable → PendingTable
  | [] => [(name, [address])]
  | (other, addresses) :: rest =>
      if other = name then
        (other, addresses ++ [address]) :: rest
      else
        (other, addresses) :: add name address rest

/-- The addresses that wait for a name. -/
def addressesOf (name : Text) (pending : PendingTable) : List Nat :=
  (pending.lookup name).getD []

/-- Let no address wait for a name. -/
def erase (name : Text) (pending : PendingTable) : PendingTable :=
  pending.filter fun entry => entry.1 != name

end PendingTable

/--
The instructions that push a text.

The terminator zero comes first and the first code point last, so that popping
gives the code points in order and then the terminator.
-/
def stringInstructions (text : Text) : List Instruction :=
  .push 0 :: text.codePoints.reverse.map fun (point : Nat) => .push (Word.wrap point)

/-- Give the instructions at some addresses an operand. -/
def patch (program : Program) (addresses : List Nat) (operand : Word) : Program :=
  addresses.foldl
    (fun patched address => patched.modify address (Instruction.withOperand operand))
    program

namespace Draft

/-- The word for an address that the draft has reached. -/
def addressWord (address : Nat) : Word :=
  Word.wrap address

/-- Emit instructions. -/
def emit (instructions : List Instruction) (draft : Draft) : Draft :=
  { draft with program := draft.program ++ instructions }

/-- Emit the instruction that an opcode and an operand make. -/
def emitOpcode (opcode : Opcode) (operand : Option Int) (draft : Draft) :
    Except AssemblyDefect Draft :=
  match Instruction.ofOpcode opcode operand with
  | .error defect => .error (.operand defect)
  | .ok instruction => .ok (draft.emit [instruction])

/-- Let the next address wait for a name. -/
def wait (name : Text) (draft : Draft) : Draft :=
  { draft with pending := draft.pending.add name draft.program.size }

/--
Emit the instruction of an opcode and the operand that a statement gives with it.

A label stands for its address, or for zero, and waits, while that is not known.
-/
def emitInstruction (opcode : Opcode) (operand : Option Operand) (draft : Draft) :
    Except AssemblyDefect Draft :=
  match operand with
  | none => draft.emitOpcode opcode none
  | some (.word value) => draft.emitOpcode opcode (some value.toInt)
  | some (.label name) =>
      match draft.labels.lookup name with
      | some address => draft.emitOpcode opcode (some address)
      | none => (draft.wait name).emitOpcode opcode (some 0)

/-- Let a name stand for the next address, in the instructions that wait for it too. -/
def define (name : Text) (draft : Draft) : Draft :=
  let address := draft.program.size
  { program :=
      patch draft.program (draft.pending.addressesOf name) (addressWord address)
    labels := draft.labels ++ [(name, address)]
    pending := draft.pending.erase name
    annotations := draft.annotations.addLabel address name }

/-- Add a statement to a draft. -/
def add (draft : Draft) : Statement → Except AssemblyDefect Draft
  | .push operand => draft.emitInstruction .push (some operand)
  | .operate operation => draft.emitInstruction (.operate operation) none
  | .string text => .ok (draft.emit (stringInstructions text))
  | .breakpoint =>
      .ok
        { draft with
          annotations := draft.annotations.addBreakpoint draft.program.size }
  | .label name =>
      match draft.labels.lookup name with
      | some address => .error (.duplicateLabel name address)
      | none => .ok (draft.define name)

/-- Add a line to a draft. -/
def addLine (draft : Draft) (line : Text) : Except AssemblyDefect Draft :=
  match Statement.ofLine line with
  | .error defect => .error (.statement defect)
  | .ok none => .ok draft
  | .ok (some statement) => draft.add statement

/-- Add lines of a file to a draft, the first of them with a given number. -/
def addLines (file : Text) (draft : Draft) :
    Nat → List Text → Except AssemblyError Draft
  | _, [] => .ok draft
  | number, line :: rest =>
      match draft.addLine line with
      | .error defect => .error { defect := defect, file := file, line := number }
      | .ok draft => addLines file draft (number + 1) rest

/-- The assembly of a draft, if nothing is pending. -/
def finish (draft : Draft) : Except AssemblyDefect Assembly :=
  if draft.pending.isEmpty then
    .ok
      { program := draft.program
        annotations := draft.annotations
        labels := draft.labels }
  else
    .error (.unresolvedLabels draft.pending)

end Draft

namespace Assembly

/-- The file name of a source that comes from no file. -/
def unnamedFile : Text := "<input>"

/-- Assemble the lines of a file. -/
def ofLines (file : Text) (lines : List Text) : Except AssemblyError Assembly :=
  match Draft.addLines file {} 1 lines with
  | .error error => .error error
  | .ok draft =>
      match draft.finish with
      | .error defect =>
          .error { defect := defect, file := file, line := lines.length }
      | .ok assembly => .ok assembly

/-- Assemble a source text. -/
def ofSource (file : Text) (source : Text) : Except AssemblyError Assembly :=
  ofLines file source.lines

/-- Assemble the source text that a file holds in UTF-8. -/
def ofFile (file : Text) (content : Bytes) : Except AssemblyError Assembly :=
  ofSource file (Utf8.decode content)

end Assembly

end StackCode
