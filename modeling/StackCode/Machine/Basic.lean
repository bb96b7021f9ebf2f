import StackCode.Listing
import StackCode.Machine.Effect

namespace StackCode

/-!
# The machine

A machine has a program, a pointer to its next instruction, a stack and a status.
It runs until an instruction halts it or fails; a machine that has stopped stays as
it is, with the pointer after the halting instruction or at the failed one. Its
annotations decide only whether a question comes before the next instruction.
-/

/-- Whether a machine runs, and how it has stopped. -/
inductive Status where
  /-- It has not stopped. -/
  | running
  /-- It has halted with an exit code. -/
  | halted (code : Word)
  /-- It has failed. -/
  | faulted (fault : Fault)
  deriving Repr, DecidableEq

namespace Status

/-- The exit code of a machine that has stopped. -/
def exitCode? : Status → Option Word
  | .running => none
  | .halted code => some code
  | .faulted _ => some Fault.exitCode

/-- How a run has ended, once it has. -/
def result? : Status → Option (Except Fault Word)
  | .running => none
  | .halted code => some (.ok code)
  | .faulted fault => some (.error fault)

/-- What a step reports that has led to a status: whether the machine still runs. -/
def stepResult : Status → Except Fault Bool
  | .running => .ok true
  | .halted _ => .ok false
  | .faulted fault => .error fault

end Status

/-- A machine at some point of its run. -/
structure Machine where
  program : Program
  annotations : Annotations := {}
  /-- The columns of the headings in its listings. -/
  width : Int := Listing.defaultWidth
  /-- The address of its next instruction. -/
  pointer : Nat := 0
  stack : Stack := []
  status : Status := .running
  deriving DecidableEq

namespace Machine

/-- The next instruction, if the pointer has not left the program. -/
def instruction? (machine : Machine) : Option Instruction :=
  machine.program[machine.pointer]?

/-- The machine that has failed at its pointer. -/
def fail (cause : FaultCause) (machine : Machine) : Machine :=
  { machine with
    status := .faulted { cause := cause, address := machine.pointer } }

/-- The machine after its next instruction, of a given opcode, has had an effect. -/
def apply (opcode : Opcode) (effect : Effect) (machine : Machine) : Machine :=
  let machine := { machine with stack := effect.stack }
  match effect.outcome with
  | .proceed address => { machine with pointer := address }
  | .exit code =>
      { machine with pointer := machine.pointer + 1, status := .halted code }
  | .fault defect => machine.fail (.instruction opcode defect)

/-- Execute the next instruction: the machine after it, and the texts printed. -/
def executeNext (machine : Machine) : Machine × List Text :=
  match machine.instruction? with
  | none => (machine.fail .noInstruction, [])
  | some instruction =>
      let effect := instruction.execute machine.pointer machine.stack
      (machine.apply instruction.opcode effect, effect.printed)

/-- The machine whose next instruction is not to be executed. -/
def abort (machine : Machine) : Machine :=
  match machine.instruction? with
  | none => machine.fail .noInstruction
  | some instruction => machine.fail (.instruction instruction.opcode .aborted)

/-- The question at a breakpoint. -/
def questionText (address : Nat) : Text :=
  Text.concat ["breakpoint at ", addressText address, ", continue?"]

/-- Whether an answer is needed before the next instruction. -/
def stopsAtBreakpoint (machine : Machine) : Bool :=
  machine.annotations.verbose &&
    machine.instruction?.isSome &&
    machine.annotations.breaksAt machine.pointer

/-- The listing and the stack of a machine, as a debugger prints them. -/
def stateText (machine : Machine) : Text :=
  Listing.state machine.program machine.annotations (some machine.pointer)
    machine.stack.reverse machine.width

/-- Change the operand of the instruction at an address, if it has one. -/
def setOperand (address : Nat) (operand : Word) (machine : Machine) : Machine :=
  { machine with
    program :=
      machine.program.modify address (Instruction.withOperand operand) }

/-- Change a machine's annotations. -/
def mapAnnotations
    (change : Annotations → Annotations)
    (machine : Machine) :
    Machine :=
  { machine with annotations := change machine.annotations }

end Machine

end StackCode
