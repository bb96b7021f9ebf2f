import StackCode.Address
import StackCode.Instruction.Basic

namespace StackCode

/-!
# What one instruction does

`Instruction.execute` takes an instruction, its address and a stack to the stack
afterwards, the texts printed, and what happens next. The stack's top is its first
value. An instruction that lacks a value has taken all there were; one that refuses
a value has taken it and the others it works on, and what it printed before stays
printed.
-/

/-- The values of a machine, the top one first. -/
abbrev Stack := List Word

/-- Why an instruction cannot be completed. -/
inductive InstructionDefect where
  /-- The answer at its breakpoint was not to go on. -/
  | aborted
  /-- The stack holds fewer values than it takes. -/
  | notEnoughValues
  /-- It divides by zero. -/
  | divisionByZero
  /-- It jumps to what is no address. -/
  | invalidTarget (target : Word)
  /-- It prints what is no code point. -/
  | invalidCharacter (value : Word)
  deriving Repr, DecidableEq

/-- Why a machine fails. -/
inductive FaultCause where
  /-- There is no instruction at its pointer. -/
  | noInstruction
  /-- The instruction at its pointer cannot be completed. -/
  | instruction (opcode : Opcode) (defect : InstructionDefect)
  deriving Repr, DecidableEq

/-- A failure and the address that the machine's pointer has. -/
structure Fault where
  cause : FaultCause
  address : Nat
  deriving Repr, DecidableEq

namespace Fault

/-- The exit code of every machine that has failed. -/
def exitCode : Word := 255

/-- The mnemonic of the instruction that failed, if there was one. -/
def mnemonic? (fault : Fault) : Option Text :=
  match fault.cause with
  | .noInstruction => none
  | .instruction opcode _ => some opcode.mnemonic

/-- The wording of a failure. -/
def reason (fault : Fault) : Text :=
  match fault.cause with
  | .noInstruction => "no instruction left"
  | .instruction _ .aborted => "aborted at breakpoint"
  | .instruction opcode .notEnoughValues =>
      Text.concat ["not enough values on stack for `", opcode.mnemonic, "`"]
  | .instruction _ .divisionByZero => "division by zero"
  | .instruction _ (.invalidTarget target) =>
      Text.concat ["invalid jump target ", Word.text target]
  | .instruction _ (.invalidCharacter value) =>
      Text.concat ["invalid character ", Word.text value]

/-- The wording of a failure with its address. -/
def message (fault : Fault) : Text :=
  Text.concat ["(@", addressText fault.address, ") ", fault.reason]

end Fault

/-- What happens after an instruction. -/
inductive Outcome where
  /-- The instruction at an address is next. -/
  | proceed (address : Nat)
  /-- The machine halts. -/
  | exit (code : Word)
  /-- The machine fails. -/
  | fault (defect : InstructionDefect)
  deriving Repr, DecidableEq

/-- What an instruction leaves behind. -/
structure Effect where
  stack : Stack
  printed : List Text := []
  outcome : Outcome
  deriving Repr, DecidableEq

/-- The greatest address that a jump may have as its target. -/
def greatestTarget : Int := 0x1FFFFFFFFFFFFF

/-- The greatest code point that can be printed. -/
def greatestCodePoint : Int := 0x10FFFF

namespace Word

/-- The address that a value stands for as a jump's target. -/
def target? (value : Word) : Option Nat :=
  if 0 ≤ value.toInt ∧ value.toInt ≤ greatestTarget then
    some value.toInt.toNat
  else
    none

/-- The code point that a value stands for. -/
def codePoint? (value : Word) : Option Nat :=
  if 0 ≤ value.toInt ∧ value.toInt ≤ greatestCodePoint then
    some value.toInt.toNat
  else
    none

end Word

namespace Effect

/-- Go on at an address. -/
def goTo (address : Nat) (stack : Stack) : Effect where
  stack := stack
  outcome := .proceed address

/-- Fail. -/
def fail (defect : InstructionDefect) (stack : Stack) : Effect where
  stack := stack
  outcome := .fault defect

/-- Jump to the address that a value stands for. -/
def jump (target : Word) (stack : Stack) : Effect :=
  match Word.target? target with
  | some address => goTo address stack
  | none => fail (.invalidTarget target) stack

/-- Print values as code points down to the first zero, and go on at an address. -/
def printString (next : Nat) : Stack → Effect
  | [] => fail .notEnoughValues []
  | value :: rest =>
      if value = 0 then
        goTo next rest
      else
        match Word.codePoint? value with
        | none => fail (.invalidCharacter value) rest
        | some point =>
            let effect := printString next rest
            { effect with
              printed := Text.ofCodePoint point :: effect.printed }

end Effect

namespace Operation

/-- Execute an operation at an address on a stack. -/
def execute (operation : Operation) (address : Nat) (stack : Stack) : Effect :=
  let next := address + 1
  match operation, stack with
  | .pop, _ :: rest => .goTo next rest
  | .duplicate, value :: rest => .goTo next (value :: value :: rest)
  | .swap, top :: second :: rest => .goTo next (second :: top :: rest)
  | .jumpIfZero, target :: condition :: rest =>
      if condition = 0 then .jump target rest else .goTo next rest
  | .jumpIfNonzero, target :: condition :: rest =>
      if condition ≠ 0 then .jump target rest else .goTo next rest
  | .jump, target :: rest => .jump target rest
  | .add, top :: second :: rest => .goTo next ((top + second) :: rest)
  | .subtract, top :: second :: rest => .goTo next ((top - second) :: rest)
  | .multiply, top :: second :: rest => .goTo next ((top * second) :: rest)
  | .divide, top :: second :: rest =>
      if second = 0 then
        .fail .divisionByZero rest
      else
        .goTo next ((top / second) :: rest)
  | .exit, [] => { stack := [], outcome := .exit 0 }
  | .exit, code :: rest => { stack := rest, outcome := .exit code }
  | .printNumber, value :: rest =>
      { stack := rest
        printed := [Word.text value ++ [CodeUnit.lineFeed]]
        outcome := .proceed next }
  | .call, target :: rest => .jump target (Word.wrap next :: rest)
  | .printString, stack => .printString next stack
  | _, _ => .fail .notEnoughValues []

end Operation

namespace Instruction

/-- Execute an instruction at an address on a stack. -/
def execute (instruction : Instruction) (address : Nat) (stack : Stack) :
    Effect :=
  match instruction with
  | .push operand => .goTo (address + 1) (operand :: stack)
  | .operate operation => operation.execute address stack

end Instruction

end StackCode
