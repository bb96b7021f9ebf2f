import StackCode.Word

namespace StackCode

/-!
# Instructions

Fourteen operations take their inputs from the stack and carry nothing; the
fifteenth instruction, `PUSH`, carries the word that it pushes. An opcode is an
instruction without that word. Every opcode has a number, which only the binary
form uses, and a mnemonic, which only texts use.
-/

/-- What an instruction without an operand does. -/
inductive Operation where
  /-- Drop the top value. -/
  | pop
  /-- Push the top value once more. -/
  | duplicate
  /-- Exchange the two top values. -/
  | swap
  /-- Jump to the top value if the value below it is zero. -/
  | jumpIfZero
  /-- Jump to the top value if the value below it is not zero. -/
  | jumpIfNonzero
  /-- Jump to the top value. -/
  | jump
  /-- Replace the two top values by their sum. -/
  | add
  /-- Replace the two top values by the top one less the one below. -/
  | subtract
  /-- Replace the two top values by their product. -/
  | multiply
  /-- Replace the two top values by the top one divided by the one below. -/
  | divide
  /-- Halt with the top value as exit code, or with zero if there is none. -/
  | exit
  /-- Print the top value in decimal on a line of its own. -/
  | printNumber
  /-- Replace the top value by the address of the next instruction and jump to it. -/
  | call
  /-- Print the values down to the first zero as code points. -/
  | printString
  deriving Repr, DecidableEq

/-- An instruction without its operand. -/
inductive Opcode where
  /-- Push the operand. -/
  | push
  /-- Operate on the stack. -/
  | operate (operation : Operation)
  deriving Repr, DecidableEq

/-- One instruction of a program. -/
inductive Instruction where
  /-- Push a word. -/
  | push (operand : Word)
  /-- Operate on the stack. -/
  | operate (operation : Operation)
  deriving Repr, DecidableEq

/-- A program: its instructions, each at the address that is its index. -/
abbrev Program := Array Instruction

instance : Inhabited Instruction where
  default := .push 0

namespace Operation

/-- Every operation, in the order of the opcode numbers. -/
def all : List Operation :=
  [.pop, .duplicate, .swap, .jumpIfZero, .jumpIfNonzero, .jump, .add, .subtract,
    .multiply, .divide, .exit, .printNumber, .call, .printString]

/-- The mnemonic of an operation. -/
def mnemonic : Operation → Text
  | .pop => "POP"
  | .duplicate => "DUP"
  | .swap => "SWAP"
  | .jumpIfZero => "JZ"
  | .jumpIfNonzero => "JNZ"
  | .jump => "JMP"
  | .add => "ADD"
  | .subtract => "SUB"
  | .multiply => "MUL"
  | .divide => "DIV"
  | .exit => "EXIT"
  | .printNumber => "PRINTOUT"
  | .call => "CALL"
  | .printString => "PRINTSTR"

/-- The opcode number of an operation. -/
def number : Operation → Nat
  | .pop => 1
  | .duplicate => 2
  | .swap => 3
  | .jumpIfZero => 4
  | .jumpIfNonzero => 5
  | .jump => 6
  | .add => 7
  | .subtract => 8
  | .multiply => 9
  | .divide => 10
  | .exit => 11
  | .printNumber => 12
  | .call => 13
  | .printString => 14

end Operation

namespace Opcode

/-- Every opcode, in the order of the numbers. -/
def all : List Opcode :=
  .push :: Operation.all.map .operate

/-- The number that stands for an opcode in the binary form. -/
def number : Opcode → Nat
  | .push => 0
  | .operate operation => operation.number

/-- The name of an opcode in texts. -/
def mnemonic : Opcode → Text
  | .push => "PUSH"
  | .operate operation => operation.mnemonic

/-- The opcode with a given number. -/
def ofNumber? (number : Nat) : Option Opcode :=
  all.find? fun opcode => opcode.number == number

/-- The opcode with a given mnemonic; the case of letters matters. -/
def ofMnemonic? (mnemonic : Text) : Option Opcode :=
  all.find? fun opcode => opcode.mnemonic == mnemonic

/-- The list of opcodes is complete. -/
theorem mem_all (opcode : Opcode) : opcode ∈ all := by
  rcases opcode with _ | operation
  · exact List.mem_cons_self
  · cases operation <;> decide

/-- An opcode is found under its number. -/
@[simp] theorem ofNumber?_number (opcode : Opcode) :
    ofNumber? opcode.number = some opcode := by
  rcases opcode with _ | operation
  · rfl
  · cases operation <;> rfl

/-- An opcode is found under its mnemonic. -/
@[simp] theorem ofMnemonic?_mnemonic (opcode : Opcode) :
    ofMnemonic? opcode.mnemonic = some opcode := by
  rcases opcode with _ | operation
  · decide
  · cases operation <;> decide

/-- Only an opcode's own number finds it. -/
theorem number_of_ofNumber?
    {number : Nat}
    {opcode : Opcode}
    (found : ofNumber? number = some opcode) :
    opcode.number = number := by
  have matches' := List.find?_some found
  simpa using matches'

/-- Only an opcode's own mnemonic finds it. -/
theorem mnemonic_of_ofMnemonic?
    {mnemonic : Text}
    {opcode : Opcode}
    (found : ofMnemonic? mnemonic = some opcode) :
    opcode.mnemonic = mnemonic := by
  have matches' := List.find?_some found
  simpa using matches'

end Opcode

namespace Instruction

/-- The opcode of an instruction. -/
def opcode : Instruction → Opcode
  | .push _ => .push
  | .operate operation => .operate operation

/-- The instruction with another operand, if it carries one at all. -/
def withOperand (operand : Word) : Instruction → Instruction
  | .push _ => .push operand
  | .operate operation => .operate operation

/-- Why an opcode and an operand make no instruction. -/
inductive OperandDefect where
  /-- `PUSH` stands without an operand. -/
  | missing
  /-- An operation stands with one. -/
  | superfluous (operation : Operation)
  deriving Repr, DecidableEq

/-- The wording of an operand's defect. -/
def OperandDefect.reason : OperandDefect → Text
  | .missing => "`PUSH` expects one argument"
  | .superfluous operation =>
      Text.concat ["`", operation.mnemonic, "` takes no argument"]

/--
The instruction of an opcode and the operand given with it.

An operand of any size is reduced to the word congruent to it.
-/
def ofOpcode : Opcode → Option Int → Except OperandDefect Instruction
  | .push, none => .error .missing
  | .push, some operand => .ok (.push (Word.wrap operand))
  | .operate operation, none => .ok (.operate operation)
  | .operate operation, some _ => .error (.superfluous operation)

/-- The columns that a mnemonic fills in a listing before an operand. -/
def mnemonicColumns : Nat := 10

/-- An instruction as a listing shows it. -/
def listingText : Instruction → Text
  | .push operand =>
      (Opcode.push.mnemonic).padRight mnemonicColumns ++ Word.text operand
  | .operate operation => operation.mnemonic

/-- An instruction as a source line spells it. -/
def sourceText : Instruction → Text
  | .push operand =>
      Opcode.push.mnemonic ++ CodeUnit.space :: Word.text operand
  | .operate operation => operation.mnemonic

end Instruction

end StackCode
