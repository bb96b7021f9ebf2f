import StackCode.Instruction.Basic
import StackCode.LittleEndian

namespace StackCode

/-!
# Instructions as octets

An instruction is its opcode number in two octets and, for `PUSH`, the operand in
eight more, both little-endian. `Instruction.decode` reads one instruction off the
front of a sequence of octets; `Instruction.decodeAt` and `Instruction.writeAt`
work at an offset of a larger one.
-/

/-- Why no instruction can be read at some place. -/
inductive DecodeDefect where
  /-- Fewer than two octets are left. -/
  | truncatedInstruction
  /-- The number stands for no opcode. -/
  | unknownOpcode (number : Nat)
  /-- Fewer than eight octets are left for the operand. -/
  | truncatedOperand
  deriving Repr, DecidableEq

/-- A defect and the offset of the instruction that has it. -/
structure DecodeError where
  defect : DecodeDefect
  offset : Nat
  deriving Repr, DecidableEq

/-- The wording of a defect. -/
def DecodeDefect.reason : DecodeDefect → Text
  | .truncatedInstruction => "Truncated instruction"
  | .unknownOpcode number =>
      Text.concat ["no such opcode `", Text.ofNat number, "`"]
  | .truncatedOperand => "Truncated operand for `PUSH`"

/-- The wording of a defect with its place. -/
def DecodeError.message (error : DecodeError) : Text :=
  Text.concat [error.defect.reason, " at byte ", Text.ofNat error.offset]

namespace Bytes

/-- A number of octets off the front and those after them, if there are as many. -/
def splitAt? (count : Nat) (bytes : Bytes) : Option (Bytes × Bytes) :=
  if (bytes.take count).length = count then
    some (bytes.take count, bytes.drop count)
  else
    none

/-- Splitting cuts octets in two and loses none. -/
theorem splitAt?_eq_some_iff
    {count : Nat}
    {bytes front rest : Bytes} :
    splitAt? count bytes = some (front, rest) ↔
      bytes = front ++ rest ∧ front.length = count := by
  unfold splitAt?
  constructor
  · intro split
    by_cases enough : (bytes.take count).length = count
    · rw [if_pos enough] at split
      simp only [Option.some.injEq, Prod.mk.injEq] at split
      rw [← split.1, ← split.2]
      exact ⟨(List.take_append_drop count bytes).symm, enough⟩
    · rw [if_neg enough] at split
      exact absurd split (by simp)
  · rintro ⟨rfl, rfl⟩
    simp

/-- Splitting fails exactly where octets are lacking. -/
theorem splitAt?_eq_none_iff
    {count : Nat}
    {bytes : Bytes} :
    splitAt? count bytes = none ↔ bytes.length < count := by
  unfold splitAt?
  by_cases enough : (bytes.take count).length = count
  · have := enough
    rw [List.length_take] at this
    simp only [enough, if_true, reduceCtorEq, false_iff, Nat.not_lt]
    omega
  · have := enough
    rw [List.length_take] at this
    simp only [enough, if_false, true_iff]
    omega

/--
Replace octets from an offset on; refused where the new ones would reach beyond
the end.
-/
def overwrite?
    (bytes : Bytes)
    (offset : Nat)
    (piece : Bytes) :
    Option Bytes :=
  if offset + piece.length ≤ bytes.length then
    some (bytes.take offset ++ piece ++ bytes.drop (offset + piece.length))
  else
    none

end Bytes

namespace Instruction

/-- The octets that an opcode number takes. -/
def opcodeSize : Nat := 2

/-- The octets that an operand takes. -/
def operandSize : Nat := 8

/-- The octets of an instruction's opcode number. -/
def encodeOpcode (instruction : Instruction) : Bytes :=
  LittleEndian.encode opcodeSize instruction.opcode.number

/-- The octets of an instruction's operand; none for an operation. -/
def encodeOperand : Instruction → Bytes
  | .push operand => LittleEndian.encode operandSize (Word.pattern operand)
  | .operate _ => []

/-- The octets of an instruction. -/
def encode (instruction : Instruction) : Bytes :=
  instruction.encodeOpcode ++ instruction.encodeOperand

/-- The number of octets of an instruction. -/
def encodedSize : Instruction → Nat
  | .push _ => opcodeSize + operandSize
  | .operate _ => opcodeSize

/-- Encoding takes exactly the stated number of octets. -/
@[simp] theorem length_encode (instruction : Instruction) :
    instruction.encode.length = instruction.encodedSize := by
  cases instruction <;>
    simp [encode, encodeOpcode, encodeOperand, encodedSize]

/-- Read the operand of a `PUSH` off the front: the instruction and the octets after it. -/
def decodeOperand (bytes : Bytes) : Except DecodeDefect (Instruction × Bytes) :=
  match Bytes.splitAt? operandSize bytes with
  | none => .error .truncatedOperand
  | some (operand, rest) =>
      .ok (.push (Word.ofPattern (LittleEndian.decode operand)), rest)

/-- Read one instruction off the front: the instruction and the octets after it. -/
def decode (bytes : Bytes) : Except DecodeDefect (Instruction × Bytes) :=
  match Bytes.splitAt? opcodeSize bytes with
  | none => .error .truncatedInstruction
  | some (number, rest) =>
      match Opcode.ofNumber? (LittleEndian.decode number) with
      | none => .error (.unknownOpcode (LittleEndian.decode number))
      | some .push => decodeOperand rest
      | some (.operate operation) => .ok (.operate operation, rest)

/-- Read the instruction at an offset: the instruction and the octets it takes. -/
def decodeAt
    (bytes : Bytes)
    (offset : Nat) :
    Except DecodeError (Instruction × Nat) :=
  match decode (bytes.drop offset) with
  | .error defect => .error { defect := defect, offset := offset }
  | .ok (instruction, _) => .ok (instruction, instruction.encodedSize)

/-- A write that would reach beyond the end of a buffer. -/
structure OutOfBounds where
  deriving Repr, DecidableEq

/-- The wording of a write beyond the end. -/
def OutOfBounds.message (_ : OutOfBounds) : Text :=
  "Offset is outside the bounds of the DataView"

/--
Write an instruction into a buffer: the number of octets written, or a refusal,
and the buffer afterwards.

The opcode number is written before the operand, so where only the number fits the
write is refused and the number stays in the buffer.
-/
def writeAt
    (buffer : Bytes)
    (offset : Nat)
    (instruction : Instruction) :
    Except OutOfBounds Nat × Bytes :=
  match Bytes.overwrite? buffer offset instruction.encodeOpcode with
  | none => (.error {}, buffer)
  | some withOpcode =>
      match Bytes.overwrite? withOpcode (offset + opcodeSize)
          instruction.encodeOperand with
      | none => (.error {}, withOpcode)
      | some written => (.ok instruction.encodedSize, written)

end Instruction

end StackCode
