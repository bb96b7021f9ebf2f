import StackCode.Instruction.Codec

namespace StackCode

/-!
# Program images

An image is five octets that spell `.SPVM`, the number of instructions in eight
octets, little-endian, and the instructions one after the other. Annotations are
not part of it, and octets after the last instruction have no meaning.
-/

namespace Image

/-- The octets that every image begins with. -/
def magic : Bytes := [0x2E, 0x53, 0x50, 0x56, 0x4D]

/-- The octets of the instruction count. -/
def countSize : Nat := 8

/-- The octets before the first instruction. -/
def headerSize : Nat := magic.length + countSize

/-- The image of a program. -/
def encode (program : Program) : Bytes :=
  magic ++ LittleEndian.encode countSize program.size ++
    program.toList.flatMap Instruction.encode

/-- Why octets are no image. -/
inductive Defect where
  /-- They do not begin with the magic octets. -/
  | wrongFormat
  /-- They end before the instruction count does. -/
  | truncatedHeader
  /-- They could not hold as many instructions even if none had an operand. -/
  | tooShort (declared : Nat)
  /-- Some instruction cannot be read. -/
  | record (error : DecodeError)
  deriving Repr, DecidableEq

/-- The wording of a defect. -/
def Defect.reason : Defect → Text
  | .wrongFormat => "wrong file format"
  | .truncatedHeader => "truncated header"
  | .tooShort declared =>
      Text.concat
        ["header declares ", Text.ofNat declared,
          " instructions but the file is too short"]
  | .record error => error.message

/-- A defect and the name of the file that has it, if it has one. -/
structure LoadError where
  defect : Defect
  file : Option Text
  deriving Repr, DecidableEq

/-- The wording of a load error. -/
def LoadError.message (error : LoadError) : Text :=
  match error.file with
  | none => error.defect.reason
  | some file => Text.concat [file, ": ", error.defect.reason]

/-- Read a number of instructions that begin at a given offset of the image. -/
def decodeRecords :
    Nat → Nat → Bytes → Except DecodeError (List Instruction)
  | 0, _, _ => .ok []
  | count + 1, offset, bytes =>
      match Instruction.decode bytes with
      | .error defect => .error { defect := defect, offset := offset }
      | .ok (instruction, rest) =>
          (instruction :: ·) <$>
            decodeRecords count (offset + instruction.encodedSize) rest

/-- The instruction count that stands after the magic octets. -/
def declaredCount (bytes : Bytes) : Nat :=
  LittleEndian.decode ((bytes.drop magic.length).take countSize)

/-- The program of an image. -/
def decode (bytes : Bytes) : Except Defect Program :=
  if bytes.take magic.length ≠ magic then
    .error .wrongFormat
  else if bytes.length < headerSize then
    .error .truncatedHeader
  else if (bytes.length - headerSize) / Instruction.opcodeSize < declaredCount bytes then
    .error (.tooShort (declaredCount bytes))
  else
    match decodeRecords (declaredCount bytes) headerSize (bytes.drop headerSize) with
    | .error error => .error (.record error)
    | .ok instructions => .ok instructions.toArray

/-- The program of an image that a file holds. -/
def load (file : Option Text) (bytes : Bytes) : Except LoadError Program :=
  match decode bytes with
  | .error defect => .error { defect := defect, file := file }
  | .ok program => .ok program

end Image

end StackCode
