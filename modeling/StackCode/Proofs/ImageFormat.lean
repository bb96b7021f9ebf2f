import StackCode.Image

namespace StackCode

/-!
# The image format is exact

Reading an instruction off octets and writing it are inverse in both directions:
what is written is read back whatever follows it, and what is read is what stood
there, octet for octet. Both facts carry over to sequences of instructions and
then to images, so a program is read from octets exactly where its image begins
them.
-/

namespace LittleEndian

/-- A number within the capacity of its octets is read back from them. -/
theorem decode_encode_of_lt
    {count value : Nat}
    (fits : value < capacity count) :
    decode (encode count value) = value := by
  rw [decode_encode, Nat.mod_eq_of_lt fits]

/-- Octets of a given count are what their number is written as. -/
theorem encode_decode_of_length
    {bytes : Bytes}
    {count : Nat}
    (length : bytes.length = count) :
    encode count (decode bytes) = bytes := by
  rw [← length, encode_decode]

end LittleEndian

namespace Word

/-- A pattern below the number of words is that of its word. -/
theorem pattern_ofPattern
    {value : Nat}
    (isPattern : value < count) :
    pattern (ofPattern value) = value := by
  unfold pattern ofPattern
  rw [UInt64.toUInt64_toInt64, UInt64.toNat_ofNat']
  exact Nat.mod_eq_of_lt isPattern

end Word

namespace Opcode

/-- Every opcode number fits into the octets that instructions spend on it. -/
theorem number_lt_capacity (opcode : Opcode) :
    opcode.number < LittleEndian.capacity Instruction.opcodeSize := by
  rcases opcode with _ | operation
  · decide
  · cases operation <;> decide

end Opcode

namespace Instruction

/--
Splitting off a front of the right length gives the front and what follows.
-/
theorem splitAt?_append
    {front : Bytes}
    {count : Nat}
    (length : front.length = count)
    (rest : Bytes) :
    Bytes.splitAt? count (front ++ rest) = some (front, rest) :=
  Bytes.splitAt?_eq_some_iff.mpr ⟨rfl, length⟩

/-- An instruction is read back from its octets, whatever follows them. -/
theorem decode_encode_append
    (instruction : Instruction)
    (rest : Bytes) :
    decode (instruction.encode ++ rest) = .ok (instruction, rest) := by
  have opcodeRead :
      LittleEndian.decode instruction.encodeOpcode =
        instruction.opcode.number :=
    LittleEndian.decode_encode_of_lt instruction.opcode.number_lt_capacity
  have opcodeLength : instruction.encodeOpcode.length = opcodeSize :=
    LittleEndian.length_encode _ _
  unfold decode encode
  rw [List.append_assoc, splitAt?_append opcodeLength]
  simp only [opcodeRead, Opcode.ofNumber?_number]
  cases instruction with
  | push operand =>
      have operandRead :
          LittleEndian.decode
              (LittleEndian.encode operandSize (Word.pattern operand)) =
            Word.pattern operand :=
        LittleEndian.decode_encode_of_lt (Word.pattern_lt operand)
      simp only [opcode, decodeOperand, encodeOperand]
      rw [splitAt?_append (LittleEndian.length_encode _ _)]
      simp only [operandRead, Word.ofPattern_pattern]
  | operate operation =>
      rfl

/-- An operand that is read is written as the octets that it was read from. -/
theorem eq_encodeOperand_append_of_decodeOperand
    {bytes rest : Bytes}
    {instruction : Instruction}
    (decoded : decodeOperand bytes = .ok (instruction, rest)) :
    instruction.opcode = .push ∧ bytes = instruction.encodeOperand ++ rest := by
  unfold decodeOperand at decoded
  cases split : Bytes.splitAt? operandSize bytes with
  | none =>
      rw [split] at decoded
      cases decoded
  | some parts =>
      obtain ⟨operand, after⟩ := parts
      rw [split] at decoded
      cases decoded
      obtain ⟨whole, length⟩ := Bytes.splitAt?_eq_some_iff.mp split
      have isPattern : LittleEndian.decode operand < Word.count := by
        have bound := LittleEndian.decode_lt operand
        rw [length] at bound
        exact bound
      refine ⟨rfl, ?_⟩
      rw [whole, encodeOperand, Word.pattern_ofPattern isPattern,
        LittleEndian.encode_decode_of_length length]

/--
An instruction that is read is written as the octets that it was read from.
-/
theorem eq_encode_append_of_decode
    {bytes rest : Bytes}
    {instruction : Instruction}
    (decoded : decode bytes = .ok (instruction, rest)) :
    bytes = instruction.encode ++ rest := by
  unfold decode at decoded
  cases split : Bytes.splitAt? opcodeSize bytes with
  | none =>
      rw [split] at decoded
      cases decoded
  | some parts =>
      obtain ⟨number, after⟩ := parts
      obtain ⟨whole, length⟩ := Bytes.splitAt?_eq_some_iff.mp split
      simp only [split] at decoded
      -- Whichever opcode the number finds, the number is that opcode's own.
      have opcodeWritten
          (found :
            Opcode.ofNumber? (LittleEndian.decode number) =
              some instruction.opcode) :
          instruction.encodeOpcode = number := by
        rw [encodeOpcode, Opcode.number_of_ofNumber? found,
          LittleEndian.encode_decode_of_length length]
      cases found : Opcode.ofNumber? (LittleEndian.decode number) with
      | none =>
          rw [found] at decoded
          cases decoded
      | some opcode =>
          cases opcode with
          | push =>
              simp only [found] at decoded
              obtain ⟨isPush, operandWritten⟩ :=
                eq_encodeOperand_append_of_decodeOperand decoded
              rw [encode, opcodeWritten (by rw [found, isPush]), whole,
                operandWritten, List.append_assoc]
          | operate operation =>
              simp only [found] at decoded
              cases decoded
              rw [encode, opcodeWritten found, whole, encodeOperand,
                List.append_nil]

end Instruction

namespace Image

/-- Instructions are read back from their octets, whatever follows them. -/
theorem decodeRecords_encode_append
    (instructions : List Instruction)
    (offset : Nat)
    (rest : Bytes) :
    decodeRecords instructions.length offset
        (instructions.flatMap Instruction.encode ++ rest) =
      .ok instructions := by
  induction instructions generalizing offset with
  | nil => rfl
  | cons instruction others inductionHypothesis =>
      simp only [List.length_cons, List.flatMap_cons, List.append_assoc,
        decodeRecords, Instruction.decode_encode_append, inductionHypothesis]
      rfl

/--
Instructions that are read are as many as asked for, and their octets stood
there.
-/
theorem encode_prefix_of_decodeRecords
    {count offset : Nat}
    {bytes : Bytes}
    {instructions : List Instruction}
    (decoded : decodeRecords count offset bytes = .ok instructions) :
    instructions.length = count ∧
      instructions.flatMap Instruction.encode <+: bytes := by
  induction count generalizing offset bytes instructions with
  | zero =>
      cases decoded
      exact ⟨rfl, List.nil_prefix⟩
  | succ count inductionHypothesis =>
      unfold decodeRecords at decoded
      cases first : Instruction.decode bytes with
      | error defect =>
          rw [first] at decoded
          cases decoded
      | ok read =>
          obtain ⟨instruction, rest⟩ := read
          simp only [first] at decoded
          cases others :
              decodeRecords count (offset + instruction.encodedSize) rest with
          | error defect =>
              rw [others] at decoded
              cases decoded
          | ok following =>
              rw [others] at decoded
              cases decoded
              obtain ⟨length, isPrefix⟩ := inductionHypothesis others
              refine ⟨by rw [List.length_cons, length], ?_⟩
              rw [Instruction.eq_encode_append_of_decode first,
                List.flatMap_cons]
              exact (List.prefix_append_right_inj _).mpr isPrefix

theorem length_header (count : Nat) :
    (magic ++ LittleEndian.encode countSize count).length = headerSize := by
  rw [List.length_append, LittleEndian.length_encode, headerSize]

/-- How many of some instructions are `PUSH`, the only one with an operand. -/
def pushCount (instructions : List Instruction) : Nat :=
  instructions.countP fun instruction => instruction.opcode == .push

theorem length_encodeInstructions (instructions : List Instruction) :
    (instructions.flatMap Instruction.encode).length =
      2 * instructions.length + 8 * pushCount instructions := by
  induction instructions with
  | nil => rfl
  | cons instruction others inductionHypothesis =>
      have first :
          instruction.encode.length = 2 + 8 * pushCount [instruction] := by
        rw [Instruction.length_encode]
        cases instruction <;> rfl
      have count :
          pushCount (instruction :: others) =
            pushCount [instruction] + pushCount others := by
        rw [pushCount, ← List.singleton_append, List.countP_append]
        rfl
      rw [List.flatMap_cons, List.length_append, first, inductionHypothesis,
        List.length_cons, count]
      omega

/-- The octets of an image: its header and its instructions. -/
theorem length_encode (program : Program) :
    (encode program).length =
      13 + 2 * program.size + 8 * pushCount program.toList := by
  rw [encode, List.length_append, length_header, length_encodeInstructions,
    Array.length_toList, Nat.add_assoc]
  rfl

/-- What an image declares, and what stands after its header. -/
theorem declaredCount_encode_append
    {program : Program}
    (countable : program.size < LittleEndian.capacity countSize)
    (rest : Bytes) :
    declaredCount (encode program ++ rest) = program.size := by
  have count :
      ((encode program ++ rest).drop magic.length).take countSize =
        LittleEndian.encode countSize program.size := by
    rw [encode, List.append_assoc, List.append_assoc, List.drop_left]
    exact List.take_left' (LittleEndian.length_encode _ _)
  rw [declaredCount, count, LittleEndian.decode_encode_of_lt countable]

/-- The instructions of an image stand after its header. -/
theorem drop_headerSize_encode_append
    (program : Program)
    (rest : Bytes) :
    (encode program ++ rest).drop headerSize =
      program.toList.flatMap Instruction.encode ++ rest := by
  rw [encode, List.append_assoc]
  exact List.drop_left' (length_header program.size)

/--
A program that its count can number is read back from its image, whatever
follows.
-/
theorem decode_encode_append
    {program : Program}
    (countable : program.size < LittleEndian.capacity countSize)
    (rest : Bytes) :
    decode (encode program ++ rest) = .ok program := by
  have size : 13 + 2 * program.size ≤ (encode program ++ rest).length := by
    rw [List.length_append, length_encode]
    omega
  have hasMagic : (encode program ++ rest).take magic.length = magic := by
    rw [encode, List.append_assoc, List.append_assoc, List.take_left]
  have hasHeader : ¬(encode program ++ rest).length < headerSize := by
    change ¬_ < 13
    omega
  have longEnough :
      ¬((encode program ++ rest).length - headerSize) / Instruction.opcodeSize <
        program.size := by
    change ¬(_ - 13) / 2 < _
    omega
  rw [decode, if_neg (not_not_intro hasMagic), if_neg hasHeader,
    declaredCount_encode_append countable, if_neg longEnough,
    drop_headerSize_encode_append, ← Array.length_toList,
    decodeRecords_encode_append]

/-- What octets hold from which a program is read. -/
theorem shape_of_decode
    {bytes : Bytes}
    {program : Program}
    (decoded : decode bytes = .ok program) :
    bytes.take magic.length = magic ∧
      headerSize ≤ bytes.length ∧
      decodeRecords (declaredCount bytes) headerSize (bytes.drop headerSize) =
        .ok program.toList := by
  unfold decode at decoded
  split at decoded
  · cases decoded
  next isMagic =>
    split at decoded
    · cases decoded
    next hasHeader =>
      split at decoded
      · cases decoded
      · split at decoded
        · cases decoded
        next instructions read =>
          cases decoded
          exact ⟨Decidable.not_not.mp isMagic, Nat.not_lt.mp hasHeader, read⟩

/-- Octets with the magic and a count are that header and what follows it. -/
theorem eq_header_append
    {bytes : Bytes}
    (isMagic : bytes.take magic.length = magic)
    (hasHeader : headerSize ≤ bytes.length) :
    declaredCount bytes < LittleEndian.capacity countSize ∧
      bytes =
        magic ++ LittleEndian.encode countSize (declaredCount bytes) ++
          bytes.drop headerSize := by
  have countLength :
      ((bytes.drop magic.length).take countSize).length = countSize := by
    rw [List.length_take, List.length_drop]
    unfold headerSize at hasHeader
    omega
  have bound :=
    LittleEndian.decode_lt ((bytes.drop magic.length).take countSize)
  rw [countLength] at bound
  refine ⟨bound, ?_⟩
  calc
    bytes = bytes.take magic.length ++ bytes.drop magic.length :=
      (List.take_append_drop _ _).symm
    _ = magic ++ ((bytes.drop magic.length).take countSize ++
          (bytes.drop magic.length).drop countSize) := by
      rw [isMagic, List.take_append_drop]
    _ = magic ++ LittleEndian.encode countSize (declaredCount bytes) ++
          bytes.drop headerSize := by
      rw [declaredCount, LittleEndian.encode_decode_of_length countLength,
        List.drop_drop, List.append_assoc]
      rfl

/--
A program that is read was counted, and its image stood where it was read.
-/
theorem encode_prefix_of_decode
    {bytes : Bytes}
    {program : Program}
    (decoded : decode bytes = .ok program) :
    program.size < LittleEndian.capacity countSize ∧
      encode program <+: bytes := by
  obtain ⟨isMagic, hasHeader, read⟩ := shape_of_decode decoded
  obtain ⟨bound, whole⟩ := eq_header_append isMagic hasHeader
  obtain ⟨size, isPrefix⟩ := encode_prefix_of_decodeRecords read
  rw [Array.length_toList] at size
  refine ⟨by rw [size]; exact bound, ?_⟩
  rw [whole, encode, size]
  exact (List.prefix_append_right_inj _).mpr isPrefix

/--
Octets are read as a program exactly where they begin with its image.

The image holds the number of instructions in eight octets, so it tells apart
programs of fewer than 2⁶⁴ instructions. What follows an image is ignored,
octets that are read begin with what would be written, and no octets begin with
the images of two programs.
-/
theorem decode_eq_ok_iff_encode_prefix
    (bytes : Bytes)
    (program : Program) :
    (decode bytes = .ok program ↔
      program.size < LittleEndian.capacity countSize ∧
        encode program <+: bytes) ∧
    (program.size < LittleEndian.capacity countSize →
      decode (encode program) = .ok program) ∧
    (decode bytes = .ok program →
      bytes.take (encode program).length = encode program ∧
        ∀ trailing, decode (bytes ++ trailing) = .ok program) ∧
    (∀ other : Program,
      program.size < LittleEndian.capacity countSize →
      other.size < LittleEndian.capacity countSize →
      encode program <+: bytes →
      encode other <+: bytes →
      program = other) ∧
    (encode program).length =
      13 + 2 * program.size + 8 * pushCount program.toList := by
  have readsItsImage {other : Program} {octets : Bytes}
      (countable : other.size < LittleEndian.capacity countSize)
      (isPrefix : encode other <+: octets) :
      decode octets = .ok other := by
    obtain ⟨rest, whole⟩ := isPrefix
    rw [← whole, decode_encode_append countable]
  refine ⟨⟨encode_prefix_of_decode, ?_⟩, ?_, ?_, ?_, length_encode program⟩
  · rintro ⟨countable, isPrefix⟩
    exact readsItsImage countable isPrefix
  · intro countable
    exact readsItsImage countable (List.prefix_refl _)
  · intro decoded
    obtain ⟨countable, isPrefix⟩ := encode_prefix_of_decode decoded
    exact ⟨(List.prefix_iff_eq_take.mp isPrefix).symm,
      fun trailing =>
        readsItsImage countable (isPrefix.trans (List.prefix_append _ _))⟩
  · intro other countable otherCountable isPrefix otherPrefix
    have read := readsItsImage countable isPrefix
    rw [readsItsImage otherCountable otherPrefix] at read
    cases read
    rfl

end Image

end StackCode
