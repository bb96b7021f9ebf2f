import StackCode.Proofs.ImageFormat

namespace StackCode

/-!
# Instructions in a buffer

An instruction that is written at an offset of a buffer takes the place of as many
octets as it has, no other octet changes, and it is read back from there. A write
that would reach beyond the end is refused; where the number of a `PUSH` still fits,
that number is left behind, and nothing else is. Whatever octets are read at an
offset as an instruction are the octets of that instruction, and where no
instruction has those octets, reading fails at that offset.
-/

namespace Bytes

/-- Octets with a piece in the place of those from an offset on. -/
def overwritten (bytes : Bytes) (offset : Nat) (piece : Bytes) : Bytes :=
  bytes.take offset ++ piece ++ bytes.drop (offset + piece.length)

section Overwritten

variable
  {bytes piece : Bytes}
  {offset : Nat}

/-- Nothing is overwritten where there is too little room. -/
theorem overwrite?_of_short (short : bytes.length < offset + piece.length) :
    overwrite? bytes offset piece = none :=
  if_neg (Nat.not_le_of_lt short)

variable (fits : offset + piece.length ≤ bytes.length)

include fits

/-- Where there is room, what is there is overwritten. -/
theorem overwrite?_of_fits :
    overwrite? bytes offset piece = some (overwritten bytes offset piece) :=
  if_pos fits

/-- What comes before ends where the piece begins. -/
theorem length_take_of_fits : (bytes.take offset).length = offset := by
  rw [List.length_take]
  omega

/-- To overwrite changes no length. -/
theorem length_overwritten :
    (overwritten bytes offset piece).length = bytes.length := by
  simp only [overwritten, List.length_append, length_take_of_fits fits,
    List.length_drop]
  omega

/-- The octets from the offset on begin with the piece. -/
theorem drop_overwritten :
    (overwritten bytes offset piece).drop offset =
      piece ++ bytes.drop (offset + piece.length) := by
  rw [overwritten, List.append_assoc]
  exact List.drop_left' (length_take_of_fits fits)

/-- Only the octets that the piece covers are other ones. -/
theorem getElem?_overwritten (index : Nat) :
    (overwritten bytes offset piece)[index]? =
      if offset ≤ index ∧ index < offset + piece.length then
        piece[index - offset]?
      else
        bytes[index]? := by
  have front := length_take_of_fits fits
  by_cases before : index < offset
  · rw [if_neg (by omega), overwritten, List.append_assoc,
      List.getElem?_append_left (by omega), List.getElem?_take_of_lt before]
  · have reached : offset ≤ index := Nat.le_of_not_lt before
    rw [overwritten, List.append_assoc,
      List.getElem?_append_right (by omega), front]
    by_cases covered : index < offset + piece.length
    · rw [if_pos ⟨reached, covered⟩, List.getElem?_append_left (by omega)]
    · rw [if_neg (by omega), List.getElem?_append_right (by omega),
        List.getElem?_drop]
      congr 1
      omega

omit fits in
/-- Two pieces one after the other are one piece. -/
theorem overwritten_append
    {second : Bytes}
    (fits : offset + (piece ++ second).length ≤ bytes.length) :
    overwritten (overwritten bytes offset piece) (offset + piece.length) second =
      overwritten bytes offset (piece ++ second) := by
  rw [List.length_append] at fits
  have pieceFits : offset + piece.length ≤ bytes.length := by omega
  have front : (bytes.take offset ++ piece).length = offset + piece.length := by
    rw [List.length_append, length_take_of_fits pieceFits]
  have kept :
      (overwritten bytes offset piece).take (offset + piece.length) =
        bytes.take offset ++ piece :=
    List.take_left' front
  have rest :
      (overwritten bytes offset piece).drop
          (offset + piece.length + second.length) =
        bytes.drop (offset + piece.length + second.length) := by
    rw [← List.drop_drop, overwritten, List.drop_left' front, List.drop_drop]
  rw [overwritten, kept, rest, overwritten, List.length_append,
    ← Nat.add_assoc, ← List.append_assoc (bytes.take offset)]

end Overwritten

end Bytes

namespace Instruction

variable
  {buffer : Bytes}
  {offset : Nat}
  {instruction : Instruction}

@[simp] theorem length_encodeOpcode (instruction : Instruction) :
    instruction.encodeOpcode.length = opcodeSize :=
  LittleEndian.length_encode _ _

/-- An operand has what an instruction has beside its opcode's number. -/
theorem opcodeSize_add_length_encodeOperand (instruction : Instruction) :
    opcodeSize + instruction.encodeOperand.length = instruction.encodedSize := by
  rw [← length_encode, encode, List.length_append, length_encodeOpcode]

/-- Where an instruction fits, its octets are put in the place of others. -/
theorem writeAt_of_fits
    (fits : offset + instruction.encodedSize ≤ buffer.length) :
    writeAt buffer offset instruction =
      (.ok instruction.encodedSize,
        Bytes.overwritten buffer offset instruction.encode) := by
  have size := instruction.opcodeSize_add_length_encodeOperand
  have opcodeFits :
      offset + instruction.encodeOpcode.length ≤ buffer.length := by
    rw [length_encodeOpcode]
    omega
  have operandFits :
      offset + opcodeSize + instruction.encodeOperand.length ≤
        (Bytes.overwritten buffer offset instruction.encodeOpcode).length := by
    rw [Bytes.length_overwritten opcodeFits]
    omega
  have joined :
      Bytes.overwritten
          (Bytes.overwritten buffer offset instruction.encodeOpcode)
          (offset + opcodeSize) instruction.encodeOperand =
        Bytes.overwritten buffer offset instruction.encode := by
    rw [← length_encodeOpcode instruction]
    exact Bytes.overwritten_append (by rwa [← encode, length_encode])
  simp only [writeAt, Bytes.overwrite?_of_fits opcodeFits,
    Bytes.overwrite?_of_fits operandFits, joined]

/--
Where an instruction does not fit, its opcode's number is put in the place of others
if that much fits.
-/
theorem writeAt_of_short
    (short : buffer.length < offset + instruction.encodedSize) :
    writeAt buffer offset instruction =
      (.error {},
        if offset + opcodeSize ≤ buffer.length then
          Bytes.overwritten buffer offset instruction.encodeOpcode
        else
          buffer) := by
  have size := instruction.opcodeSize_add_length_encodeOperand
  by_cases opcodeFits :
      offset + instruction.encodeOpcode.length ≤ buffer.length
  · have operandShort :
        (Bytes.overwritten buffer offset instruction.encodeOpcode).length <
          offset + opcodeSize + instruction.encodeOperand.length := by
      rw [Bytes.length_overwritten opcodeFits]
      omega
    rw [if_pos (by rwa [← length_encodeOpcode instruction])]
    simp only [writeAt, Bytes.overwrite?_of_fits opcodeFits,
      Bytes.overwrite?_of_short operandShort]
  · rw [if_neg (by rwa [← length_encodeOpcode instruction])]
    simp only [writeAt,
      Bytes.overwrite?_of_short (Nat.lt_of_not_le opcodeFits)]

/-- An instruction is read at an offset exactly where its octets stand there. -/
theorem decodeAt_eq_ok_iff
    {bytes : Bytes}
    {size : Nat} :
    decodeAt bytes offset = .ok (instruction, size) ↔
      size = instruction.encodedSize ∧
        (bytes.drop offset).take size = instruction.encode := by
  unfold decodeAt
  constructor
  · intro read
    cases decoded : decode (bytes.drop offset) with
    | error defect =>
        rw [decoded] at read
        cases read
    | ok found =>
        obtain ⟨other, rest⟩ := found
        rw [decoded] at read
        cases read
        refine ⟨rfl, ?_⟩
        rw [eq_encode_append_of_decode decoded]
        exact List.take_left' instruction.length_encode
  · rintro ⟨rfl, stands⟩
    have whole :
        bytes.drop offset =
          instruction.encode ++
            (bytes.drop offset).drop instruction.encodedSize := by
      rw [← stands, List.take_append_drop]
    rw [whole, decode_encode_append]

/-- What is not read as an instruction is refused at its offset. -/
theorem decodeAt_ok_or_error (bytes : Bytes) (offset : Nat) :
    (∃ instruction size, decodeAt bytes offset = .ok (instruction, size)) ∨
      ∃ defect,
        decodeAt bytes offset =
          .error { defect := defect, offset := offset } := by
  unfold decodeAt
  cases decode (bytes.drop offset) with
  | error defect => exact Or.inr ⟨defect, rfl⟩
  | ok found => exact Or.inl ⟨found.1, found.1.encodedSize, rfl⟩

/-- What a buffer is after an instruction has been written into it. -/
structure WrittenAt
    (buffer : Bytes)
    (offset : Nat)
    (instruction : Instruction)
    (after : Bytes) :
    Prop where
  sameLength : after.length = buffer.length
  outside :
    ∀ index,
      index < offset ∨ offset + instruction.encodedSize ≤ index →
      after[index]? = buffer[index]?
  readBack :
    decodeAt after offset = .ok (instruction, instruction.encodedSize)

/--
What a buffer is after the write of an instruction has been refused: it has the two
octets of the number of `PUSH`, which is zero, if that is the instruction and they
fit, and all others are as before.
-/
structure RefusedAt
    (buffer : Bytes)
    (offset : Nat)
    (instruction : Instruction)
    (after : Bytes) :
    Prop where
  sameLength : after.length = buffer.length
  octets :
    ∀ index,
      after[index]? =
        if instruction.opcode = .push ∧ offset + 2 ≤ buffer.length ∧
            offset ≤ index ∧ index < offset + 2 then
          some 0
        else
          buffer[index]?

/-- An instruction that fits is written, and all around it stays. -/
theorem writtenAt_overwritten
    (fits : offset + instruction.encodedSize ≤ buffer.length) :
    WrittenAt buffer offset instruction
      (Bytes.overwritten buffer offset instruction.encode) := by
  rw [← length_encode] at fits
  refine
    { sameLength := Bytes.length_overwritten fits
      outside := ?_
      readBack := ?_ }
  · intro index outside
    rw [Bytes.getElem?_overwritten fits, length_encode, if_neg (by omega)]
  · refine decodeAt_eq_ok_iff.mpr ⟨rfl, ?_⟩
    rw [Bytes.drop_overwritten fits]
    exact List.take_left' instruction.length_encode

/-- The number of `PUSH` is zero in both octets. -/
theorem encodeOpcode_push (operand : Word) :
    encodeOpcode (.push operand) = List.replicate opcodeSize 0 := by
  change LittleEndian.encode 2 0 = [0, 0]
  decide

/--
An instruction that does not fit is refused, and its opcode may have been written by
then.
-/
theorem refusedAt_of_short
    (short : buffer.length < offset + instruction.encodedSize) :
    RefusedAt buffer offset instruction
      (if offset + opcodeSize ≤ buffer.length then
        Bytes.overwritten buffer offset instruction.encodeOpcode
      else
        buffer) := by
  by_cases opcodeFits : offset + opcodeSize ≤ buffer.length
  · rw [if_pos opcodeFits]
    cases instruction with
    | operate operation => exact absurd opcodeFits (Nat.not_le_of_lt short)
    | push operand =>
        have numberFits :
            offset + (encodeOpcode (.push operand)).length ≤ buffer.length := by
          rwa [length_encodeOpcode]
        refine
          { sameLength := Bytes.length_overwritten numberFits
            octets := ?_ }
        intro index
        rw [Bytes.getElem?_overwritten numberFits, length_encodeOpcode]
        by_cases covered : offset ≤ index ∧ index < offset + opcodeSize
        · have inNumber : index - offset < opcodeSize := by omega
          rw [if_pos covered, if_pos ⟨rfl, opcodeFits, covered⟩,
            encodeOpcode_push, List.getElem?_replicate, if_pos inNumber]
        · rw [if_neg covered, if_neg fun all => covered all.2.2]
  · rw [if_neg opcodeFits]
    exact
      { sameLength := rfl
        octets := fun index =>
          (if_neg fun all => opcodeFits all.2.1).symm }

end Instruction

/--
The integer of a wrapped value is the only one in the range of words that is
congruent to the value.
-/
theorem Word.toInt_wrap_eq_iff {value other : Int} :
    (least ≤ other ∧ other ≤ greatest ∧ (count : Int) ∣ other - value) ↔
      other = (wrap value).toInt := by
  have positive : 0 < count := by decide
  rw [toInt_wrap, eq_comm, Int.bmod_eq_iff positive]
  unfold least greatest count
  constructor
  · rintro ⟨atLeast, atMost, congruent⟩
    exact ⟨by omega, by omega, congruent⟩
  · rintro ⟨atLeast, below, congruent⟩
    exact ⟨by omega, by omega, congruent⟩

/--
Writing an instruction into a buffer and reading one from it are inverse.

Where the instruction fits, it is written, nothing outside its octets changes, and it
is read back. Where it does not fit, the write is refused, and at most the number of
a `PUSH` has been written. Octets are read as an instruction exactly where they are
the instruction's, and otherwise refused at the offset. An operand of any size is
read back as the word that is congruent to it.
-/
theorem Instruction.writing_and_reading_are_inverse :
    (∀ (buffer : Bytes) (offset : Nat) (instruction : Instruction),
      (offset + instruction.encodedSize ≤ buffer.length →
        ∃ after,
          writeAt buffer offset instruction =
              (.ok instruction.encodedSize, after) ∧
            WrittenAt buffer offset instruction after) ∧
      (buffer.length < offset + instruction.encodedSize →
        ∃ after,
          writeAt buffer offset instruction = (.error {}, after) ∧
            RefusedAt buffer offset instruction after)) ∧
    (∀ (bytes : Bytes) (offset : Nat),
      (∀ instruction size,
        decodeAt bytes offset = .ok (instruction, size) ↔
          size = instruction.encodedSize ∧
            (bytes.drop offset).take size = instruction.encode) ∧
      ((∀ instruction : Instruction,
          (bytes.drop offset).take instruction.encodedSize ≠
            instruction.encode) →
        ∃ defect,
          decodeAt bytes offset =
            .error { defect := defect, offset := offset })) ∧
    ∀ value : Int,
      ∃ word : Word,
        ofOpcode .push (some value) = .ok (.push word) ∧
          decodeAt (encode (.push word)) 0 = .ok (.push word, 10) ∧
          ∀ other : Int,
            (Word.least ≤ other ∧ other ≤ Word.greatest ∧
                (Word.count : Int) ∣ other - value) ↔
              other = word.toInt := by
  refine ⟨?_, ?_, ?_⟩
  · intro buffer offset instruction
    constructor
    · intro fits
      exact ⟨_, writeAt_of_fits fits, writtenAt_overwritten fits⟩
    · intro short
      exact ⟨_, writeAt_of_short short, refusedAt_of_short short⟩
  · intro bytes offset
    refine ⟨fun _ _ => decodeAt_eq_ok_iff, ?_⟩
    intro noneStands
    refine (decodeAt_ok_or_error bytes offset).resolve_left ?_
    rintro ⟨instruction, size, read⟩
    obtain ⟨rfl, stands⟩ := decodeAt_eq_ok_iff.mp read
    exact noneStands instruction stands
  · intro value
    refine ⟨Word.wrap value, rfl, ?_, fun _ => Word.toInt_wrap_eq_iff⟩
    refine decodeAt_eq_ok_iff.mpr ⟨rfl, ?_⟩
    exact List.take_of_length_le (Nat.le_of_eq (length_encode _))

/-- The number of a `PUSH` fits before the last octets, and its operand does not. -/
example :
    Instruction.writeAt [7, 7, 7] 1 (.push 5) = (.error {}, [7, 0, 0]) :=
  rfl

end StackCode
