import StackCode.Proofs.ImageFormat

namespace StackCode

/-!
# Octets that are no image

Each way for octets to be no image is a condition on the octets alone, and no two
of the conditions hold together. The conditions on the header are tested first.
Below them, instructions stand one after the other up to some offset, fewer than
the header declares, and what stands there begins with no instruction. Reading
fails exactly where one of the conditions holds, and it names that condition and
that offset. A strict beginning of an image always meets one of them.
-/

namespace Opcode

/-- Opcode numbers go up to fourteen. -/
theorem number_le (opcode : Opcode) : opcode.number ≤ 14 := by
  rcases opcode with _ | operation
  · decide
  · cases operation <;> decide

/-- Numbers above fourteen stand for no opcode, and all others for one. -/
theorem ofNumber?_eq_none_iff {number : Nat} :
    ofNumber? number = none ↔ 14 < number := by
  constructor
  · intro unknown
    have known : ∀ small : Fin 15, ofNumber? small ≠ none := by decide
    refine Nat.lt_of_not_le fun atMost => ?_
    exact known ⟨number, Nat.lt_succ_of_le atMost⟩ unknown
  · intro large
    cases found : ofNumber? number with
    | none => rfl
    | some opcode =>
        have atMost := opcode.number_le
        rw [number_of_ofNumber? found] at atMost
        omega

/-- Only zero stands for `PUSH`. -/
theorem ofNumber?_eq_push_iff {number : Nat} :
    ofNumber? number = some .push ↔ number = 0 := by
  constructor
  · intro found
    exact (number_of_ofNumber? found).symm
  · rintro rfl
    rfl

end Opcode

namespace Instruction

/-- The number that octets begin with in an opcode's place. -/
def leadingNumber (bytes : Bytes) : Nat :=
  LittleEndian.decode (bytes.take 2)

/-- Octets that begin with no instruction: what they lack, and its wording. -/
inductive Malformed (bytes : Bytes) : DecodeDefect → Text → Prop where
  /-- They end before an opcode's number does. -/
  | truncatedInstruction
      (short : bytes.length < 2) :
      Malformed bytes .truncatedInstruction "Truncated instruction"
  /-- They begin with a number that is above every opcode's. -/
  | unknownOpcode
      (hasNumber : 2 ≤ bytes.length)
      (large : 14 < leadingNumber bytes) :
      Malformed bytes
        (.unknownOpcode (leadingNumber bytes))
        (Text.concat
          ["no such opcode `", Text.ofNat (leadingNumber bytes), "`"])
  /-- They begin with the number of `PUSH` and end before its operand does. -/
  | truncatedOperand
      (hasNumber : 2 ≤ bytes.length)
      (isPush : leadingNumber bytes = 0)
      (short : bytes.length < 10) :
      Malformed bytes .truncatedOperand "Truncated operand for `PUSH`"

/-- Enough octets split into the first of them and the others. -/
theorem splitAt?_of_le
    {bytes : Bytes}
    {count : Nat}
    (enough : count ≤ bytes.length) :
    Bytes.splitAt? count bytes = some (bytes.take count, bytes.drop count) := by
  refine Bytes.splitAt?_eq_some_iff.mpr ⟨?_, ?_⟩
  · exact (List.take_append_drop count bytes).symm
  · rw [List.length_take, Nat.min_eq_left enough]

theorem decode_of_short
    {bytes : Bytes}
    (short : bytes.length < 2) :
    decode bytes = .error .truncatedInstruction := by
  have noNumber : Bytes.splitAt? opcodeSize bytes = none :=
    Bytes.splitAt?_eq_none_iff.mpr short
  rw [decode, noNumber]

/-- What octets with a number are read as depends on the number they begin with. -/
theorem decode_of_hasNumber
    {bytes : Bytes}
    (hasNumber : 2 ≤ bytes.length) :
    decode bytes =
      match Opcode.ofNumber? (leadingNumber bytes) with
      | none => .error (.unknownOpcode (leadingNumber bytes))
      | some .push => decodeOperand (bytes.drop 2)
      | some (.operate operation) => .ok (.operate operation, bytes.drop 2) := by
  have split :
      Bytes.splitAt? opcodeSize bytes = some (bytes.take 2, bytes.drop 2) :=
    splitAt?_of_le hasNumber
  rw [decode, split]
  rfl

/-- An operand is lacking exactly where fewer than its octets are left. -/
theorem decodeOperand_eq_error_iff
    {bytes : Bytes}
    {defect : DecodeDefect} :
    decodeOperand bytes = .error defect ↔
      defect = .truncatedOperand ∧ bytes.length < 8 := by
  unfold decodeOperand
  by_cases enough : 8 ≤ bytes.length
  · have split :
        Bytes.splitAt? operandSize bytes =
          some (bytes.take 8, bytes.drop 8) :=
      splitAt?_of_le enough
    rw [split]
    constructor
    · rintro ⟨⟩
    · rintro ⟨_, short⟩
      omega
  · have short : bytes.length < 8 := Nat.lt_of_not_le enough
    have split : Bytes.splitAt? operandSize bytes = none :=
      Bytes.splitAt?_eq_none_iff.mpr short
    rw [split]
    constructor
    · rintro ⟨⟩
      exact ⟨rfl, short⟩
    · rintro ⟨rfl, _⟩
      rfl

/-- Octets from which no instruction is read begin with none. -/
theorem malformed_of_decode
    {bytes : Bytes}
    {defect : DecodeDefect}
    (refused : decode bytes = .error defect) :
    Malformed bytes defect defect.reason := by
  by_cases hasNumber : 2 ≤ bytes.length
  · rw [decode_of_hasNumber hasNumber] at refused
    cases found : Opcode.ofNumber? (leadingNumber bytes) with
    | none =>
        rw [found] at refused
        cases refused
        exact .unknownOpcode hasNumber (Opcode.ofNumber?_eq_none_iff.mp found)
    | some opcode =>
        rw [found] at refused
        cases opcode with
        | push =>
            obtain ⟨rfl, short⟩ := decodeOperand_eq_error_iff.mp refused
            rw [List.length_drop] at short
            exact .truncatedOperand hasNumber
              (Opcode.ofNumber?_eq_push_iff.mp found) (by omega)
        | operate operation => cases refused
  · have short : bytes.length < 2 := Nat.lt_of_not_le hasNumber
    rw [decode_of_short short] at refused
    cases refused
    exact .truncatedInstruction short

/-- No instruction is read from octets that begin with none. -/
theorem decode_of_malformed
    {bytes : Bytes}
    {defect : DecodeDefect}
    {wording : Text}
    (malformed : Malformed bytes defect wording) :
    decode bytes = .error defect ∧ wording = defect.reason := by
  cases malformed with
  | truncatedInstruction short => exact ⟨decode_of_short short, rfl⟩
  | unknownOpcode hasNumber large =>
      rw [decode_of_hasNumber hasNumber,
        Opcode.ofNumber?_eq_none_iff.mpr large]
      exact ⟨rfl, rfl⟩
  | truncatedOperand hasNumber isPush short =>
      have operandShort : (bytes.drop 2).length < 8 := by
        rw [List.length_drop]
        omega
      rw [decode_of_hasNumber hasNumber,
        Opcode.ofNumber?_eq_push_iff.mpr isPush]
      exact ⟨decodeOperand_eq_error_iff.mpr ⟨rfl, operandShort⟩, rfl⟩

end Instruction

namespace Image

/-- Where reading instructions fails: after some of them, fewer than asked for. -/
theorem decodeRecords_eq_error_iff
    {count offset : Nat}
    {bytes : Bytes}
    {error : DecodeError} :
    decodeRecords count offset bytes = .error error ↔
      ∃ (instructions : List Instruction) (rest : Bytes),
        instructions.length < count ∧
          bytes = instructions.flatMap Instruction.encode ++ rest ∧
          error.offset =
            offset + (instructions.flatMap Instruction.encode).length ∧
          Instruction.decode rest = .error error.defect := by
  induction count generalizing offset bytes with
  | zero =>
      constructor
      · rintro ⟨⟩
      · rintro ⟨instructions, _, fewer, _⟩
        exact absurd fewer (Nat.not_lt_zero _)
  | succ count inductionHypothesis =>
      constructor
      · intro refused
        unfold decodeRecords at refused
        cases first : Instruction.decode bytes with
        | error defect =>
            rw [first] at refused
            cases refused
            exact ⟨[], bytes, Nat.succ_pos count, rfl, rfl, first⟩
        | ok read =>
            obtain ⟨instruction, later⟩ := read
            simp only [first] at refused
            cases others :
                decodeRecords count (offset + instruction.encodedSize)
                  later with
            | ok following =>
                rw [others] at refused
                cases refused
            | error found =>
                rw [others] at refused
                cases refused
                obtain ⟨instructions, rest, fewer, rfl, place, unread⟩ :=
                  inductionHypothesis.mp others
                refine
                  ⟨instruction :: instructions, rest,
                    Nat.succ_lt_succ fewer, ?_, ?_, unread⟩
                · rw [Instruction.eq_encode_append_of_decode first,
                    List.flatMap_cons, List.append_assoc]
                · rw [place, List.flatMap_cons, List.length_append,
                    Instruction.length_encode, Nat.add_assoc]
      · rintro ⟨instructions, rest, fewer, rfl, place, unread⟩
        cases instructions with
        | nil =>
            have here : error = { defect := error.defect, offset := offset } := by
              cases error
              simpa using place
            rw [List.flatMap_nil, List.nil_append, decodeRecords, unread, here]
        | cons instruction others =>
            have later :
                decodeRecords count (offset + instruction.encodedSize)
                    (others.flatMap Instruction.encode ++ rest) =
                  .error error := by
              refine inductionHypothesis.mpr
                ⟨others, rest, Nat.lt_of_succ_lt_succ fewer, rfl, ?_, unread⟩
              rw [place, List.flatMap_cons, List.length_append,
                Instruction.length_encode, Nat.add_assoc]
            rw [List.flatMap_cons, List.append_assoc, decodeRecords,
              Instruction.decode_encode_append]
            simp only [later]
            rfl

/-- Octets that are no image: the reason, and its wording. -/
inductive Rejected (bytes : Bytes) : Defect → Text → Prop where
  /-- They do not begin with the magic octets. -/
  | wrongFormat
      (noMagic : ¬magic <+: bytes) :
      Rejected bytes .wrongFormat "wrong file format"
  /-- They begin with the magic octets and end before the count does. -/
  | truncatedHeader
      (isMagic : magic <+: bytes)
      (short : bytes.length < 13) :
      Rejected bytes .truncatedHeader "truncated header"
  /-- They declare more instructions than their length allows at two octets each. -/
  | tooShort
      (isMagic : magic <+: bytes)
      (hasHeader : 13 ≤ bytes.length)
      (tooMany : (bytes.length - 13) / 2 < declaredCount bytes) :
      Rejected bytes
        (.tooShort (declaredCount bytes))
        (Text.concat
          ["header declares ", Text.ofNat (declaredCount bytes),
            " instructions but the file is too short"])
  /--
  Instructions follow the header, fewer than declared, and octets follow them that
  begin with no instruction.
  -/
  | record
      {defect : DecodeDefect}
      {wording : Text}
      (isMagic : magic <+: bytes)
      (hasHeader : 13 ≤ bytes.length)
      (enough : declaredCount bytes ≤ (bytes.length - 13) / 2)
      (instructions : List Instruction)
      (rest : Bytes)
      (fewer : instructions.length < declaredCount bytes)
      (shape :
        bytes.drop 13 = instructions.flatMap Instruction.encode ++ rest)
      (malformed : Instruction.Malformed rest defect wording) :
      Rejected bytes
        (.record
          { defect := defect
            offset :=
              13 + (instructions.flatMap Instruction.encode).length })
        (Text.concat
          [wording, " at byte ",
            Text.ofNat
              (13 + (instructions.flatMap Instruction.encode).length)])

theorem decode_of_noMagic
    {bytes : Bytes}
    (noMagic : ¬magic <+: bytes) :
    decode bytes = .error .wrongFormat := by
  have lacksMagic : bytes.take magic.length ≠ magic := fun hasMagic =>
    noMagic (List.prefix_iff_eq_take.mpr hasMagic.symm)
  rw [decode, if_pos lacksMagic]

theorem decode_of_shortHeader
    {bytes : Bytes}
    (isMagic : magic <+: bytes)
    (short : bytes.length < 13) :
    decode bytes = .error .truncatedHeader := by
  have hasMagic := (List.prefix_iff_eq_take.mp isMagic).symm
  have lacksCount : bytes.length < headerSize := short
  rw [decode, if_neg (not_not_intro hasMagic), if_pos lacksCount]

/-- What octets with a header are read as depends on what follows the header. -/
theorem decode_of_header
    {bytes : Bytes}
    (isMagic : magic <+: bytes)
    (hasHeader : 13 ≤ bytes.length) :
    decode bytes =
      if (bytes.length - 13) / 2 < declaredCount bytes then
        .error (.tooShort (declaredCount bytes))
      else
        match decodeRecords (declaredCount bytes) 13 (bytes.drop 13) with
        | .error error => .error (.record error)
        | .ok instructions => .ok instructions.toArray := by
  have hasMagic := (List.prefix_iff_eq_take.mp isMagic).symm
  have long : ¬bytes.length < headerSize := Nat.not_lt_of_le hasHeader
  rw [decode, if_neg (not_not_intro hasMagic), if_neg long]
  rfl

/-- Octets that are read as no program are rejected for the reason that is given. -/
theorem rejected_of_decode
    {bytes : Bytes}
    {defect : Defect}
    (refused : decode bytes = .error defect) :
    Rejected bytes defect defect.reason := by
  by_cases isMagic : magic <+: bytes
  · by_cases hasHeader : 13 ≤ bytes.length
    · rw [decode_of_header isMagic hasHeader] at refused
      by_cases tooMany : (bytes.length - 13) / 2 < declaredCount bytes
      · rw [if_pos tooMany] at refused
        cases refused
        exact .tooShort isMagic hasHeader tooMany
      · rw [if_neg tooMany] at refused
        cases read : decodeRecords (declaredCount bytes) 13 (bytes.drop 13) with
        | ok instructions =>
            rw [read] at refused
            cases refused
        | error error =>
            rw [read] at refused
            cases refused
            obtain ⟨instructions, rest, fewer, shape, place, unread⟩ :=
              decodeRecords_eq_error_iff.mp read
            obtain ⟨cause, offset⟩ := error
            cases place
            exact .record isMagic hasHeader (Nat.le_of_not_lt tooMany)
              instructions rest fewer shape
              (Instruction.malformed_of_decode unread)
    · have short : bytes.length < 13 := Nat.lt_of_not_le hasHeader
      rw [decode_of_shortHeader isMagic short] at refused
      cases refused
      exact .truncatedHeader isMagic short
  · rw [decode_of_noMagic isMagic] at refused
    cases refused
    exact .wrongFormat isMagic

/-- Rejected octets are read as no program, and the reason is given. -/
theorem decode_of_rejected
    {bytes : Bytes}
    {defect : Defect}
    {wording : Text}
    (rejected : Rejected bytes defect wording) :
    decode bytes = .error defect ∧ wording = defect.reason := by
  cases rejected with
  | wrongFormat noMagic => exact ⟨decode_of_noMagic noMagic, rfl⟩
  | truncatedHeader isMagic short =>
      exact ⟨decode_of_shortHeader isMagic short, rfl⟩
  | tooShort isMagic hasHeader tooMany =>
      rw [decode_of_header isMagic hasHeader, if_pos tooMany]
      exact ⟨rfl, rfl⟩
  | @record defect _ isMagic hasHeader enough instructions rest fewer shape
      malformed =>
      obtain ⟨unread, rfl⟩ := Instruction.decode_of_malformed malformed
      let error : DecodeError :=
        { defect := defect
          offset := 13 + (instructions.flatMap Instruction.encode).length }
      have refused :
          decodeRecords (declaredCount bytes) 13 (bytes.drop 13) =
            .error error :=
        decodeRecords_eq_error_iff.mpr
          ⟨instructions, rest, fewer, shape, rfl, unread⟩
      rw [decode_of_header isMagic hasHeader,
        if_neg (Nat.not_lt_of_le enough), refused]
      exact ⟨rfl, rfl⟩

/-- A strict beginning of an image is read as no program. -/
theorem decode_of_strict_prefix
    {bytes : Bytes}
    {program : Program}
    (countable : program.size < LittleEndian.capacity countSize)
    (isPrefix : bytes <+: encode program)
    (strict : bytes ≠ encode program) :
    ∃ defect, decode bytes = .error defect := by
  cases read : decode bytes with
  | error defect => exact ⟨defect, rfl⟩
  | ok other =>
      -- The image of what is read stands at the front of both, so it is both.
      obtain ⟨otherCountable, otherPrefix⟩ := encode_prefix_of_decode read
      obtain ⟨rest, whole⟩ := otherPrefix.trans isPrefix
      have same : decode (encode program) = .ok other := by
        rw [← whole, decode_encode_append otherCountable]
      have itself := decode_encode_append countable []
      rw [List.append_nil, same] at itself
      cases itself
      exact absurd (isPrefix.eq_of_length_le otherPrefix.length_le) strict

/-- Loading adds the file's name to a defect and changes nothing else. -/
theorem load_eq_error_iff
    {file : Option Text}
    {bytes : Bytes}
    {error : LoadError} :
    load file bytes = .error error ↔
      error.file = file ∧ decode bytes = .error error.defect := by
  obtain ⟨defect, named⟩ := error
  unfold load
  cases decode bytes with
  | error found =>
      constructor
      · rintro ⟨⟩
        exact ⟨rfl, rfl⟩
      · rintro ⟨rfl, ⟨⟩⟩
        rfl
  | ok program =>
      constructor
      · rintro ⟨⟩
      · rintro ⟨_, ⟨⟩⟩

/--
Octets that are no image are reported for what they are.

Loading gives a program, or the one reason for which the octets are rejected with
its wording and the file's name. The reasons exclude each other, and a record's
offset is where the instructions before it end. No strict beginning of an image is
loaded; an image counts its instructions in eight octets, so that is said of
programs of fewer than 2⁶⁴.
-/
theorem rejected_images_are_reported
    (file : Option Text)
    (bytes : Bytes) :
    ((∃ program, load file bytes = .ok program) ↔
      ¬∃ defect wording, Rejected bytes defect wording) ∧
    (∀ error,
      load file bytes = .error error ↔
        error.file = file ∧
          Rejected bytes error.defect error.defect.reason) ∧
    (∀ first second firstWording secondWording,
      Rejected bytes first firstWording →
      Rejected bytes second secondWording →
      first = second ∧ firstWording = secondWording) ∧
    ∀ program : Program,
      program.size < LittleEndian.capacity countSize →
      bytes <+: encode program →
      bytes ≠ encode program →
      ∃ error, load file bytes = .error error := by
  refine ⟨⟨?_, ?_⟩, ?_, ?_, ?_⟩
  · rintro ⟨program, loaded⟩ ⟨defect, wording, rejected⟩
    have refused :
        load file bytes = .error { defect := defect, file := file } :=
      load_eq_error_iff.mpr ⟨rfl, (decode_of_rejected rejected).1⟩
    rw [loaded] at refused
    cases refused
  · intro unrejected
    cases loaded : load file bytes with
    | ok program => exact ⟨program, rfl⟩
    | error error =>
        have refused := (load_eq_error_iff.mp loaded).2
        exact absurd ⟨_, _, rejected_of_decode refused⟩ unrejected
  · intro error
    rw [load_eq_error_iff]
    refine and_congr_right fun _ => ⟨rejected_of_decode, fun rejected => ?_⟩
    exact (decode_of_rejected rejected).1
  · intro first second firstWording secondWording isFirst isSecond
    obtain ⟨firstRead, rfl⟩ := decode_of_rejected isFirst
    obtain ⟨secondRead, rfl⟩ := decode_of_rejected isSecond
    rw [firstRead] at secondRead
    cases secondRead
    exact ⟨rfl, rfl⟩
  · intro program countable isPrefix strict
    obtain ⟨defect, refused⟩ :=
      decode_of_strict_prefix countable isPrefix strict
    exact ⟨{ defect := defect, file := file },
      load_eq_error_iff.mpr ⟨rfl, refused⟩⟩

/-- An image cut within an operand still holds two octets for each instruction. -/
example :
    decode ((encode #[.operate .pop, .push 7]).take 20) =
      .error (.record { defect := .truncatedOperand, offset := 15 }) :=
  rfl

end Image

end StackCode
