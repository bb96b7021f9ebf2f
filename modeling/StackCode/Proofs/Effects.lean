import StackCode.Machine.Effect

namespace StackCode

/-!
# What an instruction may do

An instruction goes on at the next address or at one that a jump may have as its
target, and it prints numbers and code points. `Effect.Lawful` says so of an effect;
it is shown for each way in which effects are made, and from there for every
instruction. What an instruction fails with names its opcode.
-/

/-- A text that an instruction prints: a number on a line, or one code point. -/
inductive Printable : Text → Prop where
  /-- A number and the end of its line. -/
  | number (word : Word) : Printable (word.text ++ [CodeUnit.lineFeed])
  /-- A code point that is not the NUL. -/
  | codePoint
      {point : Nat}
      (notNul : 1 ≤ point)
      (inRange : point ≤ 0x10FFFF) :
      Printable (Text.ofCodePoint point)

namespace Word

/-- A target is an address that the pointer may have. -/
theorem le_of_target?
    {value : Word}
    {address : Nat}
    (isTarget : target? value = some address) :
    address ≤ 0x1FFFFFFFFFFFFF := by
  unfold target? greatestTarget at isTarget
  split at isTarget
  next inRange =>
    cases isTarget
    omega
  next => cases isTarget

/-- A value that is printed as a code point, and is not zero, is that code point. -/
theorem range_of_codePoint?
    {value : Word}
    {point : Nat}
    (nonzero : value ≠ 0)
    (isPoint : codePoint? value = some point) :
    1 ≤ point ∧ point ≤ 0x10FFFF := by
  have notZero : value.toInt ≠ 0 := fun isZero =>
    nonzero (Int64.toInt_inj.mp isZero)
  unfold codePoint? greatestCodePoint at isPoint
  split at isPoint
  next inRange =>
    cases isPoint
    omega
  next => cases isPoint

/-- The address after one that the pointer may have is a word and no other number. -/
theorem toInt_wrap_succ
    {address : Nat}
    (isAddress : address ≤ 0x1FFFFFFFFFFFFF) :
    (wrap (address + 1 : Nat)).toInt = address + 1 := by
  rw [toInt_wrap_of_mem_range (by unfold least greatest; omega)]
  omega

end Word

namespace Effect

/--
What an instruction at an address may do: go on at the next address or at one that a
jump may have as its target, and print numbers and code points.
-/
structure Lawful (address : Nat) (effect : Effect) : Prop where
  next :
    ∀ next,
      effect.outcome = .proceed next →
      next = address + 1 ∨ next ≤ 0x1FFFFFFFFFFFFF
  printed : ∀ text ∈ effect.printed, Printable text

namespace Lawful

variable {address : Nat}

/-- To go on at the next address is lawful. -/
theorem goTo_next (stack : Stack) : Lawful address (goTo (address + 1) stack) where
  next := by
    rintro next ⟨⟩
    exact Or.inl rfl
  printed := List.forall_mem_nil _

/-- Whatever an instruction fails for, to fail is lawful. -/
theorem fail (defect : InstructionDefect) (stack : Stack) :
    Lawful address (Effect.fail defect stack) where
  next := by
    rintro next ⟨⟩
  printed := List.forall_mem_nil _

/-- To end the program is lawful. -/
theorem exit (stack : Stack) (code : Word) :
    Lawful address { stack := stack, outcome := .exit code } where
  next := by
    rintro next ⟨⟩
  printed := List.forall_mem_nil _

/-- A jump goes to its target or fails. -/
theorem jump (target : Word) (stack : Stack) :
    Lawful address (Effect.jump target stack) := by
  unfold Effect.jump
  cases isTarget : Word.target? target with
  | none => exact fail _ _
  | some goal =>
      exact
        { next := by
            rintro next ⟨⟩
            exact Or.inr (Word.le_of_target? isTarget)
          printed := List.forall_mem_nil _ }

/-- A number that is printed stands on a line. -/
theorem printNumber (value : Word) (stack : Stack) :
    Lawful address
      { stack := stack
        printed := [value.text ++ [CodeUnit.lineFeed]]
        outcome := .proceed (address + 1) } where
  next := by
    rintro next ⟨⟩
    exact Or.inl rfl
  printed := by
    intro text member
    rw [List.mem_singleton.mp member]
    exact .number value

end Lawful

/-- What is printed down to the first zero is code points, none of them a NUL. -/
theorem printed_printString (next : Nat) (stack : Stack) :
    ∃ points : List Nat,
      (∀ point ∈ points, 1 ≤ point ∧ point ≤ 0x10FFFF) ∧
        (printString next stack).printed = points.map Text.ofCodePoint := by
  have nothing : ∀ point ∈ ([] : List Nat), 1 ≤ point ∧ point ≤ 0x10FFFF :=
    List.forall_mem_nil _
  induction stack with
  | nil => exact ⟨[], nothing, rfl⟩
  | cons value rest inductionHypothesis =>
      rw [printString]
      by_cases isZero : value = 0
      · rw [if_pos isZero]
        exact ⟨[], nothing, rfl⟩
      · rw [if_neg isZero]
        cases isPoint : Word.codePoint? value with
        | none => exact ⟨[], nothing, rfl⟩
        | some point =>
            obtain ⟨points, inRange, printed⟩ := inductionHypothesis
            refine ⟨point :: points, ?_, ?_⟩
            · exact List.forall_mem_cons.mpr
                ⟨Word.range_of_codePoint? isZero isPoint, inRange⟩
            · simp only [printed, List.map_cons]

/-- Printing a string goes on at the next address if it goes on at all. -/
theorem outcome_printString
    {next goal : Nat}
    {stack : Stack}
    (proceeds : (printString next stack).outcome = .proceed goal) :
    goal = next := by
  induction stack with
  | nil => cases proceeds
  | cons value rest inductionHypothesis =>
      rw [printString] at proceeds
      split at proceeds
      next =>
        cases proceeds
        rfl
      next =>
        split at proceeds
        next => cases proceeds
        next => exact inductionHypothesis proceeds

/-- A string is printed as code points, and the program goes on after it. -/
theorem Lawful.printString (address : Nat) (stack : Stack) :
    Lawful address (Effect.printString (address + 1) stack) where
  next := fun _ proceeds => Or.inl (outcome_printString proceeds)
  printed := by
    obtain ⟨points, inRange, printed⟩ := printed_printString (address + 1) stack
    intro text member
    rw [printed] at member
    obtain ⟨point, isPoint, rfl⟩ := List.mem_map.mp member
    exact .codePoint (inRange point isPoint).1 (inRange point isPoint).2

end Effect

namespace Operation

/-- Every operation does what an instruction may do. -/
theorem lawful_execute (operation : Operation) (address : Nat) (stack : Stack) :
    Effect.Lawful address (operation.execute address stack) := by
  -- One case an alternative of the definition, in its order.
  unfold execute
  split
  · exact .goTo_next _
  · exact .goTo_next _
  · exact .goTo_next _
  · split
    · exact .jump _ _
    · exact .goTo_next _
  · split
    · exact .jump _ _
    · exact .goTo_next _
  · exact .jump _ _
  · exact .goTo_next _
  · exact .goTo_next _
  · exact .goTo_next _
  · split
    · exact .fail _ _
    · exact .goTo_next _
  · exact .exit _ _
  · exact .exit _ _
  · exact .printNumber _ _
  · exact .jump _ _
  · exact .printString _ _
  · exact .fail _ _

end Operation

/-- All that instructions do is lawful. -/
theorem Instruction.lawful_execute
    (instruction : Instruction)
    (address : Nat)
    (stack : Stack) :
    Effect.Lawful address (instruction.execute address stack) := by
  cases instruction with
  | push operand => exact .goTo_next _
  | operate operation => exact operation.lawful_execute address stack

/-- The opcode of the instruction that a failure is about, if it is about one. -/
def FaultCause.opcode? : FaultCause → Option Opcode
  | .noInstruction => none
  | .instruction opcode _ => some opcode

namespace Fault

/-- A fault names the instruction that it concerns, if there is one. -/
theorem mnemonic?_eq (fault : Fault) :
    fault.mnemonic? = fault.cause.opcode?.map Opcode.mnemonic := by
  cases shape : fault.cause <;> simp [mnemonic?, FaultCause.opcode?, shape]

/-- The units that the wordings of failures begin with. -/
def firstUnits : List CodeUnit :=
  ['a', 'd', 'i', 'n'].map CodeUnit.ofChar

/-- The wording of a fault begins with one of a few letters. -/
theorem head?_reason (fault : Fault) :
    ∃ unit ∈ firstUnits, fault.reason.head? = some unit := by
  obtain ⟨cause, address⟩ := fault
  cases cause with
  | noInstruction => exact ⟨CodeUnit.ofChar 'n', by decide, rfl⟩
  | instruction opcode defect =>
      cases defect with
      | aborted => exact ⟨CodeUnit.ofChar 'a', by decide, rfl⟩
      | notEnoughValues => exact ⟨CodeUnit.ofChar 'n', by decide, rfl⟩
      | divisionByZero => exact ⟨CodeUnit.ofChar 'd', by decide, rfl⟩
      | invalidTarget target => exact ⟨CodeUnit.ofChar 'i', by decide, rfl⟩
      | invalidCharacter value => exact ⟨CodeUnit.ofChar 'i', by decide, rfl⟩

/-- No failure is worded as one that cannot happen. -/
theorem reason_ne_unreachable (fault : Fault) :
    fault.reason ≠ ("unreachable" : Text) := by
  intro isUnreachable
  obtain ⟨unit, member, begins⟩ := fault.head?_reason
  have isFirst : unit = CodeUnit.ofChar 'u' := by
    rw [isUnreachable] at begins
    exact (Option.some.inj begins).symm
  rw [isFirst] at member
  exact absurd member (by decide)

end Fault

end StackCode
