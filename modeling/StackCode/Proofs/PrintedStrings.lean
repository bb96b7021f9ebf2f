import Mathlib.Data.List.TakeWhile
import Mathlib.Logic.Function.Iterate
import StackCode.Proofs.Failures

namespace StackCode

/-!
# Printing takes one string from the stack

What can be printed from a stack is its longest run of characters on top, values from 1
to the greatest code point. Printing a string writes exactly these and takes the value
after them with them; that value alone decides how it ends. A zero ends the string, any
other value is no character, and if there is no such value the stack is used up.

`Printing.turn` takes one value at a time. It is never at work for more turns than there
are characters and one, and ends with what `Effect.printString` says at once.
-/

namespace Word

/-- A value that is printed as a character. -/
def isCharacter (value : Word) : Bool :=
  decide (1 ≤ value.toInt ∧ value.toInt ≤ 0x10FFFF)

/-- The number of the character that a value is printed as. -/
def character (value : Word) : Nat :=
  value.toInt.toNat

/-- A character is a code point that is not the NUL. -/
theorem isCharacter_iff {value : Word} :
    value.isCharacter = true ↔ value ≠ 0 ∧ value.IsCodePoint := by
  have isZero_iff : value = 0 ↔ value.toInt = 0 := Int64.toInt_inj.symm
  rw [isCharacter, decide_eq_true_iff, IsCodePoint, ne_eq, isZero_iff]
  omega

/-- A character is the code point that its value stands for. -/
theorem codePoint?_of_isCharacter
    {value : Word}
    (isCharacter : value.isCharacter = true) :
    codePoint? value = some value.character :=
  if_pos (isCharacter_iff.mp isCharacter).2

theorem ne_zero_of_isCharacter
    {value : Word}
    (isCharacter : value.isCharacter = true) :
    value ≠ 0 :=
  (isCharacter_iff.mp isCharacter).1

/-- What ends a string and is not the NUL is no code point. -/
theorem not_isCodePoint_of_noCharacter
    {value : Word}
    (nonzero : value ≠ 0)
    (noCharacter : value.isCharacter = false) :
    ¬value.IsCodePoint := by
  intro isCodePoint
  rw [isCharacter_iff.mpr ⟨nonzero, isCodePoint⟩] at noCharacter
  cases noCharacter

end Word

namespace Stack

/-- The characters on top of a stack, as many as there are. -/
def characters (stack : Stack) : Stack :=
  stack.takeWhile Word.isCharacter

/-- What lies below the characters on top of a stack. -/
def belowCharacters (stack : Stack) : Stack :=
  stack.dropWhile Word.isCharacter

/-- A stack is the characters on top of it and what lies below them. -/
theorem characters_append_below (stack : Stack) :
    stack.characters ++ stack.belowCharacters = stack :=
  List.takeWhile_append_dropWhile

/-- No character lies directly below those on top. -/
theorem noCharacter_of_below
    {stack rest : Stack}
    {value : Word}
    (below : stack.belowCharacters = value :: rest) :
    value.isCharacter = false := by
  have atTop := List.head?_dropWhile_not Word.isCharacter stack
  rw [belowCharacters] at below
  rw [below] at atTop
  exact atTop

theorem isCharacter_of_characters (stack : Stack) :
    ∀ value ∈ stack.characters, value.isCharacter = true :=
  fun _ member => List.mem_takeWhile_imp member

/-- No string ends among the characters on top of a stack. -/
theorem unterminated_characters (stack : Stack) : stack.characters.Unterminated :=
  fun value member =>
    Word.isCharacter_iff.mp (stack.isCharacter_of_characters value member)

end Stack

/-- The texts that characters are printed as, one for each. -/
def Stack.texts (characters : Stack) : List Text :=
  characters.map fun value => Text.ofCodePoint value.character

namespace Effect

/-- Characters are printed one after the other, and then what lies below them matters. -/
theorem printString_append_below
    {characters : Stack}
    (all : ∀ value ∈ characters, value.isCharacter = true)
    (next : Nat)
    (below : Stack) :
    printString next (characters ++ below) =
      { printString next below with
        printed := characters.texts ++ (printString next below).printed } := by
  induction characters with
  | nil => rfl
  | cons value others inductionHypothesis =>
      obtain ⟨isCharacter, othersToo⟩ := List.forall_mem_cons.mp all
      rw [List.cons_append, printString,
        if_neg (Word.ne_zero_of_isCharacter isCharacter),
        Word.codePoint?_of_isCharacter isCharacter,
        inductionHypothesis othersToo]
      rfl

/-- What lies below the characters decides how printing ends, and is not printed. -/
theorem printString_belowCharacters (next : Nat) (stack : Stack) :
    (printString next stack.belowCharacters).printed = [] := by
  cases below : stack.belowCharacters with
  | nil => rfl
  | cons value rest =>
      by_cases isZero : value = 0
      · rw [printString, if_pos isZero]
        rfl
      · have noCharacter := Stack.noCharacter_of_below below
        rw [printString_of_noCodePoint
          (Word.not_isCodePoint_of_noCharacter isZero noCharacter)]
        rfl

/-- Printing writes the characters on top and ends at what lies below them. -/
theorem printString_eq (next : Nat) (stack : Stack) :
    printString next stack =
      { printString next stack.belowCharacters with
        printed := stack.characters.texts } := by
  have printed := printString_append_below
      stack.isCharacter_of_characters next stack.belowCharacters
  rw [stack.characters_append_below, printString_belowCharacters,
    List.append_nil] at printed
  exact printed

end Effect

/-- The printing of a string, seen between two of its values. -/
inductive Printing where
  /-- It has printed texts and goes on with the values that are left. -/
  | going (stack : Stack) (printed : List Text)
  /-- It has ended. -/
  | ended (effect : Effect)
  deriving Repr, DecidableEq

namespace Printing

/-- Take a value, and print it or end with it. -/
def turn (next : Nat) : Printing → Printing
  | .going [] printed =>
      .ended { Effect.fail .notEnoughValues [] with printed := printed }
  | .going (value :: rest) printed =>
      if value = 0 then
        .ended { Effect.goTo next rest with printed := printed }
      else
        match Word.codePoint? value with
        | none =>
            .ended
              { Effect.fail (.invalidCharacter value) rest with
                printed := printed }
        | some point => .going rest (printed ++ [Text.ofCodePoint point])
  | .ended effect => .ended effect

/-- In each turn, the character on top is taken and printed. -/
theorem turn_of_isCharacter
    {value : Word}
    (isCharacter : value.isCharacter = true)
    (next : Nat)
    (rest : Stack)
    (printed : List Text) :
    turn next (.going (value :: rest) printed) =
      .going rest (printed ++ [Text.ofCodePoint value.character]) := by
  rw [turn, if_neg (Word.ne_zero_of_isCharacter isCharacter),
    Word.codePoint?_of_isCharacter isCharacter]

/-- Each character takes one turn, and the printing goes on after it. -/
theorem iterate_turn_append
    {characters : Stack}
    (all : ∀ value ∈ characters, value.isCharacter = true)
    (next : Nat)
    (below : Stack)
    (printed : List Text) :
    (turn next)^[characters.length] (.going (characters ++ below) printed) =
      .going below (printed ++ characters.texts) := by
  induction characters generalizing printed with
  | nil =>
      rw [Stack.texts, List.map_nil, List.append_nil]
      rfl
  | cons value others inductionHypothesis =>
      obtain ⟨isCharacter, othersToo⟩ := List.forall_mem_cons.mp all
      rw [List.length_cons, Function.iterate_succ_apply, List.cons_append,
        turn_of_isCharacter isCharacter, inductionHypothesis othersToo,
        List.append_assoc]
      rfl

/-- The turn after the characters is the last one. -/
theorem turn_belowCharacters
    (next : Nat)
    (stack : Stack)
    (printed : List Text) :
    turn next (.going stack.belowCharacters printed) =
      .ended
        { Effect.printString next stack.belowCharacters with
          printed := printed } := by
  cases below : stack.belowCharacters with
  | nil => rfl
  | cons value rest =>
      by_cases isZero : value = 0
      · rw [turn, if_pos isZero, Effect.printString, if_pos isZero]
      · have noCodePoint :=
          Word.not_isCodePoint_of_noCharacter isZero (Stack.noCharacter_of_below below)
        rw [turn, if_neg isZero, Word.codePoint?_eq_none_iff.mpr noCodePoint,
          Effect.printString_of_noCodePoint noCodePoint]

/-- Printing goes on for as long as there are characters on top of the stack. -/
theorem iterate_turn_characters (next : Nat) (stack : Stack) :
    (turn next)^[stack.characters.length] (.going stack []) =
      .going stack.belowCharacters stack.characters.texts := by
  have gone := iterate_turn_append
      stack.isCharacter_of_characters next stack.belowCharacters []
  rw [stack.characters_append_below, List.nil_append] at gone
  exact gone

/-- Turn by turn a string is printed as at once. -/
theorem iterate_turn_ends (next : Nat) (stack : Stack) :
    (turn next)^[stack.characters.length + 1] (.going stack []) =
      .ended (Effect.printString next stack) := by
  rw [Function.iterate_succ_apply', iterate_turn_characters, turn_belowCharacters,
    ← Effect.printString_eq]

end Printing

namespace Session

variable {σ : Type} [Respondent σ] {session : Session σ}

/-- A step that is not given up adds to the output what its instruction prints. -/
theorem output_step_of_confirmed
    (running : session.machine.status = .running)
    (confirmed :
      session.machine.stopsAtBreakpoint = true → session.ask.1 = true) :
    session.step.2.output = session.output ++ session.machine.executeNext.2 := by
  rw [step_of_running _ running]
  rcases session.advance_cases with
    ⟨_, form⟩ | ⟨_, _, form⟩ | ⟨stops, refusal, _⟩
  · rw [form, output_executeNext]
  · rw [form, output_executeNext, machine_ask, output_ask]
  · rw [confirmed stops] at refusal
    cases refusal

/-- What a step that prints a string does with the stack and with the output. -/
structure PrintsString (session : Session σ) : Prop where
  /-- The printing ends, with the turn after those of the characters. -/
  turns :
    (Printing.turn (session.machine.pointer + 1))^[
          session.machine.stack.characters.length]
        (.going session.machine.stack []) =
      .going session.machine.stack.belowCharacters
        session.machine.stack.characters.texts
  ends :
    (Printing.turn (session.machine.pointer + 1))^[
          session.machine.stack.characters.length + 1]
        (.going session.machine.stack []) =
      .ended
        (Instruction.execute (.operate .printString) session.machine.pointer
          session.machine.stack)
  output :
    session.step.2.output.flatten =
      session.output.flatten ++
        Text.ofCodePoints (session.machine.stack.characters.map Word.character)
  terminated :
    ∀ rest,
      session.machine.stack.belowCharacters = 0 :: rest →
      session.step.1 = .ok true ∧
        session.step.2.machine =
          session.machine.movedTo (session.machine.pointer + 1) rest
  refused :
    ∀ value rest,
      session.machine.stack.belowCharacters = value :: rest →
      value ≠ 0 →
      session.FailsWith (Text.concat ["invalid character ", value.text]) rest
  exhausted :
    session.machine.stack.belowCharacters = [] →
    session.FailsWith "not enough values on stack for `PRINTSTR`" []
  failed :
    ∀ fault, session.step.1 = .error fault → session.FailedStep fault

section

variable
  (running : session.machine.status = .running)
  (confirmed :
    session.machine.stopsAtBreakpoint = true → session.ask.1 = true)
  (printsNext :
    session.machine.instruction? = some (.operate .printString))

include running confirmed printsNext

/-- A step prints the characters on top of the stack, however it ends. -/
theorem output_step_of_characters :
    session.step.2.output =
      session.output ++ session.machine.stack.characters.texts := by
  rw [output_step_of_confirmed running confirmed, Machine.executeNext, printsNext]
  simp only [Instruction.execute, Operation.execute]
  rw [Effect.printString_eq]

/--
Where a zero lies below the characters, it is taken with them, and the program goes on.
-/
theorem step_of_terminated
    {rest : Stack}
    (below : session.machine.stack.belowCharacters = 0 :: rest) :
    session.step.1 = .ok true ∧
      session.step.2.machine =
        session.machine.movedTo (session.machine.pointer + 1) rest := by
  have effect :
      Instruction.execute (.operate .printString) session.machine.pointer
          session.machine.stack =
        { stack := rest
          printed := session.machine.stack.characters.texts
          outcome := .proceed (session.machine.pointer + 1) } := by
    rw [Instruction.execute, Operation.execute, Effect.printString_eq, below]
    rfl
  obtain ⟨reported, machine⟩ := step_of_confirmed running confirmed
  rw [reported, machine, Machine.executeNext_of_proceed printsNext effect]
  refine ⟨?_, rfl⟩
  rw [Machine.movedTo, running]
  rfl

/-- Where something else lies below them, it is taken, and the step fails for it. -/
theorem failsWith_of_refused
    {value : Word}
    {rest : Stack}
    (below : session.machine.stack.belowCharacters = value :: rest)
    (nonzero : value ≠ 0) :
    session.FailsWith (Fault.characterReason value) rest := by
  have whole := session.machine.stack.characters_append_below
  have noCodePoint :=
    Word.not_isCodePoint_of_noCharacter nonzero (Stack.noCharacter_of_below below)
  rw [below] at whole
  rw [failsWith_iff running confirmed]
  exact
    ⟨.instruction (.operate .printString) (.invalidCharacter value), rfl,
      .printString, rfl, printsNext, rfl, session.machine.stack.characters,
      whole.symm, Stack.unterminated_characters _, noCodePoint⟩

/-- Where nothing lies below them, the step fails for want of an end. -/
theorem failsWith_of_exhausted
    (below : session.machine.stack.belowCharacters = []) :
    session.FailsWith (Fault.lackReason (.operate .printString)) [] := by
  have whole := session.machine.stack.characters_append_below
  rw [below, List.append_nil] at whole
  have unterminated : session.machine.stack.Unterminated := by
    rw [← whole]
    exact Stack.unterminated_characters _
  rw [failsWith_iff running confirmed]
  exact
    ⟨.instruction (.operate .printString) .notEnoughValues, rfl,
      .printString, rfl, printsNext, Or.inr ⟨rfl, unterminated⟩, rfl⟩

end

/--
Printing a string consumes exactly one string.

Whatever the stack, the printing ends after one turn for each character on top and one
more. The characters are written as they are, and removed with the value below them: a
zero, after which the machine goes on at the next address, or a value that is no
character and is refused. Without such a value the whole stack is used up. A machine
that fails so stays where it is.
-/
theorem printing_consumes_one_string
    (session : Session σ)
    (running : session.machine.status = .running)
    (confirmed :
      session.machine.stopsAtBreakpoint = true → session.ask.1 = true)
    (printsNext :
      session.machine.instruction? = some (.operate .printString)) :
    session.PrintsString where
  turns := Printing.iterate_turn_characters _ _
  ends := Printing.iterate_turn_ends _ _
  output := by
    rw [output_step_of_characters running confirmed printsNext,
      List.flatten_append, Text.ofCodePoints, List.flatMap_map,
      List.flatMap_def]
    rfl
  terminated := fun rest => step_of_terminated running confirmed printsNext
  refused := fun value rest => failsWith_of_refused running confirmed printsNext
  exhausted := failsWith_of_exhausted running confirmed printsNext
  failed := fun fault => failedStep_of_step running confirmed

/-- A machine that prints the halves of a pair, and then what is no character. -/
def printingHalves : Session Script :=
  ofMachine
    { program := #[.operate .printString]
      annotations := (Annotations.addBreakpoint 0 {}).setVerbose true
      stack := [0xD83D, 0xDE00, 0x110000, 0, 7] }
    { answers := [true] }

/-- The halves are written, and the values below the refused one stay. -/
theorem halves_are_printed_before_the_refusal :
    printingHalves.step.2.output.flatten = [0xD83D, 0xDE00] ∧
      printingHalves.FailsWith "invalid character 1114112" [0, 7] := by
  have prints : printingHalves.PrintsString :=
    printing_consumes_one_string printingHalves rfl (fun _ => rfl) rfl
  exact ⟨prints.output, prints.refused 0x110000 [0, 7] rfl (by decide)⟩

end Session

end StackCode
