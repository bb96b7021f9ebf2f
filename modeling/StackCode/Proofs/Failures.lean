import StackCode.Proofs.Numerals
import StackCode.Proofs.Stepping

namespace StackCode

/-!
# When a step fails

The ways in which an operation can fail, said without executing it: it takes more values
than there are, divides by zero, takes a jump to what is no address, or prints what is
no code point. `Operation.Fails` lists them with the values that are left, and an
operation fails exactly so. A step fails as its operation does, or for want of an
instruction, and the wording of the failure tells which of these it was.
-/

namespace Word

/-- A value that stands for an address as a jump's target. -/
def IsTarget (value : Word) : Prop :=
  0 ≤ value.toInt ∧ value.toInt ≤ 0x1FFFFFFFFFFFFF

/-- A value that stands for a code point. -/
def IsCodePoint (value : Word) : Prop :=
  0 ≤ value.toInt ∧ value.toInt ≤ 0x10FFFF

/-- A jump finds no address exactly where its target is none. -/
theorem target?_eq_none_iff {value : Word} :
    target? value = none ↔ ¬value.IsTarget := by
  unfold target? IsTarget greatestTarget
  split <;> simp_all

/-- Nothing is printed exactly for a value that is no code point. -/
theorem codePoint?_eq_none_iff {value : Word} :
    codePoint? value = none ↔ ¬value.IsCodePoint := by
  unfold codePoint? IsCodePoint greatestCodePoint
  split <;> simp_all

theorem IsCodePoint.exists_codePoint?
    {value : Word}
    (isCodePoint : value.IsCodePoint) :
    ∃ point, codePoint? value = some point :=
  Option.ne_none_iff_exists'.mp
    (mt codePoint?_eq_none_iff.mp (not_not_intro isCodePoint))

end Word

/-- Values that no string ends at: code points, none of them zero. -/
def Stack.Unterminated (values : Stack) : Prop :=
  ∀ value ∈ values, value ≠ 0 ∧ value.IsCodePoint

namespace Operation

/--
How many values an operation takes at once.

What ends the program makes do with none, and what prints a string takes as many as
the string has.
-/
def arity : Operation → Nat
  | .pop | .duplicate | .jump | .printNumber | .call => 1
  | .swap | .jumpIfZero | .jumpIfNonzero => 2
  | .add | .subtract | .multiply | .divide => 2
  | .exit | .printString => 0

/-- Whether a stack holds fewer values than an operation takes. -/
def Lacks (operation : Operation) (stack : Stack) : Prop :=
  stack.length < operation.arity ∨ operation = .printString ∧ stack.Unterminated

/--
The jumps that operations at an address take: from a stack, to a value as target, with
the values that are left.
-/
inductive Jumps (address : Nat) : Operation → Stack → Word → Stack → Prop where
  /-- An unconditional jump is always taken. -/
  | always {target : Word} {left : Stack} :
      Jumps address .jump (target :: left) target left
  /-- A jump on zero is taken on zero. -/
  | onZero {target : Word} {left : Stack} :
      Jumps address .jumpIfZero (target :: 0 :: left) target left
  /-- A jump on other values is taken on them. -/
  | onNonzero {target condition : Word} {left : Stack} (nonzero : condition ≠ 0) :
      Jumps address .jumpIfNonzero (target :: condition :: left) target left
  /-- A call leaves the address after it for the way back. -/
  | calling {target : Word} {left : Stack} :
      Jumps address .call (target :: left) target
        (Word.wrap (address + 1 : Nat) :: left)

/-- What an operation fails for at an address, and what is left of the stack. -/
def Fails
    (operation : Operation)
    (address : Nat)
    (stack left : Stack) :
    InstructionDefect → Prop
  | .aborted => False
  | .notEnoughValues => operation.Lacks stack ∧ left = []
  | .divisionByZero => operation = .divide ∧ ∃ top, stack = top :: 0 :: left
  | .invalidTarget target =>
      operation.Jumps address stack target left ∧ ¬target.IsTarget
  | .invalidCharacter value =>
      operation = .printString ∧
        ∃ before,
          stack = before ++ value :: left ∧
            before.Unterminated ∧
            ¬value.IsCodePoint

end Operation

namespace Effect

variable {address next : Nat} {stack left : Stack} {defect : InstructionDefect}

/-- A jump to what is no address fails with its values gone. -/
theorem jump_of_noTarget
    {target : Word}
    (noTarget : ¬target.IsTarget)
    (stack : Stack) :
    jump target stack = fail (.invalidTarget target) stack := by
  rw [jump, Word.target?_eq_none_iff.mpr noTarget]

/-- A jump that is taken can only fail for its target. -/
theorem fails_of_jump
    {operation : Operation}
    {target : Word}
    (jumps : operation.Jumps address stack target left)
    (fails : (jump target left).outcome = .fault defect) :
    operation.Fails address stack (jump target left).stack defect := by
  by_cases isTarget : target.IsTarget
  · have found := mt Word.target?_eq_none_iff.mp (not_not_intro isTarget)
    obtain ⟨goal, found⟩ := Option.ne_none_iff_exists'.mp found
    rw [jump, found] at fails
    cases fails
  · rw [jump_of_noTarget isTarget] at fails ⊢
    cases fails
    exact ⟨jumps, isTarget⟩

/-- Printing goes through values that no string ends at. -/
theorem printString_append
    {before : Stack}
    (unterminated : before.Unterminated)
    (next : Nat)
    (stack : Stack) :
    (printString next (before ++ stack)).stack = (printString next stack).stack ∧
      (printString next (before ++ stack)).outcome =
        (printString next stack).outcome := by
  induction before with
  | nil => exact ⟨rfl, rfl⟩
  | cons value others inductionHypothesis =>
      obtain ⟨nonzero, isCodePoint⟩ := unterminated value List.mem_cons_self
      obtain ⟨point, found⟩ := isCodePoint.exists_codePoint?
      rw [List.cons_append, printString, if_neg nonzero, found]
      exact inductionHypothesis fun other member =>
        unterminated other (List.mem_cons_of_mem _ member)

/-- Printing ends at a value that is no code point, and takes it. -/
theorem printString_of_noCodePoint
    {value : Word}
    (noCodePoint : ¬value.IsCodePoint) :
    printString next (value :: left) = fail (.invalidCharacter value) left := by
  have nonzero : value ≠ 0 := by
    rintro rfl
    exact noCodePoint ⟨by decide, by decide⟩
  rw [printString, if_neg nonzero, Word.codePoint?_eq_none_iff.mpr noCodePoint]

/-- A string has no end, or ends at a zero or at what is no code point. -/
theorem exists_unterminated (stack : Stack) :
    stack.Unterminated ∨
      ∃ before value left,
        stack = before ++ value :: left ∧
          Stack.Unterminated before ∧
          (value = 0 ∨ ¬value.IsCodePoint) := by
  induction stack with
  | nil => exact Or.inl (List.forall_mem_nil _)
  | cons value rest inductionHypothesis =>
      by_cases goesOn : value ≠ 0 ∧ value.IsCodePoint
      · rcases inductionHypothesis with
          all | ⟨before, other, left, rfl, those, ends⟩
        · exact Or.inl (List.forall_mem_cons.mpr ⟨goesOn, all⟩)
        · exact Or.inr ⟨value :: before, other, left, rfl,
            List.forall_mem_cons.mpr ⟨goesOn, those⟩, ends⟩
      · rw [Decidable.not_and_iff_not_or_not, Decidable.not_not] at goesOn
        exact Or.inr ⟨[], value, rest, rfl, List.forall_mem_nil _, goesOn⟩

/--
What prints a string fails for want of its end, or for a value that is no character.
-/
theorem fails_of_printString
    (fails : (printString next stack).outcome = .fault defect) :
    Operation.Fails .printString address stack (printString next stack).stack
      defect := by
  rcases exists_unterminated stack with
    all | ⟨before, value, left, rfl, unterminated, ends⟩
  · have unchanged := printString_append all next []
    rw [List.append_nil] at unchanged
    rw [unchanged.2] at fails
    rw [unchanged.1]
    cases fails
    exact ⟨Or.inr ⟨rfl, all⟩, rfl⟩
  · obtain ⟨sameStack, sameOutcome⟩ :=
      printString_append unterminated next (value :: left)
    rw [sameOutcome] at fails
    rw [sameStack]
    rcases ends with rfl | noCodePoint
    · cases fails
    · rw [printString_of_noCodePoint noCodePoint] at fails ⊢
      cases fails
      exact ⟨rfl, before, rfl, unterminated, noCodePoint⟩

end Effect

namespace Operation

variable
  {operation : Operation}
  {address : Nat}
  {stack left : Stack}
  {defect : InstructionDefect}

/-- An operation that is executed fails only in one of the ways that are listed. -/
theorem fails_of_execute
    (fails : (operation.execute address stack).outcome = .fault defect) :
    operation.Fails address stack (operation.execute address stack).stack
      defect := by
  revert fails
  -- One case an alternative of the definition, in its order.
  fun_cases execute operation address stack
  · rintro ⟨⟩
  · rintro ⟨⟩
  · rintro ⟨⟩
  · exact Effect.fails_of_jump .onZero
  · rintro ⟨⟩
  next nonzero => exact Effect.fails_of_jump (.onNonzero nonzero)
  · rintro ⟨⟩
  · exact Effect.fails_of_jump .always
  · rintro ⟨⟩
  · rintro ⟨⟩
  · rintro ⟨⟩
  · rintro ⟨⟩
    exact ⟨rfl, _, rfl⟩
  · rintro ⟨⟩
  · rintro ⟨⟩
  · rintro ⟨⟩
  · rintro ⟨⟩
  · exact Effect.fails_of_jump .calling
  · exact Effect.fails_of_printString
  · rintro ⟨⟩
    refine ⟨Or.inl ?_, rfl⟩
    rcases stack with _ | ⟨top, _ | ⟨second, rest⟩⟩ <;> cases operation <;>
      simp_all [arity]

/-- An operation that lacks values fails with an empty stack. -/
theorem execute_of_lacks (lacks : operation.Lacks stack) :
    (operation.execute address stack).outcome = .fault .notEnoughValues ∧
      (operation.execute address stack).stack = [] := by
  rcases lacks with few | ⟨rfl, unterminated⟩
  · have atMostTwo : operation.arity ≤ 2 := by cases operation <;> decide
    rcases stack with _ | ⟨top, _ | ⟨second, rest⟩⟩
    · cases operation <;> simp_all [arity, execute, Effect.fail]
    · cases operation <;> simp_all [arity, execute, Effect.fail]
    · simp only [List.length_cons] at few
      omega
  · have unchanged :=
      Effect.printString_append unterminated (address + 1) []
    rw [List.append_nil] at unchanged
    exact ⟨unchanged.2, unchanged.1⟩

/-- An operation fails for what it can fail for, and exactly those values are left. -/
theorem execute_fails_iff :
    (operation.execute address stack).outcome = .fault defect ∧
        (operation.execute address stack).stack = left ↔
      operation.Fails address stack left defect := by
  constructor
  · rintro ⟨fails, rfl⟩
    exact fails_of_execute fails
  · intro fails
    cases defect with
    | aborted => exact fails.elim
    | notEnoughValues =>
        obtain ⟨lacks, rfl⟩ := fails
        exact execute_of_lacks lacks
    | divisionByZero =>
        obtain ⟨rfl, top, rfl⟩ := fails
        exact ⟨rfl, rfl⟩
    | invalidTarget target =>
        obtain ⟨jumps, noTarget⟩ := fails
        cases jumps with
        | always =>
            rw [execute, Effect.jump_of_noTarget noTarget]
            exact ⟨rfl, rfl⟩
        | onZero =>
            rw [execute, if_pos rfl, Effect.jump_of_noTarget noTarget]
            exact ⟨rfl, rfl⟩
        | onNonzero nonzero =>
            rw [execute, if_pos nonzero, Effect.jump_of_noTarget noTarget]
            exact ⟨rfl, rfl⟩
        | calling =>
            rw [execute, Effect.jump_of_noTarget noTarget]
            exact ⟨rfl, rfl⟩
    | invalidCharacter value =>
        obtain ⟨rfl, before, rfl, unterminated, noCodePoint⟩ := fails
        obtain ⟨sameStack, sameOutcome⟩ :=
          Effect.printString_append unterminated (address + 1) (value :: left)
        rw [execute, sameStack, sameOutcome,
          Effect.printString_of_noCodePoint noCodePoint]
        exact ⟨rfl, rfl⟩

end Operation

/-! ## Wordings -/

namespace Word

/-- Values that are written alike are equal. -/
theorem text_injective
    {first second : Word}
    (same : first.text = second.text) :
    first = second := by
  have read := Literal.word?_text first
  rw [same, Literal.word?_text second] at read
  cases read
  rfl

end Word

theorem Opcode.mnemonic_injective
    {first second : Opcode}
    (same : first.mnemonic = second.mnemonic) :
    first = second := by
  have found := ofMnemonic?_mnemonic first
  rw [same, ofMnemonic?_mnemonic] at found
  exact (Option.some.inj found).symm

/-- What a failure is for, whatever the values and the instruction concerned. -/
inductive FaultKind where
  | noInstruction
  | aborted
  | notEnoughValues
  | divisionByZero
  | invalidTarget
  | invalidCharacter
  deriving Repr, DecidableEq

namespace FaultKind

/-- The first nine units of the wordings of a kind. -/
def opening : FaultKind → Text
  | .noInstruction => "no instru"
  | .aborted => "aborted a"
  | .notEnoughValues => "not enoug"
  | .divisionByZero => "division "
  | .invalidTarget => "invalid j"
  | .invalidCharacter => "invalid c"

/-- Each kind of failure begins with words of its own. -/
theorem opening_injective
    {first second : FaultKind}
    (same : first.opening = second.opening) :
    first = second := by
  revert same
  cases first <;> cases second <;> decide

end FaultKind

/-- The kind of a failure. -/
def FaultCause.kind : FaultCause → FaultKind
  | .noInstruction => .noInstruction
  | .instruction _ .aborted => .aborted
  | .instruction _ .notEnoughValues => .notEnoughValues
  | .instruction _ .divisionByZero => .divisionByZero
  | .instruction _ (.invalidTarget _) => .invalidTarget
  | .instruction _ (.invalidCharacter _) => .invalidCharacter

/-- What is wrong with the instruction that fails, if one does. -/
def FaultCause.defect? : FaultCause → Option InstructionDefect
  | .noInstruction => none
  | .instruction _ defect => some defect

/-- The wording of a failure, wherever it happens. -/
def FaultCause.reason (cause : FaultCause) : Text :=
  Fault.reason { cause := cause, address := 0 }

namespace Fault

/-- The wording of a failure for want of values. -/
def lackReason (opcode : Opcode) : Text :=
  Text.concat ["not enough values on stack for `", opcode.mnemonic, "`"]

/-- The wording of a failure for a jump's target. -/
def targetReason (target : Word) : Text :=
  Text.concat ["invalid jump target ", target.text]

/-- The wording of a failure for what is printed. -/
def characterReason (value : Word) : Text :=
  Text.concat ["invalid character ", value.text]

/-- The wording tells which instruction has lacked values. -/
theorem lackReason_injective
    {first second : Opcode}
    (same : lackReason first = lackReason second) :
    first = second := by
  apply Opcode.mnemonic_injective
  simpa [lackReason, Text.concat] using same

/-- The wording tells which target has been invalid. -/
theorem targetReason_injective
    {first second : Word}
    (same : targetReason first = targetReason second) :
    first = second := by
  apply Word.text_injective
  simpa [targetReason, Text.concat] using same

/-- The wording tells which value has been no character. -/
theorem characterReason_injective
    {first second : Word}
    (same : characterReason first = characterReason second) :
    first = second := by
  apply Word.text_injective
  simpa [characterReason, Text.concat] using same

end Fault

namespace FaultCause

/-- Nine characters are enough to tell the kind of a failure. -/
theorem take_reason (cause : FaultCause) :
    cause.reason.take 9 = cause.kind.opening := by
  cases cause with
  | noInstruction => rfl
  | instruction opcode defect => cases defect <;> rfl

/-- The wording of a failure tells what is wrong with the instruction, if one fails. -/
theorem defect?_of_reason
    {first second : FaultCause}
    (same : first.reason = second.reason) :
    first.defect? = second.defect? := by
  have kinds : first.kind = second.kind := by
    apply FaultKind.opening_injective
    rw [← take_reason, ← take_reason, same]
  cases first with
  | noInstruction =>
      cases second with
      | noInstruction => rfl
      | instruction opcode defect => cases defect <;> cases kinds
  | instruction opcode defect =>
      cases second with
      | noInstruction => cases defect <;> cases kinds
      | instruction other otherDefect =>
          cases defect <;> cases otherDefect <;> cases kinds <;> try rfl
          · cases Fault.targetReason_injective same
            rfl
          · cases Fault.characterReason_injective same
            rfl

end FaultCause

/-! ## Steps -/

/-- What the next step of a machine fails for, and with which values left. -/
def Machine.Fails (machine : Machine) (left : Stack) : FaultCause → Prop
  | .noInstruction =>
      machine.program.size ≤ machine.pointer ∧ left = machine.stack
  | .instruction opcode defect =>
      ∃ operation,
        opcode = .operate operation ∧
          machine.instruction? = some (.operate operation) ∧
          operation.Fails machine.pointer machine.stack left defect

namespace Machine

variable {machine : Machine} {fault : Fault} {left : Stack}

/-- There is no instruction exactly beyond the end of the program. -/
theorem instruction?_eq_none_iff :
    machine.instruction? = none ↔ machine.program.size ≤ machine.pointer :=
  Array.getElem?_eq_none_iff

/-- A step that fails does so where the machine stands, for what it can fail for. -/
theorem fails_of_executeNext
    (running : machine.status = .running)
    (failed : machine.executeNext.1.status = .faulted fault) :
    machine.Fails machine.executeNext.1.stack fault.cause ∧
      fault.address = machine.pointer ∧
      machine.executeNext.1.pointer = machine.pointer := by
  unfold executeNext at failed ⊢
  cases found : machine.instruction? with
  | none =>
      rw [found] at failed
      cases failed
      exact ⟨⟨instruction?_eq_none_iff.mp found, rfl⟩, rfl, rfl⟩
  | some instruction =>
      rw [found] at failed
      simp only [apply] at failed ⊢
      cases outcome :
          (instruction.execute machine.pointer machine.stack).outcome with
      | proceed address =>
          rw [outcome] at failed
          cases running.symm.trans failed
      | exit code =>
          rw [outcome] at failed
          cases failed
      | fault defect =>
          rw [outcome] at failed
          cases failed
          cases instruction with
          | push operand => cases outcome
          | operate operation =>
              exact
                ⟨⟨operation, rfl, found, Operation.fails_of_execute outcome⟩,
                  rfl, rfl⟩

/-- A machine that fails faults where it is, with the values that are left. -/
theorem executeNext_of_fails
    {cause : FaultCause}
    (fails : machine.Fails left cause) :
    machine.executeNext.1.status =
        .faulted { cause := cause, address := machine.pointer } ∧
      machine.executeNext.1.stack = left := by
  cases cause with
  | noInstruction =>
      obtain ⟨outside, rfl⟩ := fails
      rw [executeNext, instruction?_eq_none_iff.mpr outside]
      exact ⟨rfl, rfl⟩
  | instruction opcode defect =>
      obtain ⟨operation, rfl, found, fails⟩ := fails
      obtain ⟨outcome, stack⟩ := Operation.execute_fails_iff.mpr fails
      rw [executeNext, found]
      simp only [Instruction.execute, apply, outcome]
      exact ⟨rfl, stack⟩

end Machine

namespace Session

variable {σ : Type} [Respondent σ] {session : Session σ}

/-- Whether a step fails with a wording and leaves given values. -/
def FailsWith
    (reason : Text)
    (left : Stack)
    (session : Session σ) :
    Prop :=
  ∃ fault,
    session.step.1 = .error fault ∧
      fault.reason = reason ∧
      session.step.2.machine.stack = left

theorem not_fails_exit
    {address : Nat}
    {stack left : Stack}
    (defect : InstructionDefect) :
    ¬Operation.exit.Fails address stack left defect := by
  intro fails
  cases defect with
  | aborted => exact fails
  | notEnoughValues =>
      rcases fails.1 with few | ⟨isPrinting, _⟩
      · exact Nat.not_lt_zero _ few
      · cases isPrinting
  | divisionByZero => cases fails.1
  | invalidTarget target => cases fails.1
  | invalidCharacter value => cases fails.1

/-- How a machine stands after a failed step. -/
structure FailedStep (fault : Fault) (session : Session σ) : Prop where
  pointer : session.step.2.machine.pointer = session.machine.pointer
  status : session.step.2.machine.status = .faulted fault
  exitCode : session.step.2.machine.status.exitCode? = some 255
  address : fault.address = session.machine.pointer
  mnemonic :
    fault.mnemonic? =
      session.machine.instruction?.map fun instruction =>
        instruction.opcode.mnemonic

section

variable
  (running : session.machine.status = .running)
  (confirmed :
    session.machine.stopsAtBreakpoint = true → session.ask.1 = true)

include running confirmed

/-- A step that is not given up executes the next instruction, asked or not. -/
theorem step_of_confirmed :
    session.step.1 = session.machine.executeNext.1.status.stepResult ∧
      session.step.2.machine = session.machine.executeNext.1 := by
  rw [step_of_running _ running]
  rcases session.advance_cases with
    ⟨_, form⟩ | ⟨_, _, form⟩ | ⟨stops, refusal, _⟩
  · rw [form]
    exact ⟨rfl, rfl⟩
  · rw [form]
    exact ⟨rfl, rfl⟩
  · rw [confirmed stops] at refusal
    cases refusal

/-- A step fails as the instruction that it executes does. -/
theorem status_of_step_fails
    {fault : Fault}
    (failed : session.step.1 = .error fault) :
    session.machine.executeNext.1.status = .faulted fault := by
  rw [(step_of_confirmed running confirmed).1] at failed
  cases status : session.machine.executeNext.1.status <;>
    rw [status] at failed <;> cases failed
  rfl

/--
A step fails with a wording exactly if its machine fails for a cause that is worded so.
-/
theorem failsWith_iff
    {reason : Text}
    {left : Stack} :
    session.FailsWith reason left ↔
      ∃ cause : FaultCause,
        cause.reason = reason ∧ session.machine.Fails left cause := by
  obtain ⟨reported, machine⟩ := step_of_confirmed running confirmed
  constructor
  · rintro ⟨fault, failed, worded, rfl⟩
    have status := status_of_step_fails running confirmed failed
    rw [machine]
    exact
      ⟨fault.cause, worded, (Machine.fails_of_executeNext running status).1⟩
  · rintro ⟨cause, worded, fails⟩
    obtain ⟨status, stack⟩ := Machine.executeNext_of_fails fails
    refine
      ⟨{ cause := cause, address := session.machine.pointer }, ?_, worded, ?_⟩
    · rw [reported, status]
      rfl
    · rw [machine, stack]

/--
A step fails for want of an instruction exactly beyond the end of the program, and takes
nothing.
-/
theorem failsWith_noInstruction_iff {left : Stack} :
    session.FailsWith FaultCause.noInstruction.reason left ↔
      session.machine.program.size ≤ session.machine.pointer ∧
        left = session.machine.stack := by
  rw [failsWith_iff running confirmed]
  constructor
  · rintro ⟨cause, worded, fails⟩
    have sameDefect := FaultCause.defect?_of_reason worded
    cases cause with
    | noInstruction => exact fails
    | instruction opcode defect => cases sameDefect
  · intro fails
    exact ⟨.noInstruction, rfl, fails⟩

/-- The instruction that fails may be any whose failure reads the same. -/
theorem failsWith_defect_iff
    (opcode : Opcode)
    (defect : InstructionDefect)
    {reason : Text}
    (words : (FaultCause.instruction opcode defect).reason = reason)
    {left : Stack} :
    session.FailsWith reason left ↔
      ∃ operation,
        (FaultCause.instruction (.operate operation) defect).reason = reason ∧
          session.machine.instruction? = some (.operate operation) ∧
          operation.Fails session.machine.pointer session.machine.stack left
            defect := by
  rw [failsWith_iff running confirmed]
  constructor
  · rintro ⟨cause, worded, fails⟩
    have sameDefect := FaultCause.defect?_of_reason (worded.trans words.symm)
    cases cause with
    | noInstruction => cases sameDefect
    | instruction other otherDefect =>
        cases sameDefect
        obtain ⟨operation, rfl, found, fails⟩ := fails
        exact ⟨operation, worded, found, fails⟩
  · rintro ⟨operation, worded, found, fails⟩
    exact ⟨_, worded, operation, rfl, found, fails⟩

/-- There are five wordings of failed steps. -/
theorem reason_of_failsWith
    {reason : Text}
    {left : Stack}
    (failed : session.FailsWith reason left) :
    reason = ("no instruction left" : Text) ∨
      (∃ opcode, reason = Fault.lackReason opcode) ∨
      reason = ("division by zero" : Text) ∨
      (∃ target, reason = Fault.targetReason target) ∨
      ∃ value, reason = Fault.characterReason value := by
  obtain ⟨cause, worded, fails⟩ := (failsWith_iff running confirmed).mp failed
  rw [← worded]
  cases cause with
  | noInstruction => exact Or.inl rfl
  | instruction opcode defect =>
      cases defect with
      | aborted =>
          obtain ⟨_, _, _, impossible⟩ := fails
          exact impossible.elim
      | notEnoughValues => exact Or.inr (Or.inl ⟨_, rfl⟩)
      | divisionByZero => exact Or.inr (Or.inr (Or.inl rfl))
      | invalidTarget target =>
          exact Or.inr (Or.inr (Or.inr (Or.inl ⟨target, rfl⟩)))
      | invalidCharacter value =>
          exact Or.inr (Or.inr (Or.inr (Or.inr ⟨value, rfl⟩)))

/-- What pushes a value or ends the program does not fail. -/
theorem step_never_fails
    (found :
      (∃ operand, session.machine.instruction? = some (.push operand)) ∨
        session.machine.instruction? = some (.operate .exit))
    (fault : Fault) :
    session.step.1 ≠ .error fault := by
  intro failed
  have status := status_of_step_fails running confirmed failed
  have fails := (Machine.fails_of_executeNext running status).1
  cases cause : fault.cause with
  | noInstruction =>
      rw [cause] at fails
      have outside := Machine.instruction?_eq_none_iff.mpr fails.1
      rcases found with ⟨operand, found⟩ | found <;>
        cases outside.symm.trans found
  | instruction opcode defect =>
      rw [cause] at fails
      obtain ⟨operation, _, isFound, fails⟩ := fails
      rcases found with ⟨operand, found⟩ | found <;>
        cases isFound.symm.trans found
      exact not_fails_exit defect fails

/-- A step whose instruction goes on leaves the machine where it goes on. -/
theorem step_goes_on
    {instruction : Instruction}
    {left : Stack}
    {printed : List Text}
    {address : Nat}
    (found : session.machine.instruction? = some instruction)
    (effect :
      instruction.execute session.machine.pointer session.machine.stack =
        { stack := left, printed := printed, outcome := .proceed address }) :
    session.step.1 = .ok true ∧
      session.step.2.machine.pointer = address ∧
      session.step.2.machine.stack = left := by
  obtain ⟨reported, machine⟩ := step_of_confirmed running confirmed
  rw [reported, machine, Machine.executeNext_of_proceed found effect]
  exact ⟨by rw [Machine.movedTo, running]; rfl, rfl, rfl⟩

/-- A jump that is not taken takes its values and goes on, whatever its target is. -/
theorem step_of_untaken
    {target condition : Word}
    {left : Stack}
    (shape : session.machine.stack = target :: condition :: left)
    (passes :
      session.machine.instruction? = some (.operate .jumpIfZero) ∧
          condition ≠ 0 ∨
        session.machine.instruction? = some (.operate .jumpIfNonzero) ∧
          condition = 0) :
    session.step.1 = .ok true ∧
      session.step.2.machine.pointer = session.machine.pointer + 1 ∧
      session.step.2.machine.stack = left := by
  rcases passes with ⟨found, nonzero⟩ | ⟨found, rfl⟩
  · have effect :
        Instruction.execute (.operate .jumpIfZero) session.machine.pointer
            session.machine.stack =
          { stack := left
            outcome := .proceed (session.machine.pointer + 1) } := by
      rw [shape, Instruction.execute, Operation.execute, if_neg nonzero]
      rfl
    exact step_goes_on running confirmed found effect
  · have effect :
        Instruction.execute (.operate .jumpIfNonzero) session.machine.pointer
            session.machine.stack =
          { stack := left
            outcome := .proceed (session.machine.pointer + 1) } := by
      rw [shape]
      rfl
    exact step_goes_on running confirmed found effect

/-- A fault that is reported names the pointer and the instruction there. -/
theorem failedStep_of_step
    {fault : Fault}
    (failed : session.step.1 = .error fault) :
    session.FailedStep fault := by
  have status := status_of_step_fails running confirmed failed
  obtain ⟨fails, address, pointer⟩ :=
    Machine.fails_of_executeNext running status
  rw [← (step_of_confirmed running confirmed).2] at status pointer
  refine
    { pointer := pointer
      status := status
      exitCode := by rw [status]; rfl
      address := address
      mnemonic := ?_ }
  obtain ⟨cause, place⟩ := fault
  cases cause with
  | noInstruction =>
      rw [Machine.instruction?_eq_none_iff.mpr fails.1]
      rfl
  | instruction opcode defect =>
      obtain ⟨operation, rfl, found, _⟩ := fails
      rw [found]
      rfl

end

/-- When a step fails, with which wording, and how it leaves the machine. -/
structure FailsExactly (session : Session σ) : Prop where
  noInstruction :
    ∀ left,
      session.FailsWith "no instruction left" left ↔
        session.machine.program.size ≤ session.machine.pointer ∧
          left = session.machine.stack
  notEnoughValues :
    ∀ opcode left,
      session.FailsWith (Fault.lackReason opcode) left ↔
        ∃ operation,
          opcode = .operate operation ∧
            session.machine.instruction? = some (.operate operation) ∧
            operation.Lacks session.machine.stack ∧
            left = []
  divisionByZero :
    ∀ left,
      session.FailsWith "division by zero" left ↔
        session.machine.instruction? = some (.operate .divide) ∧
          ∃ top, session.machine.stack = top :: 0 :: left
  invalidTarget :
    ∀ target left,
      session.FailsWith (Fault.targetReason target) left ↔
        ∃ operation,
          session.machine.instruction? = some (.operate operation) ∧
            operation.Jumps session.machine.pointer session.machine.stack
              target left ∧
            ¬target.IsTarget
  invalidCharacter :
    ∀ value left,
      session.FailsWith (Fault.characterReason value) left ↔
        session.machine.instruction? = some (.operate .printString) ∧
          ∃ before,
            session.machine.stack = before ++ value :: left ∧
              before.Unterminated ∧
              ¬value.IsCodePoint
  nothingElse :
    ∀ reason left,
      session.FailsWith reason left →
      reason = ("no instruction left" : Text) ∨
        (∃ opcode, reason = Fault.lackReason opcode) ∨
        reason = ("division by zero" : Text) ∨
        (∃ target, reason = Fault.targetReason target) ∨
        ∃ value, reason = Fault.characterReason value
  unfailing :
    (∃ operand, session.machine.instruction? = some (.push operand)) ∨
        session.machine.instruction? = some (.operate .exit) →
      ∀ fault, session.step.1 ≠ .error fault
  /-- The target of a jump that is not taken does not matter. -/
  untaken :
    ∀ target condition left,
      session.machine.stack = target :: condition :: left →
      (session.machine.instruction? = some (.operate .jumpIfZero) ∧
          condition ≠ 0 ∨
        session.machine.instruction? = some (.operate .jumpIfNonzero) ∧
          condition = 0) →
      session.step.1 = .ok true ∧
        session.step.2.machine.pointer = session.machine.pointer + 1 ∧
        session.step.2.machine.stack = left
  failed :
    ∀ fault, session.step.1 = .error fault → session.FailedStep fault

/--
When a step fails, and what it leaves.

A step of a machine that runs, and that is not given up at a breakpoint, fails for want
of an instruction, of values, of a divisor, of a jump's target or of a character,
exactly where there is none; what it has taken by then is gone. The pointer stays, the exit
code is 255, and the fault names the pointer and the instruction there.
-/
theorem step_fails_exactly
    (session : Session σ)
    (running : session.machine.status = .running)
    (confirmed :
      session.machine.stopsAtBreakpoint = true → session.ask.1 = true) :
    session.FailsExactly where
  noInstruction := fun left => failsWith_noInstruction_iff running confirmed
  notEnoughValues := by
    intro opcode left
    refine
      (failsWith_defect_iff running confirmed opcode .notEnoughValues
        rfl).trans ⟨?_, ?_⟩
    · rintro ⟨operation, worded, found, lacks, rfl⟩
      exact
        ⟨operation, (Fault.lackReason_injective worded).symm, found, lacks, rfl⟩
    · rintro ⟨operation, rfl, found, lacks, rfl⟩
      exact ⟨operation, rfl, found, lacks, rfl⟩
  divisionByZero := by
    intro left
    refine
      (failsWith_defect_iff running confirmed .push .divisionByZero
        rfl).trans ⟨?_, ?_⟩
    · rintro ⟨operation, _, found, rfl, top, stack⟩
      exact ⟨found, top, stack⟩
    · rintro ⟨found, top, stack⟩
      exact ⟨.divide, rfl, found, rfl, top, stack⟩
  invalidTarget := by
    intro target left
    refine
      (failsWith_defect_iff running confirmed .push (.invalidTarget target)
        rfl).trans ⟨?_, ?_⟩
    · rintro ⟨operation, _, found, jumps, noTarget⟩
      exact ⟨operation, found, jumps, noTarget⟩
    · rintro ⟨operation, found, jumps, noTarget⟩
      exact ⟨operation, rfl, found, jumps, noTarget⟩
  invalidCharacter := by
    intro value left
    refine
      (failsWith_defect_iff running confirmed .push (.invalidCharacter value)
        rfl).trans ⟨?_, ?_⟩
    · rintro ⟨operation, _, found, rfl, before, shape⟩
      exact ⟨found, before, shape⟩
    · rintro ⟨found, before, shape⟩
      exact ⟨.printString, rfl, found, rfl, before, shape⟩
  nothingElse := fun reason left => reason_of_failsWith running confirmed
  unfailing := step_never_fails running confirmed
  untaken := fun target condition left =>
    step_of_untaken running confirmed
  failed := fun fault => failedStep_of_step running confirmed

/-- A machine that calls what is no address, after it has been told to go on. -/
def callingNowhere : Session Script :=
  ofMachine
    { program := #[.operate .call]
      annotations := (Annotations.addBreakpoint 0 {}).setVerbose true
      stack := [Word.wrap (-1), 5] }
    { answers := [true] }

/-- The target is gone, and the address to return to is there in its place. -/
theorem calling_nowhere_fails :
    callingNowhere.FailsWith "invalid jump target -1" [1, 5] :=
  ((step_fails_exactly callingNowhere rfl fun _ => rfl).invalidTarget
    (Word.wrap (-1)) [1, 5]).mpr
      ⟨.call, rfl, .calling, fun isTarget => absurd isTarget.1 (by decide)⟩

end Session

end StackCode
