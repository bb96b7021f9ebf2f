import StackCode.Proofs.Actions
import StackCode.Proofs.Effects

namespace StackCode

/-!
# What holds of a machine throughout a session

Whatever is done with a session, the pointer is an address that a jump could have as
its target, a recorded fault is that of the instruction at the pointer, and what has
been printed is numbers and code points. `Machine.Sound` is what every step and
every change preserves; everything that can be read off a machine follows from it.
-/

namespace Machine

/--
What every step preserves: program and pointer lie below the bound of jumps, and a
recorded fault is that of the instruction at the pointer.
-/
structure Sound (machine : Machine) : Prop where
  size : machine.program.size ≤ 0x1FFFFFFFFFFFFF
  pointer : machine.pointer ≤ 0x1FFFFFFFFFFFFF
  fault :
    ∀ fault,
      machine.status = .faulted fault →
      fault.address = machine.pointer ∧
        fault.cause.opcode? = machine.instruction?.map Instruction.opcode

variable {machine : Machine}

/-- Where there is an instruction, the pointer lies within the program. -/
theorem pointer_lt_of_instruction?
    {instruction : Instruction}
    (found : machine.instruction? = some instruction) :
    machine.pointer < machine.program.size :=
  (Array.getElem?_eq_some_iff.mp found).1

namespace Sound

/-- A machine may fail at its pointer for what concerns the instruction there. -/
theorem fail
    (sound : machine.Sound)
    {cause : FaultCause}
    (concerns :
      cause.opcode? = machine.instruction?.map Instruction.opcode) :
    (machine.fail cause).Sound where
  size := sound.size
  pointer := sound.pointer
  fault := by
    rintro fault ⟨⟩
    exact ⟨rfl, concerns⟩

/-- A machine that is not failing may go wherever the bound of jumps allows. -/
theorem moved
    (sound : machine.Sound)
    {address : Nat}
    {stack : Stack}
    {status : Status}
    (bounded : address ≤ 0x1FFFFFFFFFFFFF)
    (unfailed : ∀ fault, status ≠ .faulted fault) :
    Sound
      { machine with pointer := address, stack := stack, status := status } where
  size := sound.size
  pointer := bounded
  fault := fun fault failed => absurd failed (unfailed fault)

/--
An instruction leaves the pointer where it was or takes it to a lawful address, and a
fault concerns the instruction itself.
-/
theorem executeNext
    (sound : machine.Sound)
    (running : machine.status = .running) :
    machine.executeNext.1.Sound := by
  unfold Machine.executeNext
  cases found : machine.instruction? with
  | none =>
      refine sound.fail ?_
      rw [found]
      rfl
  | some instruction =>
      have within := pointer_lt_of_instruction? found
      have size := sound.size
      have lawful := instruction.lawful_execute machine.pointer machine.stack
      simp only [apply]
      cases outcome :
          (instruction.execute machine.pointer machine.stack).outcome with
      | proceed address =>
          refine sound.moved ?_ ?_
          · rcases lawful.next address outcome with isNext | isTarget
            · omega
            · exact isTarget
          · intro fault failed
            rw [running] at failed
            cases failed
      | exit code =>
          refine sound.moved (by omega) ?_
          rintro fault ⟨⟩
      | fault defect =>
          -- An instruction that fails may have taken values from the stack.
          have taken :
              Sound
                { machine with
                  stack :=
                    (instruction.execute machine.pointer machine.stack).stack } :=
            { size := sound.size
              pointer := sound.pointer
              fault := sound.fault }
          refine taken.fail ?_
          change _ = machine.instruction?.map Instruction.opcode
          rw [found]
          rfl

/-- A machine that is given up fails for the instruction that it has not executed. -/
theorem abort (sound : machine.Sound) : machine.abort.Sound := by
  unfold Machine.abort
  cases found : machine.instruction? with
  | none =>
      refine sound.fail ?_
      rw [found]
      rfl
  | some instruction =>
      refine sound.fail ?_
      rw [found]
      rfl

/-- Annotations have nothing to do with soundness. -/
theorem mapAnnotations
    (sound : machine.Sound)
    (change : Annotations → Annotations) :
    (machine.mapAnnotations change).Sound where
  size := sound.size
  pointer := sound.pointer
  fault := sound.fault

end Sound

/-- Changing an operand changes no opcode. -/
theorem map_opcode_setOperand (address : Nat) (operand : Word) :
    (machine.setOperand address operand).instruction?.map Instruction.opcode =
      machine.instruction?.map Instruction.opcode := by
  have unchanged (instruction : Instruction) :
      (instruction.withOperand operand).opcode = instruction.opcode := by
    cases instruction <;> rfl
  simp only [instruction?, setOperand, Array.getElem?_modify]
  split
  · cases machine.program[machine.pointer]? with
    | none => rfl
    | some instruction =>
        simp only [Option.map_some, unchanged]
  · rfl

/--
A fault stays that of the instruction at the pointer if the operand there is changed.
-/
theorem Sound.setOperand
    (sound : machine.Sound)
    (address : Nat)
    (operand : Word) :
    (machine.setOperand address operand).Sound where
  size := by
    have size := sound.size
    rwa [Machine.setOperand, Array.size_modify]
  pointer := sound.pointer
  fault := by
    intro fault failed
    rw [map_opcode_setOperand]
    exact sound.fault fault failed

/-- What an instruction prints is numbers and code points. -/
theorem printable_executeNext :
    ∀ text ∈ machine.executeNext.2, Printable text := by
  unfold executeNext
  cases machine.instruction? with
  | none => exact List.forall_mem_nil _
  | some instruction =>
      exact (instruction.lawful_execute machine.pointer machine.stack).printed

end Machine

namespace Session

variable {σ : Type} [Respondent σ] {session : Session σ}

/-- A session of a sound machine whose program has printed numbers and code points. -/
structure Sound (session : Session σ) : Prop where
  machine : session.machine.Sound
  output : ∀ text ∈ session.output, Printable text

namespace Sound

omit [Respondent σ] in
/-- What is printed next is numbers and code points as well. -/
theorem executeNext
    (sound : session.Sound)
    (running : session.machine.status = .running) :
    session.executeNext.Sound where
  machine := sound.machine.executeNext running
  output := by
    intro text member
    rw [output_executeNext] at member
    rcases List.mem_append.mp member with before | new
    · exact sound.output text before
    · exact Machine.printable_executeNext text new

/-- A question changes neither the machine nor what has been printed. -/
theorem ask (sound : session.Sound) : session.ask.2.Sound where
  machine := sound.machine
  output := by
    rw [output_ask]
    exact sound.output

/-- A step executes an instruction or gives it up, and either leaves a sound session. -/
theorem step (sound : session.Sound) : session.step.2.Sound := by
  by_cases running : session.machine.status = .running
  · rw [step_of_running _ running]
    rcases session.advance_cases with ⟨_, form⟩ | ⟨_, _, form⟩ | ⟨_, _, form⟩
    · rw [form]
      exact sound.executeNext running
    · rw [form]
      exact sound.ask.executeNext running
    · rw [form]
      exact
        { machine := sound.machine.abort
          output := sound.ask.output }
  · rw [step_of_stopped _ running]
    exact sound

/-- Step by step, a session stays sound. -/
theorem stepped (sound : session.Sound) (count : Nat) :
    (stepped count session).Sound := by
  induction count with
  | zero => exact sound
  | succ count inductionHypothesis => exact inductionHypothesis.step

omit [Respondent σ] in
/-- To show a machine is no output of its program. -/
theorem shown (sound : session.Sound) : session.shown.Sound where
  machine := by
    rw [machine_shown]
    exact sound.machine
  output := by
    rw [output_shown]
    exact sound.output

/-- A run is steps, after the machine has been shown. -/
theorem duringRun (sound : session.Sound) (count : Nat) :
    (session.duringRun count).Sound := by
  unfold Session.duringRun
  split
  · exact sound
  · exact sound.shown.stepped count

/-- Whatever is done with a session, it stays sound. -/
theorem perform (sound : session.Sound) (action : Action) :
    (session.perform action).Sound := by
  cases action with
  | step => exact sound.step
  | run count => exact sound.duringRun count
  | setOperand address operand =>
      exact
        { machine := sound.machine.setOperand address (Word.wrap operand)
          output := sound.output }
  | addBreakpoint address =>
      exact { machine := sound.machine.mapAnnotations _, output := sound.output }
  | addLabel address name =>
      exact { machine := sound.machine.mapAnnotations _, output := sound.output }
  | setVerbose verbose =>
      exact { machine := sound.machine.mapAnnotations _, output := sound.output }

/-- However much is done with a session, it stays sound. -/
theorem performAll (sound : session.Sound) (actions : List Action) :
    (session.performAll actions).Sound := by
  induction actions generalizing session with
  | nil => exact sound
  | cons action later inductionHypothesis =>
      exact inductionHypothesis (sound.perform action)

end Sound

/-- A step at an instruction that prints a string prints code points. -/
theorem output_step_of_printString
    (found :
      session.machine.instruction? = some (.operate .printString)) :
    ∃ points : List Nat,
      (∀ point ∈ points, 1 ≤ point ∧ point ≤ 0x10FFFF) ∧
        session.step.2.output =
          session.output ++ points.map Text.ofCodePoint := by
  obtain ⟨points, inRange, printed⟩ :=
    Effect.printed_printString (session.machine.pointer + 1)
      session.machine.stack
  have executed :
      session.machine.executeNext.2 = points.map Text.ofCodePoint := by
    rw [Machine.executeNext, found, ← printed]
    rfl
  have nothing : session.output = session.output ++ [].map Text.ofCodePoint := by
    rw [List.map_nil, List.append_nil]
  by_cases running : session.machine.status = .running
  · rw [step_of_running _ running]
    rcases session.advance_cases with ⟨_, form⟩ | ⟨_, _, form⟩ | ⟨_, _, form⟩
    · refine ⟨points, inRange, ?_⟩
      rw [form, output_executeNext, executed]
    · refine ⟨points, inRange, ?_⟩
      rw [form, output_executeNext, machine_ask, executed, output_ask]
    · refine ⟨[], List.forall_mem_nil _, ?_⟩
      rw [form]
      exact (output_ask session).trans nothing
  · refine ⟨[], List.forall_mem_nil _, ?_⟩
    rw [step_of_stopped _ running]
    exact nothing

end Session

/-- How a recorded fault accounts for the machine that has failed with it. -/
structure Fault.Accounts (fault : Fault) (machine : Machine) : Prop where
  exitCode : machine.status.exitCode? = some 255
  address : fault.address = machine.pointer
  mnemonic :
    fault.mnemonic? =
      machine.instruction?.map fun instruction => instruction.opcode.mnemonic
  noMnemonic_iff :
    fault.mnemonic? = none ↔
      machine.program.size ≤ machine.pointer ∧
        fault.reason = ("no instruction left" : Text)
  reachable : fault.reason ≠ ("unreachable" : Text)

/-- What can be read off a machine at any time. -/
structure Machine.Consistent (machine : Machine) : Prop where
  values :
    ∀ word ∈ machine.stack,
      Word.least ≤ word.toInt ∧ word.toInt ≤ Word.greatest
  exitCode :
    ∀ code,
      machine.status.exitCode? = some code →
      Word.least ≤ code.toInt ∧ code.toInt ≤ Word.greatest
  pointer : machine.pointer ≤ 0x1FFFFFFFFFFFFF
  /-- The address that a call would push is a word as it is. -/
  returnAddress :
    (Word.wrap (machine.pointer + 1 : Nat)).toInt = machine.pointer + 1
  running_iff :
    machine.status = .running ↔ machine.status.exitCode? = none
  faulted_iff :
    (∃ fault, machine.status = .faulted fault) ↔
      ∃ fault, machine.status.result? = some (.error fault)
  faulted :
    ∀ fault, machine.status = .faulted fault → fault.Accounts machine

namespace Machine.Sound

variable {machine : Machine}

/-- In a sound machine, a fault accounts for where the machine has stopped and why. -/
theorem accounts
    (sound : machine.Sound)
    {fault : Fault}
    (failed : machine.status = .faulted fault) :
    fault.Accounts machine := by
  obtain ⟨address, opcode⟩ := sound.fault fault failed
  have mnemonic :
      fault.mnemonic? =
        machine.instruction?.map fun instruction =>
          instruction.opcode.mnemonic := by
    rw [fault.mnemonic?_eq, opcode, Option.map_map]
    rfl
  refine ⟨by rw [failed]; rfl, address, mnemonic, ⟨?_, ?_⟩,
    fault.reason_ne_unreachable⟩
  · intro noMnemonic
    constructor
    · rw [noMnemonic] at mnemonic
      have none := Option.map_eq_none_iff.mp mnemonic.symm
      exact Array.getElem?_eq_none_iff.mp none
    · rw [fault.mnemonic?_eq, Option.map_eq_none_iff] at noMnemonic
      obtain ⟨cause, place⟩ := fault
      cases cause with
      | noInstruction => rfl
      | instruction opcode defect => cases noMnemonic
  · rintro ⟨left, _⟩
    rw [mnemonic, Machine.instruction?, Array.getElem?_eq_none left]
    rfl

/-- All that can be read off a sound machine is consistent. -/
theorem consistent (sound : machine.Sound) : machine.Consistent where
  values := fun word _ => word.toInt_mem_range
  exitCode := fun code _ => code.toInt_mem_range
  pointer := sound.pointer
  returnAddress := Word.toInt_wrap_succ sound.pointer
  running_iff := by cases machine.status <;> simp [Status.exitCode?]
  faulted_iff := by cases machine.status <;> simp [Status.result?]
  faulted := fun _ failed => sound.accounts failed

end Machine.Sound

namespace Session

variable {σ : Type} [Respondent σ]

/-- How a session stands whose machine has stopped: nothing changes any more. -/
structure Settled (session : Session σ) : Prop where
  step : session.step = (.ok false, session)
  run_of_halted :
    ∀ code,
      session.machine.status = .halted code →
      ∀ fuel, session.run fuel = some (.ok code, session.shown)
  run_of_faulted :
    ∀ fault,
      session.machine.status = .faulted fault →
      ∀ fuel, session.run fuel = some (.error fault, session)
  unchanged :
    ∀ later,
      (session.performAll later).machine.pointer = session.machine.pointer ∧
        (session.performAll later).machine.stack = session.machine.stack ∧
        (session.performAll later).machine.status = session.machine.status ∧
        (session.performAll later).output = session.output
  unseen :
    ∀ action,
      (session.perform action).log = session.log ∨
        (∃ count, action = .run count) ∧
          session.machine.annotations.verbose = true ∧
          (∃ code, session.machine.status = .halted code) ∧
          session.perform action = session.list

/--
What holds of a machine throughout a session.

Whatever is done with a machine whose program is shorter than the bound of jumps,
and whoever answers, it stays consistent, its program prints numbers and code
points, and a string is printed as code points that are not the NUL. A run that ends
is one of the things that are done, seen to its end. Once the machine has stopped
nothing changes any more.
-/
theorem machine_invariant
    (program : Program)
    (annotations : Annotations)
    (width : Int)
    (respondent : σ)
    (small : program.size < 0x20000000000000)
    (actions : List Action)
    (session : Session σ)
    (reached :
      session =
        performAll actions
          (ofMachine
            { program := program, annotations := annotations, width := width }
            respondent)) :
    session.machine.Consistent ∧
    (∀ text ∈ session.output, Printable text) ∧
    (session.machine.instruction? = some (.operate .printString) →
      ∃ points : List Nat,
        (∀ point ∈ points, 1 ≤ point ∧ point ≤ 0x10FFFF) ∧
          session.step.2.output =
            session.output ++ points.map Text.ofCodePoint) ∧
    (∀ fuel result after,
      session.run fuel = some (result, after) →
      after = session.perform (.run fuel)) ∧
    (session.machine.status ≠ .running → session.Settled) := by
  have start :
      Sound
        (ofMachine
          { program := program, annotations := annotations, width := width }
          respondent) :=
    { machine :=
        { size := Nat.le_of_lt_succ small
          pointer := Nat.zero_le _
          fault := by rintro fault ⟨⟩ }
      output := List.forall_mem_nil _ }
  have sound : session.Sound := by
    rw [reached]
    exact start.performAll actions
  refine ⟨sound.machine.consistent, sound.output, output_step_of_printString,
    fun _ _ _ ends => duringRun_of_run ends, fun stopped => ?_⟩
  exact
    { step := step_of_stopped _ stopped
      run_of_halted := fun _ halted => Session.run_of_halted halted
      run_of_faulted := fun _ failed => Session.run_of_faulted failed
      unchanged := performAll_of_stopped stopped
      unseen := log_perform_of_stopped stopped }

/-- A program that prints a value above every code point, questioned and changed. -/
def overstepping : Session Script :=
  performAll
    [.setVerbose true, .addBreakpoint 1, .step, .setOperand 0 65, .run 3]
    (ofMachine { program := #[.push 0x110000, .operate .printString] }
      { answers := [true] })

/-- It fails where it prints, for the value that it had pushed, and stays there. -/
theorem overstepping_is_accounted_for :
    ∃ fault,
      overstepping.machine.status = .faulted fault ∧
        fault.reason = ("invalid character 1114112" : Text) ∧
        fault.Accounts overstepping.machine ∧
        overstepping.Settled := by
  have failed :
      overstepping.machine.status =
        .faulted
          { cause :=
              .instruction (.operate .printString) (.invalidCharacter 0x110000)
            address := 1 } :=
    rfl
  have stopped : overstepping.machine.status ≠ .running := by
    rw [failed]
    intro running
    cases running
  obtain ⟨consistent, _, _, _, settled⟩ :=
    machine_invariant #[.push 0x110000, .operate .printString] {}
      Listing.defaultWidth ({ answers := [true] } : Script) (by decide)
      [.setVerbose true, .addBreakpoint 1, .step, .setOperand 0 65, .run 3]
      overstepping rfl
  exact ⟨_, failed, rfl, consistent.faulted _ failed, settled stopped⟩

end Session

end StackCode