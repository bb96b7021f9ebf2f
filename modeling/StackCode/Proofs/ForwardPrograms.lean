import StackCode.Proofs.Effects
import StackCode.Proofs.Failures
import StackCode.Proofs.Resumption

namespace StackCode

/-!
# Programs that only go forward

A machine goes on at the next address or takes a jump. As long as every jump that it
takes leads forward, its pointer grows with each step, and a machine whose pointer has
left the program fails. So it stops within as many steps as there are instructions from
its pointer on, and one more. What an instruction prints and what it leaves on the stack
does not matter for that, nor who answers at the breakpoints, or how.
-/

namespace Operation

/-- The operations that may jump. -/
def jumping : List Operation :=
  [.jump, .jumpIfZero, .jumpIfNonzero, .call]

variable
  {operation : Operation}
  {address : Nat}
  {stack left : Stack}
  {target : Word}

/-- Only some operations jump. -/
theorem mem_jumping_of_jumps
    (jumps : operation.Jumps address stack target left) :
    operation ∈ jumping := by
  cases jumps <;> decide

/-- An operation that takes a jump does nothing else. -/
theorem execute_of_jumps
    (jumps : operation.Jumps address stack target left) :
    operation.execute address stack = Effect.jump target left := by
  cases jumps with
  | always => rfl
  | onZero => rfl
  | onNonzero nonzero => exact if_pos nonzero
  | calling => rfl

/-- The address at which a jump goes on is the one that its target stands for. -/
theorem target?_of_jump
    {goal : Nat}
    (proceeds : (Effect.jump target left).outcome = .proceed goal) :
    Word.target? target = some goal := by
  unfold Effect.jump at proceeds
  cases isTarget : Word.target? target with
  | none =>
      rw [isTarget] at proceeds
      cases proceeds
  | some other =>
      rw [isTarget] at proceeds
      cases proceeds
      rfl

/-- An operation goes on at the next address or where it jumps to. -/
theorem next_or_jumps_of_execute
    {goal : Nat}
    (proceeds : (operation.execute address stack).outcome = .proceed goal) :
    goal = address + 1 ∨
      ∃ target left,
        operation.Jumps address stack target left ∧
          Word.target? target = some goal := by
  have next (stack : Stack)
      (proceeds : (Effect.goTo (address + 1) stack).outcome = .proceed goal) :
      goal = address + 1 :=
    (Outcome.proceed.inj proceeds).symm
  revert proceeds
  -- One case an alternative of the definition, in its order.
  fun_cases execute operation address stack
  · exact fun proceeds => Or.inl (next _ proceeds)
  · exact fun proceeds => Or.inl (next _ proceeds)
  · exact fun proceeds => Or.inl (next _ proceeds)
  · exact fun proceeds => Or.inr ⟨_, _, .onZero, target?_of_jump proceeds⟩
  · exact fun proceeds => Or.inl (next _ proceeds)
  next nonzero =>
    exact fun proceeds =>
      Or.inr ⟨_, _, .onNonzero nonzero, target?_of_jump proceeds⟩
  · exact fun proceeds => Or.inl (next _ proceeds)
  · exact fun proceeds => Or.inr ⟨_, _, .always, target?_of_jump proceeds⟩
  · exact fun proceeds => Or.inl (next _ proceeds)
  · exact fun proceeds => Or.inl (next _ proceeds)
  · exact fun proceeds => Or.inl (next _ proceeds)
  · rintro ⟨⟩
  · exact fun proceeds => Or.inl (next _ proceeds)
  · rintro ⟨⟩
  · rintro ⟨⟩
  · exact fun proceeds => Or.inl (next [] proceeds)
  · exact fun proceeds => Or.inr ⟨_, _, .calling, target?_of_jump proceeds⟩
  · exact fun proceeds => Or.inl (Effect.outcome_printString proceeds)
  · rintro ⟨⟩

end Operation

namespace Machine

/-- An instruction leaves the program of its machine alone. -/
@[simp] theorem program_executeNext (machine : Machine) :
    machine.executeNext.1.program = machine.program := by
  unfold executeNext
  cases machine.instruction? with
  | none => rfl
  | some instruction =>
      simp only [apply, fail]
      cases (instruction.execute machine.pointer machine.stack).outcome <;> rfl

@[simp] theorem program_abort (machine : Machine) :
    machine.abort.program = machine.program := by
  unfold abort
  cases machine.instruction? <;> rfl

/-- A machine that has given up its next instruction does not run. -/
theorem status_abort_ne_running (machine : Machine) :
    machine.abort.status ≠ .running := by
  unfold abort
  cases machine.instruction? <;> rintro ⟨⟩

/-- The next instruction of a machine, executed, jumps to an address. -/
def JumpsTo (machine : Machine) (goal : Nat) : Prop :=
  ∃ operation target left,
    machine.instruction? = some (.operate operation) ∧
      operation.Jumps machine.pointer machine.stack target left ∧
      Word.target? target = some goal

variable {machine : Machine}

/-- An instruction after which the machine runs goes on at the next address, or jumps. -/
theorem next_or_jumpsTo_of_executeNext
    (stillRunning : machine.executeNext.1.status = .running) :
    machine.pointer < machine.program.size ∧
      (machine.executeNext.1.pointer = machine.pointer + 1 ∨
        machine.JumpsTo machine.executeNext.1.pointer) := by
  unfold executeNext at stillRunning ⊢
  cases found : machine.instruction? with
  | none =>
      rw [found] at stillRunning
      cases stillRunning
  | some instruction =>
      rw [found] at stillRunning
      refine ⟨(Array.getElem?_eq_some_iff.mp found).1, ?_⟩
      simp only [apply] at stillRunning ⊢
      cases outcome :
          (instruction.execute machine.pointer machine.stack).outcome with
      | exit code =>
          rw [outcome] at stillRunning
          cases stillRunning
      | fault defect =>
          rw [outcome] at stillRunning
          cases stillRunning
      | proceed goal =>
          cases instruction with
          | push operand => exact Or.inl (Outcome.proceed.inj outcome).symm
          | operate operation =>
              refine (Operation.next_or_jumps_of_execute outcome).imp_right ?_
              rintro ⟨target, left, jumps, isTarget⟩
              exact ⟨operation, target, left, found, jumps, isTarget⟩

/-- A jump that is taken leads to its target, and the machine goes on. -/
theorem executeNext_of_jumpsTo
    {goal : Nat}
    (jumpsTo : machine.JumpsTo goal) :
    machine.executeNext.1.pointer = goal ∧
      machine.executeNext.1.status = machine.status := by
  obtain ⟨operation, target, left, found, jumps, isTarget⟩ := jumpsTo
  have effect :
      Instruction.execute (.operate operation) machine.pointer machine.stack =
        { stack := left, printed := [], outcome := .proceed goal } := by
    rw [Instruction.execute, Operation.execute_of_jumps jumps, Effect.jump,
      isTarget]
    rfl
  rw [executeNext_of_proceed found effect]
  exact ⟨rfl, rfl⟩

end Machine

namespace Session

variable {σ : Type} [Respondent σ] {session : Session σ}

/-- The next step of a session takes a jump to an address. -/
structure TakesJump (goal : Nat) (session : Session σ) : Prop where
  running : session.machine.status = .running
  confirmed :
    session.machine.stopsAtBreakpoint = true → session.ask.1 = true
  jumps : session.machine.JumpsTo goal

/-- Every jump that is taken after any number of steps leads forward. -/
def OnlyForward (session : Session σ) : Prop :=
  ∀ count goal,
    (stepped count session).TakesJump goal →
    (stepped count session).machine.pointer < goal

/-- A jump that is taken leads to its goal, and the machine runs on. -/
theorem TakesJump.step
    {goal : Nat}
    (takesJump : session.TakesJump goal) :
    session.step.2.machine.pointer = goal ∧
      session.step.2.machine.status = .running := by
  obtain ⟨pointer, status⟩ := Machine.executeNext_of_jumpsTo takesJump.jumps
  rw [(step_of_confirmed takesJump.running takesJump.confirmed).2]
  exact ⟨pointer, status.trans takesJump.running⟩

/-- A step leaves the program alone. -/
theorem program_step : session.step.2.machine.program = session.machine.program := by
  by_cases running : session.machine.status = .running
  · rw [step_of_running _ running]
    rcases session.advance_cases with ⟨_, form⟩ | ⟨_, _, form⟩ | ⟨_, _, form⟩
    · rw [form, machine_executeNext, Machine.program_executeNext]
    · rw [form, machine_executeNext, Machine.program_executeNext, machine_ask]
    · rw [form]
      exact session.machine.program_abort
  · rw [step_of_stopped _ running]

/-- No step changes the program. -/
theorem program_stepped (count : Nat) (session : Session σ) :
    (stepped count session).machine.program = session.machine.program := by
  induction count with
  | zero => rfl
  | succ count inductionHypothesis =>
      rw [stepped, program_step, inductionHypothesis]

/-- A machine that runs after a step has run before it. -/
theorem running_of_step
    (stillRunning : session.step.2.machine.status = .running) :
    session.machine.status = .running := by
  refine Decidable.byContradiction fun stopped => ?_
  rw [step_of_stopped _ stopped] at stillRunning
  exact stopped stillRunning

/-- The step: a machine that runs after it goes on at the next address, or jumps. -/
theorem next_or_takesJump_of_step
    (stillRunning : session.step.2.machine.status = .running) :
    session.machine.pointer < session.machine.program.size ∧
      (session.step.2.machine.pointer = session.machine.pointer + 1 ∨
        session.TakesJump session.step.2.machine.pointer) := by
  have running := running_of_step stillRunning
  have confirmed :
      session.machine.stopsAtBreakpoint = true → session.ask.1 = true := by
    intro stops
    rcases session.advance_cases with ⟨passes, _⟩ | ⟨_, proceeds, _⟩ | ⟨_, _, form⟩
    · cases passes.symm.trans stops
    · exact proceeds
    · rw [step_of_running _ running, form] at stillRunning
      exact absurd stillRunning session.machine.status_abort_ne_running
  have machine := (step_of_confirmed running confirmed).2
  rw [machine] at stillRunning ⊢
  obtain ⟨within, goesOn⟩ := Machine.next_or_jumpsTo_of_executeNext stillRunning
  exact ⟨within, goesOn.imp_right fun jumps => ⟨running, confirmed, jumps⟩⟩

/-- Jumps lead forward exactly where the pointer grows for as long as the machine runs. -/
theorem onlyForward_iff :
    session.OnlyForward ↔
      ∀ count,
        (stepped (count + 1) session).machine.status = .running →
        (stepped count session).machine.pointer <
          (stepped (count + 1) session).machine.pointer := by
  constructor
  · intro onlyForward count stillRunning
    rcases (next_or_takesJump_of_step stillRunning).2 with isNext | takesJump
    · rw [stepped, isNext]
      exact Nat.lt_succ_self _
    · exact onlyForward count _ takesJump
  · intro grows count goal takesJump
    obtain ⟨pointer, stillRunning⟩ := takesJump.step
    rw [← pointer]
    exact grows count stillRunning

/-- The run: a pointer that grows has grown with every step that has been taken. -/
theorem OnlyForward.pointer_stepped
    (onlyForward : session.OnlyForward)
    {count : Nat}
    (running : (stepped count session).machine.status = .running) :
    session.machine.pointer + count ≤ (stepped count session).machine.pointer := by
  induction count with
  | zero => exact Nat.le_refl _
  | succ count inductionHypothesis =>
      have grown := onlyForward_iff.mp onlyForward count running
      have grownBefore := inductionHypothesis (running_of_step running)
      omega

/-- A machine halts or fails within a number of steps, and so does a run of it. -/
structure StopsWithin (bound : Nat) (session : Session σ) : Prop where
  steps :
    ∃ count ≤ bound,
      (∃ code, (stepped count session).machine.status = .halted code) ∨
        ∃ fault, (stepped count session).machine.status = .faulted fault
  run : ∃ result after, session.run bound = some (result, after)

theorem stopsWithin_of_stopped
    {bound : Nat}
    (stopped : (stepped bound session).machine.status ≠ .running) :
    session.StopsWithin bound where
  steps := by
    refine ⟨bound, Nat.le_refl bound, ?_⟩
    cases status : (stepped bound session).machine.status with
    | running => exact absurd status stopped
    | halted code => exact Or.inl ⟨code, rfl⟩
    | faulted fault => exact Or.inr ⟨fault, rfl⟩
  run := by
    by_cases failed : ∃ fault, session.machine.status = .faulted fault
    · obtain ⟨fault, failed⟩ := failed
      exact ⟨_, _, run_of_faulted failed bound⟩
    · have unfailed := not_exists.mp failed
      obtain ⟨result, ended⟩ :=
        Option.ne_none_iff_exists'.mp (mt Status.result?_eq_none_iff.mp stopped)
      refine ⟨result, stepped bound session.shown, ?_⟩
      rw [run_of_unfailed unfailed, runToEnd_eq_stepped,
        (endsAfter_shown unfailed bound).machine, ended]
      rfl

/-- A session that only jumps forward takes one step at most beyond the instructions ahead. -/
theorem OnlyForward.stopsWithin
    (onlyForward : session.OnlyForward) :
    session.StopsWithin
      (session.machine.program.size - session.machine.pointer + 1) := by
  refine stopsWithin_of_stopped fun stillRunning => ?_
  have within := (next_or_takesJump_of_step stillRunning).1
  rw [program_stepped] at within
  have grown := onlyForward.pointer_stepped (running_of_step stillRunning)
  omega

/-- Without an operation that may jump, no jump is taken. -/
theorem onlyForward_of_noJumps
    (noJumps :
      ∀ operation ∈ Operation.jumping,
        Instruction.operate operation ∉ session.machine.program) :
    session.OnlyForward := by
  intro count goal takesJump
  obtain ⟨operation, target, left, found, jumps, _⟩ := takesJump.jumps
  have member := Array.mem_of_getElem? found
  rw [program_stepped] at member
  exact absurd member (noJumps operation (Operation.mem_jumping_of_jumps jumps))

/--
Programs that only go forward stop.

As long as every jump that is taken leads forward, a machine halts or fails within as
many steps as there are instructions from its pointer on, and one more, wherever it
starts, whatever is on its stack and however questions at breakpoints are answered; a
run takes no more steps than that. So does every machine whose program has no operation
that may jump. What counts as a jump taken is a step that leads to its goal.
-/
theorem forward_programs_stop (session : Session σ) :
    (session.OnlyForward →
      session.StopsWithin
        (session.machine.program.size - session.machine.pointer + 1)) ∧
    ((∀ operation ∈ Operation.jumping,
        Instruction.operate operation ∉ session.machine.program) →
      session.StopsWithin
        (session.machine.program.size - session.machine.pointer + 1)) ∧
    ∀ goal,
      session.TakesJump goal →
      session.step.2.machine.pointer = goal ∧
        session.step.2.machine.status = .running :=
  ⟨OnlyForward.stopsWithin,
    fun noJumps => (onlyForward_of_noJumps noJumps).stopsWithin,
    fun _ takesJump => takesJump.step⟩

/-- A machine that passes a jump back, and then calls what lies beyond its program. -/
def passingAJump : Session Script :=
  ofMachine
    { program :=
        #[.push 1, .push 0, .operate .jumpIfZero, .push 9, .operate .call]
      annotations := (Annotations.addBreakpoint 4 {}).setVerbose true
      stack := [5] }
    { answers := [true] }

/-- It stops within six steps, and not before the sixth. -/
theorem passed_jump_is_no_obstacle :
    passingAJump.StopsWithin 6 ∧
      (stepped 5 passingAJump).machine.status = .running := by
  have onlyForward : passingAJump.OnlyForward := by
    rw [onlyForward_iff]
    intro count stillRunning
    have early : count < 5 := by
      refine Nat.lt_of_not_le fun late => ?_
      have stopped : (stepped 6 passingAJump).machine.status ≠ .running := by
        decide
      have stays := stepped_of_stopped passingAJump stopped (count - 5)
      rw [show 6 + (count - 5) = count + 1 by omega] at stays
      rw [stays] at stillRunning
      exact stopped stillRunning
    have grows :
        ∀ earlier < 5,
          (stepped earlier passingAJump).machine.pointer <
            (stepped (earlier + 1) passingAJump).machine.pointer := by
      decide
    exact grows count early
  exact ⟨(forward_programs_stop passingAJump).1 onlyForward, by decide⟩

end Session

end StackCode
