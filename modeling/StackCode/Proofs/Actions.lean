import StackCode.Proofs.Stepping

namespace StackCode

/-!
# What is done with a session

Steps and runs, and changes of operands and annotations, in any order. A run is seen
after any number of its instructions, so that one that never ends is seen as well;
one that ends is seen to its end. A session whose machine has stopped is not changed
by any of them, but for the operands and annotations, and for what a run of a
verbose machine shows.
-/

namespace Status

theorem result?_eq_none_iff {status : Status} :
    status.result? = none ↔ status = .running := by
  cases status <;> simp [Status.result?]

end Status

namespace Session

/-- What can be done with a session. -/
inductive Action where
  /-- Execute one instruction. -/
  | step
  /-- Run, and look at the session after a number of instructions at most. -/
  | run (count : Nat)
  /-- Change the operand of the instruction at an address. -/
  | setOperand (address : Nat) (operand : Int)
  /-- Have a breakpoint at an address from now on. -/
  | addBreakpoint (address : Int)
  /-- Have a label at an address from now on. -/
  | addLabel (address : Int) (name : Text)
  /-- Stop at breakpoints from now on, or do not. -/
  | setVerbose (verbose : Bool)
  deriving Repr, DecidableEq

variable {σ : Type}

/-- Change a session's machine. -/
def mapMachine (change : Machine → Machine) (session : Session σ) : Session σ :=
  { session with machine := change session.machine }

/-- A session at the start of a run, which shows a verbose machine. -/
def shown (session : Session σ) : Session σ :=
  if session.machine.annotations.verbose then session.list else session

variable [Respondent σ] {session : Session σ}

/-- A session in which a run has executed a number of instructions at most. -/
def duringRun (count : Nat) (session : Session σ) : Session σ :=
  match session.machine.status with
  | .faulted _ => session
  | _ => stepped count session.shown

/-- The session after something has been done with it. -/
def perform (session : Session σ) : Action → Session σ
  | .step => session.step.2
  | .run count => session.duringRun count
  | .setOperand address operand =>
      session.mapMachine (Machine.setOperand address (Word.wrap operand))
  | .addBreakpoint address =>
      session.mapMachine
        (Machine.mapAnnotations (Annotations.addBreakpoint address))
  | .addLabel address name =>
      session.mapMachine
        (Machine.mapAnnotations (Annotations.addLabel address name))
  | .setVerbose verbose =>
      session.mapMachine
        (Machine.mapAnnotations (Annotations.setVerbose verbose))

/-- The session after a number of things have been done with it in turn. -/
def performAll (actions : List Action) (session : Session σ) : Session σ :=
  actions.foldl perform session

section Runs

/-- The first of a number of steps can be taken before the others. -/
theorem stepped_succ (count : Nat) :
    stepped (count + 1) session = stepped count session.step.2 := by
  induction count with
  | zero => rfl
  | succ count inductionHypothesis =>
      rw [stepped, inductionHypothesis, stepped]

/-- Steps of a machine that has stopped do nothing. -/
theorem stepped_eq_self
    (stopped : session.machine.status ≠ .running)
    (count : Nat) :
    stepped count session = session := by
  have stays := @stepped_of_stopped σ _ session 0 stopped count
  rw [Nat.zero_add] at stays
  exact stays

/-- A run to the end is made of steps, and looks at how they have ended. -/
theorem runToEnd_eq_stepped (fuel : Nat) :
    runToEnd fuel session =
      (stepped fuel session).machine.status.result?.map fun result =>
        (result, stepped fuel session) := by
  induction fuel generalizing session with
  | zero => rfl
  | succ fuel inductionHypothesis =>
      rw [runToEnd]
      -- A run takes its first step first, and so do the steps by `stepped_succ`.
      by_cases running : session.machine.status = .running
      · rw [Status.result?_eq_none_iff.mpr running, stepped_succ,
          step_of_running _ running]
        exact inductionHypothesis
      · rw [stepped_eq_self running]
        cases ended : session.machine.status.result? with
        | none => exact absurd (Status.result?_eq_none_iff.mp ended) running
        | some result => rfl

/-- A run that ends leaves what its steps leave. -/
theorem stepped_of_runToEnd
    {fuel : Nat}
    {result : Except Fault Word}
    {after : Session σ}
    (ends : runToEnd fuel session = some (result, after)) :
    after = stepped fuel session := by
  rw [runToEnd_eq_stepped] at ends
  obtain ⟨_, _, same⟩ := Option.map_eq_some_iff.mp ends
  cases same
  rfl

omit [Respondent σ] in
@[simp] theorem machine_shown : session.shown.machine = session.machine := by
  unfold shown
  split <;> rfl

omit [Respondent σ] in
/-- Showing a machine is not output of its program. -/
@[simp] theorem output_shown : session.shown.output = session.output := by
  unfold shown
  split
  · exact output_list session
  · rfl

/-- A run of a machine that has not failed shows it if it is verbose, and executes it. -/
theorem run_of_unfailed
    (unfailed : ∀ fault, session.machine.status ≠ .faulted fault)
    (fuel : Nat) :
    run fuel session = runToEnd fuel session.shown := by
  unfold run shown
  cases status : session.machine.status with
  | faulted fault => exact absurd status (unfailed fault)
  | running => cases session.machine.annotations.verbose <;> rfl
  | halted code => cases session.machine.annotations.verbose <;> rfl

/-- A run that nothing is shown of looks at how the steps have ended. -/
theorem run_of_quiet
    (quiet : session.machine.annotations.verbose = false)
    (unfailed : ∀ fault, session.machine.status ≠ .faulted fault)
    (fuel : Nat) :
    run fuel session =
      (stepped fuel session).machine.status.result?.map fun result =>
        (result, stepped fuel session) := by
  have unshown : session.shown = session := by
    rw [shown, quiet]
    rfl
  rw [run_of_unfailed unfailed, unshown, runToEnd_eq_stepped]

/-- During such a run, the session is what the steps make of it. -/
theorem duringRun_of_unfailed
    (unfailed : ∀ fault, session.machine.status ≠ .faulted fault)
    (count : Nat) :
    session.duringRun count = stepped count session.shown := by
  unfold duringRun
  cases status : session.machine.status with
  | faulted fault => exact absurd status (unfailed fault)
  | running => rfl
  | halted code => rfl

/-- A run of a machine that has failed reports the fault again and does nothing. -/
theorem run_of_faulted
    {fault : Fault}
    (failed : session.machine.status = .faulted fault)
    (fuel : Nat) :
    run fuel session = some (.error fault, session) := by
  rw [run, failed]

theorem duringRun_of_faulted
    {fault : Fault}
    (failed : session.machine.status = .faulted fault)
    (count : Nat) :
    session.duringRun count = session := by
  rw [duringRun, failed]

/-- A run of a machine that has halted gives its exit code again. -/
theorem run_of_halted
    {code : Word}
    (halted : session.machine.status = .halted code)
    (fuel : Nat) :
    run fuel session = some (.ok code, session.shown) := by
  have unfailed : ∀ fault, session.machine.status ≠ .faulted fault := by
    intro fault failed
    rw [halted] at failed
    cases failed
  rw [run_of_unfailed unfailed]
  cases fuel <;> rw [runToEnd, machine_shown, halted] <;> rfl

/-- What a finished run leaves is what is seen during it in the end. -/
theorem duringRun_of_run
    {fuel : Nat}
    {result : Except Fault Word}
    {after : Session σ}
    (ends : run fuel session = some (result, after)) :
    after = session.duringRun fuel := by
  by_cases failed : ∃ fault, session.machine.status = .faulted fault
  · obtain ⟨fault, failed⟩ := failed
    rw [run_of_faulted failed] at ends
    rw [duringRun_of_faulted failed]
    cases ends
    rfl
  · have unfailed := not_exists.mp failed
    rw [run_of_unfailed unfailed] at ends
    rw [duringRun_of_unfailed unfailed]
    exact stepped_of_runToEnd ends

end Runs

section Stopped

variable (stopped : session.machine.status ≠ .running)
include stopped

/-- A run of a machine that has stopped can only show it, and only if it has halted. -/
theorem duringRun_of_stopped (count : Nat) :
    session.duringRun count = session ∨
      session.duringRun count = session.shown ∧
        ∃ code, session.machine.status = .halted code := by
  cases status : session.machine.status with
  | running => exact absurd status stopped
  | faulted fault => exact Or.inl (duringRun_of_faulted status count)
  | halted code =>
      refine Or.inr ⟨?_, code, rfl⟩
      rw [duringRun_of_unfailed (by simp [status])]
      apply stepped_eq_self
      rwa [machine_shown]

/-- Nothing that is done with a machine that has stopped makes it go on. -/
theorem perform_of_stopped (action : Action) :
    (session.perform action).machine.pointer = session.machine.pointer ∧
      (session.perform action).machine.stack = session.machine.stack ∧
      (session.perform action).machine.status = session.machine.status ∧
      (session.perform action).output = session.output := by
  cases action with
  | step =>
      rw [perform, step_of_stopped _ stopped]
      exact ⟨rfl, rfl, rfl, rfl⟩
  | run count =>
      rw [perform]
      rcases duringRun_of_stopped stopped count with same | ⟨same, _⟩
      · rw [same]
        exact ⟨rfl, rfl, rfl, rfl⟩
      · rw [same, machine_shown, output_shown]
        exact ⟨rfl, rfl, rfl, rfl⟩
  | setOperand address operand => exact ⟨rfl, rfl, rfl, rfl⟩
  | addBreakpoint address => exact ⟨rfl, rfl, rfl, rfl⟩
  | addLabel address name => exact ⟨rfl, rfl, rfl, rfl⟩
  | setVerbose verbose => exact ⟨rfl, rfl, rfl, rfl⟩

/-- However much is done with a machine that has stopped, it stays where it is. -/
theorem performAll_of_stopped (actions : List Action) :
    (session.performAll actions).machine.pointer = session.machine.pointer ∧
      (session.performAll actions).machine.stack = session.machine.stack ∧
      (session.performAll actions).machine.status = session.machine.status ∧
      (session.performAll actions).output = session.output := by
  induction actions generalizing session with
  | nil => exact ⟨rfl, rfl, rfl, rfl⟩
  | cons action later inductionHypothesis =>
      obtain ⟨pointer, stack, status, output⟩ :=
        perform_of_stopped stopped action
      have stillStopped :
          (session.perform action).machine.status ≠ .running := by
        rwa [status]
      have stays := inductionHypothesis stillStopped
      rwa [pointer, stack, status, output] at stays

/-- Only a run of a verbose machine that has halted is seen, and it shows it once. -/
theorem log_perform_of_stopped (action : Action) :
    (session.perform action).log = session.log ∨
      (∃ count, action = .run count) ∧
        session.machine.annotations.verbose = true ∧
        (∃ code, session.machine.status = .halted code) ∧
        session.perform action = session.list := by
  cases action with
  | step =>
      rw [perform, step_of_stopped _ stopped]
      exact Or.inl rfl
  | run count =>
      rw [perform]
      rcases duringRun_of_stopped stopped count with same | ⟨same, halted⟩
      · rw [same]
        exact Or.inl rfl
      · rw [same, shown]
        cases verbose : session.machine.annotations.verbose with
        | true => exact Or.inr ⟨⟨count, rfl⟩, rfl, halted, rfl⟩
        | false => exact Or.inl rfl
  | setOperand address operand => exact Or.inl rfl
  | addBreakpoint address => exact Or.inl rfl
  | addLabel address name => exact Or.inl rfl
  | setVerbose verbose => exact Or.inl rfl

end Stopped

end Session

end StackCode
