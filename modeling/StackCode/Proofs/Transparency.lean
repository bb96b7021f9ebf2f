import StackCode.Proofs.Stepping

namespace StackCode

/-!
# Debugging is transparent

A machine with annotations is followed step by step beside the same machine
without any. What the two may differ in is their annotations, the widths of
their listings, and what their logs hold beside the program's output;
`Session.Alike` says that they agree in everything else. A step keeps two
sessions alike unless a question is answered with giving up, and then nothing
but the status of the questioned machine changes. With verbosity off the
annotations are carried along untouched and nothing but the program's output is
ever logged.
-/

namespace Machine

/-- A machine with other annotations and another width. -/
def dressed
    (annotations : Annotations)
    (width : Int)
    (machine : Machine) :
    Machine :=
  { machine with annotations := annotations, width := width }

/--
Neither annotations nor widths matter to an instruction, and it leaves them
alone.
-/
theorem executeNext_dressed
    (annotations : Annotations)
    (width : Int)
    (machine : Machine) :
    (machine.dressed annotations width).executeNext =
      (machine.executeNext.1.dressed annotations width,
        machine.executeNext.2) := by
  unfold executeNext
  have sameInstruction :
      (machine.dressed annotations width).instruction? = machine.instruction? :=
    rfl
  rw [sameInstruction]
  cases machine.instruction? with
  | none => rfl
  | some instruction =>
      simp only [dressed, apply, fail]
      cases (instruction.execute machine.pointer machine.stack).outcome <;> rfl

/-- An instruction leaves the annotations of its machine alone. -/
@[simp] theorem annotations_executeNext (machine : Machine) :
    machine.executeNext.1.annotations = machine.annotations := by
  have undressed :=
    executeNext_dressed machine.annotations machine.width machine
  have same : machine.dressed machine.annotations machine.width = machine := rfl
  rw [same] at undressed
  exact congrArg (fun result => result.1.annotations) undressed

/-- Where nothing is to be shown, nothing is asked. -/
theorem stopsAtBreakpoint_of_quiet
    {machine : Machine}
    (quiet : machine.annotations.verbose = false) :
    machine.stopsAtBreakpoint = false := by
  rw [stopsAtBreakpoint, quiet, Bool.false_and, Bool.false_and]

/-- A machine that stops at a breakpoint has an instruction there. -/
theorem instruction_of_stopsAtBreakpoint
    {machine : Machine}
    (stops : machine.stopsAtBreakpoint = true) :
    ∃ instruction,
      machine.instruction? = some instruction ∧
        machine.annotations.breaksAt machine.pointer = true := by
  rw [stopsAtBreakpoint, Bool.and_eq_true, Bool.and_eq_true] at stops
  obtain ⟨instruction, found⟩ := Option.isSome_iff_exists.mp stops.1.2
  exact ⟨instruction, found, stops.2⟩

end Machine

namespace Session

variable {σ : Type} {first second : Session σ}

/-- Sessions that agree in all that their programs can be observed by. -/
structure Alike (first second : Session σ) : Prop where
  program : first.machine.program = second.machine.program
  pointer : first.machine.pointer = second.machine.pointer
  stack : first.machine.stack = second.machine.stack
  status : first.machine.status = second.machine.status
  output : first.output = second.output

namespace Alike

/--
The machines of sessions that are alike differ in what they are dressed with.
-/
theorem machine_eq_dressed (alike : Alike first second) :
    first.machine =
      second.machine.dressed first.machine.annotations first.machine.width := by
  obtain ⟨program, pointer, stack, status, _⟩ := alike
  cases machine : first.machine
  rw [machine] at program pointer stack status
  simp only [Machine.dressed, Machine.mk.injEq, true_and]
  exact ⟨program, pointer, stack, status⟩

/--
Sessions whose machines differ in dress and whose output agrees are alike.
-/
theorem of_machine_eq_dressed
    {annotations : Annotations}
    {width : Int}
    (machine : first.machine = second.machine.dressed annotations width)
    (output : first.output = second.output) :
    Alike first second := by
  refine ⟨?_, ?_, ?_, ?_, output⟩ <;> rw [machine] <;> rfl

/-- Executing the next instruction keeps sessions alike. -/
theorem executeNext (alike : Alike first second) :
    Alike first.executeNext second.executeNext := by
  have executed :=
    Machine.executeNext_dressed first.machine.annotations first.machine.width
      second.machine
  rw [← alike.machine_eq_dressed] at executed
  apply of_machine_eq_dressed
  · rw [machine_executeNext, executed, machine_executeNext]
  · rw [output_executeNext, executed, output_executeNext, alike.output]

end Alike

section Questions

variable [Respondent σ]

/-- A refusal is never forgotten. -/
theorem Refused.step (refused : first.Refused) : first.step.2.Refused := by
  by_cases running : first.machine.status = .running
  · rw [step_of_running _ running]
    rcases first.advance_cases with ⟨_, form⟩ | ⟨_, _, form⟩ | ⟨_, _, form⟩
    · rw [form]
      exact first.refused_executeNext.mpr refused
    · rw [form]
      exact (refused_executeNext _).mpr (first.refused_ask.mpr (Or.inl refused))
    · rw [form]
      exact first.refused_ask.mpr (Or.inl refused)
  · rwa [step_of_stopped _ running]

/-- A machine that is not verbose executes its instructions unasked. -/
theorem advance_of_quiet (quiet : first.machine.annotations.verbose = false) :
    first.advance = first.executeNext :=
  first.advance_of_unasked (Machine.stopsAtBreakpoint_of_quiet quiet)

/--
The step of the simulation: as long as no question is answered with giving up, a
session steps like one that is never asked.
-/
theorem Alike.step
    (alike : Alike first second)
    (quiet : second.machine.annotations.verbose = false)
    (unrefused : ¬first.step.2.Refused) :
    first.step.1 = second.step.1 ∧ Alike first.step.2 second.step.2 := by
  by_cases running : first.machine.status = .running
  · have otherRunning : second.machine.status = .running := by
      rw [← alike.status, running]
    have advanced : Alike first.advance second.advance := by
      rw [step_of_running _ running] at unrefused
      rw [advance_of_quiet quiet]
      rcases first.advance_cases with
        ⟨_, form⟩ | ⟨_, _, form⟩ | ⟨_, refusal, form⟩
      · rw [form]
        exact alike.executeNext
      · -- A question changes nothing that sessions have to agree in.
        have asked : Alike first.ask.2 second :=
          ⟨alike.program, alike.pointer, alike.stack, alike.status,
            first.output_ask.trans alike.output⟩
        rw [form]
        exact asked.executeNext
      · rw [form] at unrefused
        exact absurd (first.refused_ask.mpr (Or.inr refusal)) unrefused
    rw [step_of_running _ running, step_of_running _ otherRunning]
    exact ⟨by rw [advanced.status], advanced⟩
  · have otherStopped : second.machine.status ≠ .running := by
      rw [← alike.status]
      exact running
    rw [step_of_stopped _ running, step_of_stopped _ otherStopped]
    exact ⟨rfl, alike⟩

/--
The step at which giving up is answered first: the machine fails where it
stands.
-/
theorem step_of_refusal
    (unrefused : ¬first.Refused)
    (refused : first.step.2.Refused) :
    ∃ instruction,
      first.machine.instruction? = some instruction ∧
        first.machine.annotations.breaksAt first.machine.pointer = true ∧
        first.machine.status = .running ∧
        first.step.2.machine =
          first.machine.fail (.instruction instruction.opcode .aborted) ∧
        first.step.2.output = first.output := by
  have running : first.machine.status = .running := by
    refine Decidable.byContradiction fun stopped => ?_
    rw [step_of_stopped _ stopped] at refused
    exact unrefused refused
  rw [step_of_running _ running] at refused ⊢
  rcases first.advance_cases with
    ⟨_, form⟩ | ⟨_, proceeds, form⟩ | ⟨stops, _, form⟩
  · rw [form, refused_executeNext] at refused
    exact absurd refused unrefused
  · rw [form, refused_executeNext, refused_ask, proceeds] at refused
    exact absurd (refused.resolve_right (by simp)) unrefused
  · obtain ⟨instruction, found, breaks⟩ :=
      Machine.instruction_of_stopsAtBreakpoint stops
    refine ⟨instruction, found, breaks, running, ?_, ?_⟩
    · rw [form]
      change first.machine.abort = _
      rw [Machine.abort, found]
    · rw [form]
      exact first.output_ask

/-- A step changes no annotations. -/
theorem annotations_step :
    first.step.2.machine.annotations = first.machine.annotations := by
  by_cases running : first.machine.status = .running
  · rw [step_of_running _ running]
    rcases first.advance_cases with ⟨_, form⟩ | ⟨_, _, form⟩ | ⟨_, _, form⟩
    · rw [form, machine_executeNext, Machine.annotations_executeNext]
    · rw [form, machine_executeNext, Machine.annotations_executeNext,
        machine_ask]
    · rw [form]
      change first.machine.abort.annotations = _
      unfold Machine.abort
      cases first.machine.instruction? <;> rfl
  · rw [step_of_stopped _ running]

/-- No number of steps changes the annotations of the machine. -/
theorem annotations_stepped
    (count : Nat)
    (session : Session σ) :
    (stepped count session).machine.annotations =
      session.machine.annotations := by
  induction count with
  | zero => rfl
  | succ count inductionHypothesis =>
      rw [stepped, annotations_step, inductionHypothesis]

/-- The simulation: two sessions stay alike up to the first refusal. -/
theorem Alike.stepped
    (alike : Alike first second)
    (quiet : second.machine.annotations.verbose = false)
    {count : Nat}
    (unrefused : ¬(stepped count first).Refused) :
    reports count first = reports count second ∧
      Alike (stepped count first) (stepped count second) := by
  induction count with
  | zero => exact ⟨rfl, alike⟩
  | succ count inductionHypothesis =>
      obtain ⟨sameReports, stillAlike⟩ :=
        inductionHypothesis fun refused => unrefused refused.step
      have stillQuiet :
          (Session.stepped count second).machine.annotations.verbose =
            false := by
        rw [annotations_stepped, quiet]
      obtain ⟨sameReport, nextAlike⟩ := stillAlike.step stillQuiet unrefused
      exact ⟨by rw [reports, reports, sameReports, sameReport], nextAlike⟩

end Questions

section Quiet

/-- A session whose machine has other annotations and another width. -/
def dressed
    (annotations : Annotations)
    (width : Int)
    (session : Session σ) :
    Session σ :=
  { session with machine := session.machine.dressed annotations width }

@[simp] theorem status_dressed
    (annotations : Annotations)
    (width : Int)
    (session : Session σ) :
    (session.dressed annotations width).machine.status =
      session.machine.status :=
  rfl

@[simp] theorem annotations_dressed
    (annotations : Annotations)
    (width : Int)
    (session : Session σ) :
    (session.dressed annotations width).machine.annotations = annotations :=
  rfl

/-- An instruction does the same whatever the annotations are. -/
theorem executeNext_dressed
    (annotations : Annotations)
    (width : Int)
    (session : Session σ) :
    (session.dressed annotations width).executeNext =
      session.executeNext.dressed annotations width := by
  have executed := Machine.executeNext_dressed annotations width session.machine
  have machine :
      (session.dressed annotations width).machine =
        session.machine.dressed annotations width :=
    rfl
  unfold executeNext
  rw [machine, executed]
  rfl

variable
  [Respondent σ]
  {annotations : Annotations}
  (width : Int)
  {session : Session σ}

/-- Where nothing is shown, annotations are carried along by a step. -/
theorem advance_dressed
    (quiet : session.machine.annotations.verbose = false)
    (otherQuiet : annotations.verbose = false) :
    (session.dressed annotations width).advance =
      session.advance.dressed annotations width := by
  have dressedQuiet :
      (session.dressed annotations width).machine.annotations.verbose =
        false := by
    rw [annotations_dressed, otherQuiet]
  rw [advance_of_quiet quiet, advance_of_quiet dressedQuiet,
    executeNext_dressed]

/-- Where nothing is shown, a step does the same whatever the annotations are. -/
theorem step_dressed
    (quiet : session.machine.annotations.verbose = false)
    (otherQuiet : annotations.verbose = false) :
    (session.dressed annotations width).step =
      (session.step.1, session.step.2.dressed annotations width) := by
  by_cases running : session.machine.status = .running
  · rw [step_of_running _ running, step_of_running _ (by simpa using running),
      advance_dressed width quiet otherQuiet, status_dressed]
  · rw [step_of_stopped _ running, step_of_stopped _ (by simpa using running)]

/--
Where nothing is shown, annotations are carried along by any number of steps.
-/
theorem stepped_dressed
    (quiet : session.machine.annotations.verbose = false)
    (otherQuiet : annotations.verbose = false)
    (count : Nat) :
    stepped count (session.dressed annotations width) =
        (stepped count session).dressed annotations width ∧
      reports count (session.dressed annotations width) =
        reports count session := by
  induction count with
  | zero => exact ⟨rfl, rfl⟩
  | succ count inductionHypothesis =>
      have stillQuiet :
          (stepped count session).machine.annotations.verbose = false := by
        rw [annotations_stepped, quiet]
      simp only [stepped, reports, inductionHypothesis,
        step_dressed width stillQuiet otherQuiet, and_self]

/-- So does a run. -/
theorem runToEnd_dressed
    (quiet : session.machine.annotations.verbose = false)
    (otherQuiet : annotations.verbose = false)
    (fuel : Nat) :
    runToEnd fuel (session.dressed annotations width) =
      (runToEnd fuel session).map fun ending =>
        (ending.1, ending.2.dressed annotations width) := by
  induction fuel generalizing session with
  | zero =>
      rw [runToEnd, runToEnd, status_dressed]
      cases session.machine.status <;> rfl
  | succ fuel inductionHypothesis =>
      rw [runToEnd, runToEnd, status_dressed,
        advance_dressed width quiet otherQuiet]
      cases session.machine.status with
      | running =>
          apply inductionHypothesis
          rw [advance_of_quiet quiet, machine_executeNext,
            Machine.annotations_executeNext, quiet]
      | halted code => rfl
      | faulted fault => rfl

/-- Where nothing is shown, annotations are carried along by a run. -/
theorem run_dressed
    (quiet : session.machine.annotations.verbose = false)
    (otherQuiet : annotations.verbose = false)
    (fuel : Nat) :
    run fuel (session.dressed annotations width) =
      (run fuel session).map fun ending =>
        (ending.1, ending.2.dressed annotations width) := by
  unfold run
  rw [status_dressed, annotations_dressed, quiet, otherQuiet,
    runToEnd_dressed width quiet otherQuiet]
  cases session.machine.status <;> rfl

end Quiet

/--
A session in which nobody has been asked and nothing shown but the program's
output, and in which that stays so.
-/
structure Undisturbed (respondent : σ) (session : Session σ) : Prop where
  quiet : session.machine.annotations.verbose = false
  unasked : session.respondent = respondent
  onlyPrints : ∀ event ∈ session.log.toList, ∃ text, event = .printed text

namespace Undisturbed

variable {respondent : σ} {session : Session σ}

/-- An instruction asks nothing and shows nothing. -/
theorem executeNext (undisturbed : Undisturbed respondent session) :
    Undisturbed respondent session.executeNext where
  quiet := by
    rw [machine_executeNext, Machine.annotations_executeNext, undisturbed.quiet]
  unasked := undisturbed.unasked
  onlyPrints := by
    intro event member
    have log :
        session.executeNext.log.toList =
          session.log.toList ++ session.machine.executeNext.2.map .printed :=
      Array.toList_appendList
    rw [log] at member
    rcases List.mem_append.mp member with before | new
    · exact undisturbed.onlyPrints event before
    · obtain ⟨text, _, same⟩ := List.mem_map.mp new
      exact ⟨text, same.symm⟩

variable [Respondent σ]

/-- Where nothing is asked, a machine goes on by executing. -/
theorem advance (undisturbed : Undisturbed respondent session) :
    Undisturbed respondent session.advance := by
  rw [advance_of_quiet undisturbed.quiet]
  exact undisturbed.executeNext

/-- A step leaves a session undisturbed. -/
theorem step (undisturbed : Undisturbed respondent session) :
    Undisturbed respondent session.step.2 := by
  by_cases running : session.machine.status = .running
  · rw [step_of_running _ running]
    exact undisturbed.advance
  · rw [step_of_stopped _ running]
    exact undisturbed

/-- So does any number of steps. -/
theorem stepped
    (undisturbed : Undisturbed respondent session)
    (count : Nat) :
    Undisturbed respondent (Session.stepped count session) := by
  induction count with
  | zero => exact undisturbed
  | succ count inductionHypothesis => exact inductionHypothesis.step

/-- So does a run to the end. -/
theorem runToEnd
    (undisturbed : Undisturbed respondent session)
    {fuel : Nat}
    {ending : Except Fault Word × Session σ}
    (ends : Session.runToEnd fuel session = some ending) :
    Undisturbed respondent ending.2 := by
  induction fuel generalizing session with
  | zero =>
      obtain ⟨result, _, rfl⟩ := Option.map_eq_some_iff.mp ends
      exact undisturbed
  | succ fuel inductionHypothesis =>
      rw [Session.runToEnd] at ends
      cases stopped : session.machine.status.result? with
      | some result =>
          rw [stopped] at ends
          cases ends
          exact undisturbed
      | none =>
          rw [stopped] at ends
          exact inductionHypothesis undisturbed.advance ends

/-- So does a run, which shows nothing of the machine. -/
theorem run
    (undisturbed : Undisturbed respondent session)
    {fuel : Nat}
    {ending : Except Fault Word × Session σ}
    (ends : Session.run fuel session = some ending) :
    Undisturbed respondent ending.2 := by
  unfold Session.run at ends
  rw [undisturbed.quiet] at ends
  cases status : session.machine.status with
  | faulted fault =>
      rw [status] at ends
      cases ends
      exact undisturbed
  | running =>
      rw [status] at ends
      exact undisturbed.runToEnd ends
  | halted code =>
      rw [status] at ends
      exact undisturbed.runToEnd ends

end Undisturbed

/-- A session of a machine that is shown and questioned at its breakpoints. -/
def debugged (machine : Machine) (respondent : σ) : Session σ :=
  ofMachine (machine.mapAnnotations (Annotations.setVerbose true)) respondent

/-- A session of a machine with its annotations, which nothing is shown of. -/
def unshown (machine : Machine) (respondent : σ) : Session σ :=
  ofMachine (machine.mapAnnotations (Annotations.setVerbose false)) respondent

/-- A session of a machine without annotations. -/
def bare (machine : Machine) (respondent : σ) : Session σ :=
  ofMachine (machine.dressed {} Listing.defaultWidth) respondent

/--
How a session stands that has given up at a breakpoint where another one stands:
it has failed at the instruction there, and is otherwise as the other one.
-/
structure GaveUp
    (annotations : Annotations)
    (fault : Fault)
    (reached refused : Session σ) : Prop where
  breaks : annotations.breaksAt reached.machine.pointer = true
  mnemonic :
    ∃ instruction,
      reached.machine.instruction? = some instruction ∧
        fault.mnemonic? = some instruction.opcode.mnemonic
  reason : fault.reason = ("aborted at breakpoint" : Text)
  address : fault.address = reached.machine.pointer
  status : refused.machine.status = .faulted fault
  pointer : refused.machine.pointer = reached.machine.pointer
  stack : refused.machine.stack = reached.machine.stack
  output : refused.output = reached.output

/--
The step of the first refusal gives up where a session that is never asked
stands.
-/
theorem Alike.gaveUp
    [Respondent σ]
    (alike : Alike first second)
    (unrefused : ¬first.Refused)
    (refused : first.step.2.Refused) :
    ∃ fault,
      first.step.1 = .error fault ∧
        GaveUp first.machine.annotations fault second first.step.2 := by
  obtain ⟨instruction, found, breaks, running, failed, output⟩ :=
    step_of_refusal unrefused refused
  refine
    ⟨{ cause := .instruction instruction.opcode .aborted
       address := first.machine.pointer }, ?_, ?_⟩
  · rw [step_of_running _ running] at failed ⊢
    rw [failed]
    rfl
  · exact
      { breaks := by rw [← alike.pointer]; exact breaks
        mnemonic :=
          ⟨instruction, by
            rw [← found, Machine.instruction?, Machine.instruction?,
              alike.program, alike.pointer], rfl⟩
        reason := rfl
        address := alike.pointer
        status := by rw [failed]; rfl
        pointer := by rw [failed, ← alike.pointer]; rfl
        stack := by rw [failed, ← alike.stack]; rfl
        output := by rw [output, alike.output] }

/--
Debugging is transparent, from every state of a machine and for whoever answers.

As long as no question has been answered with giving up, the debugged machine
reports at every step what the bare one does, and pointer, stack, status and
output are the same. The step of the first such answer fails at the breakpoint
where the bare machine stands before it, and nothing happens any more. Where
nothing is shown, annotations make no difference at all to steps and runs:
nobody is asked, and nothing is logged but the program's output.
-/
theorem debugging_is_transparent
    [Respondent σ]
    (machine : Machine)
    (respondent : σ)
    (count : Nat) :
    (¬(stepped count (debugged machine respondent)).Refused →
      reports count (debugged machine respondent) =
          reports count (bare machine respondent) ∧
        Alike (stepped count (debugged machine respondent))
          (stepped count (bare machine respondent))) ∧
    (¬(stepped count (debugged machine respondent)).Refused →
      (stepped (count + 1) (debugged machine respondent)).Refused →
      ∃ fault,
        (stepped count (debugged machine respondent)).step.1 = .error fault ∧
          ∀ later,
            GaveUp machine.annotations fault
              (stepped count (bare machine respondent))
              (stepped (count + 1 + later) (debugged machine respondent))) ∧
    (reports count (unshown machine respondent) =
        reports count (bare machine respondent) ∧
      stepped count (unshown machine respondent) =
        (stepped count (bare machine respondent)).dressed
          (machine.annotations.setVerbose false) machine.width ∧
      Undisturbed respondent (stepped count (unshown machine respondent))) ∧
    ∀ fuel,
      run fuel (unshown machine respondent) =
          (run fuel (bare machine respondent)).map (fun ending =>
            (ending.1,
              ending.2.dressed (machine.annotations.setVerbose false)
                machine.width)) ∧
        ∀ ending,
          run fuel (unshown machine respondent) = some ending →
            Undisturbed respondent ending.2 := by
  have quiet :
      (bare machine respondent).machine.annotations.verbose = false := rfl
  have alike : Alike (debugged machine respondent) (bare machine respondent) :=
    ⟨rfl, rfl, rfl, rfl, rfl⟩
  have off : (machine.annotations.setVerbose false).verbose = false := rfl
  have undisturbed : Undisturbed respondent (unshown machine respondent) :=
    ⟨rfl, rfl, by simp [unshown, ofMachine]⟩
  refine ⟨?_, ?_, ?_, ?_⟩
  · intro unrefused
    exact alike.stepped quiet unrefused
  · intro unrefused refused
    obtain ⟨fault, reported, gaveUp⟩ :=
      (alike.stepped quiet unrefused).2.gaveUp unrefused refused
    rw [annotations_stepped] at gaveUp
    have stopped :
        (stepped (count + 1) (debugged machine respondent)).machine.status ≠
          .running := by
      intro running
      cases running.symm.trans gaveUp.status
    refine ⟨fault, reported, fun later => ?_⟩
    rw [stepped_of_stopped _ stopped]
    exact { gaveUp with breaks := gaveUp.breaks }
  · obtain ⟨sameSession, sameReports⟩ :=
      stepped_dressed machine.width quiet off count
    exact ⟨sameReports, sameSession, undisturbed.stepped count⟩
  · intro fuel
    exact ⟨run_dressed machine.width quiet off fuel,
      fun _ ends => undisturbed.run ends⟩

/-- A machine that prints a word, with a breakpoint before it prints. -/
def printing : Machine where
  program := #[.push 7, .operate .printNumber]
  annotations := ({} : Annotations).addBreakpoint 1

/-- A respondent that gives up the first time it is asked. -/
def refusing : Script where
  answers := [false]

/-- Given up before it prints, a machine stays where the bare one stands. -/
theorem printing_is_given_up :
    ∃ fault,
      GaveUp printing.annotations fault
        (stepped 1 (bare printing refusing))
        (stepped 2 (debugged printing refusing)) := by
  obtain ⟨unrefused, refused⟩ :
      ¬(stepped 1 (debugged printing refusing)).Refused ∧
        (stepped 2 (debugged printing refusing)).Refused := by
    unfold Refused
    decide
  obtain ⟨fault, _, gaveUp⟩ :=
    (debugging_is_transparent printing refusing 1).2.1 unrefused refused
  exact ⟨fault, gaveUp 0⟩

end Session

end StackCode
