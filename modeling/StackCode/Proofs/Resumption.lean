import StackCode.Proofs.Actions
import StackCode.Proofs.Transparency

namespace StackCode

/-!
# Runs are made of steps

A run ends as some number of steps does, and it never ends where no number of steps
stops the machine. So it does not matter whether a machine is run at once or stepped
first and run then: the result is the same, and so are the machine, the answers that
are left and the output. What differs is where the listing stands that a run of a
verbose machine begins with. What has been seen before has no influence on what
comes; `Session.added` is what a number of steps adds to it.
-/

namespace Status

/-- A step reports a fault exactly if the machine has failed with it. -/
theorem stepResult_eq_error_iff {status : Status} {fault : Fault} :
    status.stepResult = .error fault ↔ status = .faulted fault := by
  cases status <;> simp [stepResult]

theorem ne_running_of_faulted
    {status : Status}
    {fault : Fault}
    (failed : status = .faulted fault) :
    status ≠ .running := by
  rintro rfl
  cases failed

/-- A machine that has a result does not run. -/
theorem ne_running_of_result?
    {status : Status}
    {result : Except Fault Word}
    (ended : status.result? = some result) :
    status ≠ .running := by
  rintro rfl
  cases ended

/-- A machine has halted exactly if its result is its exit code. -/
theorem result?_eq_ok_iff {status : Status} {code : Word} :
    status.result? = some (.ok code) ↔ status = .halted code := by
  cases status <;> simp [result?]

/-- A machine has failed exactly if its result is its fault. -/
theorem result?_eq_error_iff {status : Status} {fault : Fault} :
    status.result? = some (.error fault) ↔ status = .faulted fault := by
  cases status <;> simp [result?]

end Status

namespace Session

variable {σ : Type}

/-- A session that has seen more, before all that it has seen itself. -/
def preceded (earlier : Array Event) (session : Session σ) : Session σ :=
  { session with log := earlier ++ session.log }

/-- A session of which nothing has been seen yet. -/
def afresh (session : Session σ) : Session σ :=
  { session with log := #[] }

/-- What a run shows before its first step: a verbose machine that has not failed. -/
def opening (session : Session σ) : List Event :=
  match session.machine.status with
  | .faulted _ => []
  | _ =>
      if session.machine.annotations.verbose then
        [.listed session.machine.stateText]
      else
        []

section Logs

variable (earlier : Array Event) (session : Session σ)

@[simp] theorem machine_preceded :
    (session.preceded earlier).machine = session.machine :=
  rfl

/-- What was seen earlier comes before what has been seen. -/
theorem toList_log_preceded :
    (session.preceded earlier).log.toList =
      earlier.toList ++ session.log.toList :=
  Array.toList_append

/-- A session is what it would be afresh, after what has been seen of it. -/
theorem afresh_preceded_log : session.afresh.preceded session.log = session := by
  simp [afresh, preceded]

/-- Reports come after what was seen earlier. -/
theorem report_preceded (events : List Event) :
    (session.preceded earlier).report events =
      (session.report events).preceded earlier := by
  have log :
      earlier ++ session.log ++ events = earlier ++ (session.log ++ events) := by
    apply Array.toList_inj.mp
    simp
  simp only [report, preceded, log]

/-- An instruction does the same whatever was seen before it. -/
theorem executeNext_preceded :
    (session.preceded earlier).executeNext =
      session.executeNext.preceded earlier :=
  report_preceded earlier { session with machine := session.machine.executeNext.1 }
    _

/-- A run begins by showing what it opens with. -/
theorem shown_eq_report
    (unfailed : ∀ fault, session.machine.status ≠ .faulted fault) :
    session.shown = session.report session.opening := by
  have unfaulted :
      session.opening =
        if session.machine.annotations.verbose then
          [.listed session.machine.stateText]
        else
          [] := by
    unfold opening
    cases status : session.machine.status with
    | faulted fault => exact absurd status (unfailed fault)
    | running => rfl
    | halted code => rfl
  rw [shown, unfaulted]
  cases session.machine.annotations.verbose with
  | true => rfl
  | false => simp [report]

/-- A run of a machine that has failed opens with nothing. -/
theorem opening_of_faulted
    {fault : Fault}
    (failed : session.machine.status = .faulted fault) :
    session.opening = [] := by
  rw [opening, failed]

/-- A run that nothing is shown of opens with nothing. -/
theorem opening_of_quiet
    (quiet : session.machine.annotations.verbose = false) :
    session.opening = [] := by
  unfold opening
  rw [quiet]
  cases session.machine.status <;> rfl

/-- An opening is no output of the program. -/
theorem filterMap_printed?_opening :
    session.opening.filterMap Event.printed? = [] := by
  unfold opening
  cases session.machine.status with
  | faulted fault => rfl
  | running => cases session.machine.annotations.verbose <;> rfl
  | halted code => cases session.machine.annotations.verbose <;> rfl

end Logs

variable [Respondent σ]

section Steps

variable (earlier : Array Event) (session : Session σ)

/-- The answer to the question at the machine's pointer. -/
def reply : Reply σ :=
  Respondent.confirm session.respondent
    (Machine.questionText session.machine.pointer)

/-- A question is answered alike whatever was seen before it. -/
theorem ask_preceded :
    (session.preceded earlier).ask =
      (session.ask.1, session.ask.2.preceded earlier) := by
  have listed :
      (session.preceded earlier).list = session.list.preceded earlier :=
    report_preceded earlier session _
  unfold ask
  rw [listed]
  exact
    congrArg (Prod.mk session.reply.proceed)
      (report_preceded earlier
        { session.list with respondent := session.reply.rest } _)

/-- A machine goes on alike whatever was seen before. -/
theorem advance_preceded :
    (session.preceded earlier).advance = session.advance.preceded earlier := by
  unfold advance
  rw [machine_preceded, ask_preceded]
  split
  · cases session.ask with
    | mk proceed asked =>
        cases proceed with
        | true => exact executeNext_preceded earlier asked
        | false => rfl
  · exact executeNext_preceded earlier session

/-- What has been seen before has no influence on a step. -/
theorem step_preceded :
    (session.preceded earlier).step =
      (session.step.1, session.step.2.preceded earlier) := by
  by_cases running : session.machine.status = .running
  · rw [step_of_running session running,
      step_of_running (session.preceded earlier) running, advance_preceded]
    rfl
  · rw [step_of_stopped session running,
      step_of_stopped (session.preceded earlier) running]

/-- What has been seen before has no influence on any number of steps. -/
theorem stepped_preceded (count : Nat) :
    stepped count (session.preceded earlier) =
      (stepped count session).preceded earlier := by
  induction count with
  | zero => rfl
  | succ count inductionHypothesis =>
      rw [stepped, inductionHypothesis, step_preceded]
      rfl

/-- What a number of steps adds to what has been seen. -/
def added (count : Nat) : List Event :=
  (stepped count session.afresh).log.toList

/-- Steps add to what has been seen, whatever that is. -/
theorem stepped_report (count : Nat) (events : List Event) :
    stepped count (session.report events) =
      (stepped count session.afresh).preceded (session.log ++ events) := by
  have reported :
      session.report events =
        session.afresh.preceded (session.log ++ events) := by
    simp [report, preceded, afresh]
  rw [reported, stepped_preceded]

/-- Steps do what they would do afresh, after what has been seen before them. -/
theorem stepped_eq_preceded (count : Nat) :
    stepped count session =
      (stepped count session.afresh).preceded session.log := by
  rw [← stepped_preceded, afresh_preceded_log]

/-- Steps take nothing away from what has been seen. -/
theorem toList_log_stepped (count : Nat) :
    (stepped count session).log.toList =
      session.log.toList ++ added session count := by
  rw [stepped_eq_preceded, toList_log_preceded, added]

/-- Steps after steps are steps. -/
theorem stepped_add (first second : Nat) :
    stepped (first + second) session = stepped second (stepped first session) := by
  induction second with
  | zero => rfl
  | succ second inductionHypothesis =>
      rw [← Nat.add_assoc, stepped, inductionHypothesis, stepped]

/-- What steps add, they add in turn. -/
theorem added_add (first second : Nat) :
    added session (first + second) =
      added session first ++ added (stepped first session) second := by
  have whole := toList_log_stepped session (first + second)
  rw [stepped_add, toList_log_stepped, toList_log_stepped,
    List.append_assoc] at whole
  exact (List.append_cancel_left whole).symm

end Steps

/-- A run ends with a result and leaves a session behind. -/
def Returns
    (session : Session σ)
    (result : Except Fault Word)
    (after : Session σ) :
    Prop :=
  ∃ fuel, session.run fuel = some (result, after)

/--
What a run leaves behind that ends as a number of steps does: it has been opened
before the first of them.
-/
structure EndsAfter
    (session : Session σ)
    (count : Nat)
    (after : Session σ) :
    Prop where
  machine : after.machine = (stepped count session).machine
  respondent : after.respondent = (stepped count session).respondent
  log :
    after.log.toList =
      session.log.toList ++ session.opening ++ session.added count

section Runs

variable {session after : Session σ} {result : Except Fault Word}

/-- What is left behind after a number of steps is one session only. -/
theorem EndsAfter.eq
    {other : Session σ}
    {count : Nat}
    (ends : session.EndsAfter count after)
    (otherEnds : session.EndsAfter count other) :
    after = other := by
  obtain ⟨machine, respondent, log⟩ := after
  obtain ⟨otherMachine, otherRespondent, otherLog⟩ := other
  obtain ⟨sameMachine, sameRespondent, sameLog⟩ := ends
  obtain ⟨otherSameMachine, otherSameRespondent, otherSameLog⟩ := otherEnds
  simp only [Session.mk.injEq]
  exact
    ⟨sameMachine.trans otherSameMachine.symm,
      sameRespondent.trans otherSameRespondent.symm,
      Array.toList_inj.mp (sameLog.trans otherSameLog.symm)⟩

/-- A run that nothing is shown of leaves behind what the steps do. -/
theorem endsAfter_of_quiet
    (quiet : session.machine.annotations.verbose = false)
    (count : Nat) :
    session.EndsAfter count (stepped count session) where
  machine := rfl
  respondent := rfl
  log := by
    rw [opening_of_quiet session quiet, List.append_nil, toList_log_stepped]

/-- A machine that has failed takes no more steps. -/
theorem stepped_of_faulted
    {fault : Fault}
    (failed : session.machine.status = .faulted fault)
    (count : Nat) :
    stepped count session = session :=
  stepped_eq_self (Status.ne_running_of_faulted failed) count

/-- A run of a machine that has failed leaves it as any number of steps does. -/
theorem endsAfter_of_faulted
    {fault : Fault}
    (failed : session.machine.status = .faulted fault)
    (count : Nat) :
    session.EndsAfter count session := by
  have stays := stepped_of_faulted failed count
  have log := toList_log_stepped session count
  rw [stays] at log
  exact
    { machine := by rw [stays]
      respondent := by rw [stays]
      log := by
        rw [opening_of_faulted session failed, List.append_nil]
        exact log }

/-- Steps after the opening leave behind what a run does. -/
theorem endsAfter_shown
    (unfailed : ∀ fault, session.machine.status ≠ .faulted fault)
    (count : Nat) :
    session.EndsAfter count (stepped count session.shown) := by
  have opened := stepped_report session count session.opening
  rw [← shown_eq_report session unfailed] at opened
  rw [opened]
  have plain := stepped_eq_preceded session count
  exact
    { machine := by rw [plain, machine_preceded, machine_preceded]
      respondent := by
        rw [plain]
        rfl
      log := by
        rw [toList_log_preceded, Array.toList_appendList, added] }

/-- The end of a run is that of the steps it is made of. -/
theorem returns_iff :
    session.Returns result after ↔
      ∃ count,
        (stepped count session).machine.status.result? = some result ∧
          session.EndsAfter count after := by
  by_cases failed : ∃ fault, session.machine.status = .faulted fault
  · obtain ⟨fault, failed⟩ := failed
    have stays := stepped_of_faulted failed
    constructor
    · rintro ⟨fuel, ends⟩
      rw [run_of_faulted failed] at ends
      cases ends
      refine ⟨fuel, ?_, endsAfter_of_faulted failed fuel⟩
      rw [stays, failed]
      rfl
    · rintro ⟨count, ended, ends⟩
      rw [stays, failed] at ended
      cases ended
      refine ⟨count, ?_⟩
      rw [run_of_faulted failed, ends.eq (endsAfter_of_faulted failed count)]
  · have unfailed := not_exists.mp failed
    have run_eq (fuel : Nat) :
        run fuel session =
          (stepped fuel session).machine.status.result?.map fun result =>
            (result, stepped fuel session.shown) := by
      rw [run_of_unfailed unfailed, runToEnd_eq_stepped,
        (endsAfter_shown unfailed fuel).machine]
    constructor
    · rintro ⟨fuel, ends⟩
      rw [run_eq] at ends
      obtain ⟨_, ended, same⟩ := Option.map_eq_some_iff.mp ends
      cases same
      exact ⟨fuel, ended, endsAfter_shown unfailed fuel⟩
    · rintro ⟨count, ended, ends⟩
      refine ⟨count, ?_⟩
      rw [run_eq, ended, ends.eq (endsAfter_shown unfailed count)]
      rfl

/-- Something is left behind after any number of steps. -/
theorem exists_endsAfter (session : Session σ) (count : Nat) :
    ∃ after, session.EndsAfter count after := by
  refine
    ⟨{ stepped count session with
        log := session.log ++ session.opening ++ session.added count },
      rfl, rfl, ?_⟩
  simp

/-- A run never ends exactly where no number of steps stops the machine. -/
theorem run_eq_none_iff :
    (∀ fuel, session.run fuel = none) ↔
      ∀ count, (stepped count session).machine.status = .running := by
  constructor
  · intro never count
    refine Decidable.byContradiction fun stopped => ?_
    obtain ⟨result, ended⟩ :=
      Option.ne_none_iff_exists'.mp (mt Status.result?_eq_none_iff.mp stopped)
    obtain ⟨after, ends⟩ := exists_endsAfter session count
    obtain ⟨fuel, returned⟩ := returns_iff.mpr ⟨count, ended, ends⟩
    rw [never] at returned
    cases returned
  · intro running fuel
    refine Option.eq_none_iff_forall_ne_some.mpr fun (result, after) returned => ?_
    obtain ⟨count, ended, _⟩ := returns_iff.mp ⟨fuel, returned⟩
    rw [running] at ended
    cases ended

/-- A machine that runs has failed after some steps exactly if one of them reports it. -/
theorem exists_fault_iff
    (running : session.machine.status = .running)
    (fault : Fault) :
    (∃ count, (stepped count session).machine.status = .faulted fault) ↔
      ∃ count, (stepped count session).step.1 = .error fault := by
  constructor
  · rintro ⟨count, failed⟩
    induction count with
    | zero => cases running.symm.trans failed
    | succ count inductionHypothesis =>
        by_cases stillRunning : (stepped count session).machine.status = .running
        · refine ⟨count, ?_⟩
          rw [stepped, step_of_running _ stillRunning] at failed
          rw [step_of_running _ stillRunning, Status.stepResult_eq_error_iff]
          exact failed
        · rw [stepped, step_of_stopped _ stillRunning] at failed
          exact inductionHypothesis failed
  · rintro ⟨count, reported⟩
    refine ⟨count + 1, ?_⟩
    by_cases stillRunning : (stepped count session).machine.status = .running
    · rw [step_of_running _ stillRunning,
        Status.stepResult_eq_error_iff] at reported
      rw [stepped, step_of_running _ stillRunning]
      exact reported
    · rw [step_of_stopped _ stillRunning] at reported
      cases reported

/-- Steps that have stopped a machine have all led to the same. -/
theorem stepped_eq_of_stopped
    {first second : Nat}
    (firstStopped : (stepped first session).machine.status ≠ .running)
    (secondStopped : (stepped second session).machine.status ≠ .running) :
    stepped first session = stepped second session := by
  rcases Nat.le_total first second with atMost | atMost
  · rw [← Nat.add_sub_cancel' atMost, stepped_of_stopped _ firstStopped]
  · rw [← Nat.add_sub_cancel' atMost, stepped_of_stopped _ secondStopped]

/-- Once a machine has stopped, no step adds anything. -/
theorem added_eq_of_stopped
    {first second : Nat}
    (firstStopped : (stepped first session).machine.status ≠ .running)
    (secondStopped : (stepped second session).machine.status ≠ .running) :
    session.added first = session.added second := by
  have same := stepped_eq_of_stopped firstStopped secondStopped
  have firstLog := toList_log_stepped session first
  rw [same, toList_log_stepped] at firstLog
  exact (List.append_cancel_left firstLog).symm

/-- A result after steps is one from the start. -/
theorem exists_returns_stepped_iff (count : Nat) :
    (∃ resumed, (stepped count session).Returns result resumed) ↔
      ∃ after, session.Returns result after := by
  constructor
  · rintro ⟨resumed, returned⟩
    obtain ⟨more, ended, _⟩ := returns_iff.mp returned
    rw [← stepped_add] at ended
    obtain ⟨after, ends⟩ := exists_endsAfter session (count + more)
    exact ⟨after, returns_iff.mpr ⟨count + more, ended, ends⟩⟩
  · rintro ⟨after, returned⟩
    obtain ⟨total, ended, _⟩ := returns_iff.mp returned
    have stopped := Status.ne_running_of_result? ended
    have stays : stepped total (stepped count session) = stepped total session := by
      rw [← stepped_add, Nat.add_comm, stepped_of_stopped _ stopped]
    obtain ⟨resumed, ends⟩ := exists_endsAfter (stepped count session) total
    exact ⟨resumed, returns_iff.mpr ⟨total, by rw [stays, ended], ends⟩⟩

end Runs

/--
How a run that is begun after a number of steps stands to one that is begun before
them: each has its opening where it begins, and all else is the same.
-/
structure Resumes
    (session : Session σ)
    (count : Nat)
    (after resumed : Session σ) :
    Prop where
  machine : resumed.machine = after.machine
  respondent : resumed.respondent = after.respondent
  output : resumed.output = after.output
  log :
    ∃ rest,
      after.log.toList =
          session.log.toList ++ session.opening ++
            (session.added count ++ rest) ∧
        resumed.log.toList =
          session.log.toList ++ session.added count ++
            ((stepped count session).opening ++ rest)

/-- A run that is resumed after some steps returns what the whole run returns. -/
theorem resumes_of_returns
    {session after resumed : Session σ}
    {count : Nat}
    {result other : Except Fault Word}
    (returned : session.Returns result after)
    (returnedLater : (stepped count session).Returns other resumed) :
    other = result ∧ session.Resumes count after resumed := by
  obtain ⟨total, ended, machine, respondent, log⟩ := returns_iff.mp returned
  obtain ⟨more, endedLater, laterMachine, laterRespondent, laterLog⟩ :=
    returns_iff.mp returnedLater
  rw [← stepped_add] at endedLater laterMachine laterRespondent
  have stopped := Status.ne_running_of_result? ended
  have laterStopped := Status.ne_running_of_result? endedLater
  have same := stepped_eq_of_stopped laterStopped stopped
  rw [same] at endedLater laterMachine laterRespondent
  rw [added_eq_of_stopped stopped laterStopped, added_add] at log
  rw [toList_log_stepped, List.append_assoc] at laterLog
  refine ⟨Option.some.inj (endedLater.symm.trans ended), ?_⟩
  exact
    { machine := laterMachine.trans machine.symm
      respondent := laterRespondent.trans respondent.symm
      output := by
        simp only [output, log, laterLog, List.filterMap_append,
          filterMap_printed?_opening, List.nil_append, List.append_assoc]
      log := ⟨_, log, laterLog⟩ }

/-- Where nothing is shown there is no difference at all. -/
theorem Resumes.eq_of_quiet
    {session after resumed : Session σ}
    {count : Nat}
    (resumes : session.Resumes count after resumed)
    (quiet : session.machine.annotations.verbose = false) :
    resumed = after := by
  obtain ⟨rest, log, laterLog⟩ := resumes.log
  have laterQuiet :
      (stepped count session).machine.annotations.verbose = false := by
    rw [annotations_stepped, quiet]
  rw [opening_of_quiet session quiet, List.append_nil] at log
  rw [opening_of_quiet _ laterQuiet, List.nil_append, List.append_assoc,
    ← log] at laterLog
  obtain ⟨machine, respondent, log⟩ := resumed
  cases resumes.machine
  cases resumes.respondent
  cases Array.toList_inj.mp laterLog
  rfl

/--
A run is made of steps, and can be begun after any number of them.

It ends with an exit code or a fault exactly if some number of steps stops the machine
with it, and leaves behind what these steps do, with its opening before what they
have added; it never ends exactly if no number of steps stops the machine. Begun after
a number of steps it ends exactly if it ends when begun before them, with the same
result, machine, answers left and output. The two are seen differently in their
openings only, and so not at all where nothing is shown.
-/
theorem run_is_iterated_step (session : Session σ) :
    (∀ count,
      (stepped count session).log.toList =
        session.log.toList ++ session.added count) ∧
    (∀ code after,
      session.Returns (.ok code) after ↔
        ∃ count,
          (stepped count session).machine.status = .halted code ∧
            session.EndsAfter count after) ∧
    (∀ fault after,
      session.Returns (.error fault) after ↔
        ∃ count,
          (stepped count session).machine.status = .faulted fault ∧
            session.EndsAfter count after) ∧
    ((∀ fuel, session.run fuel = none) ↔
      ∀ count, (stepped count session).machine.status = .running) ∧
    (session.machine.status = .running →
      ∀ fault,
        (∃ count, (stepped count session).machine.status = .faulted fault) ↔
          ∃ count, (stepped count session).step.1 = .error fault) ∧
    (∀ count result,
      (∃ resumed, (stepped count session).Returns result resumed) ↔
        ∃ after, session.Returns result after) ∧
    (∀ count result other after resumed,
      session.Returns result after →
      (stepped count session).Returns other resumed →
      other = result ∧ session.Resumes count after resumed) ∧
    (session.machine.annotations.verbose = false →
      (∀ count after,
        session.EndsAfter count after ↔ after = stepped count session) ∧
      ∀ count result after,
        (stepped count session).Returns result after ↔
          session.Returns result after) := by
  refine
    ⟨toList_log_stepped session, ?_, ?_, run_eq_none_iff, exists_fault_iff,
      fun count _ => exists_returns_stepped_iff count,
      fun _ _ _ _ _ => resumes_of_returns, fun quiet => ⟨?_, ?_⟩⟩
  · intro code after
    simp only [returns_iff, Status.result?_eq_ok_iff]
  · intro fault after
    simp only [returns_iff, Status.result?_eq_error_iff]
  · intro count after
    refine ⟨fun ends => ends.eq (endsAfter_of_quiet quiet count), ?_⟩
    rintro rfl
    exact endsAfter_of_quiet quiet count
  · intro count result after
    constructor
    · intro returned
      obtain ⟨whole, isWhole⟩ :=
        (exists_returns_stepped_iff count).mp ⟨after, returned⟩
      have same := (resumes_of_returns isWhole returned).2.eq_of_quiet quiet
      rwa [same]
    · intro returned
      obtain ⟨resumed, isResumed⟩ :=
        (exists_returns_stepped_iff count).mpr ⟨after, returned⟩
      have same := (resumes_of_returns returned isResumed).2.eq_of_quiet quiet
      rwa [← same]

/-- Run after a step, a program that is shown prints and fails as when it is run at once. -/
theorem printing_is_resumed :
    ∃ after resumed,
      (debugged printing ({} : Script)).Returns
          (.error { cause := .noInstruction, address := 2 }) after ∧
        (stepped 1 (debugged printing ({} : Script))).Returns
          (.error { cause := .noInstruction, address := 2 }) resumed ∧
        (debugged printing ({} : Script)).Resumes 1 after resumed ∧
        resumed.log ≠ after.log := by
  have returned :
      (debugged printing ({} : Script)).Returns
        (.error { cause := .noInstruction, address := 2 })
        ((debugged printing ({} : Script)).duringRun 3) :=
    ⟨3, rfl⟩
  have returnedLater :
      (stepped 1 (debugged printing ({} : Script))).Returns
        (.error { cause := .noInstruction, address := 2 })
        ((stepped 1 (debugged printing ({} : Script))).duringRun 2) :=
    ⟨2, rfl⟩
  obtain ⟨_, _, _, _, _, _, resumes, _⟩ :=
    run_is_iterated_step (debugged printing ({} : Script))
  exact
    ⟨_, _, returned, returnedLater,
      (resumes 1 _ _ _ _ returned returnedLater).2, by decide +kernel⟩

end Session

end StackCode
