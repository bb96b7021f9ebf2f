import Mathlib.Data.List.Basic
import StackCode.Proofs.Resumption

namespace StackCode

/-!
# What a debugger shows and asks

A debugger has two occasions to speak: a run that is about to begin, and a step that
is about to begin. `Session.history` lists them for all that is done with a session,
each with the machine as it stands, and `Moment.listing?` and `Moment.question?` say
what is shown and asked there: the machine before a run of it, and the machine and a
question before an instruction at a breakpoint. Listings and questions in a session's
log are those of its history, in the same order. A question that is answered with
giving up is the last that is seen of a session.
-/

/-- What a debugger says. -/
inductive Remark where
  /-- It shows a listing and a stack. -/
  | listing (text : Text)
  /-- It asks whether to go on. -/
  | question (text : Text)
  deriving Repr, DecidableEq

namespace Remark

/-- The listing that is shown. -/
def listing? : Remark → Option Text
  | .listing text => some text
  | .question _ => none

/-- The question that is asked. -/
def question? : Remark → Option Text
  | .listing _ => none
  | .question text => some text

end Remark

/-- What an event says for the debugger. -/
def Event.remark? : Event → Option Remark
  | .listed text => some (.listing text)
  | .asked question _ => some (.question question)
  | .printed _ => none
  | .written _ => none

/-- Events that are no remarks are none however many there are. -/
theorem Event.filterMap_remark?_map
    {toEvent : Text → Event}
    (silent : ∀ text, (toEvent text).remark? = none)
    (texts : List Text) :
    (texts.map toEvent).filterMap Event.remark? = [] := by
  refine List.filterMap_eq_nil_iff.mpr fun event member => ?_
  obtain ⟨text, _, rfl⟩ := List.mem_map.mp member
  exact silent text

/-- Whether a machine has failed. -/
def Status.isFaulted : Status → Bool
  | .faulted _ => true
  | _ => false

namespace Machine

/-- A run of a machine begins with a listing: it is verbose and has not failed. -/
def ShownByRun (machine : Machine) : Prop :=
  machine.annotations.verbose = true ∧ machine.status.isFaulted = false

/--
A step of a machine begins with a question: it is verbose and runs, and a breakpoint
is at its pointer and an instruction too.
-/
def QuestionedByStep (machine : Machine) : Prop :=
  machine.annotations.verbose = true ∧
    machine.status = .running ∧
    (machine.pointer : Int) ∈ machine.annotations.breakpoints ∧
    machine.pointer < machine.program.size

instance (machine : Machine) : Decidable machine.ShownByRun :=
  inferInstanceAs (Decidable (_ ∧ _))

instance (machine : Machine) : Decidable machine.QuestionedByStep :=
  inferInstanceAs (Decidable (_ ∧ _ ∧ _ ∧ _))

/-- A machine that runs stops at a breakpoint where a step of it asks. -/
theorem stopsAtBreakpoint_iff
    {machine : Machine}
    (running : machine.status = .running) :
    machine.stopsAtBreakpoint = true ↔ machine.QuestionedByStep := by
  have within_iff :
      machine.instruction?.isSome = true ↔
        machine.pointer < machine.program.size := by
    simp [instruction?]
  simp only [stopsAtBreakpoint, QuestionedByStep, Bool.and_eq_true,
    Annotations.breaksAt, decide_eq_true_eq, within_iff, running, true_and,
    and_assoc]
  exact and_congr_right fun _ => and_comm

end Machine

/-- An occasion for a debugger to speak, and the machine as it stands. -/
inductive Moment where
  /-- A run is about to begin. -/
  | beforeRun (machine : Machine)
  /-- A step is about to begin. -/
  | beforeStep (machine : Machine)
  deriving DecidableEq

namespace Moment

/-- The machine as it stands: its pointer in the program, and all of its stack. -/
def pictureOf (machine : Machine) : Text :=
  Listing.state machine.program machine.annotations (some machine.pointer)
    machine.stack.reverse machine.width

/-- What is shown. -/
def listing? : Moment → Option Text
  | .beforeRun machine =>
      if machine.ShownByRun then some (pictureOf machine) else none
  | .beforeStep machine =>
      if machine.QuestionedByStep then some (pictureOf machine) else none

/-- What is asked. -/
def question? : Moment → Option Text
  | .beforeRun _ => none
  | .beforeStep machine =>
      if machine.QuestionedByStep then
        some
          (Text.concat
            ["breakpoint at ", addressText machine.pointer, ", continue?"])
      else
        none

/-- What is said: a question comes after what is shown. -/
def remarks (moment : Moment) : List Remark :=
  (moment.listing?.map .listing).toList ++
    (moment.question?.map .question).toList

section Machine

variable {machine : Machine}

/-- A run that shows its machine begins with a listing. -/
theorem remarks_beforeRun (shown : machine.ShownByRun) :
    (beforeRun machine).remarks = [.listing machine.stateText] := by
  simp only [remarks, listing?, question?, if_pos shown]
  rfl

/-- Any other run begins with nothing. -/
theorem remarks_beforeRun_of_unshown (unshown : ¬machine.ShownByRun) :
    (beforeRun machine).remarks = [] := by
  simp only [remarks, listing?, question?, if_neg unshown]
  rfl

/-- A step that is asked about begins with a listing and a question. -/
theorem remarks_beforeStep (questioned : machine.QuestionedByStep) :
    (beforeStep machine).remarks =
      [.listing machine.stateText,
        .question (Machine.questionText machine.pointer)] := by
  simp only [remarks, listing?, question?, if_pos questioned]
  rfl

/-- Any other step begins with nothing. -/
theorem remarks_beforeStep_of_unquestioned
    (unquestioned : ¬machine.QuestionedByStep) :
    (beforeStep machine).remarks = [] := by
  simp only [remarks, listing?, question?, if_neg unquestioned]
  rfl

end Machine

/-- There is one listing at most before anything that is done. -/
theorem filterMap_listing?_remarks (moment : Moment) :
    moment.remarks.filterMap Remark.listing? = moment.listing?.toList := by
  cases listing : moment.listing? <;> cases question : moment.question? <;>
    simp [remarks, listing, question, Remark.listing?, List.filterMap_cons]

/-- There is one question at most before anything that is done. -/
theorem filterMap_question?_remarks (moment : Moment) :
    moment.remarks.filterMap Remark.question? = moment.question?.toList := by
  cases listing : moment.listing? <;> cases question : moment.question? <;>
    simp [remarks, listing, question, Remark.question?, List.filterMap_cons]

end Moment

namespace Session

variable {σ : Type}

/-- What the debugger has said in a session. -/
def remarks (session : Session σ) : List Remark :=
  session.log.toList.filterMap Event.remark?

/-- The questions that have been asked in a session. -/
def questions (session : Session σ) : List Text :=
  session.remarks.filterMap Remark.question?

/-- What has been shown in a session, listing after listing. -/
def listings (session : Session σ) : List Text :=
  session.remarks.filterMap Remark.listing?

section Reports

variable (session : Session σ)

/-- Of what is reported, the remarks come after those that were there. -/
theorem remarks_report (events : List Event) :
    (session.report events).remarks =
      session.remarks ++ events.filterMap Event.remark? := by
  simp only [remarks, report, Array.toList_appendList, List.filterMap_append]

/-- What a program prints is no remark of the debugger. -/
theorem remarks_executeNext :
    session.executeNext.remarks = session.remarks := by
  refine (remarks_report _ _).trans ?_
  rw [Event.filterMap_remark?_map fun _ => rfl, List.append_nil]
  rfl

variable [Respondent σ]

/-- A question is seen after a listing and what is written until it is answered. -/
theorem toList_log_ask :
    session.ask.2.log.toList =
      (session.log.toList ++
          .listed session.machine.stateText ::
            session.reply.written.map Event.written) ++
        [.asked (Machine.questionText session.machine.pointer)
          session.reply.proceed] := by
  have asked :
      session.ask.2.log.toList =
        session.list.log.toList ++
          (session.reply.written.map Event.written ++
            [.asked (Machine.questionText session.machine.pointer)
              session.reply.proceed]) :=
    Array.toList_appendList
  have listed :
      session.list.log.toList =
        session.log.toList ++ [.listed session.machine.stateText] :=
    Array.toList_appendList
  rw [asked, listed]
  simp only [List.append_assoc, List.cons_append, List.nil_append]

/-- What a respondent writes while it is asked is no remark of the debugger. -/
theorem remarks_ask :
    session.ask.2.remarks =
      session.remarks ++
        [.listing session.machine.stateText,
          .question (Machine.questionText session.machine.pointer)] := by
  have silent :
      (session.reply.written.map Event.written).filterMap Event.remark? = [] :=
    Event.filterMap_remark?_map (fun _ => rfl) _
  rw [remarks, toList_log_ask]
  simp [List.filterMap_append, Event.remark?, silent, remarks]

/-- A step begins with what is to be said before it. -/
theorem remarks_step :
    session.step.2.remarks =
      session.remarks ++ (Moment.beforeStep session.machine).remarks := by
  by_cases running : session.machine.status = .running
  · have asks_iff := Machine.stopsAtBreakpoint_iff running
    rw [step_of_running _ running]
    rcases session.advance_cases with
      ⟨passes, form⟩ | ⟨stops, _, form⟩ | ⟨stops, _, form⟩
    · have unquestioned : ¬session.machine.QuestionedByStep :=
        fun questioned => by
          rw [asks_iff.mpr questioned] at passes
          cases passes
      rw [form, remarks_executeNext,
        Moment.remarks_beforeStep_of_unquestioned unquestioned, List.append_nil]
    · rw [form, remarks_executeNext, remarks_ask,
        Moment.remarks_beforeStep (asks_iff.mp stops)]
    · rw [form, Moment.remarks_beforeStep (asks_iff.mp stops)]
      exact remarks_ask session
  · have unquestioned : ¬session.machine.QuestionedByStep := fun questioned =>
      running questioned.2.1
    rw [step_of_stopped _ running,
      Moment.remarks_beforeStep_of_unquestioned unquestioned, List.append_nil]

end Reports

section History

variable [Respondent σ]

/-- The occasions to speak in one thing that is done with a session, in order. -/
def moments (session : Session σ) : Action → List Moment
  | .step => [.beforeStep session.machine]
  | .run count =>
      .beforeRun session.machine ::
        (List.range count).map fun index =>
          .beforeStep (stepped index session).machine
  | .setOperand _ _ => []
  | .addBreakpoint _ => []
  | .addLabel _ _ => []
  | .setVerbose _ => []

/-- The occasions to speak in all that is done with a session, in order. -/
def history (session : Session σ) : List Action → List Moment
  | [] => []
  | action :: later =>
      session.moments action ++ (session.perform action).history later

variable (session : Session σ)

/-- A number of steps say what is to be said before each of them. -/
theorem remarks_stepped (count : Nat) :
    (stepped count session).remarks =
      session.remarks ++
        (List.range count).flatMap fun index =>
          (Moment.beforeStep (stepped index session).machine).remarks := by
  induction count with
  | zero => simp [stepped]
  | succ count inductionHypothesis =>
      simp [stepped, remarks_step, inductionHypothesis, List.range_succ,
        List.flatMap_append]

/-- A machine that has failed says nothing any more. -/
theorem remarks_moments_of_faulted
    {fault : Fault}
    (failed : session.machine.status = .faulted fault)
    (count : Nat) :
    (session.moments (.run count)).flatMap Moment.remarks = [] := by
  have stays := stepped_of_faulted failed
  have unshown : ¬session.machine.ShownByRun := fun shown => by
    have unfailed := shown.2
    rw [failed] at unfailed
    cases unfailed
  have unquestioned : ¬session.machine.QuestionedByStep := fun questioned => by
    cases questioned.2.1.symm.trans failed
  simp [moments, stays, Moment.remarks_beforeRun_of_unshown unshown,
    Moment.remarks_beforeStep_of_unquestioned unquestioned]

omit [Respondent σ] in
/-- A run begins with what is to be said before it. -/
theorem remarks_shown
    (unfailed : ∀ fault, session.machine.status ≠ .faulted fault) :
    session.shown.remarks =
      session.remarks ++ (Moment.beforeRun session.machine).remarks := by
  have working : session.machine.status.isFaulted = false := by
    cases status : session.machine.status with
    | running => rfl
    | halted code => rfl
    | faulted fault => exact absurd status (unfailed fault)
  unfold shown
  cases verbose : session.machine.annotations.verbose with
  | true =>
      rw [Moment.remarks_beforeRun ⟨verbose, working⟩]
      exact remarks_report session _
  | false =>
      have unshown : ¬session.machine.ShownByRun := fun shown => by
        cases verbose.symm.trans shown.1
      rw [Moment.remarks_beforeRun_of_unshown unshown, List.append_nil]
      rfl

/-- What is done with a session adds what is to be said on its occasions. -/
theorem remarks_perform (action : Action) :
    (session.perform action).remarks =
      session.remarks ++ (session.moments action).flatMap Moment.remarks := by
  cases action with
  | step =>
      rw [perform, remarks_step]
      simp [moments]
  | run count =>
      by_cases failed : ∃ fault, session.machine.status = .faulted fault
      · obtain ⟨fault, failed⟩ := failed
        rw [perform, duringRun_of_faulted failed,
          remarks_moments_of_faulted session failed, List.append_nil]
      · have unfailed := not_exists.mp failed
        have sameMachine (index : Nat) :
            (stepped index session.shown).machine =
              (stepped index session).machine :=
          (endsAfter_shown unfailed index).machine
        rw [perform, duringRun_of_unfailed unfailed, remarks_stepped,
          remarks_shown session unfailed]
        simp [moments, sameMachine, List.flatMap_map]
  | setOperand address operand => exact (List.append_nil _).symm
  | addBreakpoint address => exact (List.append_nil _).symm
  | addLabel address name => exact (List.append_nil _).symm
  | setVerbose verbose => exact (List.append_nil _).symm

/-- All that the debugger has said is what its history has moments for. -/
theorem remarks_performAll (actions : List Action) :
    (session.performAll actions).remarks =
      session.remarks ++ (session.history actions).flatMap Moment.remarks := by
  induction actions generalizing session with
  | nil => exact (List.append_nil _).symm
  | cons action later inductionHypothesis =>
      have first := remarks_perform session action
      have rest := inductionHypothesis (session.perform action)
      simp only [performAll, List.foldl_cons] at rest ⊢
      rw [rest, first, history, List.flatMap_append, List.append_assoc]

end History

/--
A session that ends with giving up: the machine has failed, and the last that has been
seen is the one answer that was to give up.
-/
structure EndsInRefusal (session : Session σ) : Prop where
  failed : ∃ fault, session.machine.status = .faulted fault
  last :
    ∃ earlier question,
      session.log.toList = earlier ++ [.asked question false] ∧
        ∀ event ∈ earlier, event.isRefusal = false

section Refusals

variable [Respondent σ] {session : Session σ}

/-- A step that gives up is the end of its session. -/
theorem endsInRefusal_of_step
    (unrefused : ¬session.Refused)
    (refused : session.step.2.Refused) :
    session.step.2.EndsInRefusal := by
  obtain ⟨instruction, _, _, running, failed, _⟩ :=
    step_of_refusal unrefused refused
  refine ⟨⟨_, congrArg Machine.status failed⟩, ?_⟩
  rw [step_of_running _ running] at refused ⊢
  rcases session.advance_cases with
    ⟨_, form⟩ | ⟨_, proceeds, form⟩ | ⟨_, refusal, form⟩
  · rw [form, refused_executeNext] at refused
    exact absurd refused unrefused
  · rw [form, refused_executeNext, refused_ask, proceeds] at refused
    exact absurd (refused.resolve_right Bool.noConfusion) unrefused
  · have proceed : session.reply.proceed = false := refusal
    refine
      ⟨session.log.toList ++
          .listed session.machine.stateText ::
            session.reply.written.map Event.written,
        Machine.questionText session.machine.pointer, ?_, ?_⟩
    · rw [form, ← proceed]
      exact toList_log_ask session
    · intro event member
      rcases List.mem_append.mp member with before | later
      · exact Bool.eq_false_iff.mpr fun isRefusal =>
          unrefused ⟨event, before, isRefusal⟩
      · rcases List.mem_cons.mp later with rfl | written
        · rfl
        · obtain ⟨text, _, rfl⟩ := List.mem_map.mp written
          rfl

omit [Respondent σ] in
/-- A listing is no answer. -/
theorem refused_shown : session.shown.Refused ↔ session.Refused := by
  unfold shown
  split
  · rw [list, refused_report]
    simp [Event.isRefusal]
  · rfl

variable (ends : session.Refused → session.EndsInRefusal)
include ends

/-- A refusal in a step is the last thing that is seen of it. -/
theorem endsInRefusal_step
    (refused : session.step.2.Refused) :
    session.step.2.EndsInRefusal := by
  by_cases already : session.Refused
  · obtain ⟨⟨fault, failed⟩, _⟩ := ends already
    rw [step_of_stopped _ (Status.ne_running_of_faulted failed)]
    exact ends already
  · exact endsInRefusal_of_step already refused

/-- No step comes after a refusal. -/
theorem endsInRefusal_stepped
    {count : Nat}
    (refused : (stepped count session).Refused) :
    (stepped count session).EndsInRefusal := by
  induction count with
  | zero => exact ends refused
  | succ count inductionHypothesis =>
      exact endsInRefusal_step inductionHypothesis refused

/-- Nothing that is done with a session goes on after giving up. -/
theorem endsInRefusal_perform
    (action : Action)
    (refused : (session.perform action).Refused) :
    (session.perform action).EndsInRefusal := by
  cases action with
  | step => exact endsInRefusal_step ends refused
  | run count =>
      rw [perform] at refused ⊢
      by_cases failed : ∃ fault, session.machine.status = .faulted fault
      · obtain ⟨fault, failed⟩ := failed
        rw [duringRun_of_faulted failed] at refused ⊢
        exact ends refused
      · have unfailed := not_exists.mp failed
        have unrefused : ¬session.shown.Refused := by
          rw [refused_shown]
          exact fun refused => failed (ends refused).failed
        rw [duringRun_of_unfailed unfailed] at refused ⊢
        exact
          endsInRefusal_stepped (fun shown => absurd shown unrefused) refused
  | setOperand address operand =>
      exact { failed := (ends refused).failed, last := (ends refused).last }
  | addBreakpoint address =>
      exact { failed := (ends refused).failed, last := (ends refused).last }
  | addLabel address name =>
      exact { failed := (ends refused).failed, last := (ends refused).last }
  | setVerbose verbose =>
      exact { failed := (ends refused).failed, last := (ends refused).last }

/-- Whatever else is done, nothing is seen after a refusal. -/
theorem endsInRefusal_performAll
    {actions : List Action}
    (refused : (session.performAll actions).Refused) :
    (session.performAll actions).EndsInRefusal := by
  induction actions generalizing session with
  | nil => exact ends refused
  | cons action later inductionHypothesis =>
      exact inductionHypothesis (endsInRefusal_perform ends action) refused

end Refusals

/-- Nothing is seen of a session after an answer that is to give up. -/
theorem EndsInRefusal.later_eq_nil
    {session : Session σ}
    (ends : session.EndsInRefusal)
    {before later : List Event}
    {question : Text}
    (log : session.log.toList = before ++ .asked question false :: later) :
    later = [] := by
  obtain ⟨earlier, lastQuestion, ending, unrefused⟩ := ends.last
  rw [ending] at log
  rcases List.eq_nil_or_concat later with isEmpty | ⟨between, last, rfl⟩
  · exact isEmpty
  · have shape :
        earlier ++ [.asked lastQuestion false] =
          (before ++ .asked question false :: between) ++ [last] := by
      rw [log, List.append_assoc, List.concat_eq_append]
      rfl
    obtain ⟨same, _⟩ := List.append_inj' shape rfl
    have among : Event.asked question false ∈ earlier := by
      rw [same]
      exact List.mem_append_right _ List.mem_cons_self
    cases unrefused _ among

/-- A step, a run that is given up at a breakpoint, and what is tried after that. -/
def givingUp : List Action :=
  [.step, .run 2, .run 3, .step]

end Session

end StackCode
