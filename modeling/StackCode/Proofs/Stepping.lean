import StackCode.Machine.Session

namespace StackCode

/-!
# Stepping a session

What a session's log says of it, what a single step does to machine and log, and
the session after any number of steps. A step of a running machine has three
forms: the next instruction is executed unasked, executed after a question that
was answered with going on, or given up after one that was not.
`Session.advance_cases` is the only place where a step is taken apart; what
holds along a run follows from it.
-/

namespace Event

/-- The text that an event prints for the program. -/
def printed? : Event → Option Text
  | .printed text => some text
  | _ => none

/-- Whether an event is a question that was answered with giving up. -/
def isRefusal : Event → Bool
  | .asked _ proceed => !proceed
  | _ => false

end Event

namespace Machine

/-- A machine that goes on at an address, with a given stack. -/
def movedTo (address : Nat) (stack : Stack) (machine : Machine) : Machine :=
  { machine with pointer := address, stack := stack }

@[simp] theorem pointer_movedTo
    (address : Nat)
    (stack : Stack)
    (machine : Machine) :
    (machine.movedTo address stack).pointer = address :=
  rfl

@[simp] theorem stack_movedTo
    (address : Nat)
    (stack : Stack)
    (machine : Machine) :
    (machine.movedTo address stack).stack = stack :=
  rfl

/--
A machine whose instruction goes on is left where that goes on, with what it leaves.
-/
theorem executeNext_of_proceed
    {machine : Machine}
    {instruction : Instruction}
    {stack : Stack}
    {printed : List Text}
    {address : Nat}
    (found : machine.instruction? = some instruction)
    (effect :
      instruction.execute machine.pointer machine.stack =
        { stack := stack, printed := printed, outcome := .proceed address }) :
    machine.executeNext = (machine.movedTo address stack, printed) := by
  rw [executeNext, found]
  simp only [effect]
  rfl

end Machine

namespace Session

variable {σ : Type}

/-- What the program of a session has printed, text by text. -/
def output (session : Session σ) : List Text :=
  session.log.toList.filterMap Event.printed?

/-- Whether some question of a session has been answered with giving up. -/
def Refused (session : Session σ) : Prop :=
  ∃ event ∈ session.log.toList, event.isRefusal = true

/-- A session of a machine that nothing has been seen of. -/
def ofMachine (machine : Machine) (respondent : σ) : Session σ where
  machine := machine
  respondent := respondent

section Reports

variable (session : Session σ)

/-- Of what is reported, the output of the program is what it prints. -/
@[simp] theorem output_report (events : List Event) :
    (session.report events).output =
      session.output ++ events.filterMap Event.printed? := by
  simp only [output, report, Array.toList_appendList, List.filterMap_append]

/-- A report is a refusal only if one of its events is. -/
theorem refused_report (events : List Event) :
    (session.report events).Refused ↔
      session.Refused ∨ ∃ event ∈ events, event.isRefusal = true := by
  simp only [Refused, report, Array.toList_appendList, List.mem_append,
    or_and_right, exists_or]

/-- What a program prints is output of it. -/
theorem output_report_printed (texts : List Text) :
    (session.report (texts.map .printed)).output = session.output ++ texts := by
  rw [output_report, List.filterMap_map]
  exact congrArg (session.output ++ ·) List.filterMap_some

/-- A listing is no output of the program. -/
theorem output_list : session.list.output = session.output := by
  rw [list, output_report]
  exact List.append_nil _

@[simp] theorem machine_executeNext :
    session.executeNext.machine = session.machine.executeNext.1 :=
  rfl

/-- Executing an instruction adds what it prints, and no question. -/
@[simp] theorem output_executeNext :
    session.executeNext.output =
      session.output ++ session.machine.executeNext.2 :=
  output_report_printed _ _

/-- An instruction that is executed is no refusal. -/
@[simp] theorem refused_executeNext :
    session.executeNext.Refused ↔ session.Refused := by
  refine (refused_report _ _).trans ⟨?_, Or.inl⟩
  rintro (before | ⟨event, member, isRefusal⟩)
  · exact before
  · obtain ⟨text, _, rfl⟩ := List.mem_map.mp member
    cases isRefusal

/-- A session that goes on at an address after its program has printed. -/
def movedTo
    (address : Nat)
    (stack : Stack)
    (printed : List Text)
    (session : Session σ) :
    Session σ :=
  { session with machine := session.machine.movedTo address stack }.report
    (printed.map .printed)

@[simp] theorem machine_movedTo
    (address : Nat)
    (stack : Stack)
    (printed : List Text) :
    (session.movedTo address stack printed).machine =
      session.machine.movedTo address stack :=
  rfl

/-- A session that is moved nowhere, and prints nothing, stays as it is. -/
theorem movedTo_self :
    session.movedTo session.machine.pointer session.machine.stack [] =
      session := by
  simp [movedTo, Machine.movedTo, report]

/-- Going on twice is going on at the last address, with all that was printed. -/
theorem movedTo_movedTo
    (address other : Nat)
    (stack rest : Stack)
    (printed more : List Text) :
    (session.movedTo address stack printed).movedTo other rest more =
      session.movedTo other rest (printed ++ more) := by
  have log :
      session.log ++ printed.map Event.printed ++ more.map Event.printed =
        session.log ++ (printed ++ more).map Event.printed := by
    apply Array.toList_inj.mp
    simp
  simp only [movedTo, Machine.movedTo, report, log]

/-- A session that moves on prints its texts after all others. -/
theorem output_movedTo
    (address : Nat)
    (stack : Stack)
    (printed : List Text) :
    (session.movedTo address stack printed).output =
      session.output ++ printed :=
  output_report_printed _ _

end Reports

section Questions

variable [Respondent σ] (session : Session σ)

/-- A question has no effect on the machine. -/
@[simp] theorem machine_ask : session.ask.2.machine = session.machine :=
  rfl

/-- Nothing that happens while a question is asked is output of the program. -/
@[simp] theorem output_ask : session.ask.2.output = session.output := by
  refine (output_report _ _).trans ?_
  have nothing (texts : List Text) (question : Event)
      (prints : question.printed? = none) :
      (texts.map Event.written ++ [question]).filterMap Event.printed? =
        [] := by
    rw [List.filterMap_append, List.filterMap_map, List.filterMap_cons, prints,
      List.filterMap_nil, List.append_nil]
    exact List.filterMap_eq_nil_iff.mpr fun _ _ => rfl
  rw [nothing _ _ rfl, List.append_nil]
  exact output_list session

/-- A question leaves a refusal in the log exactly where its answer is one. -/
theorem refused_ask :
    session.ask.2.Refused ↔ session.Refused ∨ session.ask.1 = false := by
  have listed : session.list.Refused ↔ session.Refused := by
    rw [list, refused_report]
    simp [Event.isRefusal]
  refine (refused_report _ _).trans (or_congr listed ?_)
  simp [Event.isRefusal, ask]

/-- The three forms of a step. -/
theorem advance_cases :
    (session.machine.stopsAtBreakpoint = false ∧
        session.advance = session.executeNext) ∨
      (session.machine.stopsAtBreakpoint = true ∧
        session.ask.1 = true ∧
        session.advance = session.ask.2.executeNext) ∨
      (session.machine.stopsAtBreakpoint = true ∧
        session.ask.1 = false ∧
        session.advance = session.ask.2.abort) := by
  unfold advance
  cases stops : session.machine.stopsAtBreakpoint with
  | false => exact Or.inl ⟨rfl, by simp⟩
  | true =>
      cases asked : session.ask with
      | mk proceed after =>
          cases proceed with
          | true => exact Or.inr (Or.inl ⟨rfl, rfl, by simp⟩)
          | false => exact Or.inr (Or.inr ⟨rfl, rfl, by simp⟩)

/-- Where no question is due, the next instruction is executed. -/
theorem advance_of_unasked
    (unasked : session.machine.stopsAtBreakpoint = false) :
    session.advance = session.executeNext := by
  rw [advance, if_neg (Bool.eq_false_iff.mp unasked)]

/-- A step of a machine that runs advances it and reports its new status. -/
theorem step_of_running (running : session.machine.status = .running) :
    session.step =
      (session.advance.machine.status.stepResult, session.advance) := by
  rw [step, if_pos running]

/-- A step of a machine that has stopped does nothing. -/
theorem step_of_stopped (stopped : session.machine.status ≠ .running) :
    session.step = (.ok false, session) := by
  rw [step, if_neg stopped]

/-- A step that is not asked about moves the session as its instruction says. -/
theorem step_of_proceed
    {instruction : Instruction}
    {stack : Stack}
    {printed : List Text}
    {address : Nat}
    (running : session.machine.status = .running)
    (unasked : session.machine.stopsAtBreakpoint = false)
    (found : session.machine.instruction? = some instruction)
    (effect :
      instruction.execute session.machine.pointer session.machine.stack =
        { stack := stack, printed := printed, outcome := .proceed address }) :
    session.step = (.ok true, session.movedTo address stack printed) := by
  have executed := Machine.executeNext_of_proceed found effect
  have advanced : session.advance = session.movedTo address stack printed := by
    rw [session.advance_of_unasked unasked, executeNext, executed]
    rfl
  rw [step_of_running _ running, advanced]
  have stillRunning :
      (session.movedTo address stack printed).machine.status = .running :=
    running
  rw [stillRunning]
  rfl

/-- The session after a number of steps, whatever they report. -/
def stepped : Nat → Session σ → Session σ
  | 0, session => session
  | count + 1, session => (stepped count session).step.2

/--
What each of a number of steps reports: whether the machine runs, or its fault.
-/
def reports : Nat → Session σ → List (Except Fault Bool)
  | 0, _ => []
  | count + 1, session =>
      reports count session ++ [(stepped count session).step.1]

/-- A machine that has stopped stays as it is. -/
theorem stepped_of_stopped
    {count : Nat}
    (stopped : (stepped count session).machine.status ≠ .running)
    (later : Nat) :
    stepped (count + later) session = stepped count session := by
  induction later with
  | zero => rfl
  | succ later inductionHypothesis =>
      rw [← Nat.add_assoc, stepped, inductionHypothesis,
        step_of_stopped _ stopped]

end Questions

end Session

end StackCode
