import Mathlib.Data.List.Basic
import StackCode.Proofs.Failures
import StackCode.Proofs.Transparency

namespace StackCode

/-!
# What lies below the values an instruction takes

`Instruction.Takes` lists the values that instructions take from the top of the
stack, said without executing them: as many as an operation's arity, an exit code, or
the values of a string with the one that ends it. What lies below is carried along as
it is. So a run that never wants for values, and never ends with an exit code that is
not there, does the same whatever lies below its stack.
-/

/-- What an instruction leaves behind where values lie below. -/
def Effect.upon (below : Stack) (effect : Effect) : Effect :=
  { effect with stack := effect.stack ++ below }

/-- A machine with values below those of its stack. -/
def Machine.upon (below : Stack) (machine : Machine) : Machine :=
  { machine with stack := machine.stack ++ below }

/-- A session of a machine with values below those of its stack. -/
def Session.upon {σ : Type} (below : Stack) (session : Session σ) : Session σ :=
  { session with machine := session.machine.upon below }

/-- The values that an instruction takes from the top of the stack. -/
inductive Instruction.Takes : Instruction → Stack → Prop where
  /-- A push takes none. -/
  | none {operand : Word} : Takes (.push operand) []
  /-- An operation takes as many as its arity. -/
  | several
      {operation : Operation}
      {taken : Stack}
      (notExit : operation ≠ .exit)
      (notString : operation ≠ .printString)
      (all : taken.length = operation.arity) :
      Takes (.operate operation) taken
  /-- An exit takes its code. -/
  | code {code : Word} : Takes (.operate .exit) [code]
  /-- A string is taken up to a zero, or to what is no code point. -/
  | string
      {before : Stack}
      {last : Word}
      (unterminated : before.Unterminated)
      (ends : last = 0 ∨ ¬last.IsCodePoint) :
      Takes (.operate .printString) (before ++ [last])

namespace Effect

/-- What lies below an effect can be put there part by part. -/
theorem upon_append (effect : Effect) (stack below : Stack) :
    effect.upon (stack ++ below) = (effect.upon stack).upon below := by
  simp only [upon, List.append_assoc]

/-- A jump does not see what lies below its values. -/
theorem jump_append (target : Word) (stack below : Stack) :
    jump target (stack ++ below) = (jump target stack).upon below := by
  unfold jump
  cases Word.target? target <;> rfl

/-- Printing a string looks at nothing below the value that ends it. -/
theorem printString_upon
    {before : Stack}
    {last : Word}
    (unterminated : before.Unterminated)
    (ends : last = 0 ∨ ¬last.IsCodePoint)
    (next : Nat)
    (below : Stack) :
    printString next (before ++ last :: below) =
      (printString next (before ++ [last])).upon below := by
  induction before with
  | nil =>
      rcases ends with rfl | noCodePoint
      · rfl
      · rw [List.nil_append, List.nil_append,
          printString_of_noCodePoint noCodePoint,
          printString_of_noCodePoint noCodePoint]
        rfl
  | cons value others inductionHypothesis =>
      obtain ⟨nonzero, isCodePoint⟩ := unterminated value List.mem_cons_self
      obtain ⟨point, found⟩ := isCodePoint.exists_codePoint?
      have rest := inductionHypothesis fun other member =>
        unterminated other (List.mem_cons_of_mem _ member)
      simp only [List.cons_append, printString, if_neg nonzero, found, rest]
      rfl

end Effect

/-- An operation of a fixed arity looks at nothing below its values. -/
theorem Operation.execute_upon
    {operation : Operation}
    {taken : Stack}
    (notExit : operation ≠ .exit)
    (notString : operation ≠ .printString)
    (all : taken.length = operation.arity)
    (address : Nat)
    (below : Stack) :
    operation.execute address (taken ++ below) =
      (operation.execute address taken).upon below := by
  cases operation with
  | pop | duplicate | printNumber =>
      obtain ⟨value, rfl⟩ := List.length_eq_one_iff.mp all
      rfl
  | jump =>
      obtain ⟨target, rfl⟩ := List.length_eq_one_iff.mp all
      exact Effect.jump_append target [] below
  | call =>
      obtain ⟨target, rfl⟩ := List.length_eq_one_iff.mp all
      exact Effect.jump_append target [Word.wrap (address + 1 : Nat)] below
  | swap | add | subtract | multiply =>
      obtain ⟨top, second, rfl⟩ := List.length_eq_two.mp all
      rfl
  | jumpIfZero | jumpIfNonzero =>
      obtain ⟨target, condition, rfl⟩ := List.length_eq_two.mp all
      simp only [List.cons_append, List.nil_append, execute]
      split
      · exact Effect.jump_append target [] below
      · rfl
  | divide =>
      obtain ⟨top, second, rfl⟩ := List.length_eq_two.mp all
      simp only [List.cons_append, List.nil_append, execute]
      split <;> rfl
  | exit => exact absurd rfl notExit
  | printString => exact absurd rfl notString

namespace Instruction

variable {instruction : Instruction} {taken : Stack}

/-- Nothing is read, moved or changed below the values that an instruction takes. -/
theorem Takes.execute_upon
    (takes : instruction.Takes taken)
    (address : Nat)
    (below : Stack) :
    instruction.execute address (taken ++ below) =
      (instruction.execute address taken).upon below := by
  cases takes with
  | none => rfl
  | several notExit notString all =>
      exact Operation.execute_upon notExit notString all address below
  | code => rfl
  | string unterminated ends =>
      rw [List.append_assoc]
      exact Effect.printString_upon unterminated ends (address + 1) below

/-- Whether an instruction lacks values on a stack, or a code to exit with. -/
def LacksOn (instruction : Instruction) (stack : Stack) : Prop :=
  ∃ operation,
    instruction = .operate operation ∧
      (operation.Lacks stack ∨ operation = .exit ∧ stack = [])

/-- The values that an instruction takes are all needed. -/
theorem Takes.lacksOn_take
    (takes : instruction.Takes taken)
    {fewer : Nat}
    (isLess : fewer < taken.length) :
    instruction.LacksOn (taken.take fewer) := by
  cases takes with
  | none => exact absurd isLess (Nat.not_lt_zero _)
  | @several operation _ _ _ all =>
      refine ⟨operation, rfl, Or.inl (Or.inl ?_)⟩
      rw [List.length_take, ← all]
      omega
  | code =>
      obtain rfl : fewer = 0 := Nat.lt_one_iff.mp isLess
      exact ⟨.exit, rfl, Or.inr ⟨rfl, rfl⟩⟩
  | @string before last unterminated ends =>
      refine ⟨.printString, rfl, Or.inl (Or.inr ⟨rfl, ?_⟩)⟩
      rw [List.length_append, List.length_singleton] at isLess
      rw [List.take_append_of_le_length (Nat.le_of_lt_succ isLess)]
      exact fun value member => unterminated value (List.mem_of_mem_take member)

/-- An instruction finds the values that it takes, or lacks some. -/
theorem takes_or_lacksOn (instruction : Instruction) (stack : Stack) :
    (∃ taken left, stack = taken ++ left ∧ instruction.Takes taken) ∨
      instruction.LacksOn stack := by
  cases instruction with
  | push operand => exact Or.inl ⟨[], stack, rfl, .none⟩
  | operate operation =>
      by_cases isExit : operation = .exit
      · subst isExit
        cases stack with
        | nil => exact Or.inr ⟨.exit, rfl, Or.inr ⟨rfl, rfl⟩⟩
        | cons code left => exact Or.inl ⟨[code], left, rfl, .code⟩
      by_cases isString : operation = .printString
      · subst isString
        rcases Effect.exists_unterminated stack with
          all | ⟨before, last, left, rfl, unterminated, ends⟩
        · exact Or.inr ⟨.printString, rfl, Or.inl (Or.inr ⟨rfl, all⟩)⟩
        · refine Or.inl ⟨before ++ [last], left, ?_, .string unterminated ends⟩
          rw [List.append_assoc]
          rfl
      by_cases few : stack.length < operation.arity
      · exact Or.inr ⟨operation, rfl, Or.inl (Or.inl few)⟩
      · have enough := List.length_take_of_le (Nat.le_of_not_lt few)
        exact Or.inl
          ⟨stack.take operation.arity, stack.drop operation.arity,
            (List.take_append_drop _ _).symm,
            .several isExit isString enough⟩

end Instruction

namespace Machine

variable {machine : Machine} {instruction : Instruction} {taken left : Stack}

/-- An effect is applied upon what lies below as it would be without it. -/
theorem apply_upon
    (opcode : Opcode)
    (effect : Effect)
    (below : Stack)
    (machine : Machine) :
    (machine.upon below).apply opcode (effect.upon below) =
      (machine.apply opcode effect).upon below := by
  obtain ⟨stack, printed, outcome⟩ := effect
  cases outcome <;> rfl

/-- An instruction that finds its values does not see what lies below them. -/
theorem executeNext_upon_of_takes
    (found : machine.instruction? = some instruction)
    (split : machine.stack = taken ++ left)
    (takes : instruction.Takes taken)
    (below : Stack) :
    (machine.upon below).executeNext =
      (machine.executeNext.1.upon below, machine.executeNext.2) := by
  have foundBelow : (machine.upon below).instruction? = some instruction := found
  have effect :
      instruction.execute (machine.upon below).pointer
          (machine.upon below).stack =
        (instruction.execute machine.pointer machine.stack).upon below := by
    change instruction.execute machine.pointer (machine.stack ++ below) = _
    rw [split, List.append_assoc, takes.execute_upon, takes.execute_upon,
      Effect.upon_append]
  simp only [executeNext, foundBelow, found, effect, apply_upon]
  rfl

/-- Whether an instruction that exits is next, and there is no code to exit with. -/
def ExitsOnEmpty (machine : Machine) : Prop :=
  machine.status = .running ∧
    machine.instruction? = some (.operate .exit) ∧
    machine.stack = []

/-- An instruction that finds its values does the same whatever lies below. -/
theorem executeNext_upon
    (running : machine.status = .running)
    (enough :
      ∀ fault,
        machine.executeNext.1.status = .faulted fault →
        fault.cause.kind ≠ .notEnoughValues)
    (hasCode : ¬machine.ExitsOnEmpty)
    (below : Stack) :
    (machine.upon below).executeNext =
      (machine.executeNext.1.upon below, machine.executeNext.2) := by
  cases found : machine.instruction? with
  | none =>
      have foundBelow : (machine.upon below).instruction? = none := found
      rw [executeNext, executeNext, found, foundBelow]
      rfl
  | some instruction =>
      rcases instruction.takes_or_lacksOn machine.stack with
        ⟨taken, left, split, takes⟩ | ⟨operation, rfl, lacks | ⟨rfl, empty⟩⟩
      · exact executeNext_upon_of_takes found split takes below
      · have fails :
            machine.Fails [] (.instruction (.operate operation) .notEnoughValues) :=
          ⟨operation, rfl, found, lacks, rfl⟩
        exact absurd rfl (enough _ (executeNext_of_fails fails).1)
      · exact absurd ⟨running, found, empty⟩ hasCode

/-- A machine that no question comes up for: it is not verbose, or never breaks. -/
def Unasked (machine : Machine) : Prop :=
  machine.annotations.verbose = true →
    ∀ address, machine.annotations.breaksAt address = false

/-- A machine that is not asked about stops at no breakpoint. -/
theorem Unasked.stopsAtBreakpoint (unasked : machine.Unasked) :
    machine.stopsAtBreakpoint = false := by
  cases verbose : machine.annotations.verbose with
  | false => exact stopsAtBreakpoint_of_quiet verbose
  | true => rw [Machine.stopsAtBreakpoint, unasked verbose, Bool.and_false]

end Machine

namespace Session

variable {σ : Type} [Respondent σ] {session : Session σ}

/-- The step of the frame: what it reports, and all but the stack, is the same. -/
theorem step_upon
    (unasked : session.machine.Unasked)
    (enough :
      ∀ fault,
        session.step.1 = .error fault → fault.cause.kind ≠ .notEnoughValues)
    (hasCode : ¬session.machine.ExitsOnEmpty)
    (below : Stack) :
    (session.upon below).step =
      (session.step.1, session.step.2.upon below) := by
  have unaskedBelow : (session.upon below).machine.Unasked := unasked
  by_cases running : session.machine.status = .running
  · have runningBelow : (session.upon below).machine.status = .running := running
    rw [step_of_running _ running,
      session.advance_of_unasked unasked.stopsAtBreakpoint] at enough ⊢
    rw [step_of_running _ runningBelow,
      (session.upon below).advance_of_unasked unaskedBelow.stopsAtBreakpoint]
    have executed :
        (session.machine.upon below).executeNext =
          (session.machine.executeNext.1.upon below,
            session.machine.executeNext.2) := by
      refine Machine.executeNext_upon running ?_ hasCode below
      intro fault status
      refine enough fault ?_
      rw [machine_executeNext, status]
      rfl
    have advanced :
        (session.upon below).executeNext = session.executeNext.upon below := by
      unfold Session.executeNext
      change
        ({ session.upon below with
            machine := (session.machine.upon below).executeNext.1 } :
          Session σ).report
            ((session.machine.upon below).executeNext.2.map .printed) = _
      rw [executed]
      rfl
    rw [advanced]
    rfl
  · have stoppedBelow : (session.upon below).machine.status ≠ .running := running
    rw [step_of_stopped _ running, step_of_stopped _ stoppedBelow]

/--
The first steps of a session want for nothing: none fails for lack of values, and none
exits without a code on the stack.
-/
structure WantsNothing (count : Nat) (session : Session σ) : Prop where
  enough :
    ∀ fault,
      .error fault ∈ reports count session →
      fault.cause.kind ≠ .notEnoughValues
  hasCode :
    ∀ earlier < count, ¬(stepped earlier session).machine.ExitsOnEmpty

namespace WantsNothing

variable {count : Nat}

/-- Steps that want for nothing do so without the last of them. -/
theorem of_succ (wantsNothing : WantsNothing (count + 1) session) :
    WantsNothing count session where
  enough := fun fault member =>
    wantsNothing.enough fault (List.mem_append_left _ member)
  hasCode := fun earlier less =>
    wantsNothing.hasCode earlier (Nat.lt_succ_of_lt less)

/-- So fewer steps do not want for anything, either. -/
theorem mono
    {fewer : Nat}
    (wantsNothing : WantsNothing count session)
    (atMost : fewer ≤ count) :
    WantsNothing fewer session := by
  induction atMost with
  | refl => exact wantsNothing
  | step _ inductionHypothesis =>
      exact inductionHypothesis wantsNothing.of_succ

end WantsNothing

/-- The run of the frame: the values below are carried along by any number of steps. -/
theorem stepped_upon
    (unasked : session.machine.Unasked)
    {count : Nat}
    (wantsNothing : WantsNothing count session)
    (below : Stack) :
    stepped count (session.upon below) = (stepped count session).upon below ∧
      reports count (session.upon below) = reports count session := by
  induction count with
  | zero => exact ⟨rfl, rfl⟩
  | succ count inductionHypothesis =>
      obtain ⟨sameSession, sameReports⟩ :=
        inductionHypothesis wantsNothing.of_succ
      have stillUnasked : (stepped count session).machine.Unasked := by
        unfold Machine.Unasked
        rwa [annotations_stepped]
      have stepUpon := step_upon stillUnasked
        (fun fault failed => wantsNothing.enough fault (by
          rw [reports, failed]
          exact List.mem_append_right _ (List.mem_singleton.mpr rfl)))
        (wantsNothing.hasCode count (Nat.lt_succ_self count)) below
      rw [stepped, stepped, reports, reports, sameSession, sameReports, stepUpon]
      exact ⟨rfl, rfl⟩

/--
What a program does never depends on what lies below the values it takes.

An instruction finds the values that it takes, all of which it needs, or it lacks
some; and what lies below those it takes it neither reads nor moves nor changes. So
where no question comes up and the first steps of a session want for nothing, they
report the same with other values below, and after each of them the sessions differ
in nothing but those values, which lie below the stack as they did before.
-/
theorem steps_leave_what_lies_below
    (session : Session σ)
    (below : Stack)
    (count : Nat) :
    (∀ (instruction : Instruction) (stack : Stack),
      (∃ taken left, stack = taken ++ left ∧ instruction.Takes taken) ∨
        instruction.LacksOn stack) ∧
    (∀ (instruction : Instruction) (taken : Stack),
      instruction.Takes taken →
      (∀ fewer < taken.length, instruction.LacksOn (taken.take fewer)) ∧
        ∀ address left,
          instruction.execute address (taken ++ left) =
            (instruction.execute address taken).upon left) ∧
    (session.machine.Unasked →
      WantsNothing count session →
      ∀ steps ≤ count,
        reports steps (session.upon below) = reports steps session ∧
          stepped steps (session.upon below) =
            (stepped steps session).upon below) := by
  refine ⟨Instruction.takes_or_lacksOn, ?_, ?_⟩
  · intro instruction taken takes
    exact ⟨fun _ isLess => takes.lacksOn_take isLess, takes.execute_upon⟩
  · intro unasked wantsNothing steps atMost
    exact (stepped_upon unasked (wantsNothing.mono atMost) below).symm

/-- A machine that calls what returns at once, and exits with the value it had. -/
def returning : Session Script :=
  ofMachine
    { program :=
        #[.push 3, .operate .call, .operate .exit, .operate .jump]
      stack := [5] }
    {}

/-- It does so too where another value lies below, and leaves that one. -/
theorem returning_leaves_what_lies_below :
    reports 4 (returning.upon [8]) = [.ok true, .ok true, .ok true, .ok false] ∧
      (stepped 4 (returning.upon [8])).machine.status = .halted 5 ∧
      (stepped 4 (returning.upon [8])).machine.stack = [8] := by
  have seen :
      reports 4 returning = [.ok true, .ok true, .ok true, .ok false] := by
    decide
  have wantsNothing : WantsNothing 4 returning :=
    { enough := by
        intro fault member
        simp [seen] at member
      hasCode := by
        unfold Machine.ExitsOnEmpty
        decide }
  obtain ⟨sameReports, sameSession⟩ :=
    (steps_leave_what_lies_below returning [8] 4).2.2
      (fun verbose => by cases verbose) wantsNothing 4 (Nat.le_refl 4)
  rw [sameReports, sameSession]
  exact ⟨seen, by decide, by decide⟩

end Session

end StackCode
