import StackCode.Machine.Basic

namespace StackCode

/-!
# Sessions

A session runs a machine for someone who answers the questions at breakpoints, and
logs what can be seen: texts that the program prints, listings, and questions. A
step executes one instruction, after a question if one is due; a run steps until
the machine has stopped. A run of a machine that never stops never ends, so a run
is given a bound on its steps and says nothing when it is reached.
-/

/-- The answer to a question. -/
structure Reply (σ : Type) where
  /-- Whether to go on. -/
  proceed : Bool
  /-- What was written while asking. -/
  written : List Text
  /-- The respondent afterwards. -/
  rest : σ

/-- What answers questions. -/
class Respondent (σ : Type) where
  /-- Ask a question. -/
  confirm : σ → Text → Reply σ

/-- Answers given in advance; once they are used up, every answer is to go on. -/
structure Script where
  answers : List Bool := []
  deriving Repr, DecidableEq

instance : Respondent Script where
  confirm script _ :=
    match script.answers with
    | [] => { proceed := true, written := [], rest := script }
    | answer :: answers =>
        { proceed := answer, written := [], rest := { answers := answers } }

/-- Something that can be seen of a session. -/
inductive Event where
  /-- The program prints. -/
  | printed (text : Text)
  /-- The debugger shows a listing and the stack. -/
  | listed (text : Text)
  /-- The respondent writes while it is asked. -/
  | written (text : Text)
  /-- A question has been answered. -/
  | asked (question : Text) (proceed : Bool)
  deriving Repr, DecidableEq

/-- A machine, what answers its questions, and what has been seen so far. -/
structure Session (σ : Type) where
  machine : Machine
  respondent : σ
  log : Array Event := #[]

namespace Session

variable {σ : Type}

/-- Log what can be seen. -/
def report (events : List Event) (session : Session σ) : Session σ :=
  { session with log := session.log ++ events }

/-- Show the machine's listing and stack. -/
def list (session : Session σ) : Session σ :=
  session.report [.listed session.machine.stateText]

/-- Execute the next instruction. -/
def executeNext (session : Session σ) : Session σ :=
  let (machine, printed) := session.machine.executeNext
  { session with machine := machine }.report (printed.map .printed)

/-- Give up the next instruction. -/
def abort (session : Session σ) : Session σ :=
  { session with machine := session.machine.abort }

/-- Show the machine and ask whether to go on: the answer and the session after it. -/
def ask [Respondent σ] (session : Session σ) : Bool × Session σ :=
  let session := session.list
  let question := Machine.questionText session.machine.pointer
  let reply := Respondent.confirm session.respondent question
  (reply.proceed,
    { session with respondent := reply.rest }.report
      (reply.written.map Event.written ++
        [Event.asked question reply.proceed]))

/-- The session after the next instruction of a machine that runs. -/
def advance [Respondent σ] (session : Session σ) : Session σ :=
  if session.machine.stopsAtBreakpoint then
    match session.ask with
    | (true, session) => session.executeNext
    | (false, session) => session.abort
  else
    session.executeNext

/--
Execute one instruction: whether the machine runs afterwards, or its fault, and the
session after it. A machine that has stopped does nothing.
-/
def step [Respondent σ] (session : Session σ) :
    Except Fault Bool × Session σ :=
  if session.machine.status = .running then
    let session := session.advance
    (session.machine.status.stepResult, session)
  else
    (.ok false, session)

/-- Execute instructions, at most a given number, until the machine has stopped. -/
def runToEnd [Respondent σ] :
    Nat → Session σ → Option (Except Fault Word × Session σ)
  | 0, session =>
      session.machine.status.result?.map fun result => (result, session)
  | fuel + 1, session =>
      match session.machine.status.result? with
      | some result => some (result, session)
      | none => runToEnd fuel session.advance

/--
Run the machine to its end: its exit code or its fault, and the session after it.

A verbose machine is shown first unless it has failed before; a machine that has
stopped keeps its exit code or its fault. Nothing is said if the machine runs on
after a given number of instructions.
-/
def run [Respondent σ] (fuel : Nat) (session : Session σ) :
    Option (Except Fault Word × Session σ) :=
  match session.machine.status with
  | .faulted fault => some (.error fault, session)
  | _ =>
      if session.machine.annotations.verbose then
        runToEnd fuel session.list
      else
        runToEnd fuel session

end Session

end StackCode
