import StackCode.Command.Dialogue
import StackCode.Proofs.Answers
import StackCode.Proofs.CommandEffects
import StackCode.Proofs.DebuggerLog

namespace StackCode

/-!
# Dialogues do what the command does

A host that is a value can serve the calls of a dialogue, one after the other. A dialogue
with it comes to each stage that the command comes to, with the host as it is there, and
it ends exactly as the command does. So whoever follows the dialogue of some arguments
does what `Command.run` does, in the same order, also for a program that never stops.
-/

/-- What a host that is a value tells when it is called, and the host after that. -/
def Host.serve : (request : HostCall) → Host → request.Outcome × Host
  | .read path, host => (host.files.read path, host)
  | .write path content, host =>
      match host.files.write path content with
      | .error fault => (.error fault, host)
      | .ok files => (.ok (), { host with files := files })
  | .print text, host => ((), host.write text)
  | .complain line, host => ((), host.complain line)
  | .readLine, host =>
      let (line, unread) := Console.read host.input
      (line, { host with input := unread })

/-- The host after the question of a dialogue has been answered. -/
def Host.answered (reply : Reply Console) (host : Host) : Host :=
  { host with
    input := reply.rest.unread
    output := host.output ++ reply.written }

/-- A dialogue at some point, and its host at that point. -/
structure Exchange where
  dialogue : Dialogue
  host : Host

namespace Exchange

/-- The exchange after one call, or after a machine has been asked for the next one. -/
def next : Exchange → Exchange
  | ⟨.ended status, host⟩ => ⟨.ended status, host⟩
  | ⟨.call request goOn, host⟩ =>
      let (outcome, host) := host.serve request
      ⟨goOn outcome, host⟩
  | ⟨.running machine, host⟩ => ⟨.ofMachine machine, host⟩
  | ⟨.asking machine, host⟩ => ⟨.ofQuestion machine, host⟩

/-- An exchange leads to another one. -/
def LeadsTo (first last : Exchange) : Prop :=
  ∃ count, next^[count] first = last

namespace LeadsTo

variable {first middle last : Exchange}

/-- Nothing need happen. -/
theorem refl (exchange : Exchange) : exchange.LeadsTo exchange :=
  ⟨0, rfl⟩

/-- What is led to leads on. -/
theorem trans (leads : first.LeadsTo middle) (later : middle.LeadsTo last) :
    first.LeadsTo last := by
  obtain ⟨count, rfl⟩ := leads
  obtain ⟨further, rfl⟩ := later
  exact ⟨further + count, Function.iterate_add_apply next further count first⟩

/-- What the next exchange leads to, this one leads to. -/
theorem of_next (leads : first.next.LeadsTo last) : first.LeadsTo last := by
  obtain ⟨count, rfl⟩ := leads
  exact ⟨count + 1, Function.iterate_succ_apply next count first⟩

end LeadsTo

/-- A dialogue that has ended stays so. -/
theorem iterate_ended (count : Nat) (status : Nat) (host : Host) :
    next^[count] ⟨.ended status, host⟩ = ⟨.ended status, host⟩ :=
  Function.iterate_fixed rfl count

/-- An exchange leads to an end. -/
def Ends (first : Exchange) (status : Nat) (last : Host) : Prop :=
  first.LeadsTo ⟨.ended status, last⟩

section Ends

variable
  {first middle : Exchange}
  {status count : Nat}
  {last : Host}

/-- What an exchange leads to has ended when the exchange has, and in the same way. -/
theorem iterate_eq_ended_of_leadsTo
    (leads : first.LeadsTo middle)
    (ended : next^[count] first = ⟨.ended status, last⟩) :
    next^[count] middle = ⟨.ended status, last⟩ := by
  obtain ⟨further, rfl⟩ := leads
  calc
    next^[count] (next^[further] first)
    _ = next^[further] (next^[count] first) := by
        rw [← Function.iterate_add_apply, Nat.add_comm,
          Function.iterate_add_apply]
    _ = ⟨.ended status, last⟩ := by
        rw [ended, iterate_ended]

/-- An exchange and what it leads to end alike. -/
theorem LeadsTo.ends_iff (leads : first.LeadsTo middle) :
    first.Ends status last ↔ middle.Ends status last :=
  ⟨fun ⟨count, ended⟩ => ⟨count, iterate_eq_ended_of_leadsTo leads ended⟩,
    leads.trans⟩

/-- A dialogue that has ended is its own end. -/
theorem ends_ended_iff {other : Nat} {host : Host} :
    Ends ⟨.ended other, host⟩ status last ↔ (other, host) = (status, last) := by
  simp [Ends, LeadsTo, iterate_ended]

end Ends

/-! ## Running a machine -/

/-- Texts that are written one by one have all been written in the end. -/
theorem leadsTo_printAll (texts : List Text) (rest : Dialogue) (host : Host) :
    LeadsTo ⟨.printAll texts rest, host⟩ ⟨rest, host.print texts⟩ := by
  induction texts generalizing host with
  | nil => exact .refl _
  | cons text later inductionHypothesis =>
      exact .of_next (inductionHypothesis (host.write text))

/-- An instruction is executed and what it prints is written. -/
theorem leadsTo_execute (machine : Machine) (host : Host) :
    LeadsTo ⟨.execute machine, host⟩
      ⟨.running machine.executeNext.1, host.print machine.executeNext.2⟩ :=
  leadsTo_printAll _ _ host

/-- A question is asked until it is answered as a console answers it. -/
theorem leadsTo_answered (machine : Machine) (host : Host) :
    let reply :=
      Console.confirm (Machine.questionText machine.pointer) host.input
    LeadsTo ⟨.asking machine, host⟩
      ⟨if reply.proceed then .execute machine else .running machine.abort,
        host.answered reply⟩ := by
  obtain ⟨files, input, output, errors⟩ := host
  induction input using Console.lineInduction generalizing output with
  | nothing =>
      simp only [Console.confirm_nil]
      exact ⟨3, rfl⟩
  | takes input line rest takes inductionHypothesis =>
      simp only [Console.confirm_eq takes]
      -- The question, the line that is read, and what the line means.
      have turn :
          LeadsTo ⟨.asking machine, ⟨files, input, output, errors⟩⟩
            ⟨.ofAnswer machine (Answer.ofLine line),
              ⟨files, rest,
                output.push
                  (Console.promptText (Machine.questionText machine.pointer)),
                errors⟩⟩ := by
        refine ⟨3, ?_⟩
        simp only [Function.iterate_succ_apply, Function.iterate_zero_apply, next,
          Dialogue.ofQuestion, Host.serve, Host.write, takes.read_eq]
        rfl
      refine turn.trans ?_
      cases Answer.ofLine line with
      | proceed => exact .refl _
      | abort => exact .refl _
      | unclear =>
          -- The complaint is written, and the rest is asked as if it were the whole input.
          have asksAgain :=
            inductionHypothesis
              ((output.push
                (Console.promptText
                  (Machine.questionText machine.pointer))).push
                Console.complaint)
          exact .of_next asksAgain

end Exchange

section Session

variable (host : Host) (session : Session Console)

namespace Host

/-- What is written while a program runs is what its session reports. -/
theorem afterSession_report (events : List Event) :
    host.afterSession (session.report events) =
      (host.afterSession session).print (events.filterMap Command.eventText?) := by
  simp only [afterSession, print, Session.report, Array.toList_appendList,
    List.filterMap_append, mk.injEq, true_and, and_true]
  exact List.foldl_append

/-- An instruction that is executed writes what it prints. -/
theorem afterSession_executeNext :
    host.afterSession session.executeNext =
      (host.afterSession session).print session.machine.executeNext.2 := by
  refine (afterSession_report host _ _).trans ?_
  rw [List.filterMap_map]
  exact congrArg (host.afterSession session).print List.filterMap_some

/-- A session that asks shows its machine first; then its console is asked. -/
theorem afterSession_ask :
    host.afterSession session.ask.2 =
      ((host.afterSession session).write session.machine.stateText).answered
        (Console.confirm (Machine.questionText session.machine.pointer)
          session.respondent.unread) := by
  have texts :
      session.ask.2.log.toList.filterMap Command.eventText? =
        session.log.toList.filterMap Command.eventText? ++
          session.machine.stateText :: session.reply.written := by
    rw [Session.toList_log_ask, List.filterMap_append, List.filterMap_append,
      List.filterMap_cons, List.filterMap_map]
    simp [Command.eventText?, Function.comp_def]
  have inTurn (first later : List Text) :
      host.output ++ (first ++ later) = (host.output ++ first) ++ later :=
    List.foldl_append
  rw [afterSession, texts, inTurn]
  rfl

end Host

namespace Exchange

/-- A dialogue asks as a session does. -/
theorem leadsTo_ask :
    LeadsTo
      ⟨.call (.print session.machine.stateText) fun _ => .asking session.machine,
        host.afterSession session⟩
      ⟨if session.ask.1 then
          .execute session.machine
        else
          .running session.machine.abort,
        host.afterSession session.ask.2⟩ := by
  rw [Host.afterSession_ask]
  exact
    .of_next
      (leadsTo_answered session.machine
        ((host.afterSession session).write session.machine.stateText))

/-- A dialogue executes an instruction as a session does. -/
theorem leadsTo_executeNext :
    LeadsTo ⟨.execute session.machine, host.afterSession session⟩
      ⟨.running session.executeNext.machine,
        host.afterSession session.executeNext⟩ := by
  rw [Host.afterSession_executeNext]
  exact leadsTo_execute session.machine (host.afterSession session)

/-- A dialogue that runs a machine comes to where a session of the machine does. -/
theorem leadsTo_advance (runs : session.machine.status.result? = none) :
    (next ⟨.running session.machine, host.afterSession session⟩).LeadsTo
      ⟨.running session.advance.machine,
        host.afterSession session.advance⟩ := by
  rw [next, Dialogue.ofMachine, runs, Session.advance]
  cases session.machine.stopsAtBreakpoint with
  | false => exact leadsTo_executeNext host session
  | true =>
      have sameMachine : session.ask.2.machine = session.machine := rfl
      refine (leadsTo_ask host session).trans ?_
      rcases asks : session.ask with ⟨proceeds, asked⟩
      rw [asks] at sameMachine
      rw [← sameMachine]
      cases proceeds with
      | true => exact leadsTo_executeNext host asked
      | false => exact .refl _

end Exchange

end Session

namespace Exchange

/-! ## From part to part -/

section Parts

variable (options : Options) (loaded : Loaded) (host : Host)

/-- The input is read and loaded, and the listing is printed if it is asked for. -/
theorem leadsTo_ofOptions :
    LeadsTo ⟨.ofOptions options, host⟩
      (match Loaded.ofInput options (host.files.read options.input) with
      | .error error => ⟨.ended Command.failure, host.complain error.report⟩
      | .ok loaded =>
          ⟨.save options loaded, Command.list options loaded host⟩) := by
  refine .of_next ?_
  simp only [next, Dialogue.ofOptions, Host.serve]
  cases Loaded.ofInput options (host.files.read options.input) with
  | error error => exact ⟨1, rfl⟩
  | ok loaded =>
      simp only [Dialogue.list, Command.list]
      cases options.lists with
      | false => exact .refl _
      | true => exact ⟨1, rfl⟩

/-- The image is written if it is asked for, and what came of it is told. -/
theorem leadsTo_save :
    LeadsTo ⟨.save options loaded, host⟩
      (match Command.save options loaded host with
      | .error error => ⟨.ended Command.failure, host.complain error.report⟩
      | .ok prepared => ⟨.finish options loaded, prepared⟩) := by
  simp only [Dialogue.save, Command.save]
  cases options.output with
  | none => exact .refl _
  | some path =>
      refine .of_next ?_
      simp only [next, Host.serve, FileStore.saveProgram]
      cases host.files.write path (Image.encode loaded.program) with
      | error fault => exact ⟨1, rfl⟩
      | ok files => exact ⟨1, rfl⟩

/-- A program that is to be run is shown first where its session begins with that. -/
theorem leadsTo_finish :
    let session := (loaded.session host.input).shown
    LeadsTo ⟨.finish options loaded, host⟩
      (if options.runs then
        ⟨.running session.machine, host.afterSession session⟩
      else
        ⟨.ended Command.success, host⟩) := by
  rw [Dialogue.finish, Session.shown]
  cases options.runs with
  | false => exact .refl _
  | true =>
      have sameAnnotations :
          (loaded.session host.input).machine.annotations = loaded.annotations :=
        rfl
      rw [sameAnnotations]
      cases loaded.annotations.verbose with
      | false => exact .refl _
      | true => exact ⟨1, rfl⟩

variable {machine : Machine} {result : Except Fault Word}

/-- How a machine has ended is told, and that is the end. -/
theorem leadsTo_conclude (stopped : machine.status.result? = some result) :
    LeadsTo (next ⟨.running machine, host⟩)
      ⟨.ended (Command.conclude host result).1,
        (Command.conclude host result).2⟩ := by
  rw [next, Dialogue.ofMachine, stopped]
  cases result with
  | ok code => exact ⟨1, rfl⟩
  | error fault => exact ⟨1, rfl⟩

end Parts

end Exchange

namespace Command

/-! ## From stage to stage -/

namespace Stage

/-- The dialogue that a command is in at a stage. -/
def dialogue (options : Options) : Stage → Dialogue
  | .begun _ => .ofOptions options
  | .listed loaded _ => .save options loaded
  | .written loaded _ => .finish options loaded
  | .running _ _ session => .running session.machine
  | .ended status _ => .ended status

/-- That dialogue with the host as it stands. -/
def exchange (options : Options) (stage : Stage) : Exchange :=
  ⟨stage.dialogue options, stage.host⟩

variable {options : Options}

/-- While a program runs, there is an exchange at least from a stage to the next. -/
theorem leadsTo_next_running
    (loaded : Loaded)
    (prepared : Host)
    (session : Session Console) :
    (Exchange.next ((running loaded prepared session).exchange options)).LeadsTo
      (((running loaded prepared session).next options).exchange options) := by
  rw [next]
  cases stopped : session.machine.status.result? with
  | none => exact Exchange.leadsTo_advance prepared session stopped
  | some result => exact Exchange.leadsTo_conclude _ stopped

/-- From stage to stage, the dialogue leads to where the command comes. -/
theorem leadsTo_next (stage : Stage) :
    (stage.exchange options).LeadsTo ((stage.next options).exchange options) := by
  cases stage with
  | begun host =>
      have leads := Exchange.leadsTo_ofOptions options host
      rw [next]
      cases input : Loaded.ofInput options (host.files.read options.input) with
      | error error =>
          rw [input] at leads
          exact leads
      | ok loaded =>
          rw [input] at leads
          exact leads
  | listed loaded host =>
      have leads := Exchange.leadsTo_save options loaded host
      rw [next]
      cases saving : save options loaded host with
      | error error =>
          rw [saving] at leads
          exact leads
      | ok prepared =>
          rw [saving] at leads
          exact leads
  | written loaded host =>
      have leads := Exchange.leadsTo_finish options loaded host
      rw [next]
      cases runs : options.runs with
      | false =>
          rw [runs] at leads
          exact leads
      | true =>
          rw [runs] at leads
          exact leads
  | running loaded prepared session =>
      exact .of_next (leadsTo_next_running loaded prepared session)
  | ended status last => exact .refl _

/-- The dialogue comes to every stage of the command. -/
theorem leadsTo_after (count : Nat) (host : Host) :
    Exchange.LeadsTo ⟨.ofOptions options, host⟩
      ((after count options host).exchange options) := by
  induction count with
  | zero => exact .refl _
  | succ count inductionHypothesis =>
      rw [after, Function.iterate_succ_apply']
      exact inductionHypothesis.trans (leadsTo_next _)

section Ends

variable
  {loaded : Loaded}
  {host prepared last : Host}
  {session : Session Console}
  {status : Nat}

/-- What ends as its dialogue from the next stage on does so from this one on. -/
theorem ends_exchange_iff_of_next
    {stage : Stage}
    (onward :
      ((stage.next options).exchange options).Ends status last ↔
        (stage.next options).Ends options status last) :
    (stage.exchange options).Ends status last ↔ stage.Ends options status last :=
  (leadsTo_next stage).ends_iff.trans (onward.trans ends_next_iff)

/-- From stage to stage, an end of the command is one of the dialogue. -/
theorem ends_exchange_of_ends
    {stage : Stage}
    (ends : stage.Ends options status last) :
    (stage.exchange options).Ends status last := by
  obtain ⟨count, ended⟩ := ends
  induction count generalizing stage with
  | zero =>
      cases ended
      exact .refl _
  | succ count inductionHypothesis =>
      exact (leadsTo_next stage).trans (inductionHypothesis ended)

/-- What has ended has done so in the dialogue. -/
theorem ends_exchange_ended_iff {other : Nat} :
    ((ended other host).exchange options).Ends status last ↔
      (ended other host).Ends options status last :=
  Exchange.ends_ended_iff.trans ends_ended_iff.symm

/-- A program runs for ever exactly if its dialogue has no end. -/
theorem ends_exchange_running_iff :
    ((running loaded prepared session).exchange options).Ends status last ↔
      (running loaded prepared session).Ends options status last := by
  refine ⟨?_, ends_exchange_of_ends⟩
  rintro ⟨count, ended⟩
  -- The induction is on the exchanges: each instruction uses up at least one.
  induction count generalizing session with
  | zero => cases ended
  | succ count inductionHypothesis =>
      have later :=
        Exchange.iterate_eq_ended_of_leadsTo
          (leadsTo_next_running loaded prepared session) ended
      rw [← ends_next_iff]
      rw [next] at later ⊢
      cases stopped : session.machine.status.result? with
      | none =>
          rw [stopped] at later
          exact inductionHypothesis later
      | some result =>
          rw [stopped] at later
          exact ends_exchange_ended_iff.mp ⟨count, later⟩

/-- Once the image is in its file, the dialogue ends as the command does. -/
theorem ends_exchange_written_iff :
    ((written loaded host).exchange options).Ends status last ↔
      (written loaded host).Ends options status last := by
  refine ends_exchange_iff_of_next ?_
  rw [next]
  split
  · exact ends_exchange_running_iff
  · exact ends_exchange_ended_iff

/-- Once the program has been listed, the dialogue ends as the command does. -/
theorem ends_exchange_listed_iff :
    ((listed loaded host).exchange options).Ends status last ↔
      (listed loaded host).Ends options status last := by
  refine ends_exchange_iff_of_next ?_
  rw [next]
  split
  · exact ends_exchange_ended_iff
  · exact ends_exchange_written_iff

/-- From the beginning, the dialogue of some options ends as the command does. -/
theorem ends_exchange_begun_iff :
    ((begun host).exchange options).Ends status last ↔
      (begun host).Ends options status last := by
  refine ends_exchange_iff_of_next ?_
  rw [next]
  split
  · exact ends_exchange_ended_iff
  · exact ends_exchange_listed_iff

end Ends

end Stage

/-- Arguments that are refused are explained, and that is the end. -/
theorem leadsTo_explain (defect : UsageDefect) (status : Nat) (host : Host) :
    Exchange.LeadsTo ⟨.explain defect status, host⟩
      ⟨.ended status, explain defect host⟩ := by
  rw [Dialogue.explain, explain]
  cases defect.complaint? with
  | none => exact ⟨1, rfl⟩
  | some complaint => exact ⟨2, rfl⟩

/--
Who follows the dialogue of a command does what the command does.

Whatever the arguments and the host are, the dialogue ends exactly as the command does,
with the same status and the same host, and it has no end where the command has none.
Before that, it comes to each stage of the command with the host as it is there.
-/
theorem dialogue_follows_the_command (arguments : List Text) (host : Host) :
    (∀ status last,
        Exchange.Ends ⟨.ofArguments arguments, host⟩ status last ↔
          Returns arguments host status last) ∧
      ∀ options,
        Options.AskedBy arguments options →
        ∀ count,
          Exchange.LeadsTo ⟨.ofArguments arguments, host⟩
            ((Stage.after count options host).exchange options) := by
  unfold Dialogue.ofArguments
  cases understood : Options.ofArguments arguments with
  | error defect =>
      refine ⟨fun status last => ?_, fun options asked => ?_⟩
      · rw [(leadsTo_explain defect (usageStatus arguments) host).ends_iff,
          Exchange.ends_ended_iff]
        simp only [Returns, run, understood, exists_const, Option.some.injEq]
      · cases understood.symm.trans (Options.ofArguments_eq_ok_iff.mpr asked)
  | ok options =>
      have asked := Options.ofArguments_eq_ok_iff.mp understood
      refine ⟨fun status last => ?_, fun others askedToo count => ?_⟩
      · rw [returns_iff_after asked host]
        exact Stage.ends_exchange_begun_iff
      · cases understood.symm.trans (Options.ofArguments_eq_ok_iff.mpr askedToo)
        exact Stage.leadsTo_after count host

end Command

end StackCode
