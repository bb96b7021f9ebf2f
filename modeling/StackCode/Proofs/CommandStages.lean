import Mathlib.Logic.Function.Iterate
import StackCode.Proofs.Endings
import StackCode.Proofs.StoredFiles

namespace StackCode

/-!
# The stages of a command

A command that knows what to do loads a program and lists it, then writes its image, and
then runs it, instruction by instruction, each as far as it is asked to. `Stage.next`
takes these steps one at a time, so that what a command has done can be seen before it
ends, and of one that never ends. Where it ends, it does so as the command that does
everything at once. `Stage.InOrder` says what has been done at each stage: above all,
that the image is in its file for as long as the program runs.
-/

namespace FileStore

/-- What is kept elsewhere than where a write goes stays. -/
theorem entry_write_of_ne
    {store after : FileStore}
    {path : Text}
    {content : Bytes}
    {location : Location}
    (written : store.write path content = .ok after)
    (elsewhere : store.target path ≠ .ok location) :
    FileStore.entry? after location = FileStore.entry? store location := by
  obtain ⟨place, target, _, rfl⟩ := write_eq_ok_iff.mp written
  have differ : location ≠ place := by
    rintro rfl
    exact elsewhere target
  rw [entry_put _ (locate_of_target target).2, if_neg differ]

end FileStore

/-- The session in which a program runs, with an input that has not been read. -/
def Loaded.session (loaded : Loaded) (input : Bytes) : Session Console :=
  Session.ofMachine loaded.machine { unread := input }

/-- A program that is about to run has not failed. -/
theorem Loaded.unfailed_session
    (loaded : Loaded)
    (input : Bytes)
    (fault : Fault) :
    (loaded.session input).machine.status ≠ .faulted fault := by
  rintro ⟨⟩

/-- The host after a program has run in a session: what it wrote, and what it left of the input. -/
def Host.afterSession (host : Host) (session : Session Console) : Host :=
  { host with
    input := session.respondent.unread
    output :=
      host.output ++ session.log.toList.filterMap Command.eventText? }

namespace Command

/-- What is written to the output for a program that is to be listed. -/
def listed (options : Options) (loaded : Loaded) : List Text :=
  if options.lists then
    [listingText loaded ++ [CodeUnit.lineFeed]]
  else
    []

/-- What is written to the output once an image has been saved. -/
def announced (options : Options) (loaded : Loaded) : List Text :=
  match options.output with
  | none => []
  | some path => [savedText loaded.program path ++ [CodeUnit.lineFeed]]

/-- Files are kept, but for the one that is selected. -/
def KeptElsewhere (options : Options) (before after : FileStore) : Prop :=
  ∀ location,
    (∀ path,
      options.output = some path → before.target path ≠ .ok location) →
    FileStore.entry? after location = FileStore.entry? before location

/-- The image of a program cannot be written to the file that is selected. -/
def Unwritable (options : Options) (program : Program) (files : FileStore) :
    Prop :=
  ∃ path fault,
    options.output = some path ∧
      files.write path (Image.encode program) = .error fault

/--
What has been done before a program runs: its image is in the selected file, and it has
been listed before.
-/
structure Prepares
    (options : Options)
    (loaded : Loaded)
    (host prepared : Host) :
    Prop where
  image :
    ∀ path,
      options.output = some path →
      prepared.files.read path = .ok (Image.encode loaded.program)
  unselected : options.output = none → prepared.files = host.files
  elsewhere : KeptElsewhere options host.files prepared.files
  input : prepared.input = host.input
  output :
    prepared.output =
      host.output ++ (listed options loaded ++ announced options loaded)
  errors : prepared.errors = host.errors

section Parts

variable {options : Options} {loaded : Loaded} {host : Host}

/-- A listing is printed at once, or nothing is. -/
theorem list_eq_print (options : Options) (loaded : Loaded) (host : Host) :
    list options loaded host = host.print (listed options loaded) := by
  unfold list listed
  split <;> rfl

/-- An image that cannot be written makes a command fail. -/
theorem save_of_unwritable
    (unwritable : Unwritable options loaded.program host.files) :
    ∃ error, save options loaded host = .error error := by
  obtain ⟨path, fault, selected, refused⟩ := unwritable
  refine ⟨.file (.ofFault FileError.writing path fault), ?_⟩
  simp only [save, selected, FileStore.saveProgram, refused]

/-- An image that can be written is saved. -/
theorem exists_save_of_writable
    (writable : ¬Unwritable options loaded.program host.files) :
    ∃ prepared, save options loaded host = .ok prepared := by
  cases selected : options.output with
  | none => exact ⟨host, by simp only [save, selected]⟩
  | some path =>
      cases written : host.files.write path (Image.encode loaded.program) with
      | error fault => exact absurd ⟨path, fault, selected, written⟩ writable
      | ok files => simp [save, selected, FileStore.saveProgram, written]

/-- A listing and an image that has been written prepare a host. -/
theorem prepares_of_save
    {prepared : Host}
    (saved :
      save options loaded (host.print (listed options loaded)) =
        .ok prepared) :
    Prepares options loaded host prepared := by
  unfold save at saved
  cases selected : options.output with
  | none =>
      rw [selected] at saved
      cases saved
      exact
        { image := fun path isPath => by cases selected.symm.trans isPath
          unselected := fun _ => rfl
          elsewhere := fun _ _ => rfl
          input := rfl
          output := by simp [Host.print, announced, selected]
          errors := rfl }
  | some path =>
      rw [selected] at saved
      cases written : host.files.write path (Image.encode loaded.program) with
      | error fault =>
          simp [FileStore.saveProgram, Host.print, written] at saved
      | ok files =>
          simp only [FileStore.saveProgram, Host.print, written] at saved
          cases saved
          exact
            { image := fun other isOther => by
                cases selected.symm.trans isOther
                exact FileStore.read_write written
              unselected := fun unselected => by
                cases selected.symm.trans unselected
              elsewhere := fun location elsewhere =>
                FileStore.entry_write_of_ne written (elsewhere path selected)
              input := rfl
              output := by
                apply Array.toList_inj.mp
                simp [Host.writeLine, Host.write, announced, selected]
              errors := rfl }

/-- A program is run in a session of its own. -/
theorem finish_of_runs
    (runs : options.runs = true)
    (fuel : Nat)
    (host : Host) :
    finish fuel options loaded host =
      ((loaded.session host.input).run fuel).map fun (result, ended) =>
        conclude (host.afterSession ended) result := by
  rw [finish, if_pos runs, simulate]
  have same :
      ({ machine := loaded.machine
         respondent := { unread := host.input } } : Session Console) =
        loaded.session host.input :=
    rfl
  simp only [same]
  cases (loaded.session host.input).run fuel with
  | none => rfl
  | some ending =>
      obtain ⟨result, ended⟩ := ending
      cases result <;> rfl

/-- A program that has run has changed no file. -/
theorem files_conclude (host : Host) (result : Except Fault Word) :
    (conclude host result).2.files = host.files := by
  cases result <;> rfl

end Parts

/-- How far a command has come that knows what to do. -/
inductive Stage where
  /-- It is about to load a program and to list it. -/
  | begun (host : Host)
  /-- It is about to write the image of the program. -/
  | listed (loaded : Loaded) (host : Host)
  /-- It is about to run the program. -/
  | written (loaded : Loaded) (host : Host)
  /-- It runs the program in a session, which began at a host. -/
  | running (loaded : Loaded) (prepared : Host) (session : Session Console)
  /-- It has ended. -/
  | ended (status : Nat) (host : Host)

namespace Stage

/-- The files and streams as they stand. -/
def host : Stage → Host
  | .begun host => host
  | .listed _ host => host
  | .written _ host => host
  | .running _ prepared session => prepared.afterSession session
  | .ended _ host => host

/-- The stage that follows. -/
def next (options : Options) : Stage → Stage
  | .begun host =>
      match Loaded.ofInput options (host.files.read options.input) with
      | .error error => .ended failure (host.complain error.report)
      | .ok loaded => .listed loaded (list options loaded host)
  | .listed loaded host =>
      match save options loaded host with
      | .error error => .ended failure (host.complain error.report)
      | .ok host => .written loaded host
  | .written loaded host =>
      if options.runs then
        .running loaded host (loaded.session host.input).shown
      else
        .ended success host
  | .running loaded prepared session =>
      match session.machine.status.result? with
      | none => .running loaded prepared session.advance
      | some result =>
          let ending := conclude (prepared.afterSession session) result
          .ended ending.1 ending.2
  | .ended status host => .ended status host

/-- The stage that a command has come to after a number of steps. -/
def after (count : Nat) (options : Options) (host : Host) : Stage :=
  (next options)^[count] (.begun host)

/-- A stage leads to an end. -/
def Ends (options : Options) (stage : Stage) (status : Nat) (last : Host) :
    Prop :=
  ∃ count, (next options)^[count] stage = .ended status last

section Ends

variable
  {options : Options}
  {loaded : Loaded}
  {host prepared last : Host}
  {status : Nat}

theorem iterate_ended (count : Nat) :
    (next options)^[count] (.ended status host) = .ended status host :=
  Function.iterate_fixed rfl count

/-- What has ended is its own end. -/
theorem ends_ended_iff {other : Nat} :
    (Stage.ended other host).Ends options status last ↔
      (other, host) = (status, last) := by
  simp [Ends, iterate_ended]

/-- A stage ends as the next one does. -/
theorem ends_next_iff {stage : Stage} :
    (next options stage).Ends options status last ↔
      stage.Ends options status last := by
  constructor
  · rintro ⟨count, ends⟩
    exact ⟨count + 1, ends⟩
  · rintro ⟨count, ends⟩
    refine ⟨count, ?_⟩
    rw [← Function.iterate_succ_apply, Function.iterate_succ_apply', ends]
    rfl

/-- A program that is run comes to its end step by step. -/
theorem ends_running_iff {session : Session Console} :
    (Stage.running loaded prepared session).Ends options status last ↔
      ∃ fuel result ended,
        session.runToEnd fuel = some (result, ended) ∧
          conclude (prepared.afterSession ended) result = (status, last) := by
  constructor
  · rintro ⟨count, ends⟩
    -- A stage executes one instruction, as a run does with one unit of its fuel.
    induction count generalizing session with
    | zero => cases ends
    | succ count inductionHypothesis =>
        rw [Function.iterate_succ_apply, next] at ends
        cases stopped : session.machine.status.result? with
        | none =>
            rw [stopped] at ends
            obtain ⟨fuel, result, ended, returned, concluded⟩ :=
              inductionHypothesis ends
            refine ⟨fuel + 1, result, ended, ?_, concluded⟩
            rw [Session.runToEnd, stopped]
            exact returned
        | some result =>
            rw [stopped] at ends
            refine ⟨0, result, session, ?_, ?_⟩
            · rw [Session.runToEnd, stopped]
              rfl
            · exact ends_ended_iff.mp ⟨count, ends⟩
  · rintro ⟨fuel, result, ended, returned, concluded⟩
    induction fuel generalizing session with
    | zero =>
        obtain ⟨_, stopped, same⟩ := Option.map_eq_some_iff.mp returned
        cases same
        rw [← ends_next_iff, next, stopped]
        exact ends_ended_iff.mpr concluded
    | succ fuel inductionHypothesis =>
        rw [Session.runToEnd] at returned
        rw [← ends_next_iff, next]
        cases stopped : session.machine.status.result? with
        | none =>
            rw [stopped] at returned
            exact inductionHypothesis returned
        | some result =>
            rw [stopped] at returned
            cases returned
            exact ends_ended_iff.mpr concluded

/-- A program that is run stage by stage ends as it does at once. -/
theorem ends_written_iff :
    (Stage.written loaded host).Ends options status last ↔
      ∃ fuel, finish fuel options loaded host = some (status, last) := by
  rw [← ends_next_iff]
  cases runs : options.runs with
  | false => simp [next, finish, runs, ends_ended_iff]
  | true =>
      have run_eq (fuel : Nat) :=
        Session.run_of_unfailed (loaded.unfailed_session host.input) fuel
      simp only [next, runs, if_true, ends_running_iff, finish_of_runs runs,
        run_eq, Option.map_eq_some_iff, Prod.exists]

/-- Stage by stage, a command ends as it does all at once. -/
theorem ends_begun_iff :
    (Stage.begun host).Ends options status last ↔
      ∃ fuel, perform fuel options host = some (status, last) := by
  rw [← ends_next_iff]
  cases input : Loaded.ofInput options (host.files.read options.input) with
  | error error => simp [next, perform, input, ends_ended_iff]
  | ok loaded =>
      simp only [next, perform, input]
      rw [← ends_next_iff]
      cases saving : save options loaded (list options loaded host) with
      | error error => simp [next, saving, ends_ended_iff]
      | ok saved =>
          simp only [next, saving]
          exact ends_written_iff

end Ends

/-- What has been done at a stage of a command that has begun at a host. -/
def InOrder (options : Options) (host : Host) : Stage → Prop
  | .begun now => now = host
  | .listed loaded now =>
      Loaded.ofInput options (host.files.read options.input) = .ok loaded ∧
        now = host.print (Command.listed options loaded)
  | .written loaded now =>
      Loaded.ofInput options (host.files.read options.input) = .ok loaded ∧
        Prepares options loaded host now
  | .running loaded prepared session =>
      Loaded.ofInput options (host.files.read options.input) = .ok loaded ∧
        Prepares options loaded host prepared ∧
        options.runs = true ∧
        ∃ count, session = (loaded.session host.input).duringRun count
  | .ended _ last => KeptElsewhere options host.files last.files

section InOrder

variable {options : Options} {host : Host} {stage : Stage}

/-- What has been done in order stays so at the next stage. -/
theorem inOrder_next (inOrder : stage.InOrder options host) :
    (next options stage).InOrder options host := by
  cases stage with
  | begun now =>
      have same : now = host := inOrder
      subst same
      rw [next]
      cases input : Loaded.ofInput options (now.files.read options.input) with
      | error error => exact fun _ _ => rfl
      | ok loaded => exact ⟨input, list_eq_print options loaded now⟩
  | listed loaded now =>
      obtain ⟨isLoaded, rfl⟩ := inOrder
      rw [next]
      cases saving :
          save options loaded (host.print (Command.listed options loaded)) with
      | error error => exact fun _ _ => rfl
      | ok prepared => exact ⟨isLoaded, prepares_of_save saving⟩
  | written loaded now =>
      obtain ⟨isLoaded, prepares⟩ := inOrder
      rw [next]
      cases runs : options.runs with
      | false => exact prepares.elsewhere
      | true =>
          refine ⟨isLoaded, prepares, runs, 0, ?_⟩
          rw [prepares.input]
          rfl
  | running loaded prepared session =>
      obtain ⟨isLoaded, prepares, runs, count, reached⟩ := inOrder
      rw [next]
      cases stopped : session.machine.status.result? with
      | none =>
          refine ⟨isLoaded, prepares, runs, count + 1, ?_⟩
          have unfailed := loaded.unfailed_session host.input
          rw [Session.duringRun_of_unfailed unfailed] at reached ⊢
          rw [Session.stepped, ← reached,
            Session.step_of_running _ (Status.result?_eq_none_iff.mp stopped)]
      | some result =>
          intro location elsewhere
          have files := files_conclude (prepared.afterSession session) result
          simp only [files]
          exact prepares.elsewhere location elsewhere
  | ended status last => exact inOrder

/-- At every stage of a command, all that has been done was done in order. -/
theorem inOrder_after (count : Nat) : (after count options host).InOrder options host := by
  induction count with
  | zero => exact Eq.refl host
  | succ count inductionHypothesis =>
      rw [after, Function.iterate_succ_apply']
      exact inOrder_next inductionHypothesis

/-- Whatever the stage, no file has been touched but the selected one. -/
theorem InOrder.keptElsewhere (inOrder : stage.InOrder options host) :
    KeptElsewhere options host.files stage.host.files := by
  cases stage with
  | begun now =>
      have same : now = host := inOrder
      subst same
      exact fun _ _ => rfl
  | listed loaded now =>
      obtain ⟨_, rfl⟩ := inOrder
      exact fun _ _ => rfl
  | written loaded now => exact inOrder.2.elsewhere
  | running loaded prepared session => exact inOrder.2.1.elsewhere
  | ended status last => exact inOrder

end InOrder

end Stage

end Command

end StackCode
