import StackCode.Proofs.Arguments
import StackCode.Proofs.CommandStages
import StackCode.Proofs.ExitStatus
import StackCode.Proofs.Resumption

namespace StackCode

/-!
# What a command does, and in which order

A command that cannot be understood has nothing to do with files. Any other one loads a
program, lists it, writes its image and runs it, in this order and as far as it is asked
to, and what fails keeps what comes after it from being done, and undoes nothing that
comes before. `Command.Performs` says so of the stages that a command goes through and of
the ways in which it ends, whichever part of it fails.
-/

namespace Command

/-- A command ends even if no instruction of a program may be executed. -/
def EndsAtOnce
    (arguments : List Text)
    (host : Host)
    (status : Nat)
    (last : Host) :
    Prop :=
  ∀ fuel, run fuel arguments host = some (status, last)

/-- A command fails at once, and has written some texts by then and changed no file. -/
def FailsAtOnce
    (arguments : List Text)
    (host : Host)
    (written : List Text) :
    Prop :=
  ∃ last,
    EndsAtOnce arguments host failure last ∧
      last.files = host.files ∧
      last.input = host.input ∧
      last.output = host.output ++ written

/--
A command comes to run a program with all else done that it was asked for, and goes on
from there as the program does. It leaves the files as they are then.
-/
structure RunsFrom
    (arguments : List Text)
    (options : Options)
    (host : Host)
    (loaded : Loaded)
    (prepared : Host) :
    Prop where
  reached :
    ∃ count,
      Stage.after count options host =
        .running loaded prepared (loaded.session host.input).shown
  run_eq :
    ∀ fuel,
      run fuel arguments host =
        ((loaded.session host.input).run fuel).map fun (result, ended) =>
          conclude (prepared.afterSession ended) result
  kept :
    ∀ status last,
      Returns arguments host status last → last.files = prepared.files
  fails :
    ∀ fault ended,
      (loaded.session host.input).Returns (.error fault) ended →
      ∃ last,
        Returns arguments host failure last ∧
          last.files = prepared.files

/-- What a command does with a program that it has loaded. -/
structure Completes
    (arguments : List Text)
    (options : Options)
    (host : Host)
    (loaded : Loaded) :
    Prop where
  unwritten :
    Unwritable options loaded.program host.files →
    FailsAtOnce arguments host (listed options loaded)
  written :
    ¬Unwritable options loaded.program host.files →
    ∃ prepared,
      Prepares options loaded host prepared ∧
        (options.runs = false →
          EndsAtOnce arguments host success prepared) ∧
        (options.runs = true →
          RunsFrom arguments options host loaded prepared)

/-- What a command does that is asked for some options. -/
structure Performs
    (arguments : List Text)
    (options : Options)
    (host : Host) :
    Prop where
  returns_iff :
    ∀ status last,
      Returns arguments host status last ↔
        ∃ count, Stage.after count options host = .ended status last
  inOrder : ∀ count, (Stage.after count options host).InOrder options host
  elsewhere :
    ∀ count,
      KeptElsewhere options host.files
        (Stage.after count options host).host.files
  unloaded :
    ∀ error,
      Loaded.ofInput options (host.files.read options.input) = .error error →
      FailsAtOnce arguments host []
  loaded :
    ∀ loaded,
      Loaded.ofInput options (host.files.read options.input) = .ok loaded →
      Completes arguments options host loaded

/-- The program that a command is to run runs on and on. -/
def RunsForEver (arguments : List Text) (host : Host) : Prop :=
  ∃ options loaded,
    Options.AskedBy arguments options ∧
      options.runs = true ∧
      Loaded.ofInput options (host.files.read options.input) = .ok loaded ∧
      ¬Unwritable options loaded.program host.files ∧
      ∀ fuel, (loaded.session host.input).run fuel = none

section Refused

/-- Refused arguments end a command before it has read or run anything. -/
theorem endsAtOnce_of_refused
    {arguments : List Text}
    {defect : UsageDefect}
    (refused : Options.Refused arguments defect)
    (host : Host) :
    EndsAtOnce arguments host (usageStatus arguments) (explain defect host) := by
  intro fuel
  rw [run, Options.ofArguments_eq_error_iff.mpr refused]

/-- What is said about arguments has nothing to do with files. -/
theorem explain_files (defect : UsageDefect) (files : FileStore) (host : Host) :
    explain defect { host with files := files } =
      { explain defect host with files := files } := by
  unfold explain
  cases defect.complaint? <;> rfl

end Refused

section Asked

variable
  {arguments : List Text}
  {options : Options}
  {loaded : Loaded}
  (asked : Options.AskedBy arguments options)
  (host : Host)
include asked

/-- Arguments that ask for options have them performed. -/
theorem run_of_askedBy (fuel : Nat) :
    run fuel arguments host = perform fuel options host := by
  rw [run, Options.ofArguments_eq_ok_iff.mpr asked]

/-- Seen stage by stage, a command returns what it does all at once. -/
theorem returns_iff_after (status : Nat) (last : Host) :
    Returns arguments host status last ↔
      ∃ count, Stage.after count options host = .ended status last := by
  simp only [Returns, run_of_askedBy asked]
  exact Stage.ends_begun_iff.symm

/-- Where nothing can be loaded, nothing is written and no file is changed. -/
theorem failsAtOnce_of_unloaded
    {error : Failure}
    (unloaded :
      Loaded.ofInput options (host.files.read options.input) = .error error) :
    FailsAtOnce arguments host [] := by
  refine ⟨host.complain error.report, fun fuel => ?_, rfl, rfl, rfl⟩
  rw [run_of_askedBy asked, perform, unloaded]

section Loaded

variable
  (isLoaded :
    Loaded.ofInput options (host.files.read options.input) = .ok loaded)
include isLoaded

/-- Where the image cannot be written, there is only the listing. -/
theorem failsAtOnce_of_unwritable
    (unwritable : Unwritable options loaded.program host.files) :
    FailsAtOnce arguments host (listed options loaded) := by
  have stillUnwritable :
      Unwritable options loaded.program
        (host.print (listed options loaded)).files :=
    unwritable
  obtain ⟨error, refused⟩ := save_of_unwritable stillUnwritable
  refine
    ⟨(host.print (listed options loaded)).complain error.report,
      fun fuel => ?_, rfl, rfl, rfl⟩
  simp only [run_of_askedBy asked, perform, isLoaded, list_eq_print, refused]

section Saved

variable
  {prepared : Host}
  (saved :
    save options loaded (host.print (listed options loaded)) = .ok prepared)
include saved

/-- Once the image has been written, all that is left is to run the program. -/
theorem run_of_save (fuel : Nat) :
    run fuel arguments host = finish fuel options loaded prepared := by
  simp only [run_of_askedBy asked, perform, isLoaded, list_eq_print, saved]

/-- From there on, the command goes on as the program does and leaves the files alone. -/
theorem runsFrom_of_save (runs : options.runs = true) :
    RunsFrom arguments options host loaded prepared := by
  have sameInput := (prepares_of_save saved).input
  have run_eq (fuel : Nat) :
      run fuel arguments host =
        ((loaded.session host.input).run fuel).map fun (result, ended) =>
          conclude (prepared.afterSession ended) result := by
    rw [run_of_save asked host isLoaded saved, finish_of_runs runs, sameInput]
  refine { reached := ⟨3, ?_⟩, run_eq := run_eq, kept := ?_, fails := ?_ }
  · simp only [Stage.after, Function.iterate_succ_apply, Function.iterate_zero_apply,
      Stage.next, isLoaded, list_eq_print, saved, runs, if_true, sameInput]
  · rintro status last ⟨fuel, ends⟩
    rw [run_eq] at ends
    obtain ⟨⟨result, ended⟩, _, concluded⟩ := Option.map_eq_some_iff.mp ends
    have files := congrArg (fun ending => ending.2.files) concluded
    exact files.symm.trans (files_conclude (prepared.afterSession ended) result)
  · rintro fault ended ⟨fuel, returned⟩
    refine
      ⟨(conclude (prepared.afterSession ended) (.error fault)).2,
        ⟨fuel, ?_⟩, rfl⟩
    rw [run_eq, returned]
    rfl

end Saved

/-- A program that has been loaded is listed, written and run, in this order. -/
theorem completes_of_loaded : Completes arguments options host loaded where
  unwritten := failsAtOnce_of_unwritable asked host isLoaded
  written := by
    intro writable
    have stillWritable :
        ¬Unwritable options loaded.program
          (host.print (listed options loaded)).files :=
      writable
    obtain ⟨prepared, saved⟩ := exists_save_of_writable stillWritable
    refine
      ⟨prepared, prepares_of_save saved, fun unrun fuel => ?_,
        runsFrom_of_save asked host isLoaded saved⟩
    rw [run_of_save asked host isLoaded saved, finish,
      if_neg (Bool.eq_false_iff.mp unrun)]

end Loaded

/-- What is asked for is done. -/
theorem performs_of_askedBy : Performs arguments options host where
  returns_iff := returns_iff_after asked host
  inOrder := Stage.inOrder_after
  elsewhere := fun count => (Stage.inOrder_after count).keptElsewhere
  unloaded := fun _ unloaded => failsAtOnce_of_unloaded asked host unloaded
  loaded := fun _ isLoaded => completes_of_loaded asked host isLoaded

/-- A command that is asked for something ends unless the program runs on and on. -/
theorem returns_or_runsForEver_of_askedBy :
    (∃ status last, Returns arguments host status last) ∨
      RunsForEver arguments host := by
  have performs := performs_of_askedBy asked host
  have atOnce {status : Nat} {last : Host}
      (ends : EndsAtOnce arguments host status last) :
      ∃ status last, Returns arguments host status last :=
    ⟨status, last, 0, ends 0⟩
  cases input : Loaded.ofInput options (host.files.read options.input) with
  | error error =>
      obtain ⟨last, ends, _⟩ := performs.unloaded error input
      exact Or.inl (atOnce ends)
  | ok loaded =>
      have completes := performs.loaded loaded input
      by_cases unwritable : Unwritable options loaded.program host.files
      · obtain ⟨last, ends, _⟩ := completes.unwritten unwritable
        exact Or.inl (atOnce ends)
      · obtain ⟨prepared, _, unrun, runs⟩ := completes.written unwritable
        cases asksToRun : options.runs with
        | false => exact Or.inl (atOnce (unrun asksToRun))
        | true =>
            by_cases ever : ∀ fuel, (loaded.session host.input).run fuel = none
            · exact
                Or.inr
                  ⟨options, loaded, asked, asksToRun, input, unwritable, ever⟩
            · obtain ⟨fuel, ends⟩ := not_forall.mp ever
              obtain ⟨⟨result, ended⟩, returned⟩ :=
                Option.ne_none_iff_exists'.mp ends
              have concludes := (runs asksToRun).run_eq fuel
              rw [returned] at concludes
              exact Or.inl ⟨_, _, fuel, concludes⟩

end Asked

/-- A command that ends does so with one of two statuses. -/
theorem status_of_returns
    {arguments : List Text}
    {host last : Host}
    {status : Nat}
    (returned : Returns arguments host status last) :
    status = success ∨ status = failure := by
  obtain ⟨fuel, ends⟩ := returned
  unfold run at ends
  cases understood : Options.ofArguments arguments with
  | error defect =>
      rw [understood] at ends
      cases ends
      unfold usageStatus
      split
      · exact Or.inl rfl
      · exact Or.inr rfl
  | ok options =>
      rw [understood] at ends
      cases ended_of_perform ends with
      | well unchanged => exact Or.inl rfl
      | badly error reported => exact Or.inr rfl

/-- A source of two instructions, after which there is none. -/
def overrunningSource : Bytes := "PUSH 7\nPRINTOUT\n".toUTF8.data.toList

/-- A host with that source and nothing else. -/
def overrunningHost : Host where
  files :=
    { entries :=
        [({ origin := .working 0, names := ["p.asm"] }, .file overrunningSource)] }

/-- The name that the first output option takes looks like an option. -/
def overrunningArguments : List Text :=
  ["p.asm", "-a", "-o", "-d", "-r", "--output", "p.spvm"]

end Command

end StackCode
