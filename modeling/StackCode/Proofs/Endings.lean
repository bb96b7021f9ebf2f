import Mathlib.Data.List.Basic
import StackCode.Command.Basic
import StackCode.Proofs.Actions
import StackCode.Proofs.Transparency

namespace StackCode

/-!
# How commands end

A command that runs a program ends once the program has stopped, and never if it does
not stop. Where nothing is shown, it has then written what the program has printed and
one line about its end, whatever the program's annotations are.
-/

namespace Session.Undisturbed

theorem filterMap_eventText?
    {σ : Type}
    {respondent : σ}
    {session : Session σ}
    (undisturbed : Undisturbed respondent session) :
    session.log.toList.filterMap Command.eventText? = session.output := by
  refine List.filterMap_congr fun event member => ?_
  obtain ⟨text, rfl⟩ := undisturbed.onlyPrints event member
  rfl

end Session.Undisturbed

/-- Write texts to the output, one after the other. -/
def Host.print (texts : List Text) (host : Host) : Host :=
  { host with output := host.output ++ texts }

namespace Command

/-- A command ends with a status and leaves a host behind. -/
def Returns
    (arguments : List Text)
    (host : Host)
    (status : Nat)
    (after : Host) :
    Prop :=
  ∃ fuel, run fuel arguments host = some (status, after)

/-- A session in which a program runs, and nothing is shown of it. -/
def sessionOf (program : Program) (host : Host) : Session Console :=
  Session.ofMachine { program := program } { unread := host.input }

/-- A command's end for a program's: a status, and a line that tells what it was. -/
def conclude (host : Host) : Except Fault Word → Nat × Host
  | .ok code => (success, host.writeLine (exitText code))
  | .error fault =>
      (failure, host.complain (Failure.execution fault).report)

/-- How a command ends that runs a program, if a number of steps is enough. -/
def endingOf (fuel : Nat) (program : Program) (host : Host) :
    Option (Nat × Host) :=
  let session := Session.stepped fuel (sessionOf program host)
  session.machine.status.result?.map (conclude (host.print session.output))

/-- A run ends exactly for a program that stops. -/
theorem exists_endingOf_iff {program : Program} {host : Host} :
    (∃ fuel ending, endingOf fuel program host = some ending) ↔
      ∃ count,
        (Session.stepped count (sessionOf program host)).machine.status ≠
          .running := by
  refine exists_congr fun fuel => ?_
  rw [← Option.isSome_iff_exists, endingOf, Option.isSome_map,
    Option.isSome_iff_ne_none, ne_eq, Status.result?_eq_none_iff]

/-- Where nothing is shown, a program runs as it would without annotations. -/
theorem simulate_of_quiet
    {loaded : Loaded}
    (quiet : loaded.annotations.verbose = false)
    (fuel : Nat)
    (host : Host) :
    simulate fuel loaded host =
      let session := Session.stepped fuel (sessionOf loaded.program host)
      session.machine.status.result?.map fun result =>
        (result, host.print session.output) := by
  have fresh :
      Session.Undisturbed { unread := host.input }
        (sessionOf loaded.program host) :=
    ⟨rfl, rfl, List.forall_mem_nil _⟩
  have undisturbed := fresh.stepped fuel
  have started :
      ({ machine := loaded.machine, respondent := { unread := host.input } } :
          Session Console) =
        (sessionOf loaded.program host).dressed loaded.annotations
          Listing.defaultWidth :=
    rfl
  have unfailed :
      ∀ fault,
        ((sessionOf loaded.program host).dressed loaded.annotations
            Listing.defaultWidth).machine.status ≠
          .faulted fault := by
    intro fault failed
    cases failed
  rw [simulate, started, Session.run_of_quiet quiet unfailed,
    (Session.stepped_dressed _ fresh.quiet quiet fuel).1,
    Session.status_dressed]
  cases ended :
      (Session.stepped fuel
        (sessionOf loaded.program host)).machine.status.result? with
  | none => simp only [ended, Option.map_none]
  | some result =>
      simp only [ended, Option.map_some, Session.dressed, undisturbed.unasked,
        undisturbed.filterMap_eventText?, Host.print]

/-- Where nothing is shown, all that matters of a program is its instructions. -/
theorem finish_of_quiet
    {options : Options}
    {loaded : Loaded}
    (runs : options.runs = true)
    (quiet : loaded.annotations.verbose = false)
    (fuel : Nat)
    (host : Host) :
    finish fuel options loaded host = endingOf fuel loaded.program host := by
  rw [finish, if_pos runs, simulate_of_quiet quiet, endingOf]
  simp only
  cases
    (Session.stepped fuel (sessionOf loaded.program host)).machine.status.result? with
  | none => rfl
  | some result => cases result <;> rfl

end Command

end StackCode
