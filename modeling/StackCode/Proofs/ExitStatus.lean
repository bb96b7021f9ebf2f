import StackCode.Proofs.Endings

namespace StackCode

/-!
# What the status of a command tells

A command that fails writes one line to the error output and ends with status one; one
that succeeds writes none and ends with status zero. Defective arguments are complained
about in the same way, but a request for help anywhere among them, after the defect or
as the name of an output, makes their status zero all the same.
-/

namespace Options

variable {defect : UsageDefect} {arguments : List Text}

/-- Flags that cannot be read ask for help or are complained about. -/
theorem complaint_or_help_of_readFlags
    {flags : Flags}
    (refused : readFlags flags arguments = .error defect) :
    defect.complaint? = none ∧ arguments.any asksForHelp = true ∨
      ∃ complaint, defect.complaint? = some complaint := by
  have later
      {first : Text}
      {rest : List Text}
      (found :
        defect.complaint? = none ∧ rest.any asksForHelp = true ∨
          ∃ complaint, defect.complaint? = some complaint) :
      defect.complaint? = none ∧ (first :: rest).any asksForHelp = true ∨
        ∃ complaint, defect.complaint? = some complaint :=
    found.imp_left fun ⟨uncomplained, asks⟩ =>
      ⟨uncomplained, by rw [List.any_cons, asks, Bool.or_true]⟩
  -- One case an alternative of the definition, in its order.
  fun_induction readFlags flags arguments
  case case1 => cases refused
  case case2 | case9 =>
    cases refused
    exact Or.inr ⟨_, rfl⟩
  case case3 inductionHypothesis =>
    exact later (later (inductionHypothesis refused))
  case case8 asks =>
    cases refused
    exact Or.inl ⟨rfl, by rw [List.any_cons, asks, Bool.true_or]⟩
  case case4 inductionHypothesis
      | case5 inductionHypothesis
      | case6 inductionHypothesis
      | case7 inductionHypothesis
      | case10 inductionHypothesis =>
    exact later (inductionHypothesis refused)

/--
Arguments are refused without a complaint only where there are none or help is asked
for.
-/
theorem complaint_or_help_of_ofArguments
    (refused : ofArguments arguments = .error defect) :
    defect.complaint? = none ∧
        (arguments = [] ∨ arguments.any asksForHelp = true) ∨
      arguments ≠ [] ∧ ∃ complaint, defect.complaint? = some complaint := by
  unfold ofArguments at refused
  cases arguments with
  | nil =>
      cases refused
      exact Or.inl ⟨rfl, Or.inl rfl⟩
  | cons first rest =>
      rw [List.isEmpty_cons, if_neg Bool.false_ne_true] at refused
      cases flagsRead : readFlags {} (first :: rest) with
      | error other =>
          rw [flagsRead] at refused
          cases refused
          exact
            (complaint_or_help_of_readFlags flagsRead).imp
              (And.imp_right Or.inr) (And.intro (List.cons_ne_nil _ _))
      | ok flags =>
          simp only [flagsRead] at refused
          split at refused
          · cases refused
            exact Or.inr ⟨List.cons_ne_nil _ _, _, rfl⟩
          · cases refused

end Options

namespace Command

/-- The status tells of complaints; no arguments at all fail without one. -/
structure Tells
    (arguments : List Text)
    (host : Host)
    (status : Nat)
    (after : Host) :
    Prop where
  complained : after.errors ≠ host.errors → status = failure
  uncomplained :
    after.errors = host.errors →
    status = if arguments = [] then failure else success

/-- Arguments are complained about, and some of them ask for help. -/
structure Excused (arguments : List Text) : Prop where
  complained :
    ∃ defect complaint,
      Options.ofArguments arguments = .error defect ∧
        defect.complaint? = some complaint
  asksForHelp : ∃ argument ∈ arguments, Options.asksForHelp argument = true

section

variable
  {arguments : List Text}
  {options : Options}
  {loaded : Loaded}
  {host after : Host}
  {status : Nat}
  {fuel : Nat}

/-- How a command that has understood its arguments ends: well, or with one report. -/
inductive Ended (host : Host) : Nat → Host → Prop
  | well {after : Host} (unchanged : after.errors = host.errors) :
      Ended host success after
  | badly {after : Host} (error : Failure)
      (reported :
        after.errors =
          host.errors.push (error.report ++ [CodeUnit.lineFeed])) :
      Ended host failure after

/-- A listing is not an error. -/
theorem errors_list (options : Options) (loaded : Loaded) (host : Host) :
    (list options loaded host).errors = host.errors := by
  unfold list
  split <;> rfl

/-- An image that has been written is reported without an error. -/
theorem errors_save
    (saved : save options loaded host = .ok after) :
    after.errors = host.errors := by
  unfold save at saved
  cases output : options.output with
  | none =>
      rw [output] at saved
      cases saved
      rfl
  | some path =>
      simp only [output] at saved
      cases written : host.files.saveProgram path loaded.program with
      | error error =>
          rw [written] at saved
          cases saved
      | ok files =>
          rw [written] at saved
          cases saved
          rfl

/-- A program that fails is reported once, and any other ends well. -/
theorem ended_of_finish
    (finished : finish fuel options loaded host = some (status, after)) :
    Ended host status after := by
  unfold finish at finished
  split at finished
  · unfold simulate at finished
    simp only at finished
    cases ended :
        ({ machine := loaded.machine
           respondent := { unread := host.input } } : Session Console).run
          fuel with
    | none =>
        rw [ended] at finished
        cases finished
    | some ending =>
        obtain ⟨result, session⟩ := ending
        rw [ended] at finished
        cases result with
        | ok code =>
            cases finished
            exact .well rfl
        | error fault =>
            cases finished
            exact .badly (.execution fault) rfl
  · cases finished
    exact .well rfl

/-- Each part of a command that has understood its arguments fails with one report. -/
theorem ended_of_perform
    (performed : perform fuel options host = some (status, after)) :
    Ended host status after := by
  unfold perform at performed
  cases input : Loaded.ofInput options (host.files.read options.input) with
  | error error =>
      rw [input] at performed
      cases performed
      exact .badly error rfl
  | ok loaded =>
      simp only [input] at performed
      have listed := errors_list options loaded host
      cases saving : save options loaded (list options loaded host) with
      | error error =>
          rw [saving] at performed
          cases performed
          refine .badly error ?_
          rw [← listed]
          rfl
      | ok saved =>
          rw [saving] at performed
          have unchanged := (errors_save saving).trans listed
          cases ended_of_finish performed with
          | well same => exact .well (same.trans unchanged)
          | badly error reported =>
              exact .badly error (by rw [reported, unchanged])

namespace Ended

/--
The status of a command that has understood its arguments tells whether it has reported
something.
-/
theorem tells
    (someArguments : arguments ≠ [])
    (ended : Ended host status after) :
    Tells arguments host status after := by
  cases ended with
  | well unchanged =>
      exact
        ⟨fun complained => absurd unchanged complained,
          fun _ => (if_neg someArguments).symm⟩
  | badly error reported =>
      refine ⟨fun _ => rfl, fun unchanged => absurd unchanged ?_⟩
      rw [reported]
      exact Array.push_ne_self

/-- A command that has understood its arguments reports one line or none. -/
theorem unchanged_or_line (ended : Ended host status after) :
    after.errors = host.errors ∨
      ∃ line,
        after.errors = host.errors.push (line ++ [CodeUnit.lineFeed]) := by
  cases ended with
  | well unchanged => exact Or.inl unchanged
  | badly error reported => exact Or.inr ⟨_, reported⟩

end Ended

/-- An explanation adds the complaint to the errors, if there is one. -/
theorem errors_explain (defect : UsageDefect) (host : Host) :
    (explain defect host).errors =
      match defect.complaint? with
      | none => host.errors
      | some complaint =>
          host.errors.push (complaint ++ [CodeUnit.lineFeed]) := by
  unfold explain
  cases defect.complaint? <;> rfl

theorem usageStatus_of_help
    (asks : arguments.any Options.asksForHelp = true) :
    usageStatus arguments = success :=
  if_pos asks

theorem usageStatus_of_noHelp
    (asksNot : ¬arguments.any Options.asksForHelp = true) :
    usageStatus arguments = failure :=
  if_neg asksNot

/--
Where nothing is complained about, the status is a success unless there are no
arguments.
-/
theorem tells_of_uncomplained
    {defect : UsageDefect}
    (uncomplained : defect.complaint? = none)
    (noneOrHelp :
      arguments = [] ∨ arguments.any Options.asksForHelp = true) :
    Tells arguments host (usageStatus arguments) (explain defect host) := by
  have same : (explain defect host).errors = host.errors := by
    rw [errors_explain, uncomplained]
  refine ⟨fun complained => absurd same complained, fun _ => ?_⟩
  rcases noneOrHelp with rfl | asks
  · rfl
  · rw [usageStatus_of_help asks, if_neg]
    rintro rfl
    cases asks

/-- Defective arguments are told of by the status unless some of them ask for help. -/
theorem tells_explain_iff
    {defect : UsageDefect}
    {complaint : Text}
    (complained : defect.complaint? = some complaint) :
    Tells arguments host (usageStatus arguments) (explain defect host) ↔
      ¬arguments.any Options.asksForHelp = true := by
  have reported :
      (explain defect host).errors =
        host.errors.push (complaint ++ [CodeUnit.lineFeed]) := by
    rw [errors_explain, complained]
  have differ : (explain defect host).errors ≠ host.errors := by
    rw [reported]
    exact Array.push_ne_self
  constructor
  · intro tells asks
    have failed := tells.complained differ
    rw [usageStatus_of_help asks] at failed
    cases failed
  · intro asksNot
    exact
      ⟨fun _ => usageStatus_of_noHelp asksNot, fun same => absurd same differ⟩

/--
The status tells of a complaint, unless help is asked for as well.

A command that ends has written one line to the error output or none. If it has, its
status is one, and if it has not, its status is zero unless there were no arguments.
The only exception are defective arguments some of which ask for help: they are
complained about in a line, and the status is zero.
-/
theorem status_tells_unless_excused
    (returns : Returns arguments host status after) :
    (Tells arguments host status after ↔ ¬Excused arguments) ∧
      (Excused arguments → status = success) ∧
      (after.errors = host.errors ∨
        ∃ line,
          after.errors = host.errors.push (line ++ [CodeUnit.lineFeed])) := by
  obtain ⟨fuel, ends⟩ := returns
  unfold run at ends
  cases understood : Options.ofArguments arguments with
  | ok options =>
      rw [understood] at ends
      have unexcused : ¬Excused arguments := by
        rintro ⟨⟨defect, complaint, refused, _⟩, _⟩
        rw [understood] at refused
        cases refused
      have someArguments : arguments ≠ [] := by
        rintro rfl
        cases understood
      have ended := ended_of_perform ends
      exact
        ⟨iff_of_true (ended.tells someArguments) unexcused,
          fun excused => absurd excused unexcused, ended.unchanged_or_line⟩
  | error defect =>
      rw [understood] at ends
      cases ends
      rcases Options.complaint_or_help_of_ofArguments understood with
        ⟨uncomplained, noneOrHelp⟩ | ⟨_, complaint, complained⟩
      · have unexcused : ¬Excused arguments := by
          rintro ⟨⟨other, complaint, refused, complained⟩, _⟩
          rw [understood] at refused
          cases refused
          rw [uncomplained] at complained
          cases complained
        refine
          ⟨iff_of_true (tells_of_uncomplained uncomplained noneOrHelp)
            unexcused, fun excused => absurd excused unexcused, Or.inl ?_⟩
        rw [errors_explain, uncomplained]
      · have excused_iff :
            Excused arguments ↔ arguments.any Options.asksForHelp = true := by
          rw [List.any_eq_true]
          exact
            ⟨fun excused => excused.asksForHelp,
              fun asks => ⟨⟨defect, complaint, understood, complained⟩, asks⟩⟩
        refine ⟨?_, ?_, Or.inr ⟨complaint, ?_⟩⟩
        · rw [excused_iff, tells_explain_iff complained]
        · exact fun excused => usageStatus_of_help (excused_iff.mp excused)
        · rw [errors_explain, complained]

end

/-- An option that is missing its name fails, for what is said about it. -/
theorem missing_output_fails :
    ∃ after,
      Returns ["p.asm", "-o"] { files := {} } failure after ∧
        Tells ["p.asm", "-o"] { files := {} } failure after := by
  have returns :
      Returns ["p.asm", "-o"] { files := {} } failure
        (explain .missingOutput { files := {} }) :=
    ⟨0, rfl⟩
  have unexcused : ¬Excused ["p.asm", "-o"] := by
    rintro ⟨_, argument, member, asks⟩
    revert argument
    decide
  exact ⟨_, returns, (status_tells_unless_excused returns).1.mpr unexcused⟩

/-- Help that is asked for after an unknown option excuses it. -/
theorem unknown_option_is_excused :
    ∃ after,
      Returns ["--fast", "-h"] { files := {} } success after ∧
        after.errors = #[Text.ofString "Error: Unknown option '--fast'\n"] ∧
        ¬Tells ["--fast", "-h"] { files := {} } success after := by
  refine
    ⟨explain (.unknownOption "--fast") { files := {} }, ⟨0, rfl⟩, rfl, ?_⟩
  intro tells
  have failed := tells.complained (by decide)
  cases failed

end Command

end StackCode
