import Mathlib.Data.List.Basic
import StackCode.Command.Options

namespace StackCode

/-!
# What arguments ask for

Arguments are requests, one after the other, and then their end or a defect. A request
is one argument, or two where it names an output: whatever comes second is the name.
`Options.Reads` says so without a state, and `Options.AskedBy` says what requests amount
to: the last name of a kind counts, and an empty name as little as none. Arguments that
can be understood give the options they ask for, and all others are refused for one
defect.
-/

namespace Options

/-- A part of what a command can do. -/
inductive Switch where
  | assemble
  | run
  | verbose
  | list
  deriving Repr, DecidableEq

/-- The arguments that ask for a part. -/
def Switch.spellings : Switch → List Text
  | .assemble => ["-a", "--assemble"]
  | .run => ["-r", "--run"]
  | .verbose => ["-v", "--verbose"]
  | .list => ["-d", "--disassemble"]

/-- The arguments that a name of an output follows. -/
def outputSpellings : List Text :=
  ["-o", "--output"]

/-- The arguments that ask for help. -/
def helpSpellings : List Text :=
  ["-h", "--help"]

/-- All arguments that mean something by themselves. -/
def optionSpellings : List Text :=
  outputSpellings ++ helpSpellings ++ Switch.assemble.spellings ++
    Switch.run.spellings ++ Switch.verbose.spellings ++ Switch.list.spellings

/-- What an argument begins with that names no input. -/
def hyphen : CodeUnit := CodeUnit.ofChar '-'

/-- What is asked for at once. -/
inductive Request where
  /-- To take the input from a file. -/
  | input (name : Text)
  /-- To write the image to a file. -/
  | output (name : Text)
  /-- To do a part of what can be done. -/
  | part (switch : Switch)
  deriving Repr, DecidableEq

namespace Request

/-- The name of the input. -/
def input? : Request → Option Text
  | .input name => some name
  | .output _ => none
  | .part _ => none

/-- The name of the output. -/
def output? : Request → Option Text
  | .input _ => none
  | .output name => some name
  | .part _ => none

end Request

/-- The arguments that make up a request. -/
inductive Spells : List Text → Request → Prop
  /-- What does not begin with a hyphen names an input. -/
  | input {name : Text} (plain : name.startsWith hyphen = false) :
      Spells [name] (.input name)
  /-- After an option for it, anything names an output. -/
  | output {option : Text} (isOption : option ∈ outputSpellings) (name : Text) :
      Spells [option, name] (.output name)
  /-- A part is asked for by either of its spellings. -/
  | part {argument : Text} (switch : Switch)
      (isSpelling : argument ∈ switch.spellings) :
      Spells [argument] (.part switch)

/-- The arguments that begin with what cannot be read, or need not be. -/
inductive Stops : List Text → UsageDefect → Prop
  /-- What comes after a request for help is not read. -/
  | help {argument : Text} {rest : List Text} (asks : argument ∈ helpSpellings) :
      Stops (argument :: rest) .helpRequested
  /-- An option that needs a name comes last. -/
  | unnamed {option : Text} (isOption : option ∈ outputSpellings) :
      Stops [option] .missingOutput
  /-- What begins with a hyphen is an option or a mistake. -/
  | unknown {argument : Text} {rest : List Text}
      (hyphened : argument.startsWith hyphen = true)
      (noOption : argument ∉ optionSpellings) :
      Stops (argument :: rest) (.unknownOption argument)

/-- The requests that arguments make, and the defect that comes after them, if any. -/
inductive Reads : List Text → List Request → Option UsageDefect → Prop
  /-- Nothing is left. -/
  | done : Reads [] [] none
  /-- What is left is not read. -/
  | stopped {arguments : List Text} {defect : UsageDefect}
      (stops : Stops arguments defect) :
      Reads arguments [] (some defect)
  /-- A request is read, and the rest after it. -/
  | cons {first rest : List Text} {request : Request} {requests : List Request}
      {ending : Option UsageDefect}
      (spelled : Spells first request)
      (later : Reads rest requests ending) :
      Reads (first ++ rest) (request :: requests) ending

/-- The last name of a kind; it is empty where there is none. -/
def lastName (name? : Request → Option Text) (requests : List Request) : Text :=
  (requests.filterMap name?).getLast?.getD []

/-! ## The name beside an input -/

/-- The endings of a source's name, in small letters. -/
def sourceEndings : List Text :=
  [".asm", ".s"]

/-- The name of an image beside an input: a source's ending gives way to its own. -/
inductive ImageNamed : Text → Text → Prop
  /-- An ending of a source is dropped, in whatever case it is written. -/
  | source {stem ending : Text}
      (isEnding : ending.map CodeUnit.lowerCase ∈ sourceEndings) :
      ImageNamed (stem ++ ending) (stem ++ ".spvm")
  /-- Where there is none, nothing is dropped. -/
  | other {input : Text}
      (noEnding :
        ∀ stem ending,
          input = stem ++ ending →
          ending.map CodeUnit.lowerCase ∉ sourceEndings) :
      ImageNamed input (input ++ ".spvm")

/-- An ending is dropped in whatever case it is written. -/
theorem dropEnding?_eq_some_iff {ending name stem : Text} :
    dropEnding? ending name = some stem ↔
      ∃ last, name = stem ++ last ∧ last.map CodeUnit.lowerCase = ending := by
  unfold dropEnding?
  constructor
  · intro dropped
    split at dropped
    · next isSuffix =>
        obtain ⟨before, shape⟩ := List.isSuffixOf_iff_suffix.mp isSuffix
        obtain ⟨first, last, rfl, _, lowered⟩ := List.map_eq_append_iff.mp shape.symm
        have sameLength : last.length = ending.length := by
          rw [← lowered, List.length_map]
        have isStem : (first ++ last).take first.length = stem := by
          simpa [sameLength] using dropped
        refine ⟨last, ?_, lowered⟩
        rw [← isStem, List.take_left]
    · cases dropped
  · rintro ⟨last, rfl, rfl⟩
    have isSuffix :
        (last.map CodeUnit.lowerCase).isSuffixOf
            ((stem ++ last).map CodeUnit.lowerCase) =
          true := by
      rw [List.isSuffixOf_iff_suffix, List.map_append]
      exact List.suffix_append _ _
    rw [if_pos isSuffix]
    simp

/-- Nothing is dropped exactly if a name has the ending in no case. -/
theorem dropEnding?_eq_none_iff {ending name : Text} :
    dropEnding? ending name = none ↔
      ∀ stem last,
        name = stem ++ last → last.map CodeUnit.lowerCase ≠ ending := by
  rw [Option.eq_none_iff_forall_ne_some]
  simp only [ne_eq, dropEnding?_eq_some_iff, not_exists, not_and]

/-- No name has both endings of a source. -/
theorem dropEnding?_asm_of_s
    {stem ending : Text}
    (isEnding : ending.map CodeUnit.lowerCase = ".s") :
    dropEnding? ".asm" (stem ++ ending) = none := by
  rw [dropEnding?_eq_none_iff]
  intro other last shape isOther
  have lasts := congrArg (fun name => (name.map CodeUnit.lowerCase).getLast?) shape
  simp only [List.map_append, List.getLast?_append, isEnding, isOther] at lasts
  exact absurd (Option.some.inj lasts) (by decide)

/-- The name beside an input is one that it may have. -/
theorem imageNamed_imageName (input : Text) :
    ImageNamed input (imageName input) := by
  unfold imageName
  cases asm : dropEnding? ".asm" input with
  | some stem =>
      obtain ⟨last, rfl, isEnding⟩ := dropEnding?_eq_some_iff.mp asm
      exact .source (by rw [isEnding]; decide)
  | none =>
      cases s : dropEnding? ".s" input with
      | some stem =>
          obtain ⟨last, rfl, isEnding⟩ := dropEnding?_eq_some_iff.mp s
          exact .source (by rw [isEnding]; decide)
      | none =>
          refine .other fun stem ending shape isEnding => ?_
          rcases List.mem_pair.mp isEnding with isAsm | isS
          · exact dropEnding?_eq_none_iff.mp asm stem ending shape isAsm
          · exact dropEnding?_eq_none_iff.mp s stem ending shape isS

/-- There is only one name beside an input. -/
theorem ImageNamed.eq
    {input image : Text}
    (named : ImageNamed input image) :
    imageName input = image := by
  unfold imageName
  cases named with
  | @source stem ending isEnding =>
      rcases List.mem_pair.mp isEnding with isAsm | isS
      · have asm : dropEnding? ".asm" (stem ++ ending) = some stem :=
          dropEnding?_eq_some_iff.mpr ⟨ending, rfl, isAsm⟩
        rw [asm]
        rfl
      · have s : dropEnding? ".s" (stem ++ ending) = some stem :=
          dropEnding?_eq_some_iff.mpr ⟨ending, rfl, isS⟩
        rw [dropEnding?_asm_of_s isS, s]
        rfl
  | other noEnding =>
      have noAsm : dropEnding? ".asm" input = none :=
        dropEnding?_eq_none_iff.mpr fun stem last shape isAsm =>
          noEnding stem last shape (List.mem_pair.mpr (Or.inl isAsm))
      have noS : dropEnding? ".s" input = none :=
        dropEnding?_eq_none_iff.mpr fun stem last shape isS =>
          noEnding stem last shape (List.mem_pair.mpr (Or.inr isS))
      rw [noAsm, noS]
      rfl

/-! ## Reading -/

namespace Flags

/-- The flags after one more request. -/
def add (flags : Flags) : Request → Flags
  | .input name => { flags with input := name }
  | .output name => { flags with output := name }
  | .part .assemble => { flags with assembles := true }
  | .part .run => { flags with runs := true }
  | .part .verbose => { flags with verbose := true }
  | .part .list => { flags with lists := true }

/-- The flags that requests amount to. -/
def ofRequests (requests : List Request) : Flags :=
  requests.foldl add {}

/-- Of names of a kind, the last one stays. -/
theorem foldl_add_name
    {field : Flags → Text}
    {name? : Request → Option Text}
    (adds :
      ∀ flags request,
        field (add flags request) = (name? request).getD (field flags))
    (requests : List Request)
    (flags : Flags) :
    field (requests.foldl add flags) =
      (requests.filterMap name?).getLast?.getD (field flags) := by
  induction requests generalizing flags with
  | nil => rfl
  | cons request requests inductionHypothesis =>
      rw [List.foldl_cons, inductionHypothesis, adds]
      cases named : name? request with
      | none => rw [List.filterMap_cons_none named, Option.getD_none]
      | some name =>
          rw [List.filterMap_cons_some named, List.getLast?_cons,
            Option.getD_some, Option.getD_some]

/-- Whether a part is to be done. -/
def has (flags : Flags) : Switch → Bool
  | .assemble => flags.assembles
  | .run => flags.runs
  | .verbose => flags.verbose
  | .list => flags.lists

/-- One more request asks for the part that it names and for no other. -/
theorem has_add (flags : Flags) (request : Request) (switch : Switch) :
    (flags.add request).has switch = true ↔
      flags.has switch = true ∨ .part switch = request := by
  cases request with
  | input name => cases switch <;> simp [add, has]
  | output name => cases switch <;> simp [add, has]
  | part asked => cases asked <;> cases switch <;> simp [add, has]

/-- A part that has been asked for stays so. -/
theorem has_foldl_add
    (switch : Switch)
    (requests : List Request)
    (flags : Flags) :
    (requests.foldl add flags).has switch = true ↔
      flags.has switch = true ∨ .part switch ∈ requests := by
  induction requests generalizing flags with
  | nil => simp
  | cons request requests inductionHypothesis =>
      rw [List.foldl_cons, inductionHypothesis, has_add, List.mem_cons, or_assoc]

section OfRequests

variable (requests : List Request)

/-- The input is what the last argument names that names one. -/
theorem input_ofRequests :
    (ofRequests requests).input = lastName Request.input? requests :=
  foldl_add_name
    (fun flags request => by rcases request with _ | _ | ⟨_ | _ | _ | _⟩ <;> rfl)
    requests {}

/-- The output is what the last option names that names one. -/
theorem output_ofRequests :
    (ofRequests requests).output = lastName Request.output? requests :=
  foldl_add_name
    (fun flags request => by rcases request with _ | _ | ⟨_ | _ | _ | _⟩ <;> rfl)
    requests {}

/-- Requests ask for the parts that are among them. -/
theorem has_ofRequests (switch : Switch) :
    (ofRequests requests).has switch = true ↔ .part switch ∈ requests := by
  have atFirst : ({} : Flags).has switch = false := by cases switch <;> rfl
  rw [ofRequests, has_foldl_add, atFirst]
  simp

end OfRequests

end Flags

/-- No option can be taken for the name of an input. -/
theorem hyphened_of_mem_optionSpellings
    {argument : Text}
    (isOption : argument ∈ optionSpellings) :
    argument.startsWith hyphen = true := by
  have all : ∀ option ∈ optionSpellings, Text.startsWith option hyphen = true := by
    decide
  exact all argument isOption

/-- What is no option is an input's name unless it begins with a hyphen. -/
theorem readFlags_of_noOption
    {argument : Text}
    (noOption : argument ∉ optionSpellings)
    (flags : Flags)
    (rest : List Text) :
    readFlags flags (argument :: rest) =
      if argument.startsWith hyphen then
        .error (.unknownOption argument)
      else
        readFlags { flags with input := argument } rest := by
  simp only [optionSpellings, outputSpellings, helpSpellings, Switch.spellings,
    List.mem_append, List.mem_pair, not_or] at noOption
  rw [readFlags.eq_def]
  simp only [noOption, asksForHelp, or_self, if_false, decide_false,
    Bool.false_eq_true]
  rfl

/-- Both spellings of a part ask for it. -/
theorem readFlags_of_part
    {argument : Text}
    {switch : Switch}
    (isSpelling : argument ∈ switch.spellings)
    (flags : Flags)
    (rest : List Text) :
    readFlags flags (argument :: rest) =
      readFlags (flags.add (.part switch)) rest := by
  rw [readFlags.eq_def]
  cases switch <;> rcases List.mem_pair.mp isSpelling with rfl | rfl <;> rfl

/-- A request is read as a whole, whatever has been asked for before. -/
theorem readFlags_of_spells
    {first : List Text}
    {request : Request}
    (spelled : Spells first request)
    (flags : Flags)
    (rest : List Text) :
    readFlags flags (first ++ rest) = readFlags (flags.add request) rest := by
  cases spelled with
  | @input name plain =>
      have noOption : name ∉ optionSpellings := fun isOption => by
        cases plain.symm.trans (hyphened_of_mem_optionSpellings isOption)
      rw [List.singleton_append, readFlags_of_noOption noOption, plain]
      rfl
  | output isOption name =>
      rcases List.mem_pair.mp isOption with rfl | rfl <;> rfl
  | part switch isSpelling => exact readFlags_of_part isSpelling flags rest

/-- What cannot be read, or need not be, is all that counts from there on. -/
theorem readFlags_of_stops
    {arguments : List Text}
    {defect : UsageDefect}
    (stops : Stops arguments defect)
    (flags : Flags) :
    readFlags flags arguments = .error defect := by
  cases stops with
  | help asks =>
      rw [readFlags.eq_def]
      rcases List.mem_pair.mp asks with rfl | rfl <;> rfl
  | unnamed isOption =>
      rcases List.mem_pair.mp isOption with rfl | rfl <;> rfl
  | unknown hyphened noOption =>
      rw [readFlags_of_noOption noOption, if_pos hyphened]

/-- What flags are, after requests and what comes after them. -/
def flagsAfter (flags : Flags) (requests : List Request) :
    Option UsageDefect → Except UsageDefect Flags
  | none => .ok (requests.foldl Flags.add flags)
  | some defect => .error defect

/-- Flags are read request by request, up to the end or the defect. -/
theorem readFlags_of_reads
    {arguments : List Text}
    {requests : List Request}
    {ending : Option UsageDefect}
    (reads : Reads arguments requests ending)
    (flags : Flags) :
    readFlags flags arguments = flagsAfter flags requests ending := by
  induction reads generalizing flags with
  | done => rfl
  | stopped stops => exact readFlags_of_stops stops flags
  | @cons first rest request requests ending spelled later inductionHypothesis =>
      rw [readFlags_of_spells spelled, inductionHypothesis]
      cases ending <;> rfl

/-- Each request takes an argument at least. -/
theorem Spells.ne_nil
    {first : List Text}
    {request : Request}
    (spelled : Spells first request) :
    first ≠ [] := by
  cases spelled <;> exact List.cons_ne_nil _ _

/-- Where there are no arguments, there is nothing to read. -/
theorem Reads.of_nil
    {arguments : List Text}
    {requests : List Request}
    {ending : Option UsageDefect}
    (reads : Reads arguments requests ending)
    (isEmpty : arguments = []) :
    requests = [] ∧ ending = none := by
  cases reads with
  | done => exact ⟨rfl, rfl⟩
  | stopped stops => cases stops <;> cases isEmpty
  | cons spelled later =>
      exact absurd (List.append_eq_nil_iff.mp isEmpty).1 spelled.ne_nil

/-- All arguments can be read, up to a defect. -/
theorem exists_reads (arguments : List Text) :
    ∃ requests ending, Reads arguments requests ending := by
  have later
      {first rest : List Text}
      {request : Request}
      (spelled : Spells first request)
      (found : ∃ requests ending, Reads rest requests ending) :
      ∃ requests ending, Reads (first ++ rest) requests ending :=
    let ⟨requests, ending, reads⟩ := found
    ⟨request :: requests, ending, .cons spelled reads⟩
  -- Which flags there are decides nothing.
  suffices found :
      ∀ _ : Flags, ∃ requests ending, Reads arguments requests ending from
    found {}
  intro flags
  fun_induction readFlags flags arguments
  case case1 => exact ⟨[], none, .done⟩
  case case2 isOption =>
    exact ⟨[], _, .stopped (.unnamed (List.mem_pair.mpr isOption))⟩
  case case3 isOption name rest inductionHypothesis =>
    exact later (.output (List.mem_pair.mpr isOption) name) inductionHypothesis
  case case4 _ asked inductionHypothesis =>
    exact later (.part .assemble (List.mem_pair.mpr asked)) inductionHypothesis
  case case5 asked inductionHypothesis =>
    exact later (.part .run (List.mem_pair.mpr asked)) inductionHypothesis
  case case6 asked inductionHypothesis =>
    exact later (.part .verbose (List.mem_pair.mpr asked)) inductionHypothesis
  case case7 asked inductionHypothesis =>
    exact later (.part .list (List.mem_pair.mpr asked)) inductionHypothesis
  case case8 asks =>
    exact ⟨[], _, .stopped (.help (List.mem_pair.mpr (of_decide_eq_true asks)))⟩
  case case9 noOutput noAssemble noRun noVerbose noList noHelp hyphened =>
    refine ⟨[], _, .stopped (.unknown hyphened ?_)⟩
    simp only [asksForHelp, decide_eq_true_eq] at noHelp
    simp only [optionSpellings, outputSpellings, helpSpellings,
      Switch.spellings, List.mem_append, List.mem_pair, noOutput, noAssemble,
      noRun, noVerbose, noList, noHelp, or_self, not_false_eq_true]
  case case10 plain inductionHypothesis =>
    exact later (.input (Bool.eq_false_iff.mpr plain)) inductionHypothesis

/-! ## What is asked for -/

/-- The file that requests select to be written, if any. -/
inductive Selects (requests : List Request) (input : Text) :
    Option Text → Prop
  /-- The one that is named. -/
  | named (given : lastName Request.output? requests ≠ []) :
      Selects requests input (some (lastName Request.output? requests))
  /-- None if the program is run or listed. -/
  | unneeded (ungiven : lastName Request.output? requests = [])
      (shown : .part .run ∈ requests ∨ .part .list ∈ requests) :
      Selects requests input none
  /-- The one beside the input if nothing else is to be done. -/
  | beside {image : Text} (ungiven : lastName Request.output? requests = [])
      (unrun : .part .run ∉ requests)
      (unlisted : .part .list ∉ requests)
      (imageNamed : ImageNamed input image) :
      Selects requests input (some image)

/-- The options that requests amount to. -/
structure AskedFor (requests : List Request) (options : Options) : Prop where
  input : options.input = lastName Request.input? requests
  nonempty : options.input ≠ []
  output : Selects requests options.input options.output
  assembles_iff : options.assembles = true ↔ .part .assemble ∈ requests
  runs_iff : options.runs = true ↔ .part .run ∈ requests
  verbose_iff : options.verbose = true ↔ .part .verbose ∈ requests
  lists_iff : options.lists = true ↔ .part .list ∈ requests

/-- Arguments can be read to their end and ask for options. -/
def AskedBy (arguments : List Text) (options : Options) : Prop :=
  ∃ requests, Reads arguments requests none ∧ AskedFor requests options

/-- Arguments ask for nothing that can be done, for a defect. -/
inductive Refused : List Text → UsageDefect → Prop
  /-- There are none. -/
  | noArguments : Refused [] .noArguments
  /-- There is a defect among them. -/
  | stopped {arguments : List Text} {requests : List Request}
      {defect : UsageDefect}
      (reads : Reads arguments requests (some defect)) :
      Refused arguments defect
  /-- No input is named, or only an empty name is. -/
  | missingInput {arguments : List Text} {requests : List Request}
      (nonempty : arguments ≠ [])
      (reads : Reads arguments requests none)
      (unnamed : lastName Request.input? requests = []) :
      Refused arguments .missingInput

/-- The options that flags amount to. -/
def ofFlags (flags : Flags) : Options where
  input := flags.input
  output := flags.selectedOutput
  assembles := flags.assembles
  runs := flags.runs
  verbose := flags.verbose
  lists := flags.lists

section Requests

variable {requests : List Request} {options : Options}

/-- The output that flags select is the one that requests select. -/
theorem selects_selectedOutput :
    Selects requests (Flags.ofRequests requests).input
      (Flags.ofRequests requests).selectedOutput := by
  have output := Flags.output_ofRequests requests
  have run_iff := Flags.has_ofRequests requests .run
  have list_iff := Flags.has_ofRequests requests .list
  simp only [Flags.has] at run_iff list_iff
  unfold Flags.selectedOutput
  by_cases given : lastName Request.output? requests = []
  · simp only [output, given, List.isEmpty_nil, Bool.not_true,
      Bool.false_eq_true, if_false, Bool.or_eq_true, run_iff, list_iff]
    split
    · next shown => exact .unneeded given shown
    · next idle =>
        obtain ⟨unrun, unlisted⟩ := not_or.mp idle
        exact .beside given unrun unlisted (imageNamed_imageName _)
  · have isGiven : (!(lastName Request.output? requests).isEmpty) = true := by
      simpa using given
    rw [output, if_pos isGiven]
    exact .named given

/-- The flags of requests give the options that are asked for. -/
theorem askedFor_ofFlags
    (nonempty : lastName Request.input? requests ≠ []) :
    AskedFor requests (ofFlags (Flags.ofRequests requests)) where
  input := Flags.input_ofRequests requests
  nonempty := by
    rw [ofFlags, Flags.input_ofRequests]
    exact nonempty
  output := selects_selectedOutput
  assembles_iff := Flags.has_ofRequests requests .assemble
  runs_iff := Flags.has_ofRequests requests .run
  verbose_iff := Flags.has_ofRequests requests .verbose
  lists_iff := Flags.has_ofRequests requests .list

/-- Requests select one output. -/
theorem Selects.eq
    {input : Text}
    {output other : Option Text}
    (selects : Selects requests input output)
    (selectsOther : Selects requests input other) :
    output = other := by
  cases selects with
  | named given =>
      cases selectsOther with
      | named _ => rfl
      | unneeded ungiven _ => exact absurd ungiven given
      | beside ungiven _ _ _ => exact absurd ungiven given
  | unneeded ungiven shown =>
      cases selectsOther with
      | named given => exact absurd ungiven given
      | unneeded _ _ => rfl
      | beside _ unrun unlisted _ => exact absurd shown (not_or.mpr ⟨unrun, unlisted⟩)
  | beside ungiven unrun unlisted imageNamed =>
      cases selectsOther with
      | named given => exact absurd ungiven given
      | unneeded _ shown => exact absurd shown (not_or.mpr ⟨unrun, unlisted⟩)
      | beside _ _ _ otherNamed => rw [← imageNamed.eq, otherNamed.eq]

/-- Requests amount to one thing. -/
theorem AskedFor.eq
    {other : Options}
    (asked : AskedFor requests options)
    (askedOther : AskedFor requests other) :
    options = other := by
  have input := asked.input.trans askedOther.input.symm
  have output : options.output = other.output := by
    refine asked.output.eq ?_
    rw [input]
    exact askedOther.output
  have assembles :=
    Bool.eq_iff_iff.mpr (asked.assembles_iff.trans askedOther.assembles_iff.symm)
  have runs := Bool.eq_iff_iff.mpr (asked.runs_iff.trans askedOther.runs_iff.symm)
  have verbose :=
    Bool.eq_iff_iff.mpr (asked.verbose_iff.trans askedOther.verbose_iff.symm)
  have lists :=
    Bool.eq_iff_iff.mpr (asked.lists_iff.trans askedOther.lists_iff.symm)
  cases options
  cases other
  simp only at input output assembles runs verbose lists
  subst input output assembles runs verbose lists
  rfl

end Requests

section Arguments

variable {arguments : List Text}

/-- What arguments ask for is said by what is read of them. -/
theorem ofArguments_of_reads
    {requests : List Request}
    {ending : Option UsageDefect}
    (nonempty : arguments ≠ [])
    (reads : Reads arguments requests ending) :
    ofArguments arguments =
      match ending with
      | some defect => .error defect
      | none =>
          if lastName Request.input? requests = [] then
            .error .missingInput
          else
            .ok (ofFlags (Flags.ofRequests requests)) := by
  have flagsRead := readFlags_of_reads reads {}
  unfold ofArguments
  rw [if_neg (by simpa using nonempty), flagsRead]
  cases ending with
  | some defect => rfl
  | none =>
      simp only [flagsAfter, ← Flags.input_ofRequests, List.isEmpty_iff]
      rfl

/-- Arguments give options exactly if they ask for them. -/
theorem ofArguments_eq_ok_iff {options : Options} :
    ofArguments arguments = .ok options ↔ AskedBy arguments options := by
  constructor
  · intro understood
    obtain ⟨requests, ending, reads⟩ := exists_reads arguments
    have nonempty : arguments ≠ [] := by
      rintro rfl
      cases understood
    rw [ofArguments_of_reads nonempty reads] at understood
    cases ending with
    | some defect => cases understood
    | none =>
        simp only at understood
        split at understood
        · cases understood
        · next named =>
            cases understood
            exact ⟨requests, reads, askedFor_ofFlags named⟩
  · rintro ⟨requests, reads, asked⟩
    have named : lastName Request.input? requests ≠ [] :=
      asked.input ▸ asked.nonempty
    have nonempty : arguments ≠ [] := fun isEmpty => by
      obtain ⟨rfl, _⟩ := reads.of_nil isEmpty
      exact named rfl
    rw [ofArguments_of_reads nonempty reads]
    simp only [if_neg named]
    rw [asked.eq (askedFor_ofFlags named)]

/-- Arguments give a defect exactly if they are refused for it. -/
theorem ofArguments_eq_error_iff {defect : UsageDefect} :
    ofArguments arguments = .error defect ↔ Refused arguments defect := by
  constructor
  · intro refused
    by_cases nonempty : arguments = []
    · subst nonempty
      cases refused
      exact .noArguments
    · obtain ⟨requests, ending, reads⟩ := exists_reads arguments
      rw [ofArguments_of_reads nonempty reads] at refused
      cases ending with
      | some other =>
          cases refused
          exact .stopped reads
      | none =>
          simp only at refused
          split at refused
          · next unnamed =>
              cases refused
              exact .missingInput nonempty reads unnamed
          · cases refused
  · intro refused
    cases refused with
    | noArguments => rfl
    | stopped reads =>
        have nonempty : arguments ≠ [] := fun isEmpty => by
          cases (reads.of_nil isEmpty).2
        rw [ofArguments_of_reads nonempty reads]
    | missingInput nonempty reads unnamed =>
        rw [ofArguments_of_reads nonempty reads]
        exact if_pos unnamed

end Arguments

end Options

end StackCode
