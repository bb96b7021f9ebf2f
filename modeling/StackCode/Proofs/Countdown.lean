import StackCode.Proofs.BackPatching
import StackCode.Proofs.Resumption
import StackCode.Proofs.WrittenLines

namespace StackCode

/-!
# Counting down

A program with one loop: it prints a number, takes one off and begins again until nothing
is left. `CountsDown` says which numbers that are, for every number a word can be: below
the least word comes the greatest. The program is followed through one turn of the loop,
and through all turns by induction on the numbers to come.
-/

namespace Session

variable {σ : Type} [Respondent σ]

/-- Steps lead a session to an address and a stack, and print texts on the way. -/
def Reaches
    (address : Nat)
    (stack : Stack)
    (printed : List Text)
    (session : Session σ) :
    Prop :=
  ∃ count, session.stepped count = session.movedTo address stack printed

namespace Reaches

variable
  {session : Session σ}
  {address goal : Nat}
  {stack left : Stack}
  {printed more : List Text}
  {instruction : Instruction}

/-- A session has reached the point where it is. -/
theorem start : session.Reaches session.machine.pointer session.machine.stack [] :=
  ⟨0, session.movedTo_self.symm⟩

variable
  (running : session.machine.status = .running)
  (quiet : session.machine.annotations.verbose = false)

include running quiet

/-- One step further, with what its instruction prints. -/
theorem print
    (reaches : session.Reaches address stack printed)
    (found : session.machine.program[address]? = some instruction)
    (effect :
      instruction.execute address stack =
        { stack := left, printed := more, outcome := .proceed goal }) :
    session.Reaches goal left (printed ++ more) := by
  obtain ⟨count, reached⟩ := reaches
  refine ⟨count + 1, ?_⟩
  have unasked :
      (session.movedTo address stack printed).machine.stopsAtBreakpoint = false :=
    Machine.stopsAtBreakpoint_of_quiet quiet
  have stepsOn :=
    (session.movedTo address stack printed).step_of_proceed running unasked found effect
  rw [stepped, reached, stepsOn, movedTo_movedTo]

/-- One step further, with nothing printed. -/
theorem next
    (reaches : session.Reaches address stack printed)
    (found : session.machine.program[address]? = some instruction)
    (effect : instruction.execute address stack = .goTo goal left) :
    session.Reaches goal left printed := by
  have further := reaches.print running quiet found effect
  rw [List.append_nil] at further
  exact further

/-- A session that reaches an exit halts there, with the code on top of the stack. -/
theorem returns_of_exit
    {code : Word}
    (reaches : session.Reaches address (code :: left) printed)
    (found : session.machine.program[address]? = some (.operate .exit)) :
    ∃ after,
      session.Returns (.ok code) after ∧
        after.machine =
          { session.machine.movedTo (address + 1) left with status := .halted code } ∧
        after.log = session.log ++ printed.map Event.printed := by
  obtain ⟨count, reached⟩ := reaches
  let last := session.movedTo address (code :: left) printed
  have unasked : last.machine.stopsAtBreakpoint = false :=
    Machine.stopsAtBreakpoint_of_quiet quiet
  have executed :
      last.machine.executeNext =
        ({ session.machine.movedTo (address + 1) left with status := .halted code },
          []) := by
    have instruction : last.machine.instruction? = some (.operate .exit) := found
    rw [Machine.executeNext, instruction]
    rfl
  have advanced := last.advance_of_unasked unasked
  have stepped : session.stepped (count + 1) = last.executeNext := by
    rw [Session.stepped, reached, ← advanced]
    exact congrArg Prod.snd (last.step_of_running running)
  have machine : last.executeNext.machine = _ := congrArg Prod.fst executed
  refine
    ⟨session.stepped (count + 1),
      returns_iff.mpr ⟨count + 1, ?_, endsAfter_of_quiet quiet _⟩, ?_, ?_⟩
  · rw [stepped, machine]
    rfl
  · rw [stepped, machine]
  · rw [stepped, Session.executeNext, executed]
    exact Array.append_empty

end Reaches

end Session

/-- Taking one off a word is exact, but for the least. -/
theorem Word.toInt_sub_one
    {value : Word}
    (notLeast : value.toInt ≠ -0x8000000000000000) :
    (value - 1).toInt = value.toInt - 1 := by
  have inRange := value.toInt_mem_range
  unfold least greatest at inRange
  have isWrapped : value - 1 = wrap (value.toInt - 1) := by
    rw [wrap, Int64.ofInt_sub, Int64.ofInt_toInt]
    rfl
  rw [isWrapped, toInt_wrap_of_mem_range]
  unfold least greatest
  omega

/--
The integers from a value down to one as words count them: the least is followed by the
greatest.
-/
inductive CountsDown : Int → List Int → Prop where
  | last : CountsDown 1 [1]
  | next
      {value : Int}
      {rest : List Int}
      (notLast : value ≠ 1)
      (notLeast : value ≠ -0x8000000000000000)
      (counts : CountsDown (value - 1) rest) :
      CountsDown value (value :: rest)
  | wrap
      {rest : List Int}
      (counts : CountsDown 0x7FFFFFFFFFFFFFFF rest) :
      CountsDown (-0x8000000000000000) (-0x8000000000000000 :: rest)

namespace CountsDown

/-- From every positive number there is a countdown, and it takes that many turns. -/
theorem exists_of_positive
    (number : Nat)
    (positive : 0 < number) :
    ∃ values, CountsDown number values ∧ values.length = number := by
  induction number with
  | zero => exact absurd positive (Nat.lt_irrefl 0)
  | succ number inductionHypothesis =>
      by_cases isZero : number = 0
      · subst isZero
        exact ⟨[1], .last, rfl⟩
      · obtain ⟨rest, counts, length⟩ :=
          inductionHypothesis (Nat.pos_of_ne_zero isZero)
        have before : ((number + 1 : Nat) : Int) - 1 = number := by omega
        exact
          ⟨_, .next (by omega) (by omega) (before ▸ counts),
            congrArg Nat.succ length⟩

/-- Whatever is not positive passes the least word, and then all positive ones. -/
theorem exists_of_nonpositive
    (distance : Nat)
    (nonpositive : distance ≤ 0x8000000000000000) :
    ∃ values,
      CountsDown (-0x8000000000000000 + distance) values ∧
        values.length = distance + 0x8000000000000000 := by
  induction distance with
  | zero =>
      obtain ⟨rest, counts, length⟩ := exists_of_positive 0x7FFFFFFFFFFFFFFF (by decide)
      rw [Int.natCast_zero, Int.add_zero]
      refine ⟨_, .wrap counts, ?_⟩
      rw [List.length_cons]
      omega
  | succ distance inductionHypothesis =>
      obtain ⟨rest, counts, length⟩ := inductionHypothesis (by omega)
      have before :
          -0x8000000000000000 + ((distance + 1 : Nat) : Int) - 1 =
            -0x8000000000000000 + distance := by
        omega
      refine ⟨_, .next (by omega) (by omega) (before ▸ counts), ?_⟩
      rw [List.length_cons]
      omega

/-- Every word is counted down from, and how many integers that are. -/
theorem exists_of_word (start : Word) :
    ∃ values,
      CountsDown start.toInt values ∧
        (values.length : Int) =
          if 0 < start.toInt then
            start.toInt
          else
            start.toInt + 0x10000000000000000 := by
  have inRange := start.toInt_mem_range
  unfold Word.least Word.greatest at inRange
  split
  next positive =>
    have isNumber : (start.toInt.toNat : Int) = start.toInt := by omega
    obtain ⟨values, counts, length⟩ := exists_of_positive start.toInt.toNat (by omega)
    rw [isNumber] at counts
    exact ⟨values, counts, by omega⟩
  next =>
    have atLeast : 0 ≤ start.toInt + 0x8000000000000000 := by omega
    obtain ⟨distance, isStart⟩ := Int.eq_ofNat_of_zero_le atLeast
    have shape : start.toInt = -0x8000000000000000 + distance := by omega
    obtain ⟨values, counts, length⟩ := exists_of_nonpositive distance (by omega)
    rw [← shape] at counts
    exact ⟨values, counts, by omega⟩

end CountsDown

namespace Countdown

/-- The first line of the program's source, which says nothing. -/
def commentLine : Text :=
  "; print 3, 2, 1"

/-- The lines of the program's source after the one that pushes the first value. -/
def loopLines : List Text :=
  ["loop:",
    "    DUP",
    "    PRINTOUT",
    "    PUSH 1",
    "    SWAP          ; 1 n",
    "    SUB           ; n - 1 (top minus second)",
    "    DUP",
    "    PUSH loop",
    "    JNZ           ; loop while n != 0",
    "    EXIT          ; exit code 0"]

/-- The lines of the program's source after its comment. -/
def codeLines (start : Text) : List Text :=
  ("    PUSH " ++ start) :: loopLines

/-- The program's source, with the text that it pushes first. -/
def source (start : Text) : Text :=
  Text.ofLines (commentLine :: codeLines start)

/-- The source of a countdown from three. -/
example :
    source "3" =
      ("; print 3, 2, 1\n    PUSH 3\nloop:\n    DUP\n    PRINTOUT\n    PUSH 1\n" ++
        "    SWAP          ; 1 n\n    SUB           ; n - 1 (top minus second)\n" ++
        "    DUP\n    PUSH loop\n    JNZ           ; loop while n != 0\n" ++
        "    EXIT          ; exit code 0\n" : Text) := by
  decide +kernel

/-- What the source says. -/
def statements (start : Word) : List Statement :=
  [.push (.word start), .label "loop", .operate .duplicate, .operate .printNumber,
    .push (.word 1), .operate .swap, .operate .subtract, .operate .duplicate,
    .push (.label "loop"), .operate .jumpIfNonzero, .operate .exit]

/-- The program, with the word that it pushes first. -/
def program (start : Word) : Program :=
  #[.push start, .operate .duplicate, .operate .printNumber, .push 1, .operate .swap,
    .operate .subtract, .operate .duplicate, .push 1, .operate .jumpIfNonzero,
    .operate .exit]

section Assembling

variable (start : Word)

/-- The lines of the program spell its statements. -/
theorem codeLines_spell : SpellAll (codeLines start.text) (statements start) where
  areLines := by
    have loopLinesAreLines :
        ∀ text ∈ loopLines,
          CodeUnit.lineFeed ∉ text ∧
            text.getLast? ≠ some CodeUnit.carriageReturn := by
      decide
    refine
      List.forall_mem_cons.mpr ⟨(Spells.push start).isLine, fun text member => ?_⟩
    obtain ⟨noFeed, noReturn⟩ := loopLinesAreLines text member
    exact { noFeed := noFeed, noReturn := noReturn }
  read := by
    have push :
        Statement.ofLine ("    PUSH " ++ start.text) =
          .ok (some (.push (.word start))) :=
      (Spells.push start).read
    rw [codeLines, List.map_cons, push]
    rfl

/-- The first line is a comment, and the others are the program. -/
theorem lines_source :
    (source start.text).lines = commentLine :: codeLines start.text := by
  have commentIsLine : commentLine.IsLine :=
    { noFeed := by decide, noReturn := by decide }
  exact Text.lines_ofLines
    (List.forall_mem_cons.mpr ⟨commentIsLine, (codeLines_spell start).areLines⟩)

/-- The source says what the program's statements are. -/
theorem statementsOf_source :
    TwoPass.statementsOf (source start.text).lines = statements start := by
  rw [lines_source]
  exact (codeLines_spell start).statementsOf_eq

/-- Nothing in the source is wrong. -/
theorem freeOfDefects_source : TwoPass.FreeOfDefects (source start.text).lines := by
  have nodup : ((statements start).filterMap Statement.defines?).Nodup :=
    List.pairwise_singleton _ _
  have codeFree := (codeLines_spell start).freeOfDefects nodup
  refine TwoPass.freeOfDefects_iff.mpr ⟨?_, ?_⟩
  · have codeRead := (TwoPass.freeOfDefects_iff.mp codeFree).1
    rw [lines_source]
    exact List.forall_mem_cons.mpr ⟨⟨none, rfl⟩, codeRead⟩
  · rw [statementsOf_source]
    exact nodup

/-- The source assembles to the program. -/
theorem exists_ofSource (file : Text) :
    ∃ assembly,
      Assembly.ofSource file (source start.text) = .ok assembly ∧
        assembly.program = program start := by
  have held := statementsOf_source start
  have resolved :
      TwoPass.unresolved (TwoPass.statementsOf (source start.text).lines) = [] := by
    rw [held]
    rfl
  have free := freeOfDefects_source start
  refine ⟨_, TwoPass.ofSource_of_resolved file free resolved, ?_⟩
  rw [held]
  rfl

end Assembling

/-- The line that the program prints for a value. -/
def line (value : Int) : Text :=
  Text.ofInt value ++ [CodeUnit.lineFeed]

section Running

open Session (Reaches)

variable
  {σ : Type}
  {session : Session σ}
  {start value : Word}
  {printed : List Text}
  (runs : session.machine.program = program start)

include runs

/-- The machine has the program's instructions at their addresses. -/
theorem found
    {address : Nat}
    {instruction : Instruction}
    (stands : (program start)[address]? = some instruction) :
    session.machine.program[address]? = some instruction := by
  rw [runs, stands]

variable
  [Respondent σ]
  (running : session.machine.status = .running)
  (quiet : session.machine.annotations.verbose = false)

include running quiet

/-- One turn of the loop, up to the decision whether to begin another. -/
theorem reaches_decision
    (reaches : session.Reaches 1 [value] printed) :
    session.Reaches 8 [1, value - 1, value - 1] (printed ++ [line value.toInt]) := by
  have copied : session.Reaches 2 [value, value] printed :=
    reaches.next running quiet (found runs rfl) rfl
  have shown : session.Reaches 3 [value] (printed ++ [line value.toInt]) :=
    copied.print running quiet (found runs rfl) rfl
  have pushed : session.Reaches 4 [1, value] (printed ++ [line value.toInt]) :=
    shown.next running quiet (found runs rfl) rfl
  have swapped : session.Reaches 5 [value, 1] (printed ++ [line value.toInt]) :=
    pushed.next running quiet (found runs rfl) rfl
  have lowered : session.Reaches 6 [value - 1] (printed ++ [line value.toInt]) :=
    swapped.next running quiet (found runs rfl) rfl
  have kept :
      session.Reaches 7 [value - 1, value - 1] (printed ++ [line value.toInt]) :=
    lowered.next running quiet (found runs rfl) rfl
  exact kept.next running quiet (found runs rfl) rfl

/-- A turn after which something is left is followed by another. -/
theorem reaches_turn
    (reaches : session.Reaches 1 [value] printed)
    (remains : value - 1 ≠ 0) :
    session.Reaches 1 [value - 1] (printed ++ [line value.toInt]) := by
  have decides :
      (Instruction.operate .jumpIfNonzero).execute 8 [1, value - 1, value - 1] =
        .goTo 1 [value - 1] :=
    if_pos remains
  exact
    (reaches_decision runs running quiet reaches).next running quiet (found runs rfl)
      decides

/-- The turn of one is the last. -/
theorem reaches_exit
    (reaches : session.Reaches 1 [1] printed) :
    session.Reaches 9 [0] (printed ++ [line 1]) :=
  (reaches_decision runs running quiet reaches).next running quiet (found runs rfl) rfl

/-- All turns of the loop, by the values that are still to be printed. -/
theorem reaches_exit_of_countsDown
    {values : List Int}
    (reaches : session.Reaches 1 [value] printed)
    (counts : CountsDown value.toInt values) :
    session.Reaches 9 [0] (printed ++ values.map line) := by
  generalize isValue : value.toInt = integer at counts
  -- At the beginning of each turn the stack holds the next value, and nothing else.
  induction counts generalizing value printed with
  | last =>
      obtain rfl : value = 1 := Int64.toInt_inj.mp isValue
      exact reaches_exit runs running quiet reaches
  | @next integer rest notLast notLeast _ inductionHypothesis =>
      have lowered : (value - 1).toInt = integer - 1 :=
        isValue ▸ Word.toInt_sub_one (isValue ▸ notLeast)
      have remains : value - 1 ≠ 0 := by
        intro isZero
        rw [isZero] at lowered
        exact notLast (Int.sub_eq_zero.mp lowered.symm)
      have turned := reaches_turn runs running quiet reaches remains
      have exits := inductionHypothesis turned lowered
      rw [isValue, List.append_assoc] at exits
      exact exits
  | @wrap rest _ inductionHypothesis =>
      obtain rfl : value = -0x8000000000000000 := Int64.toInt_inj.mp isValue
      have turned := reaches_turn runs running quiet reaches (by decide)
      have exits := inductionHypothesis turned (by decide)
      rw [List.append_assoc] at exits
      exact exits

end Running

/--
The program counts down from every word.

Its source assembles, with the word's text for the first operand, whatever the word is.
Run quietly, it halts with the exit code zero, nothing on the stack, and the pointer after
the last instruction. It has printed a line for each of the integers that are counted down
from the word's, and nothing else can be seen: as many lines as that integer if it is
positive, and 2⁶⁴ more than it if it is not.
-/
theorem every_word_is_counted_down
    {σ : Type}
    [Respondent σ]
    (file : Text)
    (start : Word)
    (width : Int)
    (respondent : σ) :
    ∃ (assembly : Assembly) (after : Session σ) (values : List Int),
      Assembly.ofSource file (source start.text) = .ok assembly ∧
        (Session.ofMachine
            { program := assembly.program
              annotations := assembly.annotations.setVerbose false
              width := width }
            respondent).Returns
          (.ok 0) after ∧
        after.machine.status = .halted 0 ∧
        after.machine.stack = [] ∧
        after.machine.pointer = 10 ∧
        CountsDown start.toInt values ∧
        (values.length : Int) =
          (if 0 < start.toInt then
            start.toInt
          else
            start.toInt + 0x10000000000000000) ∧
        after.log.toList = values.map fun value => .printed (line value) := by
  obtain ⟨assembly, assembled, isProgram⟩ := exists_ofSource start file
  obtain ⟨values, counts, length⟩ := CountsDown.exists_of_word start
  let session : Session σ :=
    .ofMachine
      { program := assembly.program
        annotations := assembly.annotations.setVerbose false
        width := width }
      respondent
  have runs : session.machine.program = program start := isProgram
  have running : session.machine.status = .running := rfl
  have quiet : session.machine.annotations.verbose = false := rfl
  have begun : session.Reaches 1 [start] [] :=
    Session.Reaches.start.next running quiet (found runs rfl) rfl
  have exits := reaches_exit_of_countsDown runs running quiet begun counts
  obtain ⟨after, returns, machine, log⟩ :=
    exits.returns_of_exit running quiet (found runs rfl)
  refine ⟨assembly, after, values, assembled, returns, ?_, ?_, ?_, counts, length, ?_⟩
  · rw [machine]
  · rw [machine]
    rfl
  · rw [machine]
    rfl
  · rw [log]
    simp only [session, Session.ofMachine, Array.toList_appendList, List.nil_append,
      List.map_map]
    rfl

end Countdown

end StackCode
