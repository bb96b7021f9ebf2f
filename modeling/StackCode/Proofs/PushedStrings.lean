import StackCode.Assembly
import StackCode.Proofs.CodePoints
import StackCode.Proofs.Stepping

namespace StackCode

/-!
# Strings that are pushed are printed

The instructions that push a text leave its code points on the stack, the first one
on top, above a terminating zero. Printing takes values from there down to the first
zero. So a string is printed up to its first NUL, and what comes after that stays on
the stack together with the terminator. Along the way each instruction goes on to
the next one, one step each.
-/

namespace Word

/-- A code point is a word and no other number. -/
theorem toInt_wrap_of_le
    {point : Nat}
    (inRange : point ≤ 0x10FFFF) :
    (wrap point).toInt = point :=
  toInt_wrap_of_mem_range (by unfold least greatest; omega)

/-- A code point that is pushed is a character again. -/
theorem codePoint?_wrap
    {point : Nat}
    (inRange : point ≤ 0x10FFFF) :
    codePoint? (wrap point) = some point := by
  rw [codePoint?, toInt_wrap_of_le inRange, if_pos]
  · rfl
  · unfold greatestCodePoint
    omega

/-- No other code point is pushed as the zero that ends a string. -/
theorem wrap_ne_zero
    {point : Nat}
    (inRange : point ≤ 0x10FFFF)
    (nonzero : point ≠ 0) :
    wrap point ≠ 0 := by
  intro isZero
  have value := toInt_wrap_of_le inRange
  rw [isZero] at value
  exact nonzero (Int.ofNat_inj.mp value.symm)

end Word

namespace Effect

/-- Printing takes code points down to the first zero, and the zero with them. -/
theorem printString_append_zero
    {points : List Nat}
    (printable : ∀ point ∈ points, point ≠ 0 ∧ point ≤ 0x10FFFF)
    (next : Nat)
    (rest : Stack) :
    printString next (points.map (fun point : Nat => Word.wrap point) ++ 0 :: rest) =
      { stack := rest
        printed := points.map Text.ofCodePoint
        outcome := .proceed next } := by
  induction points with
  | nil =>
      simp [printString, goTo]
  | cons point others inductionHypothesis =>
      obtain ⟨nonzero, inRange⟩ := printable point List.mem_cons_self
      have later := inductionHypothesis fun other member =>
        printable other (List.mem_cons_of_mem _ member)
      rw [List.map_cons, List.cons_append, printString,
        if_neg (Word.wrap_ne_zero inRange nonzero),
        Word.codePoint?_wrap inRange, later]
      rfl

end Effect

namespace Machine

/-- A machine whose program has given instructions from its pointer on. -/
def Ahead (instructions : List Instruction) (machine : Machine) : Prop :=
  ∀ (index : Nat) (instruction : Instruction),
    instructions[index]? = some instruction →
    machine.program[machine.pointer + index]? = some instruction

/-- A machine that is not asked before any of a number of instructions. -/
def UnaskedFor (count : Nat) (machine : Machine) : Prop :=
  ∀ offset < count,
    (machine.annotations.verbose &&
      machine.annotations.breaksAt ↑(machine.pointer + offset)) = false

/-- What is ahead begins with what is ahead first. -/
theorem Ahead.of_append
    {machine : Machine}
    {first second : List Instruction}
    (ahead : machine.Ahead (first ++ second)) :
    machine.Ahead first := by
  intro index instruction inFirst
  have within : index < first.length :=
    (List.getElem?_eq_some_iff.mp inFirst).1
  apply ahead
  rw [List.getElem?_append_left within, inFirst]

/-- Fewer instructions ask for nothing if more do not. -/
theorem UnaskedFor.of_le
    {machine : Machine}
    {count more : Nat}
    (fewer : count ≤ more)
    (unasked : machine.UnaskedFor more) :
    machine.UnaskedFor count :=
  fun offset within => unasked offset (Nat.lt_of_lt_of_le within fewer)

/-- Nothing is asked before any of these instructions, whatever the stack is then. -/
theorem stopsAtBreakpoint_of_unasked
    {machine : Machine}
    {count : Nat}
    (unasked : machine.UnaskedFor count)
    {offset : Nat}
    (within : offset < count)
    (stack : Stack) :
    (machine.movedTo (machine.pointer + offset) stack).stopsAtBreakpoint =
      false := by
  have notAsked := unasked offset within
  rw [Bool.and_eq_false_iff] at notAsked
  rw [stopsAtBreakpoint, Bool.and_eq_false_iff, Bool.and_eq_false_iff]
  rcases notAsked with quiet | passes
  · exact Or.inl (Or.inl quiet)
  · exact Or.inr passes

end Machine

namespace Session

variable {σ : Type} [Respondent σ] {session : Session σ}

/-- Each of a row of pushes takes one step, which fails at nothing. -/
theorem stepped_pushes
    {values : List Word}
    (running : session.machine.status = .running)
    (ahead : session.machine.Ahead (values.map .push))
    (unasked : session.machine.UnaskedFor values.length)
    {count : Nat}
    (within : count ≤ values.length) :
    stepped count session =
        session.movedTo (session.machine.pointer + count)
          ((values.take count).reverse ++ session.machine.stack) [] ∧
      reports count session = List.replicate count (.ok true) := by
  -- On how many have been executed, so that the row and the program stay as they are.
  induction count with
  | zero => exact ⟨session.movedTo_self.symm, rfl⟩
  | succ count inductionHypothesis =>
      obtain ⟨reached, reported⟩ :=
        inductionHypothesis (Nat.le_of_succ_le within)
      have pushed : values[count]? = some values[count] :=
        List.getElem?_eq_getElem within
      have found :
          session.machine.program[session.machine.pointer + count]? =
            some (.push values[count]) := by
        apply ahead
        rw [List.getElem?_map, pushed]
        rfl
      have longer :
          (values.take (count + 1)).reverse =
            values[count] :: (values.take count).reverse := by
        rw [← List.take_append_getElem within, List.reverse_concat]
      have stepsOn :
          (stepped count session).step =
            (.ok true,
              session.movedTo (session.machine.pointer + (count + 1))
                ((values.take (count + 1)).reverse ++ session.machine.stack)
                []) := by
        rw [reached]
        have pushes :=
          @step_of_proceed σ _
            (session.movedTo (session.machine.pointer + count)
              ((values.take count).reverse ++ session.machine.stack) [])
            _ _ _ _ running
            (Machine.stopsAtBreakpoint_of_unasked unasked within _) found rfl
        rw [pushes, movedTo_movedTo, machine_movedTo, Machine.pointer_movedTo,
          Machine.stack_movedTo, Nat.add_assoc, longer]
        rfl
      rw [stepped, reports, stepsOn, reported]
      exact ⟨rfl, List.replicate_succ'.symm⟩

/-- The words that the instructions of a text push, the terminator first. -/
def pushedWords (text : Text) : List Word :=
  0 :: text.codePoints.reverse.map fun (point : Nat) => Word.wrap point

/-- A string is pushed word by word. -/
theorem stringInstructions_eq (text : Text) :
    stringInstructions text = (pushedWords text).map .push := by
  simp [stringInstructions, pushedWords]

/-- There is a word for each code point and one more for the end. -/
theorem length_pushedWords (text : Text) :
    (pushedWords text).length = text.codePoints.length + 1 := by
  simp [pushedWords]

/--
Pushing a text and printing ends after the first of its NULs, or after its own
terminator: what stands before that is printed and what stands below it is left.
-/
theorem stepped_string
    {text first : Text}
    {left : Stack}
    (running : session.machine.status = .running)
    (ahead :
      session.machine.Ahead
        (stringInstructions text ++ [.operate .printString]))
    (unasked : session.machine.UnaskedFor (text.codePoints.length + 2))
    (noNul : 0 ∉ first)
    (shape :
      (text.codePoints.map fun (point : Nat) => Word.wrap point) ++
          0 :: session.machine.stack =
        (first.codePoints.map fun (point : Nat) => Word.wrap point) ++
          0 :: left) :
    stepped (text.codePoints.length + 2) session =
        session.movedTo
          (session.machine.pointer + (text.codePoints.length + 2)) left
          (first.codePoints.map Text.ofCodePoint) ∧
      reports (text.codePoints.length + 2) session =
        List.replicate (text.codePoints.length + 2) (.ok true) := by
  have size := length_pushedWords text
  rw [stringInstructions_eq] at ahead
  have printAhead :
      session.machine.program[session.machine.pointer +
          (text.codePoints.length + 1)]? =
        some (.operate .printString) := by
    apply ahead
    rw [List.getElem?_append_right (Nat.le_of_eq (by rw [List.length_map, size])),
      List.length_map, size, Nat.sub_self]
    rfl
  have pushesUnasked : session.machine.UnaskedFor (pushedWords text).length := by
    rw [size]
    exact unasked.of_le (Nat.le_succ _)
  obtain ⟨reached, reported⟩ :=
    stepped_pushes running ahead.of_append pushesUnasked (Nat.le_refl _)
  have pushedStack :
      ((pushedWords text).take (pushedWords text).length).reverse ++
          session.machine.stack =
        (first.codePoints.map fun (point : Nat) => Word.wrap point) ++
          0 :: left := by
    rw [List.take_length, pushedWords, List.reverse_cons, ← List.map_reverse,
      List.reverse_reverse, List.append_assoc, List.singleton_append, shape]
  rw [pushedStack, size] at reached
  rw [size] at reported
  have printable :
      ∀ point ∈ first.codePoints, point ≠ 0 ∧ point ≤ 0x10FFFF :=
    fun point member =>
      ⟨Text.ne_zero_of_mem_codePoints noNul member,
        first.codePoints_le point member⟩
  have stepsOn :
      (stepped (text.codePoints.length + 1) session).step =
        (.ok true,
          session.movedTo
            (session.machine.pointer + (text.codePoints.length + 2)) left
            (first.codePoints.map Text.ofCodePoint)) := by
    rw [reached]
    have prints :=
      @step_of_proceed σ _
        (session.movedTo
          (session.machine.pointer + (text.codePoints.length + 1))
          ((first.codePoints.map fun (point : Nat) => Word.wrap point) ++
            0 :: left) [])
        _ _ _ _ running
        (Machine.stopsAtBreakpoint_of_unasked unasked (Nat.lt_succ_self _) _)
        printAhead (Effect.printString_append_zero printable _ left)
    rw [prints, movedTo_movedTo]
    rfl
  rw [stepped, reports, stepsOn, reported]
  exact ⟨rfl, List.replicate_succ'.symm⟩

/-- Instructions that stand in a program stand ahead of a machine before them. -/
theorem ahead_of_toList
    {machine : Machine}
    {before block : List Instruction}
    (after : List Instruction)
    (program : machine.program.toList = before ++ (block ++ after))
    (pointer : machine.pointer = before.length) :
    machine.Ahead block := by
  intro index instruction inBlock
  have within : index < block.length := (List.getElem?_eq_some_iff.mp inBlock).1
  rw [← Array.getElem?_toList, program, pointer,
    List.getElem?_append_right (Nat.le_add_right _ _), Nat.add_sub_cancel_left,
    List.getElem?_append_left within, inBlock]

omit [Respondent σ] in
/-- The code points of a text without a NUL print that text. -/
theorem flatten_output_movedTo
    (address : Nat)
    (stack : Stack)
    (text : Text) :
    (session.movedTo address stack
        (text.codePoints.map Text.ofCodePoint)).output.flatten =
      session.output.flatten ++ text := by
  rw [output_movedTo, List.flatten_append, ← List.flatMap_def]
  exact congrArg (session.output.flatten ++ ·) text.ofCodePoints_codePoints

/-- A NUL in a text ends the string that is on the stack after it is pushed. -/
theorem codePoints_append_nul_append
    (first second : Text)
    (stack : Stack) :
    ((first ++ 0 :: second).codePoints.map fun (point : Nat) =>
        Word.wrap point) ++ 0 :: stack =
      (first.codePoints.map fun (point : Nat) => Word.wrap point) ++
        0 :: ((second.codePoints.map fun (point : Nat) => Word.wrap point) ++
          0 :: stack) := by
  rw [Text.codePoints_append_nul, List.map_append, List.map_cons,
    List.append_assoc, List.cons_append]
  rfl

/-- Whatever text is pushed, a string without a NUL and its end are on top. -/
theorem exists_first_string (text : Text) (stack : Stack) :
    ∃ (first : Text) (left : Stack),
      0 ∉ first ∧
        (text.codePoints.map fun (point : Nat) => Word.wrap point) ++
            0 :: stack =
          (first.codePoints.map fun (point : Nat) => Word.wrap point) ++
            0 :: left := by
  by_cases hasNul : 0 ∈ text
  · obtain ⟨first, second, rfl, noNul⟩ := List.eq_append_cons_of_mem hasNul
    exact ⟨first, _, noNul, codePoints_append_nul_append first second stack⟩
  · exact ⟨text, stack, hasNul, rfl⟩

/--
Pushing a text and printing it are inverse, wherever the instructions stand in a
program and whatever stands on the stack.

Assembly emits one push for each code point of the text and one for the terminator.
They and the printing take one step each, all of which succeed. A text without a NUL
is printed as it is and nothing is left; of any other text the part before its first
NUL is printed, and its remaining code points are left, the first of them on top,
above the terminator.
-/
theorem pushed_string_is_printed
    (session : Session σ)
    (text : Text)
    (before after : List Instruction)
    (program :
      session.machine.program.toList =
        before ++ (stringInstructions text ++ .operate .printString :: after))
    (pointer : session.machine.pointer = before.length)
    (running : session.machine.status = .running)
    (unasked : session.machine.UnaskedFor (text.codePoints.length + 2)) :
    (∀ draft : Draft, ∃ longer,
      draft.add (.string text) = .ok longer ∧
        longer.program.toList =
          draft.program.toList ++ stringInstructions text) ∧
    (stringInstructions text).length = text.codePoints.length + 1 ∧
    (∀ instruction ∈ stringInstructions text, instruction.opcode = .push) ∧
    reports (text.codePoints.length + 2) session =
      List.replicate (text.codePoints.length + 2) (.ok true) ∧
    (∀ count ≤ text.codePoints.length + 2,
      (stepped count session).machine.pointer = before.length + count ∧
        (stepped count session).machine.status = .running) ∧
    (0 ∉ text →
      (stepped (text.codePoints.length + 2) session).output.flatten =
          session.output.flatten ++ text ∧
        (stepped (text.codePoints.length + 2) session).machine.stack =
          session.machine.stack) ∧
    ∀ first second : Text,
      text = first ++ 0 :: second →
      0 ∉ first →
      (stepped (text.codePoints.length + 2) session).output.flatten =
          session.output.flatten ++ first ∧
        (stepped (text.codePoints.length + 2) session).machine.stack =
          (second.codePoints.map fun (point : Nat) => Word.wrap point) ++
            0 :: session.machine.stack := by
  have ahead :
      session.machine.Ahead
        (stringInstructions text ++ [.operate .printString]) := by
    refine ahead_of_toList after ?_ pointer
    rw [program, List.append_assoc, List.singleton_append]
  have ends {first : Text} {left : Stack} (noNul : 0 ∉ first) :=
    @stepped_string σ _ session text first left running ahead unasked noNul
  obtain ⟨first, left, noNul, shape⟩ :=
    exists_first_string text session.machine.stack
  obtain ⟨ended, reported⟩ := ends noNul shape
  refine ⟨?_, ?_, ?_, reported, ?_, ?_, ?_⟩
  · intro draft
    refine ⟨_, rfl, ?_⟩
    rw [Draft.emit, Array.toList_appendList]
  · rw [stringInstructions_eq, List.length_map, length_pushedWords]
  · intro instruction member
    rw [stringInstructions_eq] at member
    obtain ⟨word, _, rfl⟩ := List.mem_map.mp member
    rfl
  · intro count within
    rcases Nat.lt_or_eq_of_le within with earlier | rfl
    · have pushesAhead := ahead.of_append
      have pushesUnasked := unasked.of_le (Nat.le_succ _)
      have among := Nat.le_of_lt_succ earlier
      rw [stringInstructions_eq] at pushesAhead
      rw [← length_pushedWords] at pushesUnasked among
      obtain ⟨reached, _⟩ :=
        stepped_pushes running pushesAhead pushesUnasked among
      rw [reached, ← pointer]
      exact ⟨rfl, running⟩
    · rw [ended, ← pointer]
      exact ⟨rfl, running⟩
  · intro noNulAtAll
    obtain ⟨printed, _⟩ := ends noNulAtAll rfl
    rw [printed]
    exact ⟨flatten_output_movedTo _ _ text, rfl⟩
  · rintro first second rfl noNulBefore
    obtain ⟨printed, _⟩ :=
      ends noNulBefore (codePoints_append_nul_append first second _)
    rw [printed]
    exact ⟨flatten_output_movedTo _ _ first, rfl⟩

/-- A text with a surrogate pair before a NUL and half of one after it. -/
def interrupted : Text :=
  [0x61, 0xD83D, 0xDE00, 0x00, 0xD800]

/-- A machine at the instructions of that text, past a breakpoint, above a value. -/
def interruptedPrinting : Machine where
  program :=
    (.operate .pop ::
      (stringInstructions interrupted ++
        [.operate .printString, .operate .exit])).toArray
  annotations := (Annotations.addBreakpoint 0 {}).setVerbose true
  pointer := 1
  stack := [5]

/-- The pair is printed as it is, and the half above the terminator is left. -/
theorem interrupted_is_printed :
    (stepped 6 (ofMachine interruptedPrinting ({} : Script))).output.flatten =
        [0x61, 0xD83D, 0xDE00] ∧
      (stepped 6 (ofMachine interruptedPrinting ({} : Script))).machine.stack =
        [0xD800, 0, 5] := by
  obtain ⟨_, _, _, _, _, _, printed⟩ :=
    pushed_string_is_printed (ofMachine interruptedPrinting ({} : Script))
      interrupted [.operate .pop] [.operate .exit] rfl rfl rfl
      (by unfold Machine.UnaskedFor; decide)
  exact printed [0x61, 0xD83D, 0xDE00] [0xD800] rfl (by decide)

end Session

end StackCode
