import StackCode.Listing
import StackCode.Proofs.Failures
import StackCode.Proofs.LiteralValues

namespace StackCode

/-!
# Listings lose nothing

The lines of a listing are told apart by their last units: a name's line ends with a
colon, whatever the name is, and an instruction's never does. All that stands before an
instruction in its line has a length that its address determines. So two listings that
are the same have been made of the same instructions, names and breakpoints.
-/

/-- A text is an address in small hexadecimal digits, four or as many as it needs. -/
structure SpellsAddress (address : Nat) (digits : Text) : Prop where
  spells : Literal.SpellsNumber 16 digits address
  small : ∀ unit ∈ digits, unit.lowerCase = unit
  length :
    digits.length = 4 ∨ 4 < digits.length ∧ 16 ^ (digits.length - 1) ≤ address

namespace Text

/-- Digits are written in small letters. -/
theorem lowerCase_of_mem_ofNatInBase
    {base : Nat}
    (baseLarge : 1 < base)
    (baseSmall : base ≤ 16)
    (number : Nat) :
    ∀ unit ∈ ofNatInBase base number, unit.lowerCase = unit := by
  have digitsAreSmall :
      ∀ digit : Fin 16,
        (CodeUnit.ofChar (Nat.digitChar digit)).lowerCase =
          CodeUnit.ofChar (Nat.digitChar digit) := by
    decide
  induction number using Nat.strongRecOn with
  | ind number inductionHypothesis =>
      have lastSmall : number % base < 16 :=
        Nat.lt_of_lt_of_le (Nat.mod_lt _ (by omega)) baseSmall
      rw [ofNatInBase, Nat.toDigits_eq_if baseLarge]
      split
      next oneDigit =>
        rw [Nat.mod_eq_of_lt oneDigit] at lastSmall
        rw [List.map_singleton, List.forall_mem_singleton]
        exact digitsAreSmall ⟨number, lastSmall⟩
      next =>
        have smaller : number / base < number := Nat.div_lt_self (by omega) baseLarge
        rw [List.map_append, List.map_singleton, List.forall_mem_append,
          List.forall_mem_singleton]
        exact ⟨inductionHypothesis _ smaller, digitsAreSmall ⟨_, lastSmall⟩⟩

end Text

/-- An address is written with four hexadecimal digits at least. -/
theorem addressText_natCast (address : Nat) :
    addressText address =
      List.replicate (4 - (Text.ofNatInBase 16 address).length) (CodeUnit.ofChar '0') ++
        Text.ofNatInBase 16 address := by
  rw [addressText, Text.ofIntInBase, if_neg (by omega)]
  rfl

/-- Address texts are what they are said to be. -/
theorem spellsAddress_addressText (address : Nat) :
    SpellsAddress address (addressText address) where
  spells := by
    rw [addressText_natCast]
    exact
      (Literal.spellsNumber_ofNatInBase (by decide) (by decide) address).zeros_append
        (by decide) _
  small := by
    rw [addressText_natCast, List.forall_mem_append]
    refine ⟨fun unit member => ?_, ?_⟩
    · rw [List.eq_of_mem_replicate member]
      decide
    · exact Text.lowerCase_of_mem_ofNatInBase (by decide) (by decide) address
  length := by
    have isLength :
        (Text.ofNatInBase 16 address).length = (Nat.toDigits 16 address).length :=
      List.length_map _
    rw [addressText_natCast, List.length_append, List.length_replicate, isLength]
    by_cases short : (Nat.toDigits 16 address).length ≤ 4
    · exact Or.inl (Nat.sub_add_cancel short)
    · have noneBefore : 4 - (Nat.toDigits 16 address).length = 0 := by omega
      rw [noneBefore, Nat.zero_add]
      refine Or.inr ⟨by omega, Nat.le_of_not_lt fun fewer => ?_⟩
      have fits := (Nat.length_toDigits_le_iff (by decide) (by omega)).mpr fewer
      omega

namespace Operation

/-- Every mnemonic is shorter than its column. -/
theorem length_mnemonic_lt (operation : Operation) :
    operation.mnemonic.length < Instruction.mnemonicColumns := by
  cases operation <;> decide

end Operation

namespace Instruction

/-- An operand begins behind the last column that a mnemonic may take. -/
theorem listingText_injective
    {first second : Instruction}
    (same : first.listingText = second.listingText) :
    first = second := by
  have longer (operand : Word) (operation : Operation) :
      (push operand).listingText ≠ (operate operation).listingText := by
    intro same
    have short := operation.length_mnemonic_lt
    have sameLength := congrArg List.length same
    simp only [listingText, Text.padRight, List.length_append, List.length_rightpad]
      at sameLength
    omega
  cases first with
  | push operand =>
      cases second with
      | push other =>
          rw [Word.text_injective (List.append_cancel_left same)]
      | operate operation => exact absurd same (longer operand operation)
  | operate operation =>
      cases second with
      | push operand => exact absurd same.symm (longer operand operation)
      | operate other =>
          have opcodes : Opcode.operate operation = Opcode.operate other :=
            Opcode.mnemonic_injective same
          cases opcodes
          rfl

/-- No instruction has the mark of a name in its text. -/
theorem colon_not_mem_listingText (instruction : Instruction) :
    CodeUnit.ofChar ':' ∉ instruction.listingText := by
  cases instruction with
  | push operand =>
      intro member
      rcases List.mem_append.mp member with inMnemonic | inOperand
      · revert inMnemonic
        decide
      · rcases Literal.mem_ofInt inOperand with isSign | isDecimal
        · revert isSign
          decide
        · revert isDecimal
          decide
  | operate operation => cases operation <;> decide

theorem listingText_ne_nil (instruction : Instruction) :
    instruction.listingText ≠ [] := by
  cases instruction with
  | push operand =>
      have padded : Opcode.push.mnemonic.padRight mnemonicColumns ≠ [] := by decide
      exact List.append_ne_nil_of_left_ne_nil padded _
  | operate operation => cases operation <;> decide

end Instruction

namespace Listing

/-- What stands before an instruction where the machine does, and elsewhere. -/
def pointerMark (current : Option Int) (address : Int) : Text :=
  if current = some address then ">>" else "  "

/-- What stands before an instruction at a breakpoint, and elsewhere. -/
def breakpointMark (annotations : Annotations) (address : Int) : Text :=
  if annotations.breaksAt address then "*" else " "

/-- The line that gives an address a name. -/
def nameLine (name : Text) : Text :=
  name ++ [CodeUnit.ofChar ':']

/-- Two listings show the same at an address beside the instruction. -/
structure AlikeAt
    (first second : Annotations)
    (firstCurrent secondCurrent : Option Int)
    (address : Nat) :
    Prop where
  label : first.labelAt? address = second.labelAt? address
  breakpoint : first.breaksAt address = second.breaksAt address
  current :
    firstCurrent = some (address : Int) ↔ secondCurrent = some (address : Int)

section Lines

variable {annotations other : Annotations} {current marked : Option Int}

/-- A line of an instruction is four parts with a space between any two. -/
theorem instructionLine_eq
    (annotations : Annotations)
    (current : Option Int)
    (address : Int)
    (instruction : Instruction) :
    instructionLine annotations current address instruction =
      addressText address ++ CodeUnit.space :: (pointerMark current address ++
        CodeUnit.space :: (breakpointMark annotations address ++
          CodeUnit.space :: instruction.listingText)) := by
  simp [instructionLine, Text.joined, List.intercalate, pointerMark, breakpointMark]

/-- What stands between an address and its instruction are the marks. -/
theorem exists_marks
    (annotations : Annotations)
    (current : Option Int)
    (address : Int)
    (instruction : Instruction) :
    ∃ marks,
      instructionLine annotations current address instruction =
        addressText address ++ CodeUnit.space :: (marks ++ instruction.listingText) := by
  refine
    ⟨pointerMark current address ++
        CodeUnit.space :: (breakpointMark annotations address ++ [CodeUnit.space]), ?_⟩
  simp only [instructionLine_eq, List.append_assoc, List.cons_append, List.nil_append]

/-- A name's line ends with a colon, and an instruction's does not. -/
theorem nameLine_ne_instructionLine
    (name : Text)
    (annotations : Annotations)
    (current : Option Int)
    (address : Int)
    (instruction : Instruction) :
    nameLine name ≠ instructionLine annotations current address instruction := by
  intro same
  obtain ⟨marks, shape⟩ := exists_marks annotations current address instruction
  have lastOfName : (nameLine name).getLast? = some (CodeUnit.ofChar ':') :=
    List.getLast?_concat
  have lastOfText :=
    List.getLast?_eq_some_getLast instruction.listingText_ne_nil
  rw [same, shape] at lastOfName
  simp only [List.getLast?_append, List.getLast?_cons, lastOfText, Option.getD_some,
    Option.some_or] at lastOfName
  rw [Option.some.inj lastOfName] at lastOfText
  exact instruction.colon_not_mem_listingText (List.mem_of_getLast? lastOfText)

/-- Which of two texts is chosen tells whether a condition holds. -/
theorem iff_of_ite_eq
    {first second : Prop}
    [Decidable first]
    [Decidable second]
    {yes no : Text}
    (differ : yes ≠ no)
    (same : (if first then yes else no) = if second then yes else no) :
    first ↔ second := by
  by_cases holds : first
  · rw [if_pos holds] at same
    by_cases alsoHolds : second
    · exact iff_of_true holds alsoHolds
    · rw [if_neg alsoHolds] at same
      exact absurd same differ
  · rw [if_neg holds] at same
    by_cases alsoHolds : second
    · rw [if_pos alsoHolds] at same
      exact absurd same.symm differ
    · exact iff_of_false holds alsoHolds

/-- The mark of the pointer takes two columns, whether it is there or not. -/
theorem length_pointerMark (current : Option Int) (address : Int) :
    (pointerMark current address).length = 2 := by
  unfold pointerMark
  split <;> rfl

/-- The mark of a breakpoint takes one column, whether it is there or not. -/
theorem length_breakpointMark (annotations : Annotations) (address : Int) :
    (breakpointMark annotations address).length = 1 := by
  unfold breakpointMark
  split <;> rfl

/-- The line of an address tells all that it has been made of. -/
theorem eq_of_instructionLine_eq
    {address : Int}
    {first second : Instruction}
    (same :
      instructionLine annotations current address first =
        instructionLine other marked address second) :
    (current = some address ↔ marked = some address) ∧
      annotations.breaksAt address = other.breaksAt address ∧
        first = second := by
  rw [instructionLine_eq, instructionLine_eq] at same
  have afterAddress := (List.cons.inj (List.append_cancel_left same)).2
  obtain ⟨samePointer, afterPointer⟩ :=
    List.append_inj afterAddress
      ((length_pointerMark _ _).trans (length_pointerMark _ _).symm)
  obtain ⟨sameBreakpoint, afterBreakpoint⟩ :=
    List.append_inj (List.cons.inj afterPointer).2
      ((length_breakpointMark _ _).trans (length_breakpointMark _ _).symm)
  have sameText := (List.cons.inj afterBreakpoint).2
  exact
    ⟨iff_of_ite_eq (by decide) samePointer,
      Bool.eq_iff_iff.mpr (iff_of_ite_eq (by decide) sameBreakpoint),
      Instruction.listingText_injective sameText⟩

/-- Lines that begin with those of an address tell its name, if it has one. -/
theorem eq_of_labelLine_append_eq
    {address : Int}
    {line otherLine : Text}
    {rest otherRest : List Text}
    (isNoName : ∀ name, nameLine name ≠ line)
    (otherIsNoName : ∀ name, nameLine name ≠ otherLine)
    (same :
      labelLine annotations address ++ line :: rest =
        labelLine other address ++ otherLine :: otherRest) :
    annotations.labelAt? address = other.labelAt? address ∧
      line = otherLine ∧ rest = otherRest := by
  unfold labelLine at same
  -- A name in one listing only would have its line where the other has an instruction's.
  cases named : annotations.labelAt? address with
  | none =>
      rw [named] at same
      cases otherNamed : other.labelAt? address with
      | none =>
          rw [otherNamed] at same
          obtain ⟨sameLine, sameRest⟩ := List.cons.inj same
          exact ⟨rfl, sameLine, sameRest⟩
      | some name =>
          rw [otherNamed] at same
          exact absurd (List.cons.inj same).1.symm (isNoName name)
  | some name =>
      rw [named] at same
      cases otherNamed : other.labelAt? address with
      | none =>
          rw [otherNamed] at same
          exact absurd (List.cons.inj same).1 (otherIsNoName name)
      | some otherName =>
          rw [otherNamed] at same
          obtain ⟨sameName, sameLines⟩ := List.cons.inj same
          obtain ⟨sameLine, sameRest⟩ := List.cons.inj sameLines
          have isName := List.append_cancel_right sameName
          exact ⟨congrArg some isName, sameLine, sameRest⟩

end Lines

/-- The lines of instructions that stand from an address on. -/
def linesFrom
    (annotations : Annotations)
    (current : Option Int)
    (address : Nat)
    (instructions : List Instruction) :
    List Text :=
  (instructions.zipIdx address).flatMap fun (instruction, address) =>
    labelLine annotations address ++
      [instructionLine annotations current address instruction]

/-- The lines of the first instruction come before those of the others. -/
theorem linesFrom_cons
    (annotations : Annotations)
    (current : Option Int)
    (address : Nat)
    (instruction : Instruction)
    (instructions : List Instruction) :
    linesFrom annotations current address (instruction :: instructions) =
      labelLine annotations address ++
        instructionLine annotations current address instruction ::
          linesFrom annotations current (address + 1) instructions := by
  rw [linesFrom, List.zipIdx_cons, List.flatMap_cons, List.append_assoc]
  rfl

section Programs

variable {annotations other : Annotations} {current marked : Option Int}

theorem linesFrom_cons_ne_nil
    (address : Nat)
    (instruction : Instruction)
    (instructions : List Instruction) :
    linesFrom annotations current address (instruction :: instructions) ≠ [] := by
  rw [linesFrom_cons]
  exact List.append_ne_nil_of_right_ne_nil _ (List.cons_ne_nil _ _)

/-- Lines that are the same have the same instructions, and show the same at each. -/
theorem alike_of_linesFrom_eq
    {first second : List Instruction}
    {start : Nat}
    (same :
      linesFrom annotations current start first =
        linesFrom other marked start second) :
    first = second ∧
      ∀ address,
        start ≤ address →
        address < start + first.length →
        AlikeAt annotations other current marked address := by
  -- The lines of the first instruction are split off both lists; the next address is then
  -- the one from which the induction hypothesis speaks.
  induction first generalizing second start with
  | nil =>
      cases second with
      | nil =>
          exact ⟨rfl, fun _ atLeast below => absurd below (Nat.not_lt.mpr atLeast)⟩
      | cons instruction instructions =>
          exact absurd same.symm (linesFrom_cons_ne_nil _ _ _)
  | cons instruction instructions inductionHypothesis =>
      cases second with
      | nil => exact absurd same (linesFrom_cons_ne_nil _ _ _)
      | cons otherInstruction otherInstructions =>
          rw [linesFrom_cons, linesFrom_cons] at same
          obtain ⟨sameLabel, sameLine, sameLines⟩ :=
            eq_of_labelLine_append_eq
              (fun name => nameLine_ne_instructionLine name _ _ _ _)
              (fun name => nameLine_ne_instructionLine name _ _ _ _)
              same
          obtain ⟨sameMark, sameBreakpoint, rfl⟩ := eq_of_instructionLine_eq sameLine
          obtain ⟨rfl, alike⟩ := inductionHypothesis sameLines
          refine ⟨rfl, fun address atLeast below => ?_⟩
          by_cases atStart : address = start
          · subst atStart
            exact ⟨sameLabel, sameBreakpoint, sameMark⟩
          · rw [List.length_cons] at below
            exact alike address (by omega) (by omega)

end Programs

/-- An address to be marked, if there is one, is none of a program. -/
def Outside (program : Program) (current : Option Int) : Prop :=
  ∀ address : Nat, address < program.size → current ≠ some (address : Int)

/-- Marks that are alike on a program are equal, or none of them is on it. -/
theorem eq_or_outside
    {program : Program}
    {current marked : Option Int}
    (sameMark :
      ∀ address : Nat,
        address < program.size →
        (current = some (address : Int) ↔ marked = some (address : Int))) :
    current = marked ∨ Outside program current ∧ Outside program marked := by
  by_cases inside :
      ∃ address : Nat, address < program.size ∧ current = some (address : Int)
  · obtain ⟨address, below, isCurrent⟩ := inside
    exact Or.inl (isCurrent.trans ((sameMark address below).mp isCurrent).symm)
  · have outside : Outside program current :=
      fun address below isCurrent => inside ⟨address, below, isCurrent⟩
    exact
      Or.inr
        ⟨outside, fun address below isMarked =>
          outside address below ((sameMark address below).mpr isMarked)⟩

/--
Lines that list instructions from an address on: one for each, from its address to its
text, and directly before it the line of the address's name if it has one.
-/
inductive Rows (annotations : Annotations) :
    Nat → List Instruction → List Text → Prop where
  | done (address : Nat) : Rows annotations address [] []
  | plain
      {address : Nat}
      {instruction : Instruction}
      {instructions : List Instruction}
      {digits marks : Text}
      {lines : List Text}
      (unnamed : annotations.labelAt? address = none)
      (begins : SpellsAddress address digits)
      (rows : Rows annotations (address + 1) instructions lines) :
      Rows annotations address (instruction :: instructions)
        ((digits ++ CodeUnit.space :: (marks ++ instruction.listingText)) :: lines)
  | named
      {address : Nat}
      {name : Text}
      {instruction : Instruction}
      {instructions : List Instruction}
      {digits marks : Text}
      {lines : List Text}
      (isName : annotations.labelAt? address = some name)
      (begins : SpellsAddress address digits)
      (rows : Rows annotations (address + 1) instructions lines) :
      Rows annotations address (instruction :: instructions)
        ((name ++ ":") ::
          (digits ++ CodeUnit.space :: (marks ++ instruction.listingText)) :: lines)

/-- The lines that list instructions have one row for each, in order. -/
theorem rows_linesFrom
    (annotations : Annotations)
    (current : Option Int)
    (address : Nat)
    (instructions : List Instruction) :
    Rows annotations address instructions
      (linesFrom annotations current address instructions) := by
  induction instructions generalizing address with
  | nil => exact .done address
  | cons instruction instructions inductionHypothesis =>
      have begins := spellsAddress_addressText address
      obtain ⟨marks, shape⟩ :=
        exists_marks annotations current address instruction
      rw [linesFrom_cons, shape, labelLine]
      cases isName : annotations.labelAt? address with
      | none => exact .plain isName begins (inductionHypothesis _)
      | some name => exact .named isName begins (inductionHypothesis _)

/-- The lines of a stack's entries from an index on. -/
def entriesFrom (start : Nat) (values : List Word) : List Text :=
  (values.zipIdx start).map fun (value, index) =>
    (addressText index).padRight indexColumns ++ Word.text value

/-- An entry's line tells its value, behind what the index determines. -/
theorem entriesFrom_injective
    {first second : List Word}
    {start : Nat}
    (same : entriesFrom start first = entriesFrom start second) :
    first = second := by
  induction first generalizing second start with
  | nil =>
      cases second with
      | nil => rfl
      | cons value values => cases same
  | cons value values inductionHypothesis =>
      cases second with
      | nil => cases same
      | cons otherValue otherValues =>
          obtain ⟨sameEntry, sameEntries⟩ := List.cons.inj same
          rw [Word.text_injective (List.append_cancel_left sameEntry),
            inductionHypothesis sameEntries]

theorem stack_cons (value : Word) (values : List Word) :
    stack (value :: values) = entriesFrom 0 (value :: values) :=
  rfl

/-- The line that stands for no entries is none of an entry. -/
theorem stack_nil_ne (value : Word) (values : List Word) :
    stack [] ≠ stack (value :: values) := by
  intro same
  have sameLine :
      ("<no entries>" : Text) =
        (addressText 0).padRight indexColumns ++ Word.text value :=
    (List.cons.inj same).1
  have begins : (addressText 0).padRight indexColumns = "0000  " := by decide
  rw [begins] at sameLine
  exact absurd (List.cons.inj sameLine).1 (by decide)

/-- A listing of a stack tells the stack. -/
theorem stack_injective : Function.Injective stack := by
  intro first second same
  cases first with
  | nil =>
      cases second with
      | nil => rfl
      | cons value values => exact absurd same (stack_nil_ne value values)
  | cons value values =>
      cases second with
      | nil => exact absurd same.symm (stack_nil_ne value values)
      | cons otherValue otherValues =>
          rw [stack_cons, stack_cons] at same
          exact entriesFrom_injective same

/--
Listings lose nothing.

Programs that are listed alike are the same, have the same names and breakpoints at their
addresses, and are marked at the same address or at none of theirs. A listing has a line
for each instruction, in order, which begins with the address and ends with the
instruction, and directly before it one for the address's name if it has any. Stacks that
are listed alike are the same.
-/
theorem listings_lose_nothing :
    (∀ (first second : Program) (annotations other : Annotations)
        (current marked : Option Int),
      Listing.program first annotations current = Listing.program second other marked →
      first = second ∧
        (∀ address : Nat,
          address < first.size →
          annotations.labelAt? address = other.labelAt? address ∧
            annotations.breaksAt address = other.breaksAt address) ∧
        (current = marked ∨ Outside first current ∧ Outside second marked)) ∧
    (∀ (program : Program) (annotations : Annotations) (current : Option Int),
      Rows annotations 0 program.toList
        (Listing.program program annotations current)) ∧
    ∀ first second : List Word,
      Listing.stack first = Listing.stack second →
      first = second := by
  refine ⟨?_, fun _ _ _ => rows_linesFrom _ _ 0 _, stack_injective⟩
  intro first second annotations other current marked same
  obtain ⟨sameInstructions, alike⟩ :=
    alike_of_linesFrom_eq (show linesFrom _ _ 0 _ = linesFrom _ _ 0 _ from same)
  obtain rfl := Array.toList_inj.mp sameInstructions
  have alikeBelow (address : Nat) (below : address < first.size) :
      AlikeAt annotations other current marked address :=
    alike address (Nat.zero_le _) ((Nat.zero_add first.size).symm ▸ below)
  exact
    ⟨rfl, fun address below => ⟨(alikeBelow address below).label,
        (alikeBelow address below).breakpoint⟩,
      eq_or_outside fun address below => (alikeBelow address below).current⟩

/-- Annotations with a name whose line looks like an instruction's. -/
def oddAnnotations : Annotations :=
  ({} : Annotations).addLabel 0 "0000    * PUSH      1"

/--
Neither a name that looks like an instruction nor what is said of addresses outside the
program confuses a listing, and two literals of one word list the same.
-/
theorem odd_names_are_listed :
    oddAnnotations.labelAt? 0 = (oddAnnotations.addLabel 1 "end").labelAt? 0 ∧
      (none = some (7 : Int) ∨
        Outside #[.push (-1)] none ∧ Outside #[.push (-1)] (some 7)) ∧
      [(-1 : Word)] = [0xFFFFFFFFFFFFFFFF] := by
  obtain ⟨ofPrograms, _, ofStacks⟩ := listings_lose_nothing
  have sameListing :
      Listing.program #[.push (-1)] oddAnnotations none =
        Listing.program #[.push (-1)] (oddAnnotations.addLabel 1 "end") (some 7) := by
    decide +kernel
  have sameStack : stack [-1] = stack [0xFFFFFFFFFFFFFFFF] := by decide +kernel
  obtain ⟨_, alike, marked⟩ := ofPrograms _ _ _ _ _ _ sameListing
  exact ⟨(alike 0 (by decide)).1, marked, ofStacks _ _ sameStack⟩

end Listing

end StackCode
