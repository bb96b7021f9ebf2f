import StackCode.Proofs.LabelNames
import StackCode.Proofs.Numerals
import StackCode.Proofs.TwoPass
import StackCode.SourceText

namespace StackCode

/-!
# What the lines of a written program spell

Every line that a source text is written with spells one statement: a label, a
breakpoint or an instruction with its operand in decimal. Laid out by the plain
assembler, the statements emit the program that was written, refer to no name,
and define the names and stop at the breakpoints from the first address to the
one after the last instruction.
-/

/-- A line spells a statement, and is one line wherever it is written. -/
structure Spells (line : Text) (statement : Statement) : Prop where
  isLine : line.IsLine
  read : Statement.ofLine line = .ok (some statement)

/-- Lines spell statements, each the one at its place. -/
structure SpellAll (lines : List Text) (statements : List Statement) :
    Prop where
  areLines : ∀ line ∈ lines, line.IsLine
  read :
    lines.map Statement.ofLine =
      statements.map fun statement => .ok (some statement)

/--
Names of the addresses up to a last one that can be written and read back: each
can be a label's, and no two addresses share one.
-/
structure Annotations.WellNamed (annotations : Annotations) (last : Nat) :
    Prop where
  isLabelName :
    ∀ (address : Nat) (name : Text),
      address ≤ last →
      annotations.labelAt? address = some name →
      Statement.IsLabelName name
  distinct :
    ∀ (first second : Nat) (name : Text),
      first ≤ last →
      second ≤ last →
      annotations.labelAt? first = some name →
      annotations.labelAt? second = some name →
      first = second

/-- The statement that an instruction's line spells. -/
def Instruction.statement : Instruction → Statement
  | .push operand => .push (.word operand)
  | .operate operation => .operate operation

/-- The decimal text of a word begins no comment. -/
theorem Statement.isComment_text (operand : Word) :
    isComment operand.text = false := by
  have isToken : operand.text.IsToken := Literal.isToken_ofInt _
  cases shape : operand.text with
  | nil => exact absurd shape isToken.nonempty
  | cons first rest =>
      have differs : first ≠ commentMark := by
        have member : first ∈ operand.text := shape ▸ List.mem_cons_self
        rcases Literal.mem_ofInt member with rfl | isDecimal
        · decide
        · exact isDecimal.ne (by decide)
      simpa [isComment, Text.startsWith] using differs

namespace Spells

/-- A name and a colon spell the label of the name. -/
theorem label
    {name : Text}
    (isName : Statement.IsLabelName name) :
    Spells (name ++ [CodeUnit.ofChar ':']) (.label name) where
  isLine := isName.isToken_concat_mark.isLine
  read := Statement.ofLine_label isName

/-- The breakpoint directive spells a breakpoint. -/
theorem breakpoint : Spells (SourceText.indent ++ "@Break") .breakpoint where
  isLine := { noFeed := by decide, noReturn := by decide }
  read := by rfl

/-- The line of an operation spells it. -/
theorem operation (operation : Operation) :
    Spells (SourceText.indent ++ operation.mnemonic) (.operate operation) where
  isLine := by
    constructor
    · cases operation <;> decide
    · cases operation <;> decide
  read := by cases operation <;> rfl

/-- The line of a `PUSH` spells it with the word that is its operand. -/
theorem push (operand : Word) :
    Spells
      (SourceText.indent ++ (Instruction.push operand).sourceText)
      (.push (.word operand)) where
  isLine := by
    have shape :
        SourceText.indent ++ (Instruction.push operand).sourceText =
          (SourceText.indent ++ Opcode.push.mnemonic ++ [CodeUnit.space]) ++
            operand.text := by
      simp [Instruction.sourceText]
    rw [shape]
    exact Text.IsLine.append_token (by decide) (Literal.isToken_ofInt _)
  read := by
    have isToken : operand.text.IsToken := Literal.isToken_ofInt _
    have isBlank : CodeUnit.space.isBlank = true := rfl
    have mnemonicTokens :
        Text.tokens (SourceText.indent ++ Opcode.push.mnemonic) =
          [Opcode.push.mnemonic] := rfl
    have tokens :
        Text.tokens
            (SourceText.indent ++ (Instruction.push operand).sourceText) =
          [Opcode.push.mnemonic, operand.text] := by
      rw [Instruction.sourceText, ← List.append_assoc,
        Text.tokens_append_blank isBlank, mnemonicTokens, isToken.tokens_eq,
        List.singleton_append]
    have noComment :
        Statement.beforeComment [operand.text] = [operand.text] := by
      simp [Statement.beforeComment, Statement.isComment_text]
    have isPush :
        Statement.ofHead Opcode.push.mnemonic [operand.text] =
          Statement.instructionOfTokens Opcode.push.mnemonic
            (Statement.beforeComment [operand.text]) := rfl
    have spelled :
        Statement.ofHead Opcode.push.mnemonic [operand.text] =
          .ok (.push (.word operand)) := by
      rw [isPush, noComment, Statement.instructionOfTokens,
        Opcode.ofMnemonic?_mnemonic]
      simp only [Statement.operandOfToken, Literal.word?_text]
    rw [Statement.ofLine, tokens, Statement.ofTokens, spelled]
    rfl

/-- The line of an instruction spells it. -/
theorem instruction (instruction : Instruction) :
    Spells
      (SourceText.indent ++ instruction.sourceText)
      instruction.statement := by
  cases instruction with
  | push operand => exact push operand
  | operate operation => exact Spells.operation operation

end Spells

namespace SpellAll

variable {lines : List Text} {statements : List Statement}

theorem nil : SpellAll [] [] where
  areLines := fun _ absent => absurd absent List.not_mem_nil
  read := rfl

theorem singleton
    {line : Text}
    {statement : Statement}
    (spells : Spells line statement) :
    SpellAll [line] [statement] where
  areLines := by
    intro other member
    rw [List.mem_singleton.mp member]
    exact spells.isLine
  read := by
    rw [List.map_singleton, List.map_singleton, spells.read]

/-- Lines that spell statements spell them one after the other. -/
theorem append
    {otherLines : List Text}
    {otherStatements : List Statement}
    (first : SpellAll lines statements)
    (second : SpellAll otherLines otherStatements) :
    SpellAll (lines ++ otherLines) (statements ++ otherStatements) where
  areLines := by
    intro line member
    rcases List.mem_append.mp member with inFirst | inSecond
    · exact first.areLines line inFirst
    · exact second.areLines line inSecond
  read := by
    rw [List.map_append, List.map_append, first.read, second.read]

/--
Lines of parts that each spell their statements spell all of these in order.
-/
theorem flatMap
    {linesOf : α → List Text}
    {statementsOf : α → List Statement}
    {parts : List α}
    (each : ∀ part ∈ parts, SpellAll (linesOf part) (statementsOf part)) :
    SpellAll (parts.flatMap linesOf) (parts.flatMap statementsOf) := by
  induction parts with
  | nil => exact nil
  | cons part rest inductionHypothesis =>
      rw [List.flatMap_cons, List.flatMap_cons]
      refine (each part List.mem_cons_self).append (inductionHypothesis ?_)
      exact fun other member => each other (List.mem_cons_of_mem _ member)

/-- What lines spell is what they hold. -/
theorem statementsOf_eq (spell : SpellAll lines statements) :
    TwoPass.statementsOf lines = statements := by
  have asMap :
      TwoPass.statementsOf lines =
        (lines.map Statement.ofLine).filterMap fun read =>
          read.toOption.join := by
    rw [List.filterMap_map]
    rfl
  rw [asMap, spell.read, List.filterMap_map]
  exact List.filterMap_some

/-- Lines that spell statements without a double definition have no defect. -/
theorem freeOfDefects
    (spell : SpellAll lines statements)
    (nodup : (statements.filterMap Statement.defines?).Nodup) :
    TwoPass.FreeOfDefects lines := by
  refine TwoPass.freeOfDefects_iff.mpr ⟨?_, ?_⟩
  · intro line member
    have isRead := List.mem_map_of_mem (f := Statement.ofLine) member
    rw [spell.read] at isRead
    obtain ⟨statement, _, read⟩ := List.mem_map.mp isRead
    exact ⟨some statement, read.symm⟩
  · rwa [spell.statementsOf_eq]

end SpellAll

namespace SourceText

/-- The statements that the lines for an address's annotations spell. -/
def annotationStatements (annotations : Annotations) (address : Int) :
    List Statement :=
  ((annotations.labelAt? address).map Statement.label).toList ++
    if annotations.breaksAt address then [.breakpoint] else []

/-- The statements that the lines of a program with its annotations spell. -/
def statements (instructions : List Instruction) (annotations : Annotations) :
    List Statement :=
  (instructions.zipIdx.flatMap fun (instruction, address) =>
    annotationStatements annotations address ++ [instruction.statement]) ++
    annotationStatements annotations instructions.length

section Spelling

variable {annotations : Annotations} {last : Nat}

/--
The lines for an address's annotations spell them if its name can be a label's.
-/
theorem annotationLines_spell
    (wellNamed : annotations.WellNamed last)
    {address : Nat}
    (within : address ≤ last) :
    SpellAll
      (annotationLines annotations address)
      (annotationStatements annotations address) := by
  refine SpellAll.append ?_ ?_
  · unfold Listing.labelLine
    cases named : annotations.labelAt? address with
    | none => exact SpellAll.nil
    | some name =>
        exact SpellAll.singleton
          (Spells.label (wellNamed.isLabelName address name within named))
  · cases annotations.breaksAt address with
    | false => exact SpellAll.nil
    | true => exact SpellAll.singleton Spells.breakpoint

/-- The lines of a program spell its instructions among their annotations. -/
theorem lines_spell
    (program : Program)
    (wellNamed : annotations.WellNamed program.size) :
    SpellAll
      (lines program annotations)
      (statements program.toList annotations) := by
  refine SpellAll.append (SpellAll.flatMap ?_) ?_
  · intro entry member
    have within : entry.2 < program.size :=
      List.snd_lt_of_mem_zipIdx member
    exact (annotationLines_spell wellNamed (Nat.le_of_lt within)).append
      (SpellAll.singleton (Spells.instruction entry.1))
  · exact annotationLines_spell wellNamed (Nat.le_refl _)

end Spelling

/--
One more instruction stands last but for the annotations of the address after
it.
-/
theorem statements_append_singleton
    (instructions : List Instruction)
    (instruction : Instruction)
    (annotations : Annotations) :
    statements (instructions ++ [instruction]) annotations =
      statements instructions annotations ++ [instruction.statement] ++
        annotationStatements annotations (instructions.length + 1 : Nat) := by
  simp only [statements, List.zipIdx_append, List.flatMap_append,
    List.zipIdx_cons, List.zipIdx_nil, List.flatMap_cons, List.flatMap_nil,
    List.append_nil, Nat.zero_add, List.length_append, List.length_cons,
    List.length_nil, List.append_assoc]

end SourceText

namespace Annotations

/-- The names of the addresses below a bound, in ascending order of these. -/
def namesBelow (annotations : Annotations) (bound : Nat) : LabelTable :=
  (List.range bound).filterMap fun (address : Nat) =>
    (annotations.labelAt? address).map fun name => (name, address)

/--
The addresses below a bound at which the debugger stops, in ascending order.
-/
def stopsBelow (annotations : Annotations) (bound : Nat) : List Nat :=
  (List.range bound).filter fun (address : Nat) => annotations.breaksAt address

section Bounds

variable (annotations : Annotations) (bound : Nat)

/-- The label at the next address comes after all others. -/
theorem namesBelow_succ :
    annotations.namesBelow (bound + 1) =
      annotations.namesBelow bound ++
        ((annotations.labelAt? bound).map fun name =>
          (name, bound)).toList := by
  rw [namesBelow, List.range_succ, List.filterMap_append, ← namesBelow]
  cases named : annotations.labelAt? bound <;> simp [named]

/-- The breakpoint at the next address comes after all others. -/
theorem stopsBelow_succ :
    annotations.stopsBelow (bound + 1) =
      annotations.stopsBelow bound ++
        if annotations.breaksAt bound then [bound] else [] := by
  rw [stopsBelow, List.range_succ, List.filter_append, ← stopsBelow,
    List.filter_cons, List.filter_nil]

end Bounds

end Annotations

namespace TwoPass

/--
Statements lay out instructions whose operands are words, with the names of the
addresses below one bound and breakpoints at those below another.
-/
structure LaysOut
    (annotations : Annotations)
    (named stops : Nat)
    (instructions : List Instruction)
    (statements : List Statement) :
    Prop where
  extent : extent statements = instructions.length
  emitted : ∀ labels, emitted labels statements = instructions
  references : references statements = []
  definitions : definitions statements = annotations.namesBelow named
  breakpoints : breakpoints statements = annotations.stopsBelow stops

namespace LaysOut

variable {annotations : Annotations} {named stops : Nat}
  {instructions : List Instruction} {statements : List Statement}

theorem nil : LaysOut annotations 0 0 [] [] where
  extent := rfl
  emitted := fun _ => rfl
  references := rfl
  definitions := rfl
  breakpoints := rfl

/-- The statement of one more instruction lays it out. -/
theorem append_instruction
    (laidOut : LaysOut annotations named stops instructions statements)
    (instruction : Instruction) :
    LaysOut annotations named stops
      (instructions ++ [instruction])
      (statements ++ [instruction.statement]) := by
  obtain ⟨extent, emitted, references, definitions, breakpoints⟩ := laidOut
  cases instruction <;>
    exact
      { extent := by simp [extent, Instruction.statement, Statement.size]
        emitted := fun labels => by
          simp [emitted, Instruction.statement, Statement.instructions]
        references := by
          simp [references, Instruction.statement, Statement.refersTo?]
        definitions := by
          simp [definitions, Instruction.statement, Statement.defines?]
        breakpoints := by simp [breakpoints, Instruction.statement] }

/-- The label of the next address, if it has a name, names it. -/
theorem append_label
    (laidOut :
      LaysOut annotations instructions.length stops instructions statements) :
    LaysOut annotations (instructions.length + 1) stops instructions
      (statements ++
        ((annotations.labelAt? instructions.length).map
          Statement.label).toList) := by
  obtain ⟨extent, emitted, references, definitions, breakpoints⟩ := laidOut
  have oneMore := annotations.namesBelow_succ instructions.length
  cases named : annotations.labelAt? instructions.length with
  | none =>
      rw [named, Option.map_none, Option.toList_none,
        List.append_nil] at oneMore
      rw [Option.map_none, Option.toList_none, List.append_nil]
      exact
        ⟨extent, emitted, references, definitions.trans oneMore.symm,
          breakpoints⟩
  | some name =>
      rw [named] at oneMore
      exact
        { extent := by simp [extent, Statement.size]
          emitted := fun labels => by simp [emitted, Statement.instructions]
          references := by simp [references, Statement.refersTo?]
          definitions := by
            simp [definitions, extent, oneMore, Statement.defines?]
          breakpoints := by simp [breakpoints] }

/-- The breakpoint of the next address, if it has one, stops there. -/
theorem append_breakpoint
    (laidOut :
      LaysOut annotations named instructions.length instructions statements) :
    LaysOut annotations named (instructions.length + 1) instructions
      (statements ++
        if annotations.breaksAt instructions.length then
          [.breakpoint]
        else
          []) := by
  obtain ⟨extent, emitted, references, definitions, breakpoints⟩ := laidOut
  have oneMore := annotations.stopsBelow_succ instructions.length
  cases stops : annotations.breaksAt instructions.length with
  | false =>
      rw [stops, if_neg Bool.false_ne_true, List.append_nil] at oneMore
      rw [if_neg Bool.false_ne_true, List.append_nil]
      exact
        ⟨extent, emitted, references, definitions,
          breakpoints.trans oneMore.symm⟩
  | true =>
      rw [stops] at oneMore
      exact
        { extent := by simp [extent, Statement.size]
          emitted := fun labels => by simp [emitted, Statement.instructions]
          references := by simp [references, Statement.refersTo?]
          definitions := by simp [definitions, Statement.defines?]
          breakpoints := by simp [breakpoints, extent, oneMore] }

/-- The statements for the annotations of the next address annotate it. -/
theorem append_annotations
    (laidOut :
      LaysOut annotations instructions.length instructions.length instructions
        statements) :
    LaysOut annotations (instructions.length + 1) (instructions.length + 1)
      instructions
      (statements ++
        SourceText.annotationStatements annotations instructions.length) := by
  rw [SourceText.annotationStatements, ← List.append_assoc]
  exact laidOut.append_label.append_breakpoint

end LaysOut

/--
The statements that a program's lines spell lay it out with all annotations.
-/
theorem laysOut_statements
    (annotations : Annotations)
    (instructions : List Instruction) :
    LaysOut annotations (instructions.length + 1) (instructions.length + 1)
      instructions
      (SourceText.statements instructions annotations) := by
  induction instructions using List.reverseRecOn with
  | nil => exact LaysOut.nil.append_annotations
  | append_singleton earlier last inductionHypothesis =>
      rw [SourceText.statements_append_singleton]
      have length : (earlier ++ [last]).length = earlier.length + 1 := by
        rw [List.length_append, List.length_singleton]
      have oneMore := inductionHypothesis.append_instruction last
      rw [← length] at oneMore ⊢
      exact oneMore.append_annotations

end TwoPass

end StackCode
