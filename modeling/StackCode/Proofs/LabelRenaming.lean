import Mathlib.Data.Set.Function
import StackCode.Proofs.LabelReferences
import StackCode.Proofs.Lines

namespace StackCode

/-!
# Renaming labels

Only whether two names are the same matters to assembly. If the names that a source
mentions are renamed, and no two of them to the same name, every draft is that of the
original source with its names renamed: a statement looks up, patches and erases what
the original one does. So the outcome is the same up to the names, whether an
assembly or an error.
-/

/-- The entries of a table under other names. -/
def namesRenamed
    {Value : Type}
    (rename : Text → Text)
    (table : List (Text × Value)) :
    List (Text × Value) :=
  table.map fun entry => (rename entry.1, entry.2)

/-- The statement about other names. -/
def Statement.renamed (rename : Text → Text) : Statement → Statement
  | .push (.label name) => .push (.label (rename name))
  | .label name => .label (rename name)
  | statement => statement

/-- The defect about other names; what a line says otherwise is not about names. -/
def AssemblyDefect.renamed (rename : Text → Text) :
    AssemblyDefect → AssemblyDefect
  | .statement defect => .statement defect
  | .duplicateLabel name address => .duplicateLabel (rename name) address
  | .unresolvedLabels pending =>
      .unresolvedLabels (namesRenamed rename pending)
  | .operand defect => .operand defect

/-- The error about other names, at the same line of the same file. -/
def AssemblyError.renamed
    (rename : Text → Text)
    (error : AssemblyError) :
    AssemblyError :=
  { error with defect := error.defect.renamed rename }

/-- The annotations with other names for the same addresses. -/
def Annotations.renamed
    (rename : Text → Text)
    (annotations : Annotations) :
    Annotations :=
  { annotations with
    names := annotations.names.map fun entry => (entry.1, rename entry.2) }

/-- The draft with other names in its tables and annotations. -/
def Draft.renamed (rename : Text → Text) (draft : Draft) : Draft where
  program := draft.program
  labels := namesRenamed rename draft.labels
  pending := namesRenamed rename draft.pending
  annotations := draft.annotations.renamed rename

/-- The assembly with other names. -/
def Assembly.renamed (rename : Text → Text) (assembly : Assembly) : Assembly where
  program := assembly.program
  annotations := assembly.annotations.renamed rename
  labels := namesRenamed rename assembly.labels

/-- Lines are read as what others are read as, with other names. -/
def ReadRenamed (rename : Text → Text) (lines others : List Text) : Prop :=
  others.map Statement.ofLine =
    lines.map fun line =>
      (Statement.ofLine line).map (Option.map (Statement.renamed rename))

/-- Some of the lines defines a name or refers to it. -/
def MentionedIn (lines : List Text) (name : Text) : Prop :=
  ∃ line ∈ lines,
    ∃ statement,
      Statement.ofLine line = .ok (some statement) ∧
        statement.mentions? = some name

section Tables

variable
  {rename : Text → Text}
  {name : Text}

/-- A name is found under its new name, unless another one has taken it. -/
theorem lookup_namesRenamed
    {Value : Type}
    {table : List (Text × Value)}
    (apart : ∀ entry ∈ table, rename entry.1 = rename name → entry.1 = name) :
    (namesRenamed rename table).lookup (rename name) = table.lookup name := by
  induction table with
  | nil => rfl
  | cons first rest inductionHypothesis =>
      have restSame :=
        inductionHypothesis fun entry member =>
          apart entry (List.mem_cons_of_mem _ member)
      unfold namesRenamed at restSame ⊢
      rw [List.map_cons, lookup_cons_eq_ite, lookup_cons_eq_ite, restSame]
      by_cases isFirst : name = first.1
      · rw [if_pos isFirst, if_pos (congrArg rename isFirst)]
      · have stillApart : rename name ≠ rename first.1 := fun same =>
          isFirst (apart first List.mem_cons_self same.symm).symm
        rw [if_neg isFirst, if_neg stillApart]

namespace PendingTable

variable
  {pending : PendingTable}
  (apart : ∀ entry ∈ pending, rename entry.1 = rename name → entry.1 = name)

include apart

/-- The same addresses wait for a name, whatever it is called. -/
theorem addressesOf_namesRenamed :
    addressesOf (rename name) (namesRenamed rename pending) =
      pending.addressesOf name := by
  rw [addressesOf, addressesOf, lookup_namesRenamed apart]

/-- An address waits for a name under its new name. -/
theorem add_namesRenamed (address : Nat) :
    add (rename name) address (namesRenamed rename pending) =
      namesRenamed rename (pending.add name address) := by
  induction pending with
  | nil => rfl
  | cons first rest inductionHypothesis =>
      have restSame :=
        inductionHypothesis fun entry member =>
          apart entry (List.mem_cons_of_mem _ member)
      unfold namesRenamed at restSame ⊢
      by_cases isFirst : first.1 = name
      · simp [add, isFirst]
      · have stillApart : rename first.1 ≠ rename name := fun same =>
          isFirst (apart first List.mem_cons_self same)
        rw [List.map_cons, add, if_neg stillApart, restSame, add,
          if_neg isFirst, List.map_cons]

/-- Nothing waits any more for a name, whatever it is called. -/
theorem erase_namesRenamed :
    erase (rename name) (namesRenamed rename pending) =
      namesRenamed rename (pending.erase name) := by
  rw [erase, namesRenamed, List.filter_map, erase, namesRenamed]
  congr 1
  refine List.filter_congr fun entry member => ?_
  have sameIff : rename entry.1 = rename name ↔ entry.1 = name :=
    ⟨apart entry member, congrArg rename⟩
  simp only [Function.comp_def, bne, Bool.beq_eq_decide_eq, sameIff]

end PendingTable

end Tables

/-- A label at an address stays there under its new name. -/
theorem Annotations.labelAt?_renamed
    (rename : Text → Text)
    (annotations : Annotations)
    (address : Int) :
    (annotations.renamed rename).labelAt? address =
      (annotations.labelAt? address).map rename :=
  lookup_map_values address rename annotations.names

namespace Draft

section Simulation

variable
  {rename : Text → Text}
  {Meets : Text → Prop}
  (injective : Set.InjOn rename {name | Meets name})
  {draft : Draft}

include injective

/-- A renamed name is found among renamed names where it has been before. -/
theorem NamesMeet.apart
    (names : draft.NamesMeet Meets)
    {name : Text}
    (meets : Meets name) :
    (∀ entry ∈ draft.labels, rename entry.1 = rename name → entry.1 = name) ∧
      ∀ entry ∈ draft.pending,
        rename entry.1 = rename name → entry.1 = name :=
  ⟨fun entry member same => injective (names.labels entry member) meets same,
    fun entry member same => injective (names.pending entry member) meets same⟩

/-- A reference to a label refers to it under its new name. -/
theorem pushLabel_renamed
    (names : draft.NamesMeet Meets)
    {name : Text}
    (meets : Meets name) :
    (draft.renamed rename).pushLabel (rename name) =
      (draft.pushLabel name).renamed rename := by
  obtain ⟨labelsApart, pendingApart⟩ := names.apart injective meets
  have sameLookup :
      (draft.renamed rename).labels.lookup (rename name) =
        draft.labels.lookup name :=
    lookup_namesRenamed labelsApart
  unfold pushLabel
  rw [sameLookup]
  cases draft.labels.lookup name with
  | some address => rfl
  | none =>
      simp only [emit, wait, renamed, PendingTable.add_namesRenamed pendingApart]

/-- A label is defined under its new name where the old one would be. -/
theorem define_renamed
    (names : draft.NamesMeet Meets)
    {name : Text}
    (meets : Meets name) :
    (draft.renamed rename).define (rename name) =
      (draft.define name).renamed rename := by
  obtain ⟨_, pendingApart⟩ := names.apart injective meets
  simp only [define, renamed,
    PendingTable.addressesOf_namesRenamed pendingApart,
    PendingTable.erase_namesRenamed pendingApart]
  simp only [namesRenamed, List.map_append, List.map_cons, List.map_nil]
  rfl

/-- The step of the simulation: the renamed statement does to the renamed draft. -/
theorem add_renamed
    (names : draft.NamesMeet Meets)
    {statement : Statement}
    (meets : ∀ name, statement.mentions? = some name → Meets name) :
    (draft.renamed rename).add (statement.renamed rename) =
      match draft.add statement with
      | .error defect => .error (defect.renamed rename)
      | .ok next => .ok (next.renamed rename) := by
  cases statement with
  | push operand =>
      cases operand with
      | word value => rfl
      | label name =>
          simp only [Statement.renamed, add_push_label]
          exact
            congrArg Except.ok
              (pushLabel_renamed injective names (meets name rfl))
  | operate operation => rfl
  | string text => rfl
  | breakpoint => rfl
  | label name =>
      have isMeeting := meets name rfl
      have sameLookup :
          (draft.renamed rename).labels.lookup (rename name) =
            draft.labels.lookup name :=
        lookup_namesRenamed (names.apart injective isMeeting).1
      simp only [Statement.renamed, add, sameLookup]
      cases draft.labels.lookup name with
      | some address => rfl
      | none =>
          exact congrArg Except.ok (define_renamed injective names isMeeting)

/-- The simulation over lines that are read as the renamed statements. -/
theorem addLines_renamed
    (names : draft.NamesMeet Meets)
    (file : Text)
    (number : Nat)
    {lines others : List Text}
    (meet : ∀ name, MentionedIn lines name → Meets name)
    (areRenamed : ReadRenamed rename lines others) :
    addLines file (draft.renamed rename) number others =
      match addLines file draft number lines with
      | .error error => .error (error.renamed rename)
      | .ok reached => .ok (reached.renamed rename) := by
  induction lines generalizing draft number others with
  | nil =>
      rw [List.map_eq_nil_iff.mp areRenamed]
      rfl
  | cons line rest inductionHypothesis =>
      obtain ⟨other, otherRest, rfl, isRenamed, restRenamed⟩ :=
        List.map_eq_cons_iff.mp areRenamed
      have restMeet : ∀ name, MentionedIn rest name → Meets name :=
        fun name ⟨next, member, mentioned⟩ =>
          meet name ⟨next, List.mem_cons_of_mem _ member, mentioned⟩
      simp only [addLines, addLine, isRenamed]
      cases read : Statement.ofLine line with
      | error defect => rfl
      | ok held =>
          cases held with
          | none =>
              exact inductionHypothesis names (number + 1) restMeet restRenamed
          | some statement =>
              have meets :
                  ∀ name, statement.mentions? = some name → Meets name :=
                fun name mentions =>
                  meet name
                    ⟨line, List.mem_cons_self, statement, read, mentions⟩
              have step := add_renamed injective names meets
              simp only [Except.map, Option.map_some, step]
              cases added : draft.add statement with
              | error defect => rfl
              | ok next =>
                  exact
                    inductionHypothesis (names.add meets added) (number + 1)
                      restMeet restRenamed

end Simulation

/-- A renamed draft is finished where the draft is, and has the renamed defect else. -/
theorem finish_renamed (rename : Text → Text) (draft : Draft) :
    (draft.renamed rename).finish =
      match draft.finish with
      | .error defect => .error (defect.renamed rename)
      | .ok assembly => .ok (assembly.renamed rename) := by
  have sameEmptiness :
      (draft.renamed rename).pending.isEmpty = draft.pending.isEmpty :=
    List.isEmpty_map
  unfold finish
  rw [sameEmptiness]
  cases draft.pending.isEmpty <;> rfl

end Draft

namespace Statement

/--
A line with another name for the one that it mentions. The others get a blank at the
end, which keeps a return there from being taken for a part of the break.
-/
def renamedLine (rename : Text → Text) (line : Text) : Text :=
  match ofLine line with
  | .ok (some (.label name)) => definitionLine (rename name)
  | .ok (some (.push (.label name))) => referenceLine (rename name)
  | _ => line ++ [CodeUnit.space]

section RenamedLine

variable
  {rename : Text → Text}
  {line : Text}
  (valid :
    ∀ statement name,
      ofLine line = .ok (some statement) →
      statement.mentions? = some name →
      IsLabelName (rename name))

include valid

/-- A line whose name has been renamed says the same of the new name. -/
theorem ofLine_renamedLine :
    ofLine (renamedLine rename line) =
      (ofLine line).map (Option.map (renamed rename)) := by
  have sameTokens : ofLine (line ++ [CodeUnit.space]) = ofLine line := by
    rw [ofLine, Text.tokens_append_blanks (Text.isBlank_singleton rfl), ofLine]
  unfold renamedLine
  split
  next name read =>
    rw [read]
    exact ofLine_label (valid _ name read rfl)
  next name read =>
    rw [read]
    exact ofLine_referenceLine (valid _ name read rfl)
  next notLabel notReference =>
    rw [sameTokens]
    cases read : ofLine line with
    | error defect => rfl
    | ok held =>
        cases held with
        | none => rfl
        | some statement =>
            cases statement with
            | label name => exact absurd read (notLabel name)
            | push operand =>
                cases operand with
                | label name => exact absurd read (notReference name)
                | word value => rfl
            | _ => rfl

/-- A line stays one line when its name is renamed. -/
theorem isLine_renamedLine (noFeed : CodeUnit.lineFeed ∉ line) :
    Text.IsLine (renamedLine rename line) := by
  unfold renamedLine
  split
  next name read => exact isLine_definitionLine (valid _ name read rfl)
  next name read => exact isLine_referenceLine (valid _ name read rfl)
  next =>
    constructor
    · rw [List.mem_append, List.mem_singleton, not_or]
      exact ⟨noFeed, by decide⟩
    · rw [List.getLast?_concat]
      decide

end RenamedLine

end Statement

/-- What an assembly is under other names. -/
structure Assembly.RenamedBy
    (rename : Text → Text)
    (assembly other : Assembly) :
    Prop where
  program : other.program = assembly.program
  stops :
    other.annotations.breakpoints = assembly.annotations.breakpoints
  labels : other.labels = namesRenamed rename assembly.labels
  names :
    ∀ address,
      other.annotations.labelAt? address =
        (assembly.annotations.labelAt? address).map rename

/-- The names of a source can be exchanged for any others that labels can have. -/
theorem exists_readRenamed
    {rename : Text → Text}
    {source : Text}
    (valid :
      ∀ name,
        MentionedIn source.lines name → Statement.IsLabelName (rename name)) :
    ∃ other : Text, ReadRenamed rename source.lines other.lines := by
  have lineValid {line : Text} (member : line ∈ source.lines) :
      ∀ statement name,
        Statement.ofLine line = .ok (some statement) →
        statement.mentions? = some name →
        Statement.IsLabelName (rename name) :=
    fun statement name read mentions =>
      valid name ⟨line, member, statement, read, mentions⟩
  have areLines :
      ∀ line ∈ source.lines.map (Statement.renamedLine rename), line.IsLine :=
    List.forall_mem_map.mpr fun line member =>
      Statement.isLine_renamedLine (lineValid member)
        (Text.noFeed_of_mem_lines member)
  refine
    ⟨Text.ofLines (source.lines.map (Statement.renamedLine rename)), ?_⟩
  rw [ReadRenamed, Text.lines_ofLines areLines, List.map_map]
  exact
    List.map_congr_left fun line member =>
      Statement.ofLine_renamedLine (lineValid member)

/-- The outcome for renamed lines is the renamed outcome. -/
theorem Assembly.ofLines_renamed
    (file : Text)
    {rename : Text → Text}
    {lines others : List Text}
    (injective : Set.InjOn rename {name | MentionedIn lines name})
    (areRenamed : ReadRenamed rename lines others) :
    ofLines file others =
      match ofLines file lines with
      | .error error => .error (error.renamed rename)
      | .ok assembly => .ok (assembly.renamed rename) := by
  have added :
      Draft.addLines file {} 1 others =
        match Draft.addLines file {} 1 lines with
        | .error error => .error (error.renamed rename)
        | .ok reached => .ok (reached.renamed rename) :=
    Draft.addLines_renamed injective Draft.NamesMeet.empty file 1
      (fun _ mentioned => mentioned) areRenamed
  have sameCount : others.length = lines.length := by
    simpa using congrArg List.length areRenamed
  unfold ofLines
  rw [added, sameCount]
  cases Draft.addLines file {} 1 lines with
  | error error => rfl
  | ok reached =>
      simp only [Draft.finish_renamed]
      cases reached.finish <;> rfl

/--
Label names are interchangeable.

If no two of the names that a source mentions are renamed to the same, and all of
them to names that labels can have, there are sources whose lines say the same about
the new names. Each of them has the same outcome: the same program and breakpoints,
with the label table and the names of addresses renamed, or the same error at the
same line, with its names renamed and the same addresses in the same order.
-/
theorem Assembly.label_names_are_interchangeable
    (file : Text)
    {rename : Text → Text}
    {source : Text}
    (injective : Set.InjOn rename {name | MentionedIn source.lines name})
    (valid :
      ∀ name,
        MentionedIn source.lines name → Statement.IsLabelName (rename name)) :
    (∃ other : Text, ReadRenamed rename source.lines other.lines) ∧
      ∀ other : Text,
        ReadRenamed rename source.lines other.lines →
        (∀ assembly,
          ofSource file source = .ok assembly →
          ∃ renamed,
            ofSource file other = .ok renamed ∧
              assembly.RenamedBy rename renamed) ∧
        ∀ error,
          ofSource file source = .error error →
          ofSource file other = .error (error.renamed rename) := by
  refine ⟨exists_readRenamed valid, ?_⟩
  intro other areRenamed
  have outcome := ofLines_renamed file injective areRenamed
  constructor
  · intro assembly assembled
    rw [ofSource] at assembled
    rw [assembled] at outcome
    exact
      ⟨assembly.renamed rename, outcome,
        { program := rfl
          stops := rfl
          labels := rfl
          names := Annotations.labelAt?_renamed rename assembly.annotations }⟩
  · intro error failed
    rw [ofSource] at failed
    rw [failed] at outcome
    exact outcome

/-- A source with a reference to each of two names before and after its definition. -/
def loopUntilEnd : Text :=
  "PUSH end\nloop: ; again\nPUSH loop\nPUSH end\n@Break\nend:\nPUSH end"

/-- The same source with the two names exchanged, laid out in another way. -/
def endUntilLoop : Text :=
  "PUSH loop ; later\r\nend:\r\n  PUSH end\r\nPUSH loop\r\n@Break\r\nloop:\r\nPUSH loop"

/-- The two names exchanged for each other. -/
def exchanged : Equiv.Perm Text :=
  Equiv.swap "loop" "end"

/-- Two names of a source may be exchanged for each other. -/
theorem Assembly.loop_and_end_are_exchanged :
    ∃ assembly renamed,
      ofSource "loop.asm" loopUntilEnd = .ok assembly ∧
        ofSource "loop.asm" endUntilLoop = .ok renamed ∧
        assembly.RenamedBy exchanged renamed ∧
        renamed.program = #[.push 3, .push 1, .push 3, .push 3] ∧
        renamed.annotations.labelAt? 1 = some "end" := by
  have loopIsName : Statement.IsLabelName "loop" :=
    Statement.isLabelName_iff_defined.mpr ⟨"loop:", by decide +kernel⟩
  have endIsName : Statement.IsLabelName "end" :=
    Statement.isLabelName_iff_defined.mpr ⟨"end:", by decide +kernel⟩
  have valid :
      ∀ name,
        MentionedIn loopUntilEnd.lines name →
          Statement.IsLabelName (exchanged name) := by
    rintro name ⟨line, _, statement, read, mentions⟩
    rw [exchanged, Equiv.swap_apply_def]
    split
    next => exact endIsName
    next =>
      split
      next => exact loopIsName
      next => exact Statement.isLabelName_of_mentions read mentions
  obtain ⟨_, outcomes⟩ :=
    label_names_are_interchangeable "loop.asm"
      exchanged.injective.injOn valid
  have areRenamed : ReadRenamed exchanged loopUntilEnd.lines endUntilLoop.lines := by
    unfold ReadRenamed
    decide +kernel
  have assembled :
      ofSource "loop.asm" loopUntilEnd =
        .ok
          { program := #[.push 3, .push 1, .push 3, .push 3]
            labels := [("loop", 1), ("end", 3)]
            annotations :=
              ((Annotations.addLabel 1 "loop" {}).addBreakpoint 3).addLabel 3
                "end" } := by
    decide +kernel
  obtain ⟨renamed, assembledToo, isRenamed⟩ :=
    (outcomes endUntilLoop areRenamed).1 _ assembled
  exact
    ⟨_, renamed, assembled, assembledToo, isRenamed, isRenamed.program,
      (isRenamed.names 1).trans (by decide +kernel)⟩

end StackCode
