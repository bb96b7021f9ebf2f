import StackCode.Proofs.TwoPass

namespace StackCode

/-!
# Back-patching agrees with two passes

After any statements, the draft of the one-pass assembler is what the two-pass
account makes of them: the same labels, the same annotations, as pending exactly
the names that are unresolved so far, and as program what the statements emit
with the labels known so far and zero for the others. A definition turns one
such program into the next because the addresses that wait for its name are
exactly the references to it. At the end nothing is unresolved, so no zero is
left, or the unresolved names are the error.
-/

/-- Instructions after the patched ones stay as they are. -/
theorem patch_append
    {instructions others : List Instruction}
    {addresses : List Nat}
    {operand : Word}
    (within : ∀ address ∈ addresses, address < instructions.length) :
    patch (instructions ++ others).toArray addresses operand =
      patch instructions.toArray addresses operand ++ others.toArray := by
  induction addresses generalizing instructions with
  | nil => simp [patch]
  | cons address rest inductionHypothesis =>
      have first := within address List.mem_cons_self
      have modified :
          (instructions ++ others).modify address
              (Instruction.withOperand operand) =
            instructions.modify address (Instruction.withOperand operand) ++
              others := by
        rw [List.modify_eq_take_cons_drop first,
          List.modify_eq_take_cons_drop (by rw [List.length_append]; omega),
          List.take_append_of_le_length (Nat.le_of_lt first),
          List.drop_append_of_le_length first,
          List.getElem_append_left first, List.append_assoc, List.cons_append]
      have restWithin :
          ∀ other ∈ rest,
            other <
              (instructions.modify address
                (Instruction.withOperand operand)).length := by
        intro other member
        rw [List.length_modify]
        exact within other (List.mem_cons_of_mem _ member)
      simp only [patch, List.foldl_cons, List.modify_toArray, modified]
      exact inductionHypothesis restWithin

theorem patch_patch
    (program : Program)
    (first second : List Nat)
    (operand : Word) :
    patch (patch program first operand) second operand =
      patch program (first ++ second) operand := by
  simp only [patch, List.foldl_append]

/-- Patching a last `PUSH` gives it the operand. -/
theorem patch_last_push
    (instructions : List Instruction)
    (initial operand : Word) :
    patch (instructions ++ [Instruction.push initial]).toArray
        [instructions.length] operand =
      (instructions ++ [Instruction.push operand]).toArray := by
  have isLast :
      instructions.length <
        (instructions ++ [Instruction.push initial]).length := by
    rw [List.length_append, List.length_singleton]
    exact Nat.lt_succ_self _
  simp only [patch, List.foldl_cons, List.foldl_nil, List.modify_toArray]
  rw [List.modify_eq_take_cons_drop isLast]
  simp [Instruction.withOperand]

namespace TwoPass

/--
Patching all references to a name turns what was emitted without the name into
what is emitted with it.
-/
theorem patch_emitted
    {labels : LabelTable}
    {name : Text}
    (undefined : labels.lookup name = none)
    (address : Nat)
    (statements : List Statement) :
    patch (emitted labels statements).toArray (referencesTo name statements)
        (Word.wrap address) =
      (emitted (labels ++ [(name, address)]) statements).toArray := by
  induction statements using List.reverseRecOn with
  | nil => rfl
  | append_singleton earlier last inductionHypothesis =>
      have within := (referencesTo_ascending earlier name).2
      rw [← length_emitted earlier labels] at within
      rw [emitted_append_singleton, emitted_append_singleton,
        referencesTo_append_singleton, ← patch_patch, patch_append within,
        inductionHypothesis, List.append_toArray]
      by_cases refers : last.refersTo? = some name
      · -- The last statement is the reference, and its address the last one.
        rw [if_pos refers, Statement.instructions_of_refersTo refers,
          Statement.instructions_of_refersTo refers,
          ← length_emitted earlier (labels ++ [(name, address)]),
          patch_last_push, addressIn_append_singleton undefined, if_pos rfl]
      · have unchanged :
            last.instructions (addressIn labels) =
              last.instructions (addressIn (labels ++ [(name, address)])) := by
          apply Statement.instructions_congr
          intro other isReference
          have differs : other ≠ name := by
            intro same
            exact refers (by rw [isReference, same])
          rw [addressIn_append_singleton undefined, if_neg differs]
        rw [if_neg refers, unchanged]
        rfl

end TwoPass

namespace PendingTable

section

variable
  {name : Text}
  {names : List Text}
  (address : Nat)
  (addressesFor : Text → List Nat)

/-- An address joins those of a name that waits already. -/
theorem add_of_mem
    (noDuplicates : names.Nodup)
    (member : name ∈ names) :
    add name address (names.map fun other => (other, addressesFor other)) =
      names.map fun other =>
        (other,
          addressesFor other ++ if name = other then [address] else []) := by
  induction names with
  | nil => cases member
  | cons first rest inductionHypothesis =>
      obtain ⟨notInRest, restNoDuplicates⟩ := List.nodup_cons.mp noDuplicates
      simp only [List.map_cons, add]
      by_cases isFirst : first = name
      · subst isFirst
        have others :
            ∀ other ∈ rest,
              (other, addressesFor other) =
                (other, addressesFor other ++
                  if first = other then [address] else []) := by
          intro other inRest
          have differs : first ≠ other := by
            rintro rfl
            exact notInRest inRest
          rw [if_neg differs, List.append_nil]
        rw [if_pos rfl, if_pos rfl, List.map_congr_left others]
      · have inRest : name ∈ rest :=
          (List.mem_cons.mp member).resolve_left (Ne.symm isFirst)
        rw [if_neg isFirst, if_neg (Ne.symm isFirst), List.append_nil,
          inductionHypothesis restNoDuplicates inRest]

/-- A name that does not wait yet comes last. -/
theorem add_of_not_mem (absent : name ∉ names) :
    add name address (names.map fun other => (other, addressesFor other)) =
      (names.map fun other => (other, addressesFor other)) ++
        [(name, [address])] := by
  induction names with
  | nil => rfl
  | cons first rest inductionHypothesis =>
      rw [List.mem_cons, not_or] at absent
      obtain ⟨notFirst, notInRest⟩ := absent
      simp only [List.map_cons, add]
      rw [if_neg (Ne.symm notFirst), inductionHypothesis notInRest]
      rfl

/-- The addresses of a name that waits. -/
theorem addressesOf_map :
    addressesOf name (names.map fun other => (other, addressesFor other)) =
      if name ∈ names then addressesFor name else [] := by
  induction names with
  | nil => rfl
  | cons first rest inductionHypothesis =>
      rw [List.map_cons, addressesOf_cons, inductionHypothesis]
      by_cases isFirst : name = first
      · simp [isFirst]
      · simp [isFirst]

end

end PendingTable

namespace TwoPass

section Unresolved

variable (statements : List Statement) (statement : Statement) {name : Text}

/-- The addresses that wait for an undefined name are the references to it. -/
theorem addressesOf_unresolved
    (undefined : (definitions statements).lookup name = none) :
    PendingTable.addressesOf name (unresolved statements) =
      referencesTo name statements := by
  rw [unresolved, PendingTable.addressesOf_map]
  by_cases referred : name ∈ referredNames statements
  · rw [if_pos (List.mem_filter.mpr ⟨referred, by rw [undefined]; rfl⟩)]
  · rw [if_neg fun member => referred (List.mem_filter.mp member).1,
      referencesTo_eq_nil statements referred]

/--
A statement that neither defines nor refers leaves the same names unresolved.
-/
theorem unresolved_append_plain
    (definesNone : statement.defines? = none)
    (refersToNone : statement.refersTo? = none) :
    unresolved (statements ++ [statement]) = unresolved statements := by
  have sameReferences (other : Text) :
      referencesTo other (statements ++ [statement]) =
        referencesTo other statements :=
    referencesTo_append_of_ne _ _ (by simp [refersToNone])
  simp only [unresolved, referredNames_append_singleton, refersToNone,
    definitions_append_singleton, definesNone, sameReferences, List.append_nil,
    Option.map_none, Option.toList_none]

/-- A reference to a name that is defined already resolves at once. -/
theorem unresolved_append_resolved
    (definesNone : statement.defines? = none)
    (refers : statement.refersTo? = some name)
    (defined : (definitions statements).lookup name ≠ none) :
    unresolved (statements ++ [statement]) = unresolved statements := by
  have isDefined : ((definitions statements).lookup name).isNone = false :=
    Option.isNone_eq_false_iff.mpr (Option.isSome_iff_ne_none.mpr defined)
  have sameNames :
      (referredNames (statements ++ [statement])).filter
          (fun other => ((definitions statements).lookup other).isNone) =
        (referredNames statements).filter
          fun other => ((definitions statements).lookup other).isNone := by
    rw [referredNames_append_singleton, refers]
    by_cases known : name ∈ referredNames statements <;>
      simp [known, isDefined]
  simp only [unresolved, definitions_append_singleton, definesNone,
    Option.map_none, Option.toList_none, List.append_nil, sameNames]
  refine List.map_congr_left fun other member => ?_
  have differs : statement.refersTo? ≠ some other := by
    rw [refers]
    rintro same
    cases same
    rw [List.mem_filter, isDefined] at member
    cases member.2
  rw [referencesTo_append_of_ne _ _ differs]

/-- A reference to a name that is not defined yet waits at its address. -/
theorem unresolved_append_waiting
    (definesNone : statement.defines? = none)
    (refers : statement.refersTo? = some name)
    (undefined : (definitions statements).lookup name = none) :
    unresolved (statements ++ [statement]) =
      PendingTable.add name (extent statements) (unresolved statements) := by
  have isUndefined : ((definitions statements).lookup name).isNone = true := by
    rw [undefined]
    rfl
  simp only [unresolved, definitions_append_singleton, definesNone,
    Option.map_none, Option.toList_none, List.append_nil,
    referredNames_append_singleton, refers, referencesTo_append_singleton,
    Option.some.injEq]
  by_cases known : name ∈ referredNames statements
  · rw [if_pos known, List.append_nil,
      PendingTable.add_of_mem _ _ ((nodup_referredNames statements).filter _)
        (List.mem_filter.mpr ⟨known, isUndefined⟩)]
  · rw [if_neg known,
      PendingTable.add_of_not_mem _ _ fun member =>
        known (List.mem_filter.mp member).1,
      List.filter_append, List.map_append]
    have others :
        ∀ other ∈ (referredNames statements).filter fun other =>
            ((definitions statements).lookup other).isNone,
          (other, referencesTo other statements ++
              if name = other then [extent statements] else []) =
            (other, referencesTo other statements) := by
      intro other member
      have differs : name ≠ other := by
        rintro rfl
        exact known (List.mem_filter.mp member).1
      rw [if_neg differs, List.append_nil]
    rw [List.map_congr_left others]
    simp [isUndefined, referencesTo_eq_nil statements known]

/-- A definition resolves its name and no other. -/
theorem unresolved_append_definition
    (defines : statement.defines? = some name)
    (refersToNone : statement.refersTo? = none) :
    unresolved (statements ++ [statement]) =
      PendingTable.erase name (unresolved statements) := by
  have sameReferences (other : Text) :
      referencesTo other (statements ++ [statement]) =
        referencesTo other statements :=
    referencesTo_append_of_ne _ _ (by simp [refersToNone])
  have remaining (other : Text) :
      ((definitions statements ++
            [(name, extent statements)]).lookup other).isNone =
        (other != name && ((definitions statements).lookup other).isNone) := by
    rw [LabelTable.lookup_append_singleton]
    by_cases same : other = name
    · simp [same]
    · simp [same, bne]
  simp only [unresolved, PendingTable.erase, referredNames_append_singleton,
    refersToNone, definitions_append_singleton, defines, sameReferences,
    List.append_nil, Option.map_some, Option.toList_some, remaining,
    List.filter_map, List.filter_filter]
  rfl

end Unresolved

/-- Annotations with what a statement at an address adds to them. -/
def annotate (annotations : Annotations) : Statement × Nat → Annotations
  | (.label name, address) => annotations.addLabel address name
  | (.breakpoint, address) => annotations.addBreakpoint address
  | _ => annotations

/-- The annotations that statements make, in their order. -/
def annotations (statements : List Statement) : Annotations :=
  (located statements).foldl annotate {}

/--
What statements assemble to where every name that they refer to is defined.
-/
def assembly (statements : List Statement) : Assembly where
  program := program statements
  annotations := annotations statements
  labels := definitions statements

/-- What the one-pass assembler holds after given statements. -/
def draft (statements : List Statement) : Draft where
  program := program statements
  labels := definitions statements
  pending := unresolved statements
  annotations := annotations statements

section Simulation

variable (statements : List Statement) (statement : Statement)

@[simp] theorem size_program :
    (program statements).size = extent statements := by
  rw [program, List.size_toArray, length_emitted]

theorem annotations_append_singleton :
    annotations (statements ++ [statement]) =
      annotate (annotations statements) (statement, extent statements) := by
  simp only [annotations, located_append_singleton, List.foldl_append,
    List.foldl_cons, List.foldl_nil]

/-- A statement that defines nothing is emitted after the others. -/
theorem program_append_singleton (definesNone : statement.defines? = none) :
    program (statements ++ [statement]) =
      program statements ++
        statement.instructions (addressIn (definitions statements)) := by
  apply Array.ext'
  simp only [program, definitions_append_singleton, definesNone,
    Option.map_none, Option.toList_none, List.append_nil,
    emitted_append_singleton, Array.toList_appendList]

/--
A statement that only emits leaves labels, waiting names and annotations alone.
-/
theorem draft_append_emitting
    (definesNone : statement.defines? = none)
    (refersToNone : statement.refersTo? = none)
    (isNoBreakpoint : statement ≠ .breakpoint) :
    draft (statements ++ [statement]) =
      (draft statements).emit
        (statement.instructions (addressIn (definitions statements))) := by
  have sameAnnotations :
      annotate (annotations statements) (statement, extent statements) =
        annotations statements := by
    cases statement with
    | label name => cases definesNone
    | breakpoint => exact absurd rfl isNoBreakpoint
    | _ => rfl
  simp only [draft, Draft.emit,
    program_append_singleton statements statement definesNone,
    definitions_append_singleton, definesNone,
    unresolved_append_plain statements statement definesNone refersToNone,
    annotations_append_singleton, sameAnnotations, Option.map_none,
    Option.toList_none, List.append_nil]

/--
A reference is emitted with its address, or waits where that is not known yet.
-/
theorem pushLabel_draft (name : Text) :
    (draft statements).pushLabel name =
      draft (statements ++ [.push (.label name)]) := by
  have emits :
      program (statements ++ [.push (.label name)]) =
        program statements ++
          [Instruction.push
            (Word.wrap (addressIn (definitions statements) name))] :=
    program_append_singleton statements _ rfl
  unfold Draft.pushLabel
  cases found : (definitions statements).lookup name with
  | some address =>
      have known : addressIn (definitions statements) name = address := by
        rw [addressIn, found]
        rfl
      have defined : (definitions statements).lookup name ≠ none := by
        rw [found]
        exact Option.some_ne_none _
      simp only [draft, found, Draft.emit, Draft.addressWord, emits, known,
        definitions_append_singleton, Statement.defines?, Option.map_none,
        Option.toList_none, List.append_nil,
        unresolved_append_resolved statements (.push (.label name)) rfl rfl
          defined,
        annotations_append_singleton, annotate]
  | none =>
      have unknown : addressIn (definitions statements) name = 0 := by
        rw [addressIn, found]
        rfl
      simp only [draft, found, Draft.emit, Draft.wait, emits, unknown,
        size_program, definitions_append_singleton, Statement.defines?,
        Option.map_none, Option.toList_none, List.append_nil,
        unresolved_append_waiting statements (.push (.label name)) rfl rfl
          found,
        annotations_append_singleton, annotate]
      rfl

/--
A definition patches the program to what is emitted with the name defined.
-/
theorem define_draft
    {name : Text}
    (undefined : (definitions statements).lookup name = none) :
    (draft statements).define name = draft (statements ++ [.label name]) := by
  have patched :
      patch (program statements) (referencesTo name statements)
          (Word.wrap (extent statements)) =
        program (statements ++ [.label name]) := by
    rw [program, patch_emitted undefined, program, definitions_append_singleton,
      emitted_append_singleton]
    simp only [Statement.instructions, Statement.defines?, Option.map_some,
      Option.toList_some, List.append_nil]
  simp only [draft, Draft.define, Draft.addressWord, size_program,
    addressesOf_unresolved statements undefined, patched,
    definitions_append_singleton, Statement.defines?, Option.map_some,
    Option.toList_some,
    unresolved_append_definition statements (.label name) rfl rfl,
    annotations_append_singleton, annotate]

/--
The step of the simulation: the draft of some statements and one more statement
make the draft of all of them, unless the statement defines a name again.
-/
theorem add_draft :
    (draft statements).add statement =
      match statementDefect? statements statement with
      | some defect => .error defect
      | none => .ok (draft (statements ++ [statement])) := by
  cases statement with
  | push operand =>
      cases operand with
      | word value =>
          rw [Draft.add_push_word]
          exact congrArg Except.ok
            (draft_append_emitting statements (.push (.word value)) rfl rfl
              (by simp)).symm
      | label name =>
          rw [Draft.add_push_label]
          exact congrArg Except.ok (pushLabel_draft statements name)
  | operate operation =>
      exact congrArg Except.ok
        (draft_append_emitting statements (.operate operation) rfl rfl
          (by simp)).symm
  | string text =>
      exact congrArg Except.ok
        (draft_append_emitting statements (.string text) rfl rfl (by simp)).symm
  | breakpoint =>
      have emitsNothing :
          program (statements ++ [.breakpoint]) = program statements := by
        rw [program_append_singleton statements _ rfl]
        exact Array.appendList_nil
      simp only [Draft.add, statementDefect?, Statement.defines?, draft,
        size_program, emitsNothing, definitions_append_singleton,
        Option.map_none, Option.toList_none, List.append_nil,
        unresolved_append_plain statements .breakpoint rfl rfl,
        annotations_append_singleton, annotate]
  | label name =>
      cases found : (definitions statements).lookup name with
      | some address =>
          simp only [Draft.add, statementDefect?, Statement.defines?, draft,
            found, Option.map_some]
      | none =>
          have defined := define_draft statements found
          simp only [Draft.add, statementDefect?, Statement.defines?, found,
            Option.map_none, ← defined]
          simp only [draft, found]

end Simulation

/--
A line without a defect adds the statement that it holds, if it holds one.
-/
theorem addLine_draft
    (before : List Text)
    (line : Text) :
    (draft (statementsOf before)).addLine line =
      match lineDefect? (statementsOf before) line with
      | some defect => .error defect
      | none => .ok (draft (statementsOf (before ++ [line]))) := by
  unfold Draft.addLine lineDefect?
  rw [statementsOf_append_singleton]
  cases Statement.ofLine line with
  | error defect => rfl
  | ok held =>
      cases held with
      | none =>
          rw [Except.toOption, Option.join_some, Option.toList_none,
            List.append_nil]
      | some statement => exact add_draft (statementsOf before) statement

/--
The simulation over lines: those without defects turn one draft into the other.
-/
theorem addLines_draft
    (file : Text)
    (number : Nat)
    (before lines : List Text)
    (free : FreeOfDefects (before ++ lines)) :
    Draft.addLines file (draft (statementsOf before)) number lines =
      .ok (draft (statementsOf (before ++ lines))) := by
  induction lines generalizing before number with
  | nil => rw [Draft.addLines, List.append_nil]
  | cons line rest inductionHypothesis =>
      have noDefect := free before line rest rfl
      rw [← List.singleton_append, ← List.append_assoc] at free ⊢
      rw [List.singleton_append, Draft.addLines, addLine_draft, noDefect]
      exact inductionHypothesis (number + 1) (before ++ [line]) free

/--
Lines are added one part after the other, as far as none of them has a defect.
-/
theorem addLines_append
    (file : Text)
    (initial : Draft)
    (number : Nat)
    (before lines : List Text) :
    Draft.addLines file initial number (before ++ lines) =
      match Draft.addLines file initial number before with
      | .error error => .error error
      | .ok reached =>
          Draft.addLines file reached (number + before.length) lines := by
  induction before generalizing initial number with
  | nil => rfl
  | cons line rest inductionHypothesis =>
      rw [List.cons_append, Draft.addLines, Draft.addLines]
      cases initial.addLine line with
      | error defect => rfl
      | ok reached =>
          simp only [inductionHypothesis, List.length_cons]
          rw [Nat.add_assoc, Nat.add_comm 1]

/--
Lines without defects are assembled as far as their draft can be finished.
-/
theorem ofLines_of_free
    (file : Text)
    {lines : List Text}
    (free : FreeOfDefects lines) :
    Assembly.ofLines file lines =
      match (draft (statementsOf lines)).finish with
      | .error defect =>
          .error { defect := defect, file := file, line := lines.length }
      | .ok assembly => .ok assembly := by
  have added :
      Draft.addLines file {} 1 lines = .ok (draft (statementsOf lines)) :=
    addLines_draft file 1 [] _ free
  cases finished : (draft (statementsOf lines)).finish <;>
    simp only [Assembly.ofLines, added, finished]

/-- The first line that has a defect is the error of all. -/
theorem ofLines_of_defect
    (file : Text)
    {before after : List Text}
    {line : Text}
    {defect : AssemblyDefect}
    (free : FreeOfDefects before)
    (found : lineDefect? (statementsOf before) line = some defect) :
    Assembly.ofLines file (before ++ line :: after) =
      .error { defect := defect, file := file, line := before.length + 1 } := by
  have added :
      Draft.addLines file {} 1 before = .ok (draft (statementsOf before)) :=
    addLines_draft file 1 [] _ free
  rw [Assembly.ofLines, addLines_append, added]
  simp only [Draft.addLines, addLine_draft, found, Nat.add_comm 1]

section Annotations

variable (statements : List Statement) (address : Int)

/-- An address has the last name that is defined there. -/
theorem labelAt?_annotations :
    (annotations statements).labelAt? address = nameAt? statements address := by
  induction statements using List.reverseRecOn with
  | nil => rfl
  | append_singleton earlier last inductionHypothesis =>
      rw [annotations_append_singleton, nameAt?, definitions_append_singleton]
      cases last with
      | label name =>
          rw [annotate, Annotations.labelAt?_addLabel, inductionHypothesis,
            nameAt?]
          by_cases here : address = extent earlier
          · simp [Statement.defines?, here]
          · simp [Statement.defines?, here, Ne.symm here]
      | breakpoint =>
          simpa [annotate, Statement.defines?, nameAt?]
            using inductionHypothesis
      | _ =>
          simpa [annotate, Statement.defines?, nameAt?]
            using inductionHypothesis

/-- The debugger stops at the addresses that breakpoints stand before. -/
theorem mem_breakpoints_annotations :
    address ∈ (annotations statements).breakpoints ↔
      ∃ stop ∈ breakpoints statements, (stop : Int) = address := by
  induction statements using List.reverseRecOn with
  | nil => simp [annotations, breakpoints, located]
  | append_singleton earlier last inductionHypothesis =>
      rw [annotations_append_singleton, breakpoints_append_singleton]
      cases last with
      | breakpoint =>
          simp only [annotate, Annotations.addBreakpoint, AddressSet.mem_insert,
            inductionHypothesis, if_true, List.mem_append, List.mem_singleton]
          constructor
          · rintro (rfl | ⟨stop, member, same⟩)
            · exact ⟨_, Or.inr rfl, rfl⟩
            · exact ⟨stop, Or.inl member, same⟩
          · rintro ⟨stop, isEarlier | rfl, same⟩
            · exact Or.inr ⟨stop, isEarlier, same⟩
            · exact Or.inl same.symm
      | _ => simpa [annotate, Annotations.addLabel] using inductionHypothesis

theorem verbose_annotations : (annotations statements).verbose = false := by
  induction statements using List.reverseRecOn with
  | nil => rfl
  | append_singleton earlier last inductionHypothesis =>
      rw [annotations_append_singleton]
      cases last <;> exact inductionHypothesis

end Annotations

section Resolved

variable (file : Text) {source : Text}

/--
Without defects and unresolved names a source assembles to the two passes'
assembly.
-/
theorem ofSource_of_resolved
    (free : FreeOfDefects source.lines)
    (resolved : unresolved (statementsOf source.lines) = []) :
    Assembly.ofSource file source =
      .ok (assembly (statementsOf source.lines)) := by
  rw [Assembly.ofSource, ofLines_of_free file free, Draft.finish, draft,
    resolved]
  rfl

/-- Unresolved names are the error of the last line. -/
theorem ofSource_of_unresolved
    (free : FreeOfDefects source.lines)
    (someUnresolved : unresolved (statementsOf source.lines) ≠ []) :
    Assembly.ofSource file source =
      .error
        { defect := .unresolvedLabels (unresolved (statementsOf source.lines))
          file := file
          line := source.lines.length } := by
  have notEmpty : (unresolved (statementsOf source.lines)).isEmpty = false := by
    rw [List.isEmpty_eq_false_iff]
    exact someUnresolved
  rw [Assembly.ofSource, ofLines_of_free file free, Draft.finish, draft,
    notEmpty]
  rfl

/-- Whatever assembles has no defects and no unresolved names. -/
theorem resolved_of_ofSource
    {result : Assembly}
    (assembled : Assembly.ofSource file source = .ok result) :
    FreeOfDefects source.lines ∧
      result = assembly (statementsOf source.lines) := by
  by_cases free : FreeOfDefects source.lines
  · by_cases resolved : unresolved (statementsOf source.lines) = []
    · rw [ofSource_of_resolved file free resolved] at assembled
      cases assembled
      exact ⟨free, rfl⟩
    · rw [ofSource_of_unresolved file free resolved] at assembled
      cases assembled
  · obtain ⟨before, line, after, defect, shape, beforeFree, found⟩ :=
      FreeOfDefects.first_defect free
    rw [Assembly.ofSource, shape,
      ofLines_of_defect file beforeFree found] at assembled
    cases assembled

/-- Whatever assembles leaves no name unresolved. -/
theorem unresolved_of_ofSource
    {result : Assembly}
    (assembled : Assembly.ofSource file source = .ok result) :
    unresolved (statementsOf source.lines) = [] := by
  refine Decidable.byContradiction fun someUnresolved => ?_
  have free := (resolved_of_ofSource file assembled).1
  rw [ofSource_of_unresolved file free someUnresolved] at assembled
  cases assembled

end Resolved

/--
Assembling in one pass does to every source what two passes do.

The first line that cannot be read or defines a defined name is the error,
whatever follows it. Without such a line, names that are referred to and never
defined are the error of the last line, each with all its references in
ascending order. Without those the result is the program that the second pass
emits, with the definitions in their order, the breakpoints where they stand,
and for each address the last name that is defined there.
-/
theorem ofSource_agrees_with_two_passes
    (file source : Text) :
    (¬FreeOfDefects source.lines →
      ∃ before line after defect,
        source.lines = before ++ line :: after ∧
          FreeOfDefects before ∧
          lineDefect? (statementsOf before) line = some defect ∧
          Assembly.ofSource file source =
            .error
              { defect := defect, file := file, line := before.length + 1 }) ∧
    (FreeOfDefects source.lines →
      unresolved (statementsOf source.lines) ≠ [] →
      Assembly.ofSource file source =
          .error
            { defect :=
                .unresolvedLabels (unresolved (statementsOf source.lines))
              file := file
              line := source.lines.length } ∧
        ∀ entry ∈ unresolved (statementsOf source.lines),
          entry.2.Pairwise (· < ·)) ∧
    (FreeOfDefects source.lines →
      unresolved (statementsOf source.lines) = [] →
      ∃ assembly,
        Assembly.ofSource file source = .ok assembly ∧
          assembly.program = program (statementsOf source.lines) ∧
          assembly.labels = definitions (statementsOf source.lines) ∧
          (∀ address,
            address ∈ assembly.annotations.breakpoints ↔
              ∃ stop ∈ breakpoints (statementsOf source.lines),
                (stop : Int) = address) ∧
          (∀ address,
            assembly.annotations.labelAt? address =
              nameAt? (statementsOf source.lines) address) ∧
          assembly.annotations.verbose = false) := by
  refine ⟨?_, ?_, ?_⟩
  · intro defective
    obtain ⟨before, line, after, defect, shape, free, found⟩ :=
      FreeOfDefects.first_defect defective
    refine ⟨before, line, after, defect, shape, free, found, ?_⟩
    rw [Assembly.ofSource, shape]
    exact ofLines_of_defect file free found
  · intro free someUnresolved
    refine ⟨ofSource_of_unresolved file free someUnresolved, ?_⟩
    intro entry member
    obtain ⟨name, _, rfl⟩ := List.mem_map.mp member
    exact (referencesTo_ascending _ name).1
  · intro free resolved
    exact
      ⟨assembly (statementsOf source.lines),
        ofSource_of_resolved file free resolved,
        rfl, rfl, mem_breakpoints_annotations _, labelAt?_annotations _,
        verbose_annotations _⟩

end TwoPass

end StackCode
