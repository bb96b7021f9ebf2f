import Mathlib.Data.List.Induction
import StackCode.Proofs.Tables

namespace StackCode

/-!
# Assembly in two passes

A plainer account of assembly than the one that patches as it goes. The first
pass lays all statements out: a statement's address is the number of
instructions that the statements before it emit, and a name stands for the
address of the statement that defines it. The second pass emits the instructions
with every label replaced by what it stands for. Nothing is patched and nothing
waits.

Lines are looked at first: a line that holds no statement, or that defines a
name which an earlier line defines, is the end of it. The lemmas say what one
more statement adds to each part of a layout.
-/

namespace Statement

/-- How many instructions a statement emits. -/
def size : Statement → Nat
  | .push _ => 1
  | .operate _ => 1
  | .label _ => 0
  | .string text => text.codePoints.length + 1
  | .breakpoint => 0

/-- The name that a statement defines. -/
def defines? : Statement → Option Text
  | .label name => some name
  | _ => none

/-- The name whose address a statement pushes. -/
def refersTo? : Statement → Option Text
  | .push (.label name) => some name
  | _ => none

/-- The instructions of a statement where names stand for given addresses. -/
def instructions (addressOf : Text → Nat) : Statement → List Instruction
  | .push (.word value) => [.push value]
  | .push (.label name) => [.push (Word.wrap (addressOf name))]
  | .operate operation => [.operate operation]
  | .label _ => []
  | .string text => stringInstructions text
  | .breakpoint => []

/-- A statement emits as many instructions as it takes up addresses. -/
@[simp] theorem length_instructions
    (addressOf : Text → Nat)
    (statement : Statement) :
    (statement.instructions addressOf).length = statement.size := by
  cases statement with
  | push operand => cases operand <;> rfl
  | operate operation => rfl
  | label name => rfl
  | string text =>
      simp only [instructions, stringInstructions, size, List.length_cons,
        List.length_map, List.length_reverse]
  | breakpoint => rfl

/-- Only the address of the name that it refers to matters to a statement. -/
theorem instructions_congr
    {first second : Text → Nat}
    {statement : Statement}
    (agree :
      ∀ name, statement.refersTo? = some name → first name = second name) :
    statement.instructions first = statement.instructions second := by
  cases statement with
  | push operand =>
      cases operand with
      | word value => rfl
      | label name => simp only [instructions, agree name rfl]
  | operate operation => rfl
  | label name => rfl
  | string text => rfl
  | breakpoint => rfl

/-- A statement that refers to a name pushes the address of the name. -/
theorem instructions_of_refersTo
    {statement : Statement}
    {name : Text}
    (refers : statement.refersTo? = some name)
    (addressOf : Text → Nat) :
    statement.instructions addressOf = [.push (Word.wrap (addressOf name))] := by
  cases statement with
  | push operand =>
      cases operand with
      | word value => cases refers
      | label other =>
          cases refers
          rfl
  | _ => cases refers

end Statement

namespace TwoPass

/-- How many instructions statements emit. -/
def extent : List Statement → Nat
  | [] => 0
  | statement :: rest => statement.size + extent rest

/-- Statements with their addresses: the extent of those before each. -/
def located (statements : List Statement) : List (Statement × Nat) :=
  statements.zipIdx.map fun (statement, index) =>
    (statement, extent (statements.take index))

/-- The names that statements define, with their addresses. -/
def definitions (statements : List Statement) : LabelTable :=
  (located statements).filterMap fun (statement, address) =>
    statement.defines?.map fun name => (name, address)

/-- The names that statements refer to, with the addresses of the references. -/
def references (statements : List Statement) : List (Text × Nat) :=
  (located statements).filterMap fun (statement, address) =>
    statement.refersTo?.map fun name => (name, address)

/-- The addresses that statements ask to stop at. -/
def breakpoints (statements : List Statement) : List Nat :=
  (located statements).filterMap fun (statement, address) =>
    if statement = .breakpoint then some address else none

/-- The addresses of the references to one name. -/
def referencesTo (name : Text) (statements : List Statement) : List Nat :=
  (references statements).filterMap fun (other, address) =>
    if other = name then some address else none

/-- The names that are referred to, in the order of their first reference. -/
def referredNames (statements : List Statement) : List Text :=
  ((references statements).map Prod.fst).eraseDups

/--
The names that are referred to and never defined, with all their references.
-/
def unresolved (statements : List Statement) : PendingTable :=
  ((referredNames statements).filter fun name =>
    ((definitions statements).lookup name).isNone).map fun name =>
      (name, referencesTo name statements)

/-- What a table lets a name stand for; zero where it has no such name. -/
def addressIn (labels : LabelTable) (name : Text) : Nat :=
  (labels.lookup name).getD 0

/-- The instructions of statements where names stand for what a table says. -/
def emitted (labels : LabelTable) (statements : List Statement) :
    List Instruction :=
  statements.flatMap (Statement.instructions (addressIn labels))

/--
The program of statements: all that they emit, with the names that they define.
-/
def program (statements : List Statement) : Program :=
  (emitted (definitions statements) statements).toArray

/--
The statements that lines hold; a line that cannot be read counts as blank.
-/
def statementsOf (lines : List Text) : List Statement :=
  lines.filterMap fun line => (Statement.ofLine line).toOption.join

/-- What is wrong with a statement after others: it defines a name of theirs. -/
def statementDefect?
    (earlier : List Statement)
    (statement : Statement) :
    Option AssemblyDefect :=
  match statement.defines? with
  | none => none
  | some name =>
      ((definitions earlier).lookup name).map
        (AssemblyDefect.duplicateLabel name)

/-- What is wrong with a line after lines that hold given statements. -/
def lineDefect? (earlier : List Statement) (line : Text) :
    Option AssemblyDefect :=
  match Statement.ofLine line with
  | .error defect => some (.statement defect)
  | .ok none => none
  | .ok (some statement) => statementDefect? earlier statement

/-- No line is unreadable or defines a name that a line before it defines. -/
def FreeOfDefects (lines : List Text) : Prop :=
  ∀ before line after,
    lines = before ++ line :: after →
    lineDefect? (statementsOf before) line = none

/-- The name of an address: the last that statements give it. -/
def nameAt? (statements : List Statement) (address : Int) : Option Text :=
  ((definitions statements).reverse.find? fun (_, other) =>
    decide ((other : Int) = address)).map Prod.fst

/-- A statement that a line holds is what the line is read as. -/
theorem read_of_held
    {line : Text}
    {statement : Statement}
    (held : (Statement.ofLine line).toOption.join = some statement) :
    Statement.ofLine line = .ok (some statement) := by
  cases read : Statement.ofLine line with
  | error defect =>
      rw [read] at held
      cases held
  | ok found =>
      rw [read] at held
      exact congrArg Except.ok held

/-- Lines are read one by one. -/
theorem statementsOf_append (before after : List Text) :
    statementsOf (before ++ after) = statementsOf before ++ statementsOf after :=
  List.filterMap_append

theorem statementsOf_append_singleton
    (lines : List Text)
    (line : Text) :
    statementsOf (lines ++ [line]) =
      statementsOf lines ++ (Statement.ofLine line).toOption.join.toList := by
  rw [statementsOf_append]
  rfl

namespace FreeOfDefects

/-- Lines without defects stay so up to any of them. -/
theorem of_append
    {before after : List Text}
    (free : FreeOfDefects (before ++ after)) :
    FreeOfDefects before := by
  rintro earlier line later rfl
  exact free earlier line (later ++ after) (by simp)

/-- One more line may not have a defect. -/
theorem append_singleton
    {lines : List Text}
    {line : Text}
    (free : FreeOfDefects lines)
    (noDefect : lineDefect? (statementsOf lines) line = none) :
    FreeOfDefects (lines ++ [line]) := by
  intro before other after shape
  rcases List.eq_nil_or_concat after with isLast | ⟨later, last, isBefore⟩
  · subst isLast
    obtain ⟨rfl, same⟩ := List.append_inj' shape rfl
    cases same
    exact noDefect
  · subst isBefore
    have shorter : lines = before ++ other :: later := by
      have split : lines ++ [line] = (before ++ other :: later) ++ [last] := by
        rw [shape, List.concat_eq_append, List.append_assoc, List.cons_append]
      exact (List.append_inj' split rfl).1
    exact free before other later shorter

/-- Lines that have defects have a first one. -/
theorem first_defect
    {lines : List Text}
    (defective : ¬FreeOfDefects lines) :
    ∃ before line after defect,
      lines = before ++ line :: after ∧
        FreeOfDefects before ∧
        lineDefect? (statementsOf before) line = some defect := by
  induction lines using List.reverseRecOn with
  | nil =>
      refine absurd ?_ defective
      intro before line after shape
      cases before <;> cases shape
  | append_singleton earlier last inductionHypothesis =>
      by_cases free : FreeOfDefects earlier
      · cases found : lineDefect? (statementsOf earlier) last with
        | none => exact absurd (free.append_singleton found) defective
        | some defect => exact ⟨earlier, last, [], defect, rfl, free, found⟩
      · obtain ⟨before, line, after, defect, rfl, free, found⟩ :=
          inductionHypothesis free
        exact ⟨before, line, after ++ [last], defect, by simp, free, found⟩

end FreeOfDefects

/-- A new entry adds its name to what a table knows. -/
theorem addressIn_append_singleton
    {labels : LabelTable}
    {name : Text}
    (undefined : labels.lookup name = none)
    (address : Nat)
    (other : Text) :
    addressIn (labels ++ [(name, address)]) other =
      if other = name then address else addressIn labels other := by
  rw [addressIn, LabelTable.lookup_append_singleton]
  by_cases same : other = name
  · simp [same, undefined]
  · simp [same, addressIn]

section Layout

variable (statements : List Statement) (statement : Statement)

/-- The statements that are added take their room after the others. -/
theorem extent_append (others : List Statement) :
    extent (statements ++ others) = extent statements + extent others := by
  induction statements with
  | nil => exact (Nat.zero_add _).symm
  | cons first rest inductionHypothesis =>
      rw [List.cons_append, extent, extent, inductionHypothesis, Nat.add_assoc]

@[simp] theorem extent_append_singleton :
    extent (statements ++ [statement]) =
      extent statements + statement.size := by
  rw [extent_append]
  rfl

/-- As many instructions are emitted as statements take room. -/
@[simp] theorem length_emitted (labels : LabelTable) :
    (emitted labels statements).length = extent statements := by
  induction statements with
  | nil => rfl
  | cons first rest inductionHypothesis =>
      rw [emitted, List.flatMap_cons, List.length_append,
        Statement.length_instructions]
      exact congrArg (first.size + ·) inductionHypothesis

/-- One more statement comes after all others and moves none of them. -/
theorem located_append_singleton :
    located (statements ++ [statement]) =
      located statements ++ [(statement, extent statements)] := by
  have unmoved :
      ∀ entry ∈ statements.zipIdx,
        (entry.1, extent ((statements ++ [statement]).take entry.2)) =
          (entry.1, extent (statements.take entry.2)) := by
    intro entry member
    have inBounds : entry.2 ≤ statements.length :=
      Nat.le_of_lt (List.snd_lt_of_mem_zipIdx member)
    rw [List.take_append_of_le_length inBounds]
  simp only [located, List.zipIdx_append, List.map_append,
    List.map_congr_left unmoved, Nat.zero_add, List.zipIdx_cons,
    List.zipIdx_nil, List.map_cons, List.map_nil, List.take_left]

/-- A definition stands for the address of what comes after it. -/
@[simp] theorem definitions_append_singleton :
    definitions (statements ++ [statement]) =
      definitions statements ++
        (statement.defines?.map fun name =>
          (name, extent statements)).toList := by
  simp only [definitions, located_append_singleton, List.filterMap_append]
  cases defined : statement.defines? <;> simp [defined]

/-- A reference stands at the address of its own instruction. -/
@[simp] theorem references_append_singleton :
    references (statements ++ [statement]) =
      references statements ++
        (statement.refersTo?.map fun name =>
          (name, extent statements)).toList := by
  simp only [references, located_append_singleton, List.filterMap_append]
  cases referred : statement.refersTo? <;> simp [referred]

/-- A breakpoint stands for the address of what comes after it. -/
@[simp] theorem breakpoints_append_singleton :
    breakpoints (statements ++ [statement]) =
      breakpoints statements ++
        if statement = .breakpoint then [extent statements] else [] := by
  simp only [breakpoints, located_append_singleton, List.filterMap_append]
  by_cases isBreakpoint : statement = .breakpoint <;> simp [isBreakpoint]

@[simp] theorem emitted_append_singleton (labels : LabelTable) :
    emitted labels (statements ++ [statement]) =
      emitted labels statements ++
        statement.instructions (addressIn labels) := by
  simp only [emitted, List.flatMap_append, List.flatMap_cons, List.flatMap_nil,
    List.append_nil]

/-- One more statement refers to a name once, if it does at all. -/
theorem referencesTo_append_singleton (name : Text) :
    referencesTo name (statements ++ [statement]) =
      referencesTo name statements ++
        if statement.refersTo? = some name then
          [extent statements]
        else
          [] := by
  simp only [referencesTo, references_append_singleton, List.filterMap_append]
  cases statement.refersTo? with
  | none => simp
  | some other => by_cases same : other = name <;> simp [same]

/-- A statement that does not refer to a name adds no reference to it. -/
theorem referencesTo_append_of_ne
    {name : Text}
    (refersNot : statement.refersTo? ≠ some name) :
    referencesTo name (statements ++ [statement]) =
      referencesTo name statements := by
  rw [referencesTo_append_singleton, if_neg refersNot, List.append_nil]

/-- References to a name stand within the layout, in ascending order. -/
theorem referencesTo_ascending (name : Text) :
    (referencesTo name statements).Pairwise (· < ·) ∧
      ∀ address ∈ referencesTo name statements,
        address < extent statements := by
  induction statements using List.reverseRecOn with
  | nil =>
      exact
        ⟨List.Pairwise.nil, by simp [referencesTo, references, located]⟩
  | append_singleton earlier last inductionHypothesis =>
      obtain ⟨ascending, within⟩ := inductionHypothesis
      rw [referencesTo_append_singleton, extent_append_singleton]
      by_cases refers : last.refersTo? = some name
      · have size : last.size = 1 := by
          cases last with
          | push operand => rfl
          | _ => cases refers
        rw [if_pos refers, size]
        constructor
        · refine List.pairwise_append.mpr
            ⟨ascending, List.pairwise_singleton _ _, ?_⟩
          intro address member other isLast
          rw [List.mem_singleton.mp isLast]
          exact within address member
        · intro address member
          rcases List.mem_append.mp member with isEarlier | isLast
          · exact Nat.lt_succ_of_lt (within address isEarlier)
          · rw [List.mem_singleton.mp isLast]
            exact Nat.lt_succ_self _
      · rw [if_neg refers, List.append_nil]
        exact ⟨ascending, fun address member =>
          Nat.lt_of_lt_of_le (within address member) (Nat.le_add_right _ _)⟩

/-- One more statement refers to one more name at most. -/
theorem referredNames_append_singleton :
    referredNames (statements ++ [statement]) =
      referredNames statements ++
        match statement.refersTo? with
        | none => []
        | some name =>
            if name ∈ referredNames statements then [] else [name] := by
  rw [referredNames, references_append_singleton, List.map_append,
    List.eraseDups_append]
  cases statement.refersTo? with
  | none => rfl
  | some name =>
      by_cases known : name ∈ referredNames statements
      · have member := known
        rw [referredNames, List.mem_eraseDups] at member
        simp only [known, if_true]
        simp [referredNames, List.removeAll, member]
      · have absent := known
        rw [referredNames, List.mem_eraseDups] at absent
        simp only [known, if_false]
        simp [referredNames, List.removeAll, List.eraseDups_cons, absent]

/-- Each name is listed once, however often it is referred to. -/
theorem nodup_referredNames : (referredNames statements).Nodup := by
  induction statements using List.reverseRecOn with
  | nil => exact List.nodup_nil
  | append_singleton earlier last inductionHypothesis =>
      rw [referredNames_append_singleton]
      cases last.refersTo? with
      | none => simpa using inductionHypothesis
      | some name =>
          by_cases known : name ∈ referredNames earlier
          · simpa [known] using inductionHypothesis
          · simp only [known, if_false]
            refine List.nodup_append.mpr
              ⟨inductionHypothesis, List.pairwise_singleton _ _, ?_⟩
            intro other member new isNew
            rw [List.mem_singleton.mp isNew]
            rintro rfl
            exact known member

/-- A name that is not listed is nowhere referred to. -/
theorem referencesTo_eq_nil
    {name : Text}
    (absent : name ∉ referredNames statements) :
    referencesTo name statements = [] := by
  rw [referredNames, List.mem_eraseDups] at absent
  refine List.filterMap_eq_nil_iff.mpr fun reference member => ?_
  have differs : reference.1 ≠ name := by
    rintro rfl
    exact absent (List.mem_map_of_mem member)
  exact if_neg differs

/--
The names of the definitions are those that statements define, in their order.
-/
theorem map_fst_definitions :
    (definitions statements).map Prod.fst =
      statements.filterMap Statement.defines? := by
  induction statements using List.reverseRecOn with
  | nil => rfl
  | append_singleton earlier last inductionHypothesis =>
      rw [definitions_append_singleton, List.map_append, inductionHypothesis,
        List.filterMap_append]
      cases defined : last.defines? <;> simp [defined]

/-- A name is undefined exactly where no statement defines it. -/
theorem lookup_definitions_eq_none_iff {name : Text} :
    (definitions statements).lookup name = none ↔
      name ∉ statements.filterMap Statement.defines? := by
  rw [List.lookup_eq_none_iff, ← map_fst_definitions, List.mem_map]
  constructor
  · rintro absent ⟨entry, member, rfl⟩
    simpa using absent entry member
  · intro absent entry member
    refine bne_iff_ne.mpr ?_
    rintro rfl
    exact absent ⟨entry, member, rfl⟩

/-- A statement has no defect where no name would be defined twice. -/
theorem statementDefect?_eq_none_iff :
    statementDefect? statements statement = none ↔
      ∀ name,
        statement.defines? = some name →
        name ∉ statements.filterMap Statement.defines? := by
  unfold statementDefect?
  cases statement.defines? with
  | none => simp
  | some name =>
      simp only [Option.map_eq_none_iff, lookup_definitions_eq_none_iff,
        Option.some.injEq, forall_eq']

end Layout

namespace FreeOfDefects

/-- No name is defined twice in lines without defects. -/
theorem nodup_defines
    {lines : List Text}
    (free : FreeOfDefects lines) :
    ((statementsOf lines).filterMap Statement.defines?).Nodup := by
  induction lines using List.reverseRecOn with
  | nil => exact List.nodup_nil
  | append_singleton earlier last inductionHypothesis =>
      have earlierNodup := inductionHypothesis free.of_append
      have noDefect := free earlier last [] rfl
      rw [statementsOf_append_singleton]
      cases held : (Statement.ofLine last).toOption.join with
      | none => simpa using earlierNodup
      | some statement =>
          rw [lineDefect?.eq_def, read_of_held held] at noDefect
          have isNew := (statementDefect?_eq_none_iff _ _).mp noDefect
          rw [Option.toList_some, List.filterMap_append]
          cases defined : statement.defines? with
          | none => simpa [defined] using earlierNodup
          | some name =>
              refine List.nodup_append.mpr
                ⟨earlierNodup, by simp [defined], ?_⟩
              intro other member new isLast
              have isName : new = name := by
                simpa [defined] using isLast
              rw [isName]
              rintro rfl
              exact isNew other defined member

end FreeOfDefects

/--
Lines are without defects where each of them can be read and no name is defined
twice.
-/
theorem freeOfDefects_iff {lines : List Text} :
    FreeOfDefects lines ↔
      (∀ line ∈ lines, ∃ held, Statement.ofLine line = .ok held) ∧
        ((statementsOf lines).filterMap Statement.defines?).Nodup := by
  constructor
  · intro free
    refine ⟨?_, free.nodup_defines⟩
    intro line member
    obtain ⟨before, after, shape⟩ := List.append_of_mem member
    have noDefect := free before line after shape
    cases read : Statement.ofLine line with
    | ok held => exact ⟨held, rfl⟩
    | error defect =>
        rw [lineDefect?.eq_def, read] at noDefect
        cases noDefect
  · rintro ⟨readable, nodup⟩ before line after rfl
    obtain ⟨held, read⟩ := readable line (by simp)
    cases held with
    | none => rw [lineDefect?.eq_def, read]
    | some statement =>
        rw [lineDefect?.eq_def, read]
        refine (statementDefect?_eq_none_iff _ _).mpr ?_
        intro name defines member
        have holds : (Statement.ofLine line).toOption.join = some statement := by
          rw [read]
          rfl
        rw [← List.singleton_append, ← List.append_assoc, statementsOf_append,
          statementsOf_append_singleton, holds, Option.toList_some,
          List.append_assoc, List.filterMap_append, List.singleton_append,
          List.filterMap_cons, defines] at nodup
        exact (List.nodup_append.mp nodup).2.2 name member name
          List.mem_cons_self rfl

end TwoPass

end StackCode
