import StackCode.Command.Basic
import StackCode.Proofs.TwoPass

namespace StackCode

/-!
# What holds of a draft after every line

The parts of a draft depend on each other: what is pending may not be defined, the
addresses that are pending must hold a `PUSH` of zero to patch, and the annotations
name exactly the addresses in the label table. `Draft.Sound` is what every statement
preserves. Lines that are read one after the other therefore lead from sound drafts
to sound drafts, and none of the checks on the way can fail but those on the source.
-/

/-- What is emitted changes no instruction before it. -/
theorem getElem?_appendList
    (program : Program)
    (instructions : List Instruction)
    {address : Nat}
    (within : address < program.size) :
    (program ++ instructions)[address]? = program[address]? := by
  rw [← Array.getElem?_toList, Array.toList_appendList,
    List.getElem?_append_left (Array.length_toList ▸ within),
    Array.getElem?_toList]

/-- Patching gives the instructions at the addresses the operand and no others. -/
theorem getElem?_patch
    (program : Program)
    (addresses : List Nat)
    (operand : Word)
    (address : Nat) :
    (patch program addresses operand)[address]? =
      if address ∈ addresses then
        program[address]?.map (Instruction.withOperand operand)
      else
        program[address]? := by
  have twice (instruction : Instruction) :
      (instruction.withOperand operand).withOperand operand =
        instruction.withOperand operand := by
    cases instruction <;> rfl
  induction addresses generalizing program with
  | nil => simp [patch]
  | cons first rest inductionHypothesis =>
      have unfolded :
          patch program (first :: rest) operand =
            patch (program.modify first (Instruction.withOperand operand)) rest
              operand :=
        rfl
      rw [unfolded, inductionHypothesis, Array.getElem?_modify]
      by_cases isFirst : address = first
      · subst isFirst
        by_cases inRest : address ∈ rest
        · simp [inRest, Function.comp_def, twice]
        · simp [inRest]
      · simp [isFirst, Ne.symm isFirst]

/-- To patch a program adds no instruction. -/
@[simp] theorem size_patch
    (program : Program)
    (addresses : List Nat)
    (operand : Word) :
    (patch program addresses operand).size = program.size := by
  induction addresses generalizing program with
  | nil => rfl
  | cons first rest inductionHypothesis =>
      have sameSize :
          (program.modify first (Instruction.withOperand operand)).size =
            program.size :=
        Array.size_modify
      rw [← sameSize]
      exact inductionHypothesis _

namespace Draft

/--
What every statement preserves.

Names are defined once and wait once, and none does both. Addresses that wait for a
name are in ascending order, wait for no other name and hold a `PUSH` of zero. Label
addresses and breakpoints do not lie beyond the end of the program. The names of
addresses are those of the label table.
-/
structure Sound (draft : Draft) : Prop where
  definedOnce : (draft.labels.map Prod.fst).Nodup
  pendingOnce : (draft.pending.map Prod.fst).Nodup
  undefined :
    ∀ entry ∈ draft.pending, draft.labels.lookup entry.1 = none
  nonempty : ∀ entry ∈ draft.pending, entry.2 ≠ []
  ascending : ∀ entry ∈ draft.pending, entry.2.Pairwise (· < ·)
  disjoint :
    ∀ first ∈ draft.pending,
      ∀ second ∈ draft.pending,
        first.1 ≠ second.1 → first.2.Disjoint second.2
  waiting :
    ∀ entry ∈ draft.pending,
      ∀ address ∈ entry.2, draft.program[address]? = some (.push 0)
  labelsWithin : ∀ entry ∈ draft.labels, entry.2 ≤ draft.program.size
  breakpointsWithin :
    ∀ address ∈ draft.annotations.breakpoints,
      0 ≤ address ∧ address ≤ draft.program.size
  named :
    ∀ address name,
      draft.annotations.labelAt? address = some name →
      ∃ place : Nat,
        address = place ∧ draft.labels.lookup name = some place
  labelled :
    ∀ entry ∈ draft.labels,
      ∃ name, draft.annotations.labelAt? entry.2 = some name

/-- A name may be defined exactly where it is not defined yet. -/
theorem add_label_eq_ok_iff
    {draft next : Draft}
    {name : Text} :
    draft.add (.label name) = .ok next ↔
      draft.labels.lookup name = none ∧ next = draft.define name := by
  simp only [add]
  cases draft.labels.lookup name with
  | none => simp [eq_comm]
  | some address => simp

/-- The only statement that is refused defines a name that is defined already. -/
theorem add_eq_error_iff
    {draft : Draft}
    {statement : Statement}
    {defect : AssemblyDefect} :
    draft.add statement = .error defect ↔
      ∃ name address,
        statement = .label name ∧
          draft.labels.lookup name = some address ∧
          defect = .duplicateLabel name address := by
  constructor
  · intro refused
    cases statement with
    | label name =>
        unfold add at refused
        cases known : draft.labels.lookup name with
        | none =>
            simp only [known] at refused
            cases refused
        | some address =>
            simp only [known] at refused
            cases refused
            exact ⟨name, address, rfl, known, rfl⟩
    | push operand =>
        cases operand with
        | word value =>
            rw [add_push_word] at refused
            cases refused
        | label name =>
            rw [add_push_label] at refused
            cases refused
    | _ => cases refused
  · rintro ⟨name, address, rfl, known, rfl⟩
    simp only [add, known]

/-- What the statements of some lines preserve, the lines preserve. -/
theorem addLines_preserves
    (Holds : Draft → Prop)
    {file : Text}
    {draft reached : Draft}
    {number : Nat}
    {lines : List Text}
    (added : addLines file draft number lines = .ok reached)
    (initially : Holds draft)
    (step :
      ∀ statement,
        (∃ line ∈ lines, Statement.ofLine line = .ok (some statement)) →
        ∀ earlier next,
          Holds earlier → earlier.add statement = .ok next → Holds next) :
    Holds reached := by
  induction lines generalizing draft number with
  | nil =>
      cases added
      exact initially
  | cons line rest inductionHypothesis =>
      have restStep :
          ∀ statement,
            (∃ other ∈ rest, Statement.ofLine other = .ok (some statement)) →
            ∀ earlier next,
              Holds earlier → earlier.add statement = .ok next → Holds next :=
        fun statement ⟨other, member, read⟩ =>
          step statement ⟨other, List.mem_cons_of_mem _ member, read⟩
      rw [addLines, addLine] at added
      cases read : Statement.ofLine line with
      | error defect =>
          rw [read] at added
          cases added
      | ok held =>
          rw [read] at added
          cases held with
          | none => exact inductionHypothesis added initially restStep
          | some statement =>
              cases accepted : draft.add statement with
              | error defect =>
                  simp only [accepted] at added
                  cases added
              | ok next =>
                  simp only [accepted] at added
                  have kept :=
                    step statement ⟨line, List.mem_cons_self, read⟩ draft next
                      initially accepted
                  exact inductionHypothesis added kept restStep

namespace Sound

variable {draft : Draft} {name : Text}

/-- A draft of nothing is sound. -/
theorem empty : ({} : Draft).Sound where
  definedOnce := List.nodup_nil
  pendingOnce := List.nodup_nil
  undefined := List.forall_mem_nil _
  nonempty := List.forall_mem_nil _
  ascending := List.forall_mem_nil _
  disjoint := List.forall_mem_nil _
  waiting := List.forall_mem_nil _
  labelsWithin := List.forall_mem_nil _
  breakpointsWithin := fun address member =>
    absurd member (AddressSet.not_mem_empty address)
  named := fun address name found => by
    rw [Annotations.labelAt?_empty] at found
    cases found
  labelled := List.forall_mem_nil _

/-- Every address that is patched holds a `PUSH` of zero before. -/
theorem waits
    (sound : draft.Sound)
    {address : Nat}
    (member : address ∈ draft.pending.addressesOf name) :
    draft.program[address]? = some (.push 0) :=
  sound.waiting _ (PendingTable.mem_of_waits member) address member

/-- A program may grow at its end. -/
theorem extend
    (sound : draft.Sound)
    {program : Program}
    (kept :
      ∀ address < draft.program.size,
        program[address]? = draft.program[address]?)
    (larger : draft.program.size ≤ program.size) :
    Sound { draft with program := program } :=
  { sound with
    waiting := by
      intro entry member address waits
      have waiting := sound.waiting entry member address waits
      rw [kept address (Array.getElem?_eq_some_iff.mp waiting).1]
      exact waiting
    labelsWithin := fun entry member =>
      Nat.le_trans (sound.labelsWithin entry member) larger
    breakpointsWithin := fun address member =>
      have within := sound.breakpointsWithin address member
      ⟨within.1, Int.le_trans within.2 (Int.ofNat_le.mpr larger)⟩ }

/-- Instructions may be emitted at any time. -/
theorem emit
    (sound : draft.Sound)
    (instructions : List Instruction) :
    (draft.emit instructions).Sound :=
  sound.extend
    (fun _ within => getElem?_appendList _ instructions within)
    (by
      rw [← Array.length_toList, ← Array.length_toList,
        Array.toList_appendList, List.length_append]
      exact Nat.le_add_right _ _)

/--
An address that holds a `PUSH` of zero may begin to wait for an undefined name, if
all that waits comes before it.
-/
theorem wait
    (sound : draft.Sound)
    {address : Nat}
    (undefined : draft.labels.lookup name = none)
    (isPush : draft.program[address]? = some (.push 0))
    (isLast :
      ∀ entry ∈ draft.pending, ∀ other ∈ entry.2, other < address) :
    Sound { draft with pending := draft.pending.add name address } := by
  -- What the new entry adds to is the old one of its name, where there is one.
  have own :
      ∀ other ∈ draft.pending.addressesOf name,
        ∃ entry ∈ draft.pending, entry.1 = name ∧ other ∈ entry.2 :=
    fun _ member => ⟨_, PendingTable.mem_of_waits member, rfl, member⟩
  have apart :
      ∀ entry ∈ draft.pending,
        entry.1 ≠ name →
        entry.2.Disjoint (draft.pending.addressesOf name ++ [address]) := by
    intro entry member differs other inEntry inOwn
    rcases List.mem_append.mp inOwn with isOld | isNew
    · obtain ⟨second, isEntry, rfl, inSecond⟩ := own other isOld
      exact sound.disjoint entry member second isEntry differs inEntry inSecond
    · have before := isLast entry member other inEntry
      rw [List.mem_singleton.mp isNew] at before
      exact Nat.lt_irrefl _ before
  refine
    { sound with
      pendingOnce := ?pendingOnce
      undefined := ?undefined
      nonempty := ?nonempty
      ascending := ?ascending
      disjoint := ?disjoint
      waiting := ?waiting }
  case pendingOnce =>
    simp only [PendingTable.map_fst_add]
    split
    · exact sound.pendingOnce
    · next absent =>
        refine List.nodup_append.mpr
          ⟨sound.pendingOnce, List.pairwise_singleton _ _, ?_⟩
        intro other member new isNew
        rw [List.mem_singleton.mp isNew]
        rintro rfl
        exact absent member
  case undefined =>
    intro entry member
    rcases PendingTable.mem_add member with isOld | rfl
    · exact sound.undefined entry isOld
    · exact undefined
  case nonempty =>
    intro entry member
    rcases PendingTable.mem_add member with isOld | rfl
    · exact sound.nonempty entry isOld
    · exact List.append_ne_nil_of_right_ne_nil _ (List.cons_ne_nil _ _)
  case ascending =>
    intro entry member
    rcases PendingTable.mem_add member with isOld | rfl
    · exact sound.ascending entry isOld
    · refine List.pairwise_append.mpr ⟨?_, List.pairwise_singleton _ _, ?_⟩
      · rcases draft.pending.addressesOf_eq_nil_or_mem name with none | entry
        · rw [none]
          exact List.Pairwise.nil
        · exact sound.ascending _ entry
      · intro other isOld new isNew
        obtain ⟨entry, isEntry, _, inEntry⟩ := own other isOld
        rw [List.mem_singleton.mp isNew]
        exact isLast entry isEntry other inEntry
  case disjoint =>
    intro first isFirst second isSecond differ
    rcases PendingTable.mem_add isFirst with firstOld | rfl <;>
      rcases PendingTable.mem_add isSecond with secondOld | rfl
    · exact sound.disjoint first firstOld second secondOld differ
    · exact apart first firstOld differ
    · intro other inFirst inSecond
      exact apart second secondOld (Ne.symm differ) inSecond inFirst
    · exact absurd rfl differ
  case waiting =>
    intro entry member other waits
    rcases PendingTable.mem_add member with isOld | rfl
    · exact sound.waiting entry isOld other waits
    · rcases List.mem_append.mp waits with isOld | isNew
      · exact sound.waits isOld
      · rw [List.mem_singleton.mp isNew]
        exact isPush

/-- A reference waits at the address where it is emitted, or for nothing. -/
theorem pushLabel
    (sound : draft.Sound)
    (name : Text) :
    (draft.pushLabel name).Sound := by
  unfold Draft.pushLabel
  cases found : draft.labels.lookup name with
  | some address => exact sound.emit _
  | none =>
      have isPush :
          (draft.emit [.push 0]).program[draft.program.size]? = some (.push 0) := by
        simp [Draft.emit]
      refine (sound.emit [.push 0]).wait found isPush ?_
      intro entry member other waits
      exact
        (Array.getElem?_eq_some_iff.mp
          (sound.waiting entry member other waits)).1

/-- A name that has not been defined may be defined at any time. -/
theorem define
    (sound : draft.Sound)
    (undefined : draft.labels.lookup name = none) :
    (draft.define name).Sound where
  definedOnce := by
    simp only [Draft.define, List.map_append, List.map_cons, List.map_nil]
    refine List.nodup_append.mpr
      ⟨sound.definedOnce, List.pairwise_singleton _ _, ?_⟩
    intro other member new isNew
    rw [List.mem_singleton.mp isNew]
    rintro rfl
    obtain ⟨entry, isEntry, rfl⟩ := List.mem_map.mp member
    simpa using List.lookup_eq_none_iff.mp undefined entry isEntry
  pendingOnce := sound.pendingOnce.sublist (List.filter_sublist.map _)
  undefined := by
    intro entry member
    obtain ⟨isOld, differs⟩ := PendingTable.mem_erase.mp member
    simp only [Draft.define]
    rw [LabelTable.lookup_append_singleton, sound.undefined entry isOld,
      if_neg differs]
    rfl
  nonempty := fun entry member =>
    sound.nonempty entry (PendingTable.mem_erase.mp member).1
  ascending := fun entry member =>
    sound.ascending entry (PendingTable.mem_erase.mp member).1
  disjoint := fun first isFirst second isSecond =>
    sound.disjoint first (PendingTable.mem_erase.mp isFirst).1 second
      (PendingTable.mem_erase.mp isSecond).1
  waiting := by
    intro entry member address waits
    obtain ⟨isOld, differs⟩ := PendingTable.mem_erase.mp member
    -- What waits for another name is not patched.
    have unpatched : address ∉ draft.pending.addressesOf name := by
      intro patched
      have own := PendingTable.mem_of_waits patched
      exact sound.disjoint entry isOld _ own differs waits patched
    simp only [Draft.define]
    rw [getElem?_patch, if_neg unpatched]
    exact sound.waiting entry isOld address waits
  labelsWithin := by
    intro entry member
    simp only [Draft.define, size_patch] at member ⊢
    rcases List.mem_append.mp member with isOld | isNew
    · exact sound.labelsWithin entry isOld
    · exact Nat.le_of_eq (congrArg Prod.snd (List.mem_singleton.mp isNew))
  breakpointsWithin := by
    intro address member
    simp only [Draft.define, size_patch]
    exact sound.breakpointsWithin address member
  named := by
    intro address other found
    simp only [Draft.define, Annotations.labelAt?_addLabel] at found ⊢
    rw [LabelTable.lookup_append_singleton]
    by_cases here : address = draft.program.size
    · rw [if_pos here] at found
      cases found
      exact ⟨draft.program.size, here, by rw [undefined, if_pos rfl]; rfl⟩
    · rw [if_neg here] at found
      obtain ⟨place, isPlace, known⟩ := sound.named address other found
      exact ⟨place, isPlace, by rw [known]; rfl⟩
  labelled := by
    intro entry member
    simp only [Draft.define, Annotations.labelAt?_addLabel] at member ⊢
    by_cases here : (entry.2 : Int) = draft.program.size
    · exact ⟨name, if_pos here⟩
    · rw [if_neg here]
      rcases List.mem_append.mp member with isOld | isNew
      · exact sound.labelled entry isOld
      · rw [List.mem_singleton.mp isNew] at here
        exact absurd rfl here

/-- A breakpoint may be added at any time. -/
theorem addBreakpoint (sound : draft.Sound) :
    Sound
      { draft with
        annotations :=
          draft.annotations.addBreakpoint draft.program.size } :=
  { sound with
    breakpointsWithin := by
      intro address member
      rcases AddressSet.mem_insert.mp member with rfl | isOld
      · exact ⟨Int.natCast_nonneg _, Int.le_refl _⟩
      · exact sound.breakpointsWithin address isOld }

/-- Every statement that can be added to a sound draft leaves a sound one. -/
theorem add
    (sound : draft.Sound)
    {statement : Statement}
    {next : Draft}
    (added : draft.add statement = .ok next) :
    next.Sound := by
  cases statement with
  | push operand =>
      cases operand with
      | word value =>
          rw [add_push_word] at added
          cases added
          exact sound.emit _
      | label name =>
          rw [add_push_label] at added
          cases added
          exact sound.pushLabel name
  | operate operation =>
      cases added
      exact sound.emit _
  | string text =>
      cases added
      exact sound.emit _
  | breakpoint =>
      cases added
      exact sound.addBreakpoint
  | label name =>
      obtain ⟨undefined, rfl⟩ := add_label_eq_ok_iff.mp added
      exact sound.define undefined

/-- The run of the step: lines lead from a sound draft to sound drafts. -/
theorem addLines
    (sound : draft.Sound)
    {file : Text}
    {number : Nat}
    {lines : List Text}
    {reached : Draft}
    (added : Draft.addLines file draft number lines = .ok reached) :
    reached.Sound :=
  addLines_preserves _ added sound fun _ _ _ _ earlierSound => earlierSound.add

end Sound

/-- The program with the name that a statement defines patched in. -/
def patchedFor (draft : Draft) (statement : Statement) : Program :=
  match statement.defines? with
  | none => draft.program
  | some name =>
      patch draft.program (draft.pending.addressesOf name)
        (addressWord draft.program.size)

/-- A statement patches what waits for it and then emits its instructions. -/
theorem program_of_add
    {draft next : Draft}
    {statement : Statement}
    (added : draft.add statement = .ok next) :
    next.program =
      draft.patchedFor statement ++
        statement.instructions (TwoPass.addressIn draft.labels) := by
  cases statement with
  | push operand =>
      cases operand with
      | word value =>
          rw [add_push_word] at added
          cases added
          rfl
      | label name =>
          rw [add_push_label] at added
          cases added
          unfold pushLabel
          cases found : draft.labels.lookup name with
          | some address =>
              simp only [emit, patchedFor, Statement.defines?,
                Statement.instructions, TwoPass.addressIn, found]
              rfl
          | none =>
              simp only [emit, wait, patchedFor, Statement.defines?,
                Statement.instructions, TwoPass.addressIn, found]
              rfl
  | operate operation =>
      cases added
      rfl
  | string text =>
      cases added
      rfl
  | breakpoint =>
      cases added
      rfl
  | label name =>
      obtain ⟨_, rfl⟩ := add_label_eq_ok_iff.mp added
      rfl

/-- Lines fail at the first of them that cannot be added. -/
theorem exists_refused_line
    {file : Text}
    {draft : Draft}
    {number : Nat}
    {lines : List Text}
    {error : AssemblyError}
    (failed : addLines file draft number lines = .error error) :
    ∃ before line after middle,
      lines = before ++ line :: after ∧
        addLines file draft number before = .ok middle ∧
        middle.addLine line = .error error.defect ∧
        error.file = file ∧
        error.line = number + before.length := by
  induction lines generalizing draft number with
  | nil => cases failed
  | cons line rest inductionHypothesis =>
      rw [addLines] at failed
      cases step : draft.addLine line with
      | error defect =>
          rw [step] at failed
          cases failed
          exact ⟨[], line, rest, draft, rfl, rfl, step, rfl, rfl⟩
      | ok next =>
          rw [step] at failed
          obtain ⟨before, refused, after, middle, rfl, reached, refuses, sameFile,
            place⟩ := inductionHypothesis failed
          refine
            ⟨line :: before, refused, after, middle, rfl, ?_, refuses, sameFile,
              ?_⟩
          · rw [addLines, step]
            exact reached
          · rw [place, List.length_cons]
            omega

/-- Lines are refused for what one of them says, or for a name that it defines again. -/
theorem defect_of_addLines
    {file : Text}
    {draft : Draft}
    {number : Nat}
    {lines : List Text}
    {error : AssemblyError}
    (failed : addLines file draft number lines = .error error) :
    (∃ defect, error.defect = .statement defect) ∨
      ∃ name address, error.defect = .duplicateLabel name address := by
  obtain ⟨_, line, _, middle, _, _, refused, _, _⟩ := exists_refused_line failed
  rw [addLine] at refused
  cases read : Statement.ofLine line with
  | error defect =>
      rw [read] at refused
      exact Or.inl ⟨defect, (Except.error.inj refused).symm⟩
  | ok held =>
      rw [read] at refused
      cases held with
      | none => cases refused
      | some statement =>
          obtain ⟨name, address, _, _, isDuplicate⟩ := add_eq_error_iff.mp refused
          exact Or.inr ⟨name, address, isDuplicate⟩

/-- An error names the file and one of the lines that are read. -/
theorem line_of_addLines
    {file : Text}
    {draft : Draft}
    {number : Nat}
    {lines : List Text}
    {error : AssemblyError}
    (failed : addLines file draft number lines = .error error) :
    error.file = file ∧
      number ≤ error.line ∧ error.line < number + lines.length := by
  obtain ⟨before, line, after, _, rfl, _, _, sameFile, place⟩ :=
    exists_refused_line failed
  rw [List.length_append, List.length_cons]
  exact ⟨sameFile, by omega, by omega⟩

end Draft

namespace Statement

/--
What a statement asks instructions for: opcodes, each with the operand that it is
given, where names stand for given addresses.
-/
def requests (addressOf : Text → Nat) :
    Statement → List (Opcode × Option Int)
  | .push (.word value) => [(.push, some value.toInt)]
  | .push (.label name) => [(.push, some (addressOf name))]
  | .operate operation => [(.operate operation, none)]
  | .label _ => []
  | .string text =>
      (.push, some 0) ::
        text.codePoints.reverse.map fun (point : Nat) => (.push, some point)
  | .breakpoint => []

/-- No opcode lacks an operand or has one too many. -/
theorem map_ofOpcode_requests
    (addressOf : Text → Nat)
    (statement : Statement) :
    ((statement.requests addressOf).map fun (opcode, operand) =>
        Instruction.ofOpcode opcode operand) =
      (statement.instructions addressOf).map Except.ok := by
  cases statement with
  | push operand =>
      cases operand with
      | word value =>
          simp only [requests, instructions, List.map_cons, List.map_nil,
            Instruction.ofOpcode, Word.wrap_toInt]
      | label name => rfl
  | operate operation => rfl
  | label name => rfl
  | string text =>
      simp only [requests, instructions, stringInstructions, List.map_cons,
        List.map_map]
      rfl
  | breakpoint => rfl

end Statement

/--
How a statement is added to a draft: no instruction that it asks for is refused, what it
patches is waiting for it, and nothing else of the program changes.
-/
structure Draft.Adds (draft : Draft) (statement : Statement) (next : Draft) :
    Prop where
  accepted :
    ((statement.requests (TwoPass.addressIn draft.labels)).map
        fun (opcode, operand) => Instruction.ofOpcode opcode operand) =
      (statement.instructions (TwoPass.addressIn draft.labels)).map Except.ok
  waited :
    ∀ name,
      statement.defines? = some name →
      ∀ address ∈ draft.pending.addressesOf name,
        draft.program[address]? = some (.push 0)
  program :
    next.program =
      draft.patchedFor statement ++
        statement.instructions (TwoPass.addressIn draft.labels)

/-- A statement adds to a sound draft what it stands for and nothing else. -/
theorem Draft.Sound.adds
    {draft next : Draft}
    {statement : Statement}
    (sound : draft.Sound)
    (added : draft.add statement = .ok next) :
    draft.Adds statement next where
  accepted := statement.map_ofOpcode_requests _
  waited := fun _ _ _ => sound.waits
  program := Draft.program_of_add added

namespace Assembly

/-- The error of a source has the number of one of its lines. -/
theorem line_of_ofLines
    {file : Text}
    {lines : List Text}
    {error : AssemblyError}
    (failed : ofLines file lines = .error error) :
    error.file = file ∧ 1 ≤ error.line ∧ error.line ≤ lines.length := by
  unfold ofLines at failed
  cases added : Draft.addLines file {} 1 lines with
  | error other =>
      rw [added] at failed
      cases failed
      obtain ⟨sameFile, atLeast, below⟩ := Draft.line_of_addLines added
      exact ⟨sameFile, atLeast, by omega⟩
  | ok draft =>
      cases finished : draft.finish with
      | ok assembly =>
          simp only [added, finished] at failed
          cases failed
      | error defect =>
          simp only [added, finished] at failed
          cases failed
          refine ⟨rfl, ?_, Nat.le_refl _⟩
          -- Nothing is pending before the first line.
          cases lines with
          | nil =>
              cases added
              cases finished
          | cons line rest => exact Nat.succ_pos _

/-- A source is refused for one of its lines, or for names that none of them defines. -/
theorem defect_of_ofLines
    {file : Text}
    {lines : List Text}
    {error : AssemblyError}
    (failed : ofLines file lines = .error error) :
    (∃ defect, error.defect = .statement defect) ∨
      (∃ name address, error.defect = .duplicateLabel name address) ∨
        ∃ pending, error.defect = .unresolvedLabels pending := by
  unfold ofLines at failed
  cases added : Draft.addLines file {} 1 lines with
  | error other =>
      rw [added] at failed
      cases failed
      exact (Draft.defect_of_addLines added).imp_right Or.inl
  | ok draft =>
      cases finished : draft.finish with
      | ok assembly =>
          simp only [added, finished] at failed
          cases failed
      | error defect =>
          simp only [added, finished] at failed
          cases failed
          unfold Draft.finish at finished
          split at finished <;> cases finished
          exact Or.inr (Or.inr ⟨_, rfl⟩)

/--
Whatever lines of a source have been read, what they have assembled to is sound.

Operands are words. No statement that comes next asks for an instruction that its
opcode refuses, so none is refused for one, and all that it patches are pushes of zero.
So the source is to blame for every error, which is one of two kinds and names one of
its lines.
-/
theorem drafts_of_source_are_sound (file source : Text) :
    (∀ before after draft,
      source.lines = before ++ after →
      Draft.addLines file {} 1 before = .ok draft →
      draft.Sound ∧
        (∀ operand,
          .push operand ∈ draft.program →
          Word.least ≤ operand.toInt ∧ operand.toInt ≤ Word.greatest) ∧
        (∀ statement defect, draft.add statement ≠ .error (.operand defect)) ∧
        ∀ statement next,
          draft.add statement = .ok next → draft.Adds statement next) ∧
    ∀ error,
      ofSource file source = .error error →
      error.file = file ∧
        1 ≤ error.line ∧
        error.line ≤ source.lines.length ∧
        ((Failure.assembly error).name = "ParseError" ∨
          (Failure.assembly error).name = "UnresolvedLabelError") := by
  constructor
  · intro before after draft _ added
    have sound := Draft.Sound.empty.addLines added
    exact
      ⟨sound, fun operand _ => operand.toInt_mem_range,
        fun _ _ => Draft.add_ne_operand_error, fun statement next => sound.adds⟩
  · intro error failed
    obtain ⟨sameFile, atLeast, atMost⟩ := line_of_ofLines failed
    refine ⟨sameFile, atLeast, atMost, ?_⟩
    obtain ⟨defect, errorFile, line⟩ := error
    rcases defect_of_ofLines failed with
      ⟨_, rfl⟩ | ⟨_, _, rfl⟩ | ⟨_, rfl⟩
    · exact Or.inl rfl
    · exact Or.inl rfl
    · exact Or.inr rfl

end Assembly

end StackCode
