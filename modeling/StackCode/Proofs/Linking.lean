import Mathlib.Data.List.Nodup
import StackCode.Proofs.BackPatching
import StackCode.Proofs.Lines

namespace StackCode

/-!
# Linking by concatenation

Statements that follow others are laid out as they are by themselves, at addresses
that are greater by the extent of the others. So where two sources assemble by
themselves, and no name is defined in both, one followed by the other assembles to
the first program followed by the second, in which the operands that come from
labels, and no others, are greater by the size of the first.
-/

/-- The instruction with its operand greater by a number of addresses. -/
def Instruction.movedBy (offset : Nat) : Instruction → Instruction
  | .push operand => .push (operand + Word.wrap offset)
  | .operate operation => .operate operation

/-- The names of a table with addresses that are greater by a number. -/
def LabelTable.movedBy (offset : Nat) (labels : LabelTable) : LabelTable :=
  labels.map fun (name, address) => (name, address + offset)

/-- Instructions of which those at given addresses are moved by a number. -/
def relocated
    (offset : Nat)
    (addresses : List Nat)
    (instructions : List Instruction) :
    List Instruction :=
  instructions.mapIdx fun address instruction =>
    if address ∈ addresses then instruction.movedBy offset else instruction

/-- Only the addresses within the first instructions matter to them. -/
theorem relocated_append
    {offset : Nat}
    {addresses : List Nat}
    {first second : List Instruction}
    (noneInSecond :
      ∀ index < second.length, first.length + index ∉ addresses) :
    relocated offset addresses (first ++ second) =
      relocated offset addresses first ++ second := by
  have unmoved :
      second.mapIdx (fun index instruction =>
        if index + first.length ∈ addresses then
          instruction.movedBy offset
        else
          instruction) =
        second := by
    refine List.ext_getElem (by simp) fun index _ within => ?_
    rw [List.getElem_mapIdx, Nat.add_comm, if_neg (noneInSecond index within)]
  rw [relocated, List.mapIdx_append, unmoved]
  rfl

/-- One more instruction and its address leave those before it as they are. -/
theorem relocated_concat
    (offset : Nat)
    (addresses : List Nat)
    (instructions : List Instruction)
    (instruction : Instruction) :
    relocated offset (addresses ++ [instructions.length])
        (instructions ++ [instruction]) =
      relocated offset addresses instructions ++
        [instruction.movedBy offset] := by
  have same :
      relocated offset (addresses ++ [instructions.length]) instructions =
        relocated offset addresses instructions := by
    refine List.ext_getElem (by simp [relocated]) fun index _ within => ?_
    rw [relocated, List.length_mapIdx] at within
    simp [relocated, Nat.ne_of_lt within]
  unfold relocated at same ⊢
  rw [List.mapIdx_concat, same, if_pos (by simp)]

theorem LabelTable.lookup_movedBy
    (offset : Nat)
    (labels : LabelTable)
    (name : Text) :
    (labels.movedBy offset).lookup name =
      (labels.lookup name).map fun address => address + offset :=
  lookup_map_values name (fun address => address + offset) labels

namespace TwoPass

section Joined

variable (first second : List Statement)

/-- Statements after others are located as by themselves, past the others. -/
theorem located_append :
    located (first ++ second) =
      located first ++
        (located second).map fun (statement, address) =>
          (statement, address + extent first) := by
  induction second using List.reverseRecOn with
  | nil => simp [located]
  | append_singleton earlier last inductionHypothesis =>
      rw [← List.append_assoc, located_append_singleton, inductionHypothesis,
        located_append_singleton, extent_append, List.map_append,
        List.append_assoc, List.map_singleton, Nat.add_comm (extent first)]

theorem definitions_append :
    definitions (first ++ second) =
      definitions first ++ (definitions second).movedBy (extent first) := by
  simp only [definitions, located_append, List.filterMap_append,
    LabelTable.movedBy, List.map_filterMap, List.filterMap_map,
    Function.comp_def, Option.map_map]

theorem breakpoints_append :
    breakpoints (first ++ second) =
      breakpoints first ++
        (breakpoints second).map fun address => address + extent first := by
  simp only [breakpoints, located_append, List.filterMap_append,
    List.map_filterMap, List.filterMap_map, Function.comp_def]
  congr 2
  funext entry
  by_cases isBreakpoint : entry.1 = .breakpoint <;> simp [isBreakpoint]

/-- Stops of statements after others are past the others by their extent. -/
theorem mem_breakpoints_append (address : Int) :
    address ∈ (annotations (first ++ second)).breakpoints ↔
      address ∈ (annotations first).breakpoints ∨
        address - extent first ∈ (annotations second).breakpoints := by
  simp only [mem_breakpoints_annotations, breakpoints_append, List.mem_append,
    List.mem_map]
  constructor
  · rintro ⟨stop, isFirst | ⟨other, isSecond, rfl⟩, rfl⟩
    · exact Or.inl ⟨stop, isFirst, rfl⟩
    · exact Or.inr ⟨other, isSecond, by omega⟩
  · rintro (⟨stop, isFirst, rfl⟩ | ⟨stop, isSecond, same⟩)
    · exact ⟨stop, Or.inl isFirst, rfl⟩
    · exact ⟨_, Or.inr ⟨stop, isSecond, rfl⟩, by omega⟩

/-- An address has the last name that either part gives it. -/
theorem nameAt?_append (address : Int) :
    nameAt? (first ++ second) address =
      (nameAt? second (address - extent first)).or (nameAt? first address) := by
  have shifted (other : Nat) :
      ((other + extent first : Nat) : Int) = address ↔
        (other : Int) = address - extent first := by
    omega
  simp only [nameAt?, definitions_append, List.reverse_append,
    List.find?_append, LabelTable.movedBy, ← List.map_reverse, List.find?_map,
    Function.comp_def, shifted, Option.map_or, Option.map_map]

end Joined

section References

variable (statements : List Statement)

/-- The addresses of the instructions whose operands come from labels. -/
def labelOperands : List Nat :=
  (references statements).map Prod.snd

/-- The names of the references are those that statements refer to. -/
theorem map_fst_references :
    (references statements).map Prod.fst =
      statements.filterMap Statement.refersTo? := by
  induction statements using List.reverseRecOn with
  | nil => rfl
  | append_singleton earlier last inductionHypothesis =>
      rw [references_append_singleton, List.map_append, inductionHypothesis,
        List.filterMap_append]
      cases referred : last.refersTo? <;> simp [referred]

theorem lt_extent_of_mem_labelOperands
    {address : Nat}
    (member : address ∈ labelOperands statements) :
    address < extent statements := by
  obtain ⟨⟨name, _⟩, isReference, rfl⟩ := List.mem_map.mp member
  apply (referencesTo_ascending statements name).2
  exact List.mem_filterMap.mpr ⟨_, isReference, if_pos rfl⟩

/-- Names are resolved where those that are referred to are defined. -/
theorem unresolved_eq_nil_iff :
    unresolved statements = [] ↔
      ∀ name ∈ statements.filterMap Statement.refersTo?,
        name ∈ statements.filterMap Statement.defines? := by
  have undefined (name : Text) :
      ((definitions statements).lookup name).isNone = true ↔
        name ∉ statements.filterMap Statement.defines? := by
    rw [Option.isNone_iff_eq_none, lookup_definitions_eq_none_iff]
  simp only [unresolved, List.map_eq_nil_iff, List.filter_eq_nil_iff,
    referredNames, List.mem_eraseDups, map_fst_references, undefined, not_not]

/-- One more statement comes from a label where it refers to one. -/
theorem labelOperands_append_singleton (statement : Statement) :
    labelOperands (statements ++ [statement]) =
      labelOperands statements ++
        (statement.refersTo?.map fun _ => extent statements).toList := by
  rw [labelOperands, references_append_singleton, List.map_append]
  cases statement.refersTo? <;> rfl

/--
Where names stand for greater addresses, the operands that come from labels are
greater, and no others are.
-/
theorem emitted_movedBy
    {labels : LabelTable}
    (offset : Nat)
    (resolved :
      ∀ name ∈ statements.filterMap Statement.refersTo?,
        labels.lookup name ≠ none) :
    emitted (labels.movedBy offset) statements =
      relocated offset (labelOperands statements)
        (emitted labels statements) := by
  induction statements using List.reverseRecOn with
  | nil => rfl
  | append_singleton earlier last inductionHypothesis =>
      have length := length_emitted earlier labels
      rw [List.filterMap_append] at resolved
      rw [emitted_append_singleton, emitted_append_singleton,
        labelOperands_append_singleton,
        inductionHypothesis fun name member =>
          resolved name (List.mem_append_left _ member)]
      cases refers : last.refersTo? with
      | none =>
          have unchanged :
              last.instructions (addressIn (labels.movedBy offset)) =
                last.instructions (addressIn labels) := by
            refine Statement.instructions_congr fun name isReference => ?_
            rw [refers] at isReference
            cases isReference
          rw [unchanged, Option.map_none, Option.toList_none, List.append_nil,
            relocated_append]
          intro index _ member
          have within := lt_extent_of_mem_labelOperands earlier member
          omega
      | some name =>
          -- The operand of the last instruction is the only new one.
          obtain ⟨address, found⟩ :=
            Option.ne_none_iff_exists'.mp
              (resolved name (List.mem_append_right _ (by simp [refers])))
          have moved :
              addressIn (labels.movedBy offset) name =
                addressIn labels name + offset := by
            rw [addressIn, addressIn, LabelTable.lookup_movedBy, found]
            rfl
          rw [Statement.instructions_of_refersTo refers,
            Statement.instructions_of_refersTo refers, moved, Option.map_some,
            Option.toList_some, ← length, relocated_concat]
          simp only [Instruction.movedBy, Word.wrap, Int.natCast_add,
            Int64.ofInt_add]

/-- A label's operand is the address that the label stands for. -/
theorem getElem?_emitted_of_mem_references
    (labels : LabelTable)
    {name : Text}
    {address : Nat}
    (member : (name, address) ∈ references statements) :
    (emitted labels statements)[address]? =
      some (.push (Word.wrap (addressIn labels name))) := by
  induction statements using List.reverseRecOn with
  | nil => cases member
  | append_singleton earlier last inductionHypothesis =>
      have length := length_emitted earlier labels
      rw [emitted_append_singleton]
      rw [references_append_singleton] at member
      rcases List.mem_append.mp member with isEarlier | isLast
      · have within : address < extent earlier :=
          lt_extent_of_mem_labelOperands earlier
            (List.mem_map_of_mem (f := Prod.snd) isEarlier)
        rw [List.getElem?_append_left (by rw [length]; exact within),
          inductionHypothesis isEarlier]
      · cases refers : last.refersTo? with
        | none =>
            rw [refers] at isLast
            cases isLast
        | some other =>
            rw [refers] at isLast
            obtain ⟨rfl, rfl⟩ := Prod.mk.inj (List.mem_singleton.mp isLast)
            rw [Statement.instructions_of_refersTo refers, ← length,
              List.getElem?_concat_length]

/-- Only the names that statements refer to matter to what they emit. -/
theorem emitted_congr
    {labels others : LabelTable}
    (agree :
      ∀ name ∈ statements.filterMap Statement.refersTo?,
        labels.lookup name = others.lookup name) :
    emitted labels statements = emitted others statements := by
  rw [emitted, emitted, List.flatMap_def, List.flatMap_def]
  refine congrArg List.flatten (List.map_congr_left fun statement member => ?_)
  refine Statement.instructions_congr fun name refers => ?_
  rw [addressIn, addressIn,
    agree name (List.mem_filterMap.mpr ⟨statement, member, refers⟩)]

/-- The operand that comes from a label is the address that the label has. -/
theorem program_of_mem_references
    (resolved : unresolved statements = [])
    {name : Text}
    {address : Nat}
    (member : (name, address) ∈ references statements) :
    ∃ target,
      (definitions statements).lookup name = some target ∧
        (program statements)[address]? = some (.push (Word.wrap target)) := by
  have refers := List.mem_map_of_mem (f := Prod.fst) member
  rw [map_fst_references] at refers
  have defined := (unresolved_eq_nil_iff _).mp resolved name refers
  obtain ⟨target, found⟩ :=
    Option.ne_none_iff_exists'.mp fun unknown =>
      (lookup_definitions_eq_none_iff _).mp unknown defined
  have emitted :=
    getElem?_emitted_of_mem_references _ (definitions statements) member
  rw [addressIn, found, Option.getD_some, ← List.getElem?_toArray] at emitted
  exact ⟨target, found, emitted⟩

end References

section Linked

variable
  {first second : List Statement}
  (firstResolved : unresolved first = [])
  (secondResolved : unresolved second = [])
  (disjoint :
    List.Disjoint (first.filterMap Statement.defines?)
      (second.filterMap Statement.defines?))

include firstResolved secondResolved

/-- No name is left to resolve where each part resolves its own. -/
theorem unresolved_append : unresolved (first ++ second) = [] := by
  rw [unresolved_eq_nil_iff] at firstResolved secondResolved ⊢
  intro name member
  rw [List.filterMap_append] at member ⊢
  rcases List.mem_append.mp member with inFirst | inSecond
  · exact List.mem_append_left _ (firstResolved name inFirst)
  · exact List.mem_append_right _ (secondResolved name inSecond)

include disjoint

/-- The second part is emitted past the first, with its own labels. -/
theorem program_append :
    (program (first ++ second)).toList =
      (program first).toList ++
        relocated (extent first) (labelOperands second)
          (program second).toList := by
  rw [unresolved_eq_nil_iff] at firstResolved secondResolved
  have firstEmitted :
      emitted (definitions (first ++ second)) first =
        emitted (definitions first) first := by
    refine emitted_congr first fun name refers => ?_
    have defined := firstResolved name refers
    rw [definitions_append, List.lookup_append]
    cases found : (definitions first).lookup name with
    | some address => rfl
    | none =>
        exact absurd defined ((lookup_definitions_eq_none_iff first).mp found)
  have secondEmitted :
      emitted (definitions (first ++ second)) second =
        emitted ((definitions second).movedBy (extent first)) second := by
    refine emitted_congr second fun name refers => ?_
    have undefined : (definitions first).lookup name = none :=
      (lookup_definitions_eq_none_iff first).mpr fun defined =>
        disjoint defined (secondResolved name refers)
    rw [definitions_append, List.lookup_append, undefined, Option.none_or]
  have resolved :
      ∀ name ∈ second.filterMap Statement.refersTo?,
        (definitions second).lookup name ≠ none := by
    intro name refers unknown
    exact (lookup_definitions_eq_none_iff second).mp unknown
      (secondResolved name refers)
  simp only [program]
  rw [← emitted_movedBy second (extent first) resolved, ← firstEmitted,
    ← secondEmitted, emitted, List.flatMap_append]
  rfl

end Linked

/-- Lines without defects stay so together where they define no name in common. -/
theorem FreeOfDefects.append
    {before after : List Text}
    (free : FreeOfDefects before)
    (afterFree : FreeOfDefects after)
    (disjoint :
      List.Disjoint ((statementsOf before).filterMap Statement.defines?)
        ((statementsOf after).filterMap Statement.defines?)) :
    FreeOfDefects (before ++ after) := by
  rw [freeOfDefects_iff] at free afterFree ⊢
  refine ⟨?_, ?_⟩
  · intro line member
    rcases List.mem_append.mp member with isBefore | isAfter
    · exact free.1 line isBefore
    · exact afterFree.1 line isAfter
  · rw [statementsOf_append, List.filterMap_append]
    exact free.2.append afterFree.2 disjoint

end TwoPass

namespace Assembly

/--
What two assemblies are linked to, of which a given source assembles to the second.

The names of the linked assembly are those of both, and where the first program ends
the second part has the last word.
-/
structure Links (source : Text) (first second linked : Assembly) : Prop where
  program :
    linked.program.toList =
      first.program.toList ++
        relocated first.program.size
          (TwoPass.labelOperands (TwoPass.statementsOf source.lines))
          second.program.toList
  /-- The operands that are moved are addresses of labels. -/
  operands :
    ∀ name address,
      (name, address) ∈
        TwoPass.references (TwoPass.statementsOf source.lines) →
      ∃ target,
        second.labels.lookup name = some target ∧
          second.program[address]? = some (.push (Word.wrap target))
  labels :
    linked.labels =
      first.labels ++ second.labels.movedBy first.program.size
  stops :
    ∀ address : Int,
      address ∈ linked.annotations.breakpoints ↔
        address ∈ first.annotations.breakpoints ∨
          address - first.program.size ∈ second.annotations.breakpoints
  names :
    ∀ address : Int,
      linked.annotations.labelAt? address =
        (second.annotations.labelAt? (address - first.program.size)).or
          (first.annotations.labelAt? address)

/-- What the statements of two sources assemble to together links what each does. -/
theorem links_of_append
    {source : Text}
    {first second : List Statement}
    (isSecond : TwoPass.statementsOf source.lines = second)
    (firstResolved : TwoPass.unresolved first = [])
    (secondResolved : TwoPass.unresolved second = [])
    (disjoint :
      List.Disjoint (first.filterMap Statement.defines?)
        (second.filterMap Statement.defines?)) :
    Links source (TwoPass.assembly first) (TwoPass.assembly second)
      (TwoPass.assembly (first ++ second)) := by
  subst isSecond
  have size : (TwoPass.assembly first).program.size = TwoPass.extent first :=
    TwoPass.size_program first
  refine
    { program := ?_
      operands := ?_
      labels := ?_
      stops := ?_
      names := ?_ }
  · rw [size]
    exact TwoPass.program_append firstResolved secondResolved disjoint
  · intro name address isReference
    exact TwoPass.program_of_mem_references _ secondResolved isReference
  · rw [size]
    exact TwoPass.definitions_append first _
  · rw [size]
    exact TwoPass.mem_breakpoints_append first _
  · intro address
    rw [size]
    simp only [TwoPass.assembly, TwoPass.labelAt?_annotations,
      TwoPass.nameAt?_append]

/--
One source followed by another assembles to the two assemblies, linked.

The first has to end its last line, and no name may be defined in both. Then the
second program follows the first with the operands that come from labels, and no
others, greater by the size of the first, and so are the addresses of its labels
and of its breakpoints.
-/
theorem concatenation_links
    (file : Text)
    {firstFile secondFile first second : Text}
    {firstAssembly secondAssembly : Assembly}
    (firstAssembled : ofSource firstFile first = .ok firstAssembly)
    (secondAssembled : ofSource secondFile second = .ok secondAssembly)
    (ended : Text.AtLineStart first)
    (disjoint :
      List.Disjoint (firstAssembly.labels.map Prod.fst)
        (secondAssembly.labels.map Prod.fst)) :
    ∃ linked,
      ofSource file (first ++ second) = .ok linked ∧
        Links second firstAssembly secondAssembly linked := by
  have firstResolved := TwoPass.unresolved_of_ofSource firstFile firstAssembled
  have secondResolved :=
    TwoPass.unresolved_of_ofSource secondFile secondAssembled
  obtain ⟨firstFree, rfl⟩ := TwoPass.resolved_of_ofSource firstFile firstAssembled
  obtain ⟨secondFree, rfl⟩ :=
    TwoPass.resolved_of_ofSource secondFile secondAssembled
  simp only [TwoPass.assembly, TwoPass.map_fst_definitions] at disjoint
  have held :
      TwoPass.statementsOf (first ++ second).lines =
        TwoPass.statementsOf first.lines ++ TwoPass.statementsOf second.lines := by
    rw [Text.lines_append ended, TwoPass.statementsOf_append]
  have free : TwoPass.FreeOfDefects (first ++ second).lines := by
    rw [Text.lines_append ended]
    exact firstFree.append secondFree disjoint
  have resolved :
      TwoPass.unresolved (TwoPass.statementsOf (first ++ second).lines) = [] := by
    rw [held]
    exact TwoPass.unresolved_append firstResolved secondResolved
  refine ⟨_, TwoPass.ofSource_of_resolved file free resolved, ?_⟩
  rw [held]
  exact links_of_append rfl firstResolved secondResolved disjoint

/-- A source that ends with a label and pushes its address. -/
def seamFirst : Text := "PUSH end
end:
"

/-- A source with a label before its use and one after, and numbers like them. -/
def seamSecond : Text :=
  "start: ; 0
PUSH 0
PUSH start
@PushStr \"\"
PUSH last
@Break
last:"

/--
Both labels of the second source move past the first program, and the numbers do
not: neither the spelled zero nor the terminator of the empty string.
-/
theorem seam_is_linked :
    ∃ linked,
      ofSource "both.asm" (seamFirst ++ seamSecond) = .ok linked ∧
        linked.program = #[.push 1, .push 0, .push 1, .push 0, .push 5] ∧
        linked.labels =
          ([("end", 1), ("start", 1), ("last", 5)] : LabelTable) := by
  have firstAssembled :
      ofSource "first.asm" seamFirst =
        .ok
          { program := #[.push 1]
            annotations := Annotations.addLabel 1 "end" {}
            labels := [("end", 1)] } := by
    decide +kernel
  have secondAssembled :
      ofSource "second.asm" seamSecond =
        .ok
          { program := #[.push 0, .push 0, .push 0, .push 4]
            annotations :=
              ((Annotations.addLabel 0 "start" {}).addBreakpoint 4).addLabel 4
                "last"
            labels := [("start", 0), ("last", 4)] } := by
    decide +kernel
  obtain ⟨linked, assembled, links⟩ :=
    concatenation_links "both.asm" firstAssembled secondAssembled
      (Or.inr (by decide)) (List.disjoint_left.mpr (by decide))
  refine ⟨linked, assembled, ?_, ?_⟩
  · apply Array.ext'
    rw [links.program]
    decide +kernel
  · rw [links.labels]
    decide +kernel

end Assembly

end StackCode
