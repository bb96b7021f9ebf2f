import StackCode.Assembly

namespace StackCode

/-!
# What statements emit

An instruction is made of an opcode and the operand that is given with it, and refused if
`PUSH` has none or an operation has one. Statements never ask for such an instruction, so
adding a statement emits what it stands for: `Draft.pushLabel` says what a reference to a
label does to a draft, and the equations below say so of `Draft.add`.
-/

namespace Draft

variable {draft : Draft}

/-- The draft after a `PUSH` of a label's address, which waits if it is not known yet. -/
def pushLabel (name : Text) (draft : Draft) : Draft :=
  match draft.labels.lookup name with
  | some address => draft.emit [.push (addressWord address)]
  | none => (draft.wait name).emit [.push 0]

/-- Only a `PUSH` without an operand and an operation with one are refused. -/
theorem emitInstruction_eq_error_iff
    {opcode : Opcode}
    {operand : Option Operand}
    {defect : AssemblyDefect} :
    draft.emitInstruction opcode operand = .error defect ↔
      (opcode = .push ∧ operand = none ∧ defect = .operand .missing) ∨
        ∃ operation given,
          opcode = .operate operation ∧
            operand = some given ∧
              defect = .operand (.superfluous operation) := by
  cases operand with
  | none =>
      cases opcode <;>
        simp [emitInstruction, emitOpcode, Instruction.ofOpcode, eq_comm]
  | some given =>
      -- Whatever the operand stands for, the opcode decides.
      have refused_iff (other : Draft) (value : Int) :
          other.emitOpcode opcode (some value) = .error defect ↔
            ∃ operation,
              opcode = .operate operation ∧
                defect = .operand (.superfluous operation) := by
        cases opcode <;> simp [emitOpcode, Instruction.ofOpcode, eq_comm]
      have sameRefusal :
          draft.emitInstruction opcode (some given) = .error defect ↔
            ∃ operation,
              opcode = .operate operation ∧
                defect = .operand (.superfluous operation) := by
        cases given with
        | word value => exact refused_iff draft value.toInt
        | label name =>
            unfold emitInstruction
            simp only
            split
            next address _ => exact refused_iff draft address
            next => exact refused_iff (draft.wait name) 0
      simp [sameRefusal]

/-- No statement is refused for an instruction that there is not. -/
theorem add_ne_operand_error
    {statement : Statement}
    {defect : Instruction.OperandDefect} :
    draft.add statement ≠ .error (.operand defect) := by
  intro refused
  cases statement with
  | push operand =>
      have emitted :
          draft.emitInstruction .push (some operand) = .error (.operand defect) :=
        refused
      rcases emitInstruction_eq_error_iff.mp emitted with
        ⟨_, missing, _⟩ | ⟨_, _, isOperation, _⟩
      · cases missing
      · cases isOperation
  | operate operation =>
      have emitted :
          draft.emitInstruction (.operate operation) none =
            .error (.operand defect) :=
        refused
      rcases emitInstruction_eq_error_iff.mp emitted with
        ⟨isPush, _⟩ | ⟨_, _, _, given, _⟩
      · cases isPush
      · cases given
  | label name =>
      unfold add at refused
      cases known : draft.labels.lookup name <;>
        simp only [known] at refused <;> cases refused
  | _ => cases refused

/-- A word is pushed as it is. -/
@[simp] theorem add_push_word (value : Word) :
    draft.add (.push (.word value)) = .ok (draft.emit [.push value]) := by
  simp only [add, emitInstruction, emitOpcode, Instruction.ofOpcode,
    Word.wrap_toInt]

/-- A label is pushed by its address, now or once it is known. -/
@[simp] theorem add_push_label (name : Text) :
    draft.add (.push (.label name)) = .ok (draft.pushLabel name) := by
  simp only [add, emitInstruction, pushLabel]
  cases draft.labels.lookup name <;> rfl

/-- An operation is emitted as it is. -/
@[simp] theorem add_operate (operation : Operation) :
    draft.add (.operate operation) = .ok (draft.emit [.operate operation]) :=
  rfl

end Draft

end StackCode
