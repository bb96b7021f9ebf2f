import StackCode.Proofs.DraftInvariant
import StackCode.Proofs.LabelNames
import StackCode.Proofs.LineGrammar

namespace StackCode

/-!
# Names that lines mention

A line mentions a label by defining its name or by pushing its address. The name of a
definition is what stands before the colon of the first token, that of a reference is
the token after `PUSH`, and each is checked by itself; but they are the same names,
those of `Statement.IsLabelName`. A draft has no other names than those that lines
have mentioned.
-/

namespace Statement

/-- The name that a statement defines or refers to. -/
def mentions? : Statement → Option Text
  | .push (.label name) => some name
  | .label name => some name
  | _ => none

/-- The line that defines a name. -/
def definitionLine (name : Text) : Text :=
  name ++ [labelMark]

/-- The line that refers to a name. -/
def referenceLine (name : Text) : Text :=
  Opcode.push.mnemonic ++ CodeUnit.space :: name

variable {name : Text}

/-- Every name that a line mentions can be a label's. -/
theorem isLabelName_of_mentions
    {line : Text}
    {statement : Statement}
    (read : ofLine line = .ok (some statement))
    (mentions : statement.mentions? = some name) :
    IsLabelName name := by
  cases statement with
  | label other =>
      cases mentions
      exact isLabelName_of_ofLine read
  | push operand =>
      cases operand with
      | word value => cases mentions
      | label other =>
          cases mentions
          have derived := grammar_of_ofTokens read
          generalize tokens : line.tokens = words at derived
          cases derived with
          | @push token _ rest noComment spelled _ =>
              cases spelled with
              | label noLiteral =>
                  have member : name ∈ line.tokens := by
                    rw [tokens]
                    exact List.mem_cons_of_mem _ List.mem_cons_self
                  exact
                    { toIsToken := Text.isToken_of_mem_tokens member
                      noComment := noComment
                      noLiteral := noLiteral }
  | _ => cases mentions

/-- Every name that can be a label's can be referred to. -/
theorem ofLine_referenceLine (isName : IsLabelName name) :
    ofLine (referenceLine name) = .ok (some (.push (.label name))) := by
  have isBlank : CodeUnit.space.isBlank = true := rfl
  have mnemonicTokens :
      Text.tokens Opcode.push.mnemonic = [Opcode.push.mnemonic] := rfl
  have tokens : (referenceLine name).tokens = [Opcode.push.mnemonic, name] := by
    rw [referenceLine, Text.tokens_append_blank isBlank, mnemonicTokens,
      isName.toIsToken.tokens_eq, List.singleton_append]
  rw [ofLine, tokens]
  exact
    ofTokens_of_grammar
      (.push isName.noComment (.label isName.noLiteral) trivial)

/-- A name can be defined exactly if it is a label's name. -/
theorem isLabelName_iff_defined :
    IsLabelName name ↔ ∃ line, ofLine line = .ok (some (.label name)) :=
  ⟨fun isName => ⟨definitionLine name, ofLine_label isName⟩,
    fun ⟨_, read⟩ => isLabelName_of_mentions read rfl⟩

/-- A name can be referred to exactly if it is a label's name. -/
theorem isLabelName_iff_referredTo :
    IsLabelName name ↔
      ∃ line, ofLine line = .ok (some (.push (.label name))) :=
  ⟨fun isName => ⟨referenceLine name, ofLine_referenceLine isName⟩,
    fun ⟨_, read⟩ => isLabelName_of_mentions read rfl⟩

/-- What defines a label is one line. -/
theorem isLine_definitionLine (isName : IsLabelName name) :
    Text.IsLine (definitionLine name) :=
  isName.isToken_concat_mark.isLine

/-- What refers to a label is one line. -/
theorem isLine_referenceLine (isName : IsLabelName name) :
    Text.IsLine (referenceLine name) := by
  have shape :
      referenceLine name =
        (Opcode.push.mnemonic ++ [CodeUnit.space]) ++ name := by
    rw [referenceLine, List.append_assoc, List.singleton_append]
  rw [shape]
  exact Text.IsLine.append_token (by decide) isName.toIsToken

end Statement

namespace Draft

/-- All names of a draft meet a condition. -/
structure NamesMeet (Meets : Text → Prop) (draft : Draft) : Prop where
  labels : ∀ entry ∈ draft.labels, Meets entry.1
  pending : ∀ entry ∈ draft.pending, Meets entry.1

namespace NamesMeet

variable {Meets : Text → Prop} {draft : Draft}

/-- A draft of nothing mentions no name. -/
theorem empty : NamesMeet Meets {} where
  labels := List.forall_mem_nil _
  pending := List.forall_mem_nil _

/-- A statement brings no name but the one that it mentions. -/
theorem add
    (names : draft.NamesMeet Meets)
    {statement : Statement}
    {next : Draft}
    (meets : ∀ name, statement.mentions? = some name → Meets name)
    (added : draft.add statement = .ok next) :
    next.NamesMeet Meets := by
  cases statement with
  | push operand =>
      cases operand with
      | word value =>
          rw [add_push_word] at added
          cases added
          exact { names with }
      | label name =>
          rw [add_push_label] at added
          cases added
          unfold pushLabel
          split
          next => exact { names with }
          next =>
            refine { labels := names.labels, pending := ?_ }
            intro entry member
            rcases PendingTable.mem_add member with isOld | rfl
            · exact names.pending entry isOld
            · exact meets name rfl
  | label name =>
      obtain ⟨_, rfl⟩ := add_label_eq_ok_iff.mp added
      constructor
      · intro entry member
        rcases List.mem_append.mp member with isOld | isNew
        · exact names.labels entry isOld
        · rw [List.mem_singleton.mp isNew]
          exact meets name rfl
      · intro entry member
        exact names.pending entry (PendingTable.mem_erase.mp member).1
  | _ =>
      cases added
      exact { names with }

/-- Whatever holds of the names that the lines mention holds of those in the draft. -/
theorem addLines
    (names : draft.NamesMeet Meets)
    {file : Text}
    {number : Nat}
    {lines : List Text}
    {reached : Draft}
    (meet :
      ∀ line ∈ lines,
        ∀ statement name,
          Statement.ofLine line = .ok (some statement) →
          statement.mentions? = some name →
          Meets name)
    (added : Draft.addLines file draft number lines = .ok reached) :
    reached.NamesMeet Meets := by
  refine addLines_preserves _ added names ?_
  rintro statement ⟨line, member, read⟩ earlier next earlierNames step
  exact
    earlierNames.add
      (fun name mentions => meet line member statement name read mentions) step

end NamesMeet

end Draft

end StackCode
