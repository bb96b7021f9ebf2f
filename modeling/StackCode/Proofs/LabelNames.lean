import StackCode.Proofs.Tokens
import StackCode.Statement.Line

namespace StackCode

/-!
# Names that labels can have

A label's name is a token that begins no comment and is no integer literal.
Every such name is defined by the line that adds a colon to it, whatever else it
holds: colons, directive marks, quotes or semicolons after its first unit. No
line defines any other name.
-/

namespace Statement

/-- The names that a line can define. -/
structure IsLabelName (name : Text) : Prop extends name.IsToken where
  noComment : isComment name = false
  noLiteral : Literal.value? name = none

/-- Units after the first do not matter to what a token begins with. -/
theorem isComment_append
    {token : Text}
    (nonempty : token ≠ [])
    (rest : Text) :
    isComment (token ++ rest) = isComment token := by
  cases token with
  | nil => exact absurd rfl nonempty
  | cons first others => rfl

/-- A name and its mark are one token. -/
theorem IsLabelName.isToken_concat_mark
    {name : Text}
    (isName : IsLabelName name) :
    (name ++ [labelMark]).IsToken := by
  refine isName.toIsToken.append fun unit member => ?_
  rw [List.mem_singleton.mp member]
  rfl

/-- A line with a name and a colon defines the name. -/
theorem ofLine_label
    {name : Text}
    (isName : IsLabelName name) :
    ofLine (name ++ [labelMark]) = .ok (some (.label name)) := by
  have noComment : isComment (name ++ [labelMark]) = false := by
    rw [isComment_append isName.nonempty, isName.noComment]
  have endsWithMark : (name ++ [labelMark]).endsWith labelMark = true := by
    rw [Text.endsWith, List.getLast?_append]
    exact beq_self_eq_true _
  have notEmpty : name.isEmpty = false :=
    List.isEmpty_eq_false_iff.mpr isName.nonempty
  have noLiteral : (Literal.value? name).isSome = false := by
    rw [isName.noLiteral]
    rfl
  have isLabel : ofHead (name ++ [labelMark]) [] = .ok (.label name) := by
    rw [ofHead, if_pos endsWithMark, List.dropLast_concat, labelOfTokens.eq_def,
      notEmpty, noLiteral]
    rfl
  rw [ofLine, isName.isToken_concat_mark.tokens_eq, ofTokens, noComment, isLabel]
  rfl

/-- No directive defines a label. -/
theorem directiveOfTokens_ne_label
    {directive name : Text}
    {rest : List Text} :
    directiveOfTokens directive rest ≠ .ok (.label name) := by
  intro read
  unfold directiveOfTokens stringOfTokens breakpointOfTokens at read
  repeat' split at read
  all_goals cases read

/-- No instruction defines a label. -/
theorem instructionOfTokens_ne_label
    {mnemonic name : Text}
    {rest : List Text} :
    instructionOfTokens mnemonic rest ≠ .ok (.label name) := by
  intro read
  unfold instructionOfTokens at read
  repeat' split at read
  all_goals cases read

/--
What a label's tokens define is a name without its colon, if it may be one.
-/
theorem of_labelOfTokens
    {token name : Text}
    {rest : List Text}
    (read : labelOfTokens token rest = .ok (.label name)) :
    name = token ∧ name ≠ [] ∧ Literal.value? name = none := by
  unfold labelOfTokens at read
  split at read
  · cases read
  next notEmpty =>
    split at read
    · cases read
    next notLiteral =>
      cases rest with
      | cons token others => cases read
      | nil =>
          cases read
          refine ⟨rfl, ?_, ?_⟩
          · rintro rfl
            exact notEmpty rfl
          · exact Option.not_isSome_iff_eq_none.mp notLiteral

/-- A line's first token defines a name only as what stands before its end. -/
theorem of_ofHead
    {head name : Text}
    {rest : List Text}
    (read : ofHead head rest = .ok (.label name)) :
    name = head.dropLast ∧ name ≠ [] ∧ Literal.value? name = none := by
  unfold ofHead at read
  split at read
  · exact of_labelOfTokens read
  · split at read
    · exact absurd read directiveOfTokens_ne_label
    · exact absurd read instructionOfTokens_ne_label

/-- Every name that a line defines can be a label's. -/
theorem isLabelName_of_ofLine
    {line name : Text}
    (read : ofLine line = .ok (some (.label name))) :
    IsLabelName name := by
  unfold ofLine at read
  cases tokens : line.tokens with
  | nil =>
      rw [tokens] at read
      cases read
  | cons head rest =>
      have headIsToken : head.IsToken :=
        Text.isToken_of_mem_tokens (tokens ▸ List.mem_cons_self)
      rw [tokens, ofTokens] at read
      split at read
      · cases read
      next noComment =>
        split at read
        · cases read
        next statement defines =>
          cases read
          obtain ⟨rfl, nonempty, noLiteral⟩ := of_ofHead defines
          have sameStart :=
            isComment_append nonempty [head.getLast headIsToken.nonempty]
          rw [List.dropLast_concat_getLast] at sameStart
          exact
            { nonempty := nonempty
              noBlank := fun unit member =>
                headIsToken.noBlank unit (List.dropLast_subset _ member)
              noComment := sameStart ▸ Bool.not_eq_true _ ▸ noComment
              noLiteral := noLiteral }

end Statement

end StackCode
