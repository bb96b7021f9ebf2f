import StackCode.Assembly
import StackCode.Proofs.Tokens

namespace StackCode

/-!
# The grammar of a line

What a line says is a matter of its tokens. `Statement.Grammar` gives the forms a
line can have, one constructor each: what its first token is, what stands after it,
and that a comment or nothing at all ends it. Reading a line finds its form where it
has one, and no two forms fit the same tokens; a line that has none is refused.
-/

namespace Literal

variable {text : Text}

/-- What is no literal is not read as one. -/
theorem word?_eq_none_iff : word? text = .ok none ↔ value? text = none := by
  unfold word?
  cases value? text with
  | none => simp
  | some value => cases fits : Word.ofInt? value <;> simp [fits]

/-- A literal is read as a word exactly where its value is that word's. -/
theorem word?_eq_some_iff {word : Word} :
    word? text = .ok (some word) ↔ value? text = some word.toInt := by
  unfold word?
  cases value? text with
  | none => simp
  | some value =>
      have inRange := @Word.ofInt?_eq_some_iff value word
      rw [Option.some.injEq, eq_comm (a := value), ← inRange]
      cases fits : Word.ofInt? value <;> simp [fits]

end Literal

namespace Statement

/-- Tokens after a whole statement: none, or those of a comment. -/
def Ended : List Text → Prop
  | [] => True
  | first :: _ => isComment first = true

/-- The tokens of a string literal, joined as they are read, with those after it. -/
def joinedTokens (tokens : List Text) : Text :=
  Text.joined [CodeUnit.space] tokens

/-- What a token spells as the operand of a `PUSH`. -/
inductive SpellsOperand (token : Text) : Operand → Prop where
  /-- A literal whose value is a word. -/
  | word
      {value : Word}
      (literal : Literal.value? token = some value.toInt) :
      SpellsOperand token (.word value)
  /-- Any token that is no literal. -/
  | label
      (noLiteral : Literal.value? token = none) :
      SpellsOperand token (.label token)

/--
What tokens spell as the string of a directive: the fewest of them that are a whole
literal when joined, if that literal begins with a quote and its escapes can be read.
-/
structure SpellsString (tokens : List Text) (count : Nat) (text : Text) : Prop where
  atLeastOne : 1 ≤ count
  atMostAll : count ≤ tokens.length
  whole : isClosed (joinedTokens (tokens.take count)) = true
  notSooner :
    ∀ fewer,
      1 ≤ fewer →
      fewer < count →
      isClosed (joinedTokens (tokens.take fewer)) = false
  opened : (joinedTokens (tokens.take count)).startsWith quote = true
  body :
    Escape.resolve (literalBody (joinedTokens (tokens.take count))) = .ok text
  ended : Ended (tokens.drop count)

/-- What the tokens of a line say; `none` where they say nothing. -/
inductive Grammar : List Text → Option Statement → Prop where
  /-- No token says nothing. -/
  | blank : Grammar [] none
  /-- A comment says nothing. -/
  | comment
      {first : Text}
      {rest : List Text}
      (begins : isComment first = true) :
      Grammar (first :: rest) none
  /-- A name with a colon defines the name, unless it is empty or a literal. -/
  | label
      {name : Text}
      {rest : List Text}
      (noComment : isComment (name ++ [labelMark]) = false)
      (nonempty : name ≠ [])
      (noLiteral : Literal.value? name = none)
      (ended : Ended rest) :
      Grammar ((name ++ [labelMark]) :: rest) (some (.label name))
  /-- A breakpoint stands alone. -/
  | breakpoint
      {rest : List Text}
      (ended : Ended rest) :
      Grammar ("@Break" :: rest) (some .breakpoint)
  /-- A string literal follows its directive. -/
  | string
      {tokens : List Text}
      {count : Nat}
      {text : Text}
      (spelled : SpellsString tokens count text) :
      Grammar ("@PushStr" :: tokens) (some (.string text))
  /-- The mnemonic of an operation stands alone. -/
  | operation
      {operation : Operation}
      {rest : List Text}
      (ended : Ended rest) :
      Grammar (operation.mnemonic :: rest) (some (.operate operation))
  /-- One operand follows `PUSH`. -/
  | push
      {token : Text}
      {operand : Operand}
      {rest : List Text}
      (noComment : isComment token = false)
      (spelled : SpellsOperand token operand)
      (ended : Ended rest) :
      Grammar ("PUSH" :: token :: rest) (some (.push operand))

section Pieces

/-- Nothing stands before a comment exactly where a statement has ended. -/
theorem beforeComment_eq_nil_iff {tokens : List Text} :
    beforeComment tokens = [] ↔ Ended tokens := by
  cases tokens with
  | nil => simp [beforeComment, Ended]
  | cons first rest => simp [beforeComment, Ended, List.takeWhile_cons]

/-- One token stands before a comment where it begins none and is followed by one. -/
theorem beforeComment_eq_singleton_iff
    {tokens : List Text}
    {token : Text} :
    beforeComment tokens = [token] ↔
      ∃ rest,
        tokens = token :: rest ∧ isComment token = false ∧ Ended rest := by
  cases tokens with
  | nil => simp [beforeComment]
  | cons first rest =>
      have others := @beforeComment_eq_nil_iff rest
      unfold beforeComment at others ⊢
      rw [List.takeWhile_cons]
      cases begins : isComment first with
      | true =>
          constructor
          · rintro ⟨⟩
          · rintro ⟨_, shape, noComment, _⟩
            cases shape
            rw [begins] at noComment
            cases noComment
      | false =>
          simp only [Bool.not_false, if_true, List.cons.injEq, others]
          constructor
          · rintro ⟨rfl, ended⟩
            exact ⟨rest, ⟨rfl, rfl⟩, begins, ended⟩
          · rintro ⟨_, ⟨rfl, rfl⟩, _, ended⟩
            exact ⟨rfl, ended⟩

/-- A token is read as the operand that it spells. -/
theorem operandOfToken_eq_ok_iff
    {token : Text}
    {operand : Operand} :
    operandOfToken token = .ok operand ↔ SpellsOperand token operand := by
  constructor
  · fun_cases operandOfToken token with
    | case2 word =>
        rintro ⟨⟩
        exact .label (Literal.word?_eq_none_iff.mp word)
    | case3 value word =>
        rintro ⟨⟩
        exact .word (Literal.word?_eq_some_iff.mp word)
    | _ => rintro ⟨⟩
  · intro spelled
    cases spelled with
    | word literal =>
        rw [operandOfToken, Literal.word?_eq_some_iff.mpr literal]
    | label noLiteral =>
        rw [operandOfToken, Literal.word?_eq_none_iff.mpr noLiteral]

/-- A name is defined alone on its line, and it is neither empty nor a literal. -/
theorem labelOfTokens_eq_ok_iff
    {name : Text}
    {rest : List Text}
    {statement : Statement} :
    labelOfTokens name rest = .ok statement ↔
      statement = .label name ∧
        name ≠ [] ∧ Literal.value? name = none ∧ rest = [] := by
  constructor
  · fun_cases labelOfTokens name rest with
    | case4 nonempty noLiteral =>
        rintro ⟨⟩
        exact ⟨rfl, by simpa using nonempty, by simpa using noLiteral, rfl⟩
    | _ => rintro ⟨⟩
  · rintro ⟨rfl, nonempty, noLiteral, rfl⟩
    rw [labelOfTokens, if_neg (by simpa using nonempty),
      if_neg (by simp [noLiteral])]

/-- A breakpoint stands alone on its line. -/
theorem breakpointOfTokens_eq_ok_iff
    {rest : List Text}
    {statement : Statement} :
    breakpointOfTokens rest = .ok statement ↔
      statement = .breakpoint ∧ Ended rest := by
  rw [← beforeComment_eq_nil_iff, breakpointOfTokens]
  cases beforeComment rest with
  | nil =>
      constructor
      · rintro ⟨⟩
        exact ⟨rfl, rfl⟩
      · rintro ⟨rfl, _⟩
        rfl
  | cons token others =>
      constructor
      · rintro ⟨⟩
      · rintro ⟨_, noRest⟩
        cases noRest

/-- An operation stands alone, and one operand follows a `PUSH`. -/
theorem instructionOfTokens_eq_ok_iff
    {mnemonic : Text}
    {rest : List Text}
    {statement : Statement} :
    instructionOfTokens mnemonic rest = .ok statement ↔
      (∃ operation : Operation,
        mnemonic = operation.mnemonic ∧
          rest = [] ∧ statement = .operate operation) ∨
      ∃ token operand,
        mnemonic = Opcode.push.mnemonic ∧
          rest = [token] ∧
          SpellsOperand token operand ∧ statement = .push operand := by
  constructor
  · fun_cases instructionOfTokens mnemonic rest with
    | case3 operation found =>
        rintro ⟨⟩
        exact Or.inl
          ⟨operation, (Opcode.mnemonic_of_ofMnemonic? found).symm, rfl, rfl⟩
    | case7 token operand spelled found =>
        rintro ⟨⟩
        exact Or.inr
          ⟨token, operand, (Opcode.mnemonic_of_ofMnemonic? found).symm, rfl,
            operandOfToken_eq_ok_iff.mp spelled, rfl⟩
    | _ => rintro ⟨⟩
  · rintro (⟨operation, rfl, rfl, rfl⟩ | ⟨token, operand, rfl, rfl, spelled, rfl⟩)
    · have found := Opcode.ofMnemonic?_mnemonic (.operate operation)
      rw [Opcode.mnemonic] at found
      rw [instructionOfTokens, found]
    · rw [instructionOfTokens, Opcode.ofMnemonic?_mnemonic]
      simp only [operandOfToken_eq_ok_iff.mpr spelled]

end Pieces

section Strings

/-- The beginning of a literal with tokens after it, a space before each. -/
def extended (literal : Text) (tokens : List Text) : Text :=
  literal ++ tokens.flatMap (CodeUnit.space :: ·)

/-- Tokens that are joined are the first one with the others after it. -/
theorem joinedTokens_cons (token : Text) (others : List Text) :
    joinedTokens (token :: others) = extended token others := by
  unfold joinedTokens Text.joined extended
  induction others generalizing token with
  | nil => simp
  | cons second rest inductionHypothesis =>
      rw [List.intercalate_cons_cons, inductionHypothesis, List.flatMap_cons,
        List.append_assoc]
      rfl

theorem extended_cons (literal token : Text) (others : List Text) :
    extended literal (token :: others) =
      extended (literal ++ CodeUnit.space :: token) others := by
  simp [extended]

/-- Only its own first unit decides what a literal begins with. -/
theorem startsWith_extended (literal : Text) (tokens : List Text) :
    (extended literal tokens).startsWith quote = literal.startsWith quote := by
  cases literal with
  | cons first rest => rfl
  | nil =>
      cases tokens with
      | nil => rfl
      | cons token rest => rfl

theorem extended_nil (literal : Text) : extended literal [] = literal := by
  simp [extended]

/-- A literal that is whole with a number of tokens, and not with fewer. -/
structure WholeAfter (literal : Text) (tokens : List Text) (count : Nat) :
    Prop where
  atMostAll : count ≤ tokens.length
  whole : isClosed (extended literal (tokens.take count)) = true
  notSooner :
    ∀ fewer < count, isClosed (extended literal (tokens.take fewer)) = false

/-- A literal that is closed already needs no more tokens. -/
theorem wholeAfter_zero_iff
    {literal : Text}
    {tokens : List Text} :
    WholeAfter literal tokens 0 ↔ isClosed literal = true := by
  constructor
  · intro isWhole
    simpa [extended_nil] using isWhole.whole
  · intro closed
    refine ⟨Nat.zero_le _, ?_, ?_⟩
    · rw [List.take_zero, extended_nil, closed]
    · intro fewer isLess
      exact absurd isLess (Nat.not_lt_zero _)

/-- One token more is needed by a literal that is not whole yet. -/
theorem wholeAfter_succ_iff
    {literal token : Text}
    {others : List Text}
    {count : Nat} :
    WholeAfter literal (token :: others) (count + 1) ↔
      isClosed literal = false ∧
        WholeAfter (literal ++ CodeUnit.space :: token) others count := by
  have longer (number : Nat) :
      extended literal ((token :: others).take (number + 1)) =
        extended (literal ++ CodeUnit.space :: token) (others.take number) := by
    rw [List.take_succ_cons, extended_cons]
  constructor
  · intro isWhole
    refine ⟨?_, Nat.le_of_succ_le_succ isWhole.atMostAll, ?_, ?_⟩
    · simpa [extended_nil] using isWhole.notSooner 0 (Nat.succ_pos count)
    · rw [← longer, isWhole.whole]
    · intro fewer isLess
      rw [← longer]
      exact isWhole.notSooner (fewer + 1) (Nat.succ_lt_succ isLess)
  · rintro ⟨notClosed, isWhole⟩
    refine ⟨Nat.succ_le_succ isWhole.atMostAll, ?_, ?_⟩
    · rw [longer, isWhole.whole]
    · intro fewer isLess
      cases fewer with
      | zero => rw [List.take_zero, extended_nil, notClosed]
      | succ fewer =>
          rw [longer]
          exact isWhole.notSooner fewer (Nat.lt_of_succ_lt_succ isLess)

/-- A literal is closed by the fewest tokens that make it whole. -/
theorem closeLiteral?_eq_some_iff
    {literal whole : Text}
    {tokens rest : List Text} :
    closeLiteral? literal tokens = some (whole, rest) ↔
      ∃ count,
        WholeAfter literal tokens count ∧
          whole = extended literal (tokens.take count) ∧
          rest = tokens.drop count := by
  fun_induction closeLiteral? literal tokens with
  | case1 literal tokens closed =>
      constructor
      · rintro ⟨⟩
        exact ⟨0, wholeAfter_zero_iff.mpr closed, (extended_nil _).symm, rfl⟩
      · rintro ⟨count, isWhole, rfl, rfl⟩
        cases count with
        | zero => rw [List.take_zero, extended_nil, List.drop_zero]
        | succ count =>
            have sooner := isWhole.notSooner 0 (Nat.succ_pos count)
            rw [List.take_zero, extended_nil, closed] at sooner
            cases sooner
  | case2 literal notClosed =>
      constructor
      · rintro ⟨⟩
      · rintro ⟨count, isWhole, _⟩
        have none : count = 0 := Nat.le_zero.mp isWhole.atMostAll
        rw [none, wholeAfter_zero_iff] at isWhole
        exact absurd isWhole notClosed
  | case3 literal notClosed token others inductionHypothesis =>
      rw [inductionHypothesis]
      constructor
      · rintro ⟨count, isWhole, rfl, rfl⟩
        refine ⟨count + 1, wholeAfter_succ_iff.mpr ⟨?_, isWhole⟩, ?_, rfl⟩
        · exact Bool.not_eq_true _ ▸ notClosed
        · rw [List.take_succ_cons, extended_cons]
      · rintro ⟨count, isWhole, rfl, rfl⟩
        cases count with
        | zero => exact absurd (wholeAfter_zero_iff.mp isWhole) notClosed
        | succ count =>
            refine ⟨count, (wholeAfter_succ_iff.mp isWhole).2, ?_, rfl⟩
            rw [List.take_succ_cons, extended_cons]

/-- What a string spells is said of its first token and those after it. -/
theorem spellsString_cons_iff
    {token text : Text}
    {others : List Text}
    {count : Nat} :
    SpellsString (token :: others) (count + 1) text ↔
      WholeAfter token others count ∧
        token.startsWith quote = true ∧
        Escape.resolve (literalBody (extended token (others.take count))) =
          .ok text ∧
        Ended (others.drop count) := by
  have joined (number : Nat) :
      joinedTokens ((token :: others).take (number + 1)) =
        extended token (others.take number) := by
    rw [List.take_succ_cons, joinedTokens_cons]
  constructor
  · intro spelled
    refine ⟨⟨Nat.le_of_succ_le_succ spelled.atMostAll, ?_, ?_⟩, ?_, ?_, ?_⟩
    · rw [← joined, spelled.whole]
    · intro fewer isLess
      rw [← joined]
      exact spelled.notSooner (fewer + 1) (Nat.succ_pos fewer)
        (Nat.succ_lt_succ isLess)
    · rw [← startsWith_extended token (others.take count), ← joined,
        spelled.opened]
    · rw [← joined, spelled.body]
    · exact spelled.ended
  · rintro ⟨isWhole, opened, body, ended⟩
    exact
      { atLeastOne := Nat.succ_pos count
        atMostAll := Nat.succ_le_succ isWhole.atMostAll
        whole := by rw [joined, isWhole.whole]
        notSooner := by
          intro fewer atLeastOne isLess
          cases fewer with
          | zero => exact absurd atLeastOne (Nat.not_succ_le_zero 0)
          | succ fewer =>
              rw [joined]
              exact isWhole.notSooner fewer (Nat.lt_of_succ_lt_succ isLess)
        opened := by rw [joined, startsWith_extended, opened]
        body := by rw [joined, body]
        ended := ended }

/-- Tokens that are read as a string spell one. -/
theorem exists_spellsString
    {tokens : List Text}
    {statement : Statement}
    (read : stringOfTokens tokens = .ok statement) :
    ∃ count text,
      SpellsString tokens count text ∧ statement = .string text := by
  revert read
  fun_cases stringOfTokens tokens with
  | case7 token others noComment opened whole rest closes ended text body =>
      rintro ⟨⟩
      obtain ⟨count, isWhole, rfl, rfl⟩ := closeLiteral?_eq_some_iff.mp closes
      have opens : token.startsWith quote = true := by simpa using opened
      exact ⟨count + 1, text,
        spellsString_cons_iff.mpr
          ⟨isWhole, opens, body, beforeComment_eq_nil_iff.mp ended⟩,
        rfl⟩
  | _ => rintro ⟨⟩

/-- Tokens are read as the string that they spell. -/
theorem stringOfTokens_eq_ok_iff
    {tokens : List Text}
    {statement : Statement} :
    stringOfTokens tokens = .ok statement ↔
      ∃ count text,
        SpellsString tokens count text ∧ statement = .string text := by
  refine ⟨exists_spellsString, ?_⟩
  rintro ⟨count, text, spelled, rfl⟩
  rcases tokens with _ | ⟨token, others⟩
  · exact absurd (Nat.le_trans spelled.atLeastOne spelled.atMostAll)
      (Nat.not_succ_le_zero 0)
  rcases count with _ | count
  · exact absurd spelled.atLeastOne (Nat.not_succ_le_zero 0)
  obtain ⟨isWhole, opened, body, ended⟩ := spellsString_cons_iff.mp spelled
  -- A quote is no comment mark, so the order of the tests does not matter here.
  have noComment : isComment token = false := by
    rw [Text.startsWith, beq_iff_eq] at opened
    rw [isComment, Text.startsWith, opened]
    rfl
  have closes :
      closeLiteral? token others =
        some (extended token (others.take count), others.drop count) :=
    closeLiteral?_eq_some_iff.mpr ⟨count, isWhole, rfl, rfl⟩
  simp [stringOfTokens, noComment, opened, closes,
    beforeComment_eq_nil_iff.mpr ended, body]

end Strings

section Heads

variable {head : Text} {rest : List Text} {statement : Statement}

theorem endsWith_concat (name : Text) (unit : CodeUnit) :
    (name ++ [unit]).endsWith unit = true := by
  rw [Text.endsWith, List.getLast?_concat, beq_self_eq_true]

theorem eq_dropLast_concat
    {unit : CodeUnit}
    (ends : head.endsWith unit = true) :
    head = head.dropLast ++ [unit] := by
  rw [Text.endsWith, beq_iff_eq] at ends
  obtain ⟨name, rfl⟩ := List.getLast?_eq_some_iff.mp ends
  rw [List.dropLast_concat]

theorem eq_cons_drop
    {unit : CodeUnit}
    (begins : head.startsWith unit = true) :
    head = unit :: head.drop 1 := by
  cases head with
  | nil => cases begins
  | cons first others =>
      rw [Text.startsWith, List.head?_cons, beq_iff_eq, Option.some.injEq] at begins
      rw [begins, List.drop_one, List.tail_cons]

/-- No mnemonic is read as a label or as a directive. -/
theorem mnemonic_isPlain (opcode : Opcode) :
    opcode.mnemonic.endsWith labelMark = false ∧
      opcode.mnemonic.startsWith directiveMark = false ∧
      isComment opcode.mnemonic = false := by
  rcases opcode with _ | operation
  · decide
  · cases operation <;> decide

/-- There are two directives, each with what may follow it. -/
theorem directiveOfTokens_eq_ok_iff :
    directiveOfTokens head rest = .ok statement ↔
      (head = stringDirective ∧
        ∃ count text,
          SpellsString rest count text ∧ statement = .string text) ∨
      head = breakpointDirective ∧ statement = .breakpoint ∧ Ended rest := by
  have distinct : breakpointDirective ≠ stringDirective := by decide
  rw [← stringOfTokens_eq_ok_iff, ← breakpointOfTokens_eq_ok_iff,
    directiveOfTokens]
  constructor
  · intro read
    split at read
    next isString => exact Or.inl ⟨isString, read⟩
    next =>
      split at read
      next isBreakpoint => exact Or.inr ⟨isBreakpoint, read⟩
      next => cases read
  · rintro (⟨rfl, read⟩ | ⟨rfl, read⟩)
    · rw [if_pos rfl, read]
    · rw [if_neg distinct, if_pos rfl, read]

/-- What a first token and those after it are read as is what they say. -/
theorem grammar_of_ofHead
    (noComment : isComment head = false)
    (read : ofHead head rest = .ok statement) :
    Grammar (head :: rest) (some statement) := by
  unfold ofHead at read
  split at read
  next isLabel =>
    obtain ⟨rfl, nonempty, noLiteral, ended⟩ := labelOfTokens_eq_ok_iff.mp read
    have shape := eq_dropLast_concat isLabel
    rw [shape] at noComment ⊢
    rw [List.dropLast_concat]
    exact .label noComment nonempty noLiteral (beforeComment_eq_nil_iff.mp ended)
  next =>
    split at read
    next isDirective =>
      have shape := eq_cons_drop isDirective
      rcases directiveOfTokens_eq_ok_iff.mp read with
        ⟨isString, count, text, spelled, rfl⟩ | ⟨isBreakpoint, rfl, ended⟩
      · rw [shape, isString]
        exact .string spelled
      · rw [shape, isBreakpoint]
        exact .breakpoint ended
    next =>
      rcases instructionOfTokens_eq_ok_iff.mp read with
        ⟨operation, rfl, ended, rfl⟩ | ⟨token, operand, rfl, one, spelled, rfl⟩
      · exact .operation (beforeComment_eq_nil_iff.mp ended)
      · obtain ⟨others, rfl, plain, ended⟩ :=
          beforeComment_eq_singleton_iff.mp one
        exact .push plain spelled ended

/-- A mnemonic is neither a label nor a directive. -/
theorem ofHead_mnemonic (opcode : Opcode) (rest : List Text) :
    ofHead opcode.mnemonic rest =
      instructionOfTokens opcode.mnemonic (beforeComment rest) := by
  obtain ⟨noLabel, noDirective, _⟩ := mnemonic_isPlain opcode
  rw [ofHead, if_neg (by rw [noLabel]; simp), if_neg (by rw [noDirective]; simp)]

/-- What tokens say is what they are read as. -/
theorem ofTokens_of_grammar
    {tokens : List Text}
    {outcome : Option Statement}
    (derived : Grammar tokens outcome) :
    ofTokens tokens = .ok outcome := by
  have plain {first : Text} {others : List Text} {said : Statement}
      (noComment : isComment first = false)
      (read : ofHead first others = .ok said) :
      ofTokens (first :: others) = .ok (some said) := by
    simp [ofTokens, noComment, read]
  cases derived with
  | blank => rfl
  | comment begins => rw [ofTokens, if_pos begins]
  | @label name rest noComment nonempty noLiteral ended =>
      refine plain noComment ?_
      rw [ofHead, if_pos (endsWith_concat name labelMark), List.dropLast_concat]
      exact labelOfTokens_eq_ok_iff.mpr
        ⟨rfl, nonempty, noLiteral, beforeComment_eq_nil_iff.mpr ended⟩
  | @breakpoint rest ended =>
      refine plain rfl ?_
      exact breakpointOfTokens_eq_ok_iff.mpr ⟨rfl, ended⟩
  | @string tokens count text spelled =>
      refine plain rfl ?_
      exact stringOfTokens_eq_ok_iff.mpr ⟨count, text, spelled, rfl⟩
  | @operation operation rest ended =>
      refine plain (mnemonic_isPlain (.operate operation)).2.2 ?_
      have read := ofHead_mnemonic (.operate operation) rest
      rw [Opcode.mnemonic] at read
      rw [read]
      exact instructionOfTokens_eq_ok_iff.mpr
        (Or.inl ⟨operation, rfl, beforeComment_eq_nil_iff.mpr ended, rfl⟩)
  | @push token operand rest noComment spelled ended =>
      refine plain rfl ?_
      have read := ofHead_mnemonic .push (token :: rest)
      rw [Opcode.mnemonic] at read
      rw [read]
      exact instructionOfTokens_eq_ok_iff.mpr
        (Or.inr
          ⟨token, operand, rfl,
            beforeComment_eq_singleton_iff.mpr ⟨rest, rfl, noComment, ended⟩,
            spelled, rfl⟩)

/-- What is read from tokens has one of the forms of a line. -/
theorem grammar_of_ofTokens
    {tokens : List Text}
    {outcome : Option Statement}
    (read : ofTokens tokens = .ok outcome) :
    Grammar tokens outcome := by
  cases tokens with
  | nil =>
      cases read
      exact .blank
  | cons first rest =>
      rw [ofTokens] at read
      split at read
      next begins =>
        cases read
        exact .comment begins
      next plain =>
        split at read
        · cases read
        next statement readHead =>
          cases read
          exact grammar_of_ofHead (Bool.not_eq_true _ ▸ plain) readHead

end Heads

/--
A line is read as what its tokens say, and refused where they say nothing.

The tokens are the maximal runs of units that are not blank. They say at most one
thing, reading the line gives it, and a line whose tokens have none of the forms is
refused wherever it stands: assembly stops there, with the number of the line.
-/
theorem line_is_read_by_its_grammar (line : Text) :
    (∀ tokens, Text.Runs line tokens ↔ line.tokens = tokens) ∧
    (∀ outcome, ofLine line = .ok outcome ↔ Grammar line.tokens outcome) ∧
    (∀ first second,
      Grammar line.tokens first →
      Grammar line.tokens second →
      first = second) ∧
    ((∃ defect, ofLine line = .error defect) ↔
      ∀ outcome, ¬Grammar line.tokens outcome) ∧
    ∀ (defect : Defect) (file : Text) (draft : Draft) (number : Nat)
      (later : List Text),
      ofLine line = .error defect →
      draft.addLines file number (line :: later) =
        .error
          { defect := .statement defect, file := file, line := number } := by
  have exact (outcome : Option Statement) :
      ofLine line = .ok outcome ↔ Grammar line.tokens outcome :=
    ⟨grammar_of_ofTokens, ofTokens_of_grammar⟩
  refine ⟨fun _ => Text.runs_iff, exact, ?_, ⟨?_, ?_⟩, ?_⟩
  · intro first second isFirst isSecond
    have readFirst := (exact first).mpr isFirst
    rw [(exact second).mpr isSecond] at readFirst
    cases readFirst
    rfl
  · rintro ⟨defect, refused⟩ outcome derived
    rw [(exact outcome).mpr derived] at refused
    cases refused
  · intro noForm
    cases read : ofLine line with
    | error defect => exact ⟨defect, rfl⟩
    | ok outcome => exact absurd ((exact outcome).mp read) (noForm outcome)
  · intro defect file draft number later refused
    rw [Draft.addLines, Draft.addLine, refused]

end Statement

end StackCode
