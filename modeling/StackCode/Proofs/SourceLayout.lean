import Mathlib.Logic.Relation
import StackCode.Proofs.LineGrammar
import StackCode.Proofs.Lines

namespace StackCode

/-!
# Layout does not matter

Assembly sees a source through the tokens of its lines and through nothing else. So
gaps may be put around a line or stretched within it, also inside a string, and lines
may end with a return and a line feed or with a line feed alone: the outcome is the
same, an error with its line included. A comment after a whole statement changes
nothing that the line says. Lines that say nothing change nothing but the numbers of
the lines after them, so only a source that assembles may be given more of them.
-/

namespace Text

/-- Blanks none of which ends a line. -/
structure IsGap (gap : Text) : Prop where
  areBlank : IsBlank gap
  noFeed : CodeUnit.lineFeed ∉ gap

/--
A line with what stands before it and after it in a source. What stands after the
last line feed of a source is a line only if it is not empty.
-/
structure IsLineBetween (before line after : Text) : Prop where
  begins : AtLineStart before
  noFeed : CodeUnit.lineFeed ∉ line
  ends : after = [] ∨ ∃ ending rest, IsBreak ending ∧ after = ending ++ rest
  isLine : line ≠ [] ∨ after ≠ []

/-- Lines that differ in one gap, or in gaps at both ends. -/
inductive Respaced : Text → Text → Prop where
  /-- Gaps are added at the ends of the line. -/
  | atEnds
      {line front back : Text}
      (frontGap : IsGap front)
      (backGap : IsGap back) :
      Respaced line (front ++ (line ++ back))
  /-- A gap in the line is replaced by another, and neither is empty. -/
  | within
      {left right gap other : Text}
      (isGap : IsGap gap)
      (nonempty : gap ≠ [])
      (otherGap : IsGap other)
      (otherNonempty : other ≠ []) :
      Respaced (left ++ (gap ++ right)) (left ++ (other ++ right))

/-- Sources that differ in gaps of one line. -/
inductive Relaid : Text → Text → Prop where
  | line
      {before line other after : Text}
      (isLine : IsLineBetween before line after)
      (respaced : Respaced line other) :
      Relaid (before ++ (line ++ after)) (before ++ (other ++ after))

/--
A text with a return before each line feed, but no second one where a return stands
there already. A return may stand before the text.
-/
def returnsAfter (afterReturn : Bool) : Text → Text
  | [] => []
  | unit :: rest =>
      if unit = CodeUnit.lineFeed ∧ afterReturn = false then
        CodeUnit.carriageReturn :: CodeUnit.lineFeed :: returnsAfter false rest
      else
        unit :: returnsAfter (unit == CodeUnit.carriageReturn) rest

/-- A text in which every line break is a return and a line feed. -/
def withReturns (text : Text) : Text :=
  returnsAfter false text

/-- A line that says nothing: blank, or a comment after blanks. -/
inductive IsIdle : Text → Prop where
  | blank {line : Text} (areBlank : IsBlank line) : IsIdle line
  | comment {blanks : Text} (areBlank : IsBlank blanks) (words : Text) :
      IsIdle (blanks ++ Statement.commentMark :: words)

/-- A source and the same with one more line, which says nothing. -/
inductive LineInserted : Text → Text → Prop where
  /-- The line stands before another, or is the last and may lack a break. -/
  | atLineStart
      {before line ending after : Text}
      (begins : AtLineStart before)
      (idle : IsIdle line)
      (noFeed : CodeUnit.lineFeed ∉ line)
      (ends : IsBreak ending ∨ ending = [] ∧ after = []) :
      LineInserted (before ++ after) (before ++ (line ++ (ending ++ after)))
  /-- The line stands after a last line that lacks a break. -/
  | atEnd
      {source ending line : Text}
      (isBreak : IsBreak ending)
      (idle : IsIdle line)
      (noFeed : CodeUnit.lineFeed ∉ line) :
      LineInserted source (source ++ (ending ++ line))

section Spacing

variable {before line other after : Text}

namespace Respaced

/-- Blanks between tokens do not matter. -/
theorem tokens_eq (respaced : Respaced line other) : tokens other = tokens line := by
  cases respaced with
  | atEnds frontGap backGap =>
      rw [tokens_blanks_append frontGap.areBlank,
        tokens_append_blanks backGap.areBlank]
  | within isGap nonempty otherGap otherNonempty =>
      rw [tokens_append_gap isGap.areBlank nonempty,
        tokens_append_gap otherGap.areBlank otherNonempty]

/-- A line that is respaced stays one line. -/
theorem noFeed
    (respaced : Respaced line other)
    (lineNoFeed : CodeUnit.lineFeed ∉ line) :
    CodeUnit.lineFeed ∉ other := by
  cases respaced with
  | atEnds frontGap backGap =>
      simp only [List.mem_append, not_or]
      exact ⟨frontGap.noFeed, lineNoFeed, backGap.noFeed⟩
  | within isGap nonempty otherGap otherNonempty =>
      simp only [List.mem_append, not_or] at lineNoFeed ⊢
      exact ⟨lineNoFeed.1, otherGap.noFeed, lineNoFeed.2.2⟩

/-- A line that is respaced does not vanish. -/
theorem ne_nil
    (respaced : Respaced line other)
    (nonempty : line ≠ []) :
    other ≠ [] := by
  cases respaced with
  | atEnds frontGap backGap => simp [nonempty]
  | within isGap nonempty otherGap otherNonempty => simp [otherNonempty]

end Respaced

/-- A line of a source with other gaps is a line of it. -/
theorem IsLineBetween.respaced
    (isLine : IsLineBetween before line after)
    (respaced : Respaced line other) :
    IsLineBetween before other after where
  begins := isLine.begins
  noFeed := respaced.noFeed isLine.noFeed
  ends := isLine.ends
  isLine := isLine.isLine.imp_left respaced.ne_nil

/-- Of one line among others only its tokens matter. -/
theorem tokenLines_congr
    (isLine : IsLineBetween before line after)
    (isOther : IsLineBetween before other after)
    (sameTokens : tokens other = tokens line) :
    tokenLines (before ++ (other ++ after)) =
      tokenLines (before ++ (line ++ after)) := by
  rw [tokenLines_append isLine.begins, tokenLines_append isLine.begins]
  congr 1
  rcases isLine.ends with rfl | ⟨ending, rest, isBreak, rfl⟩
  · have nonempty : line ≠ [] := isLine.isLine.resolve_right fun absent => absent rfl
    have otherNonempty : other ≠ [] :=
      isOther.isLine.resolve_right fun absent => absent rfl
    rw [List.append_nil, List.append_nil, tokenLines_of_noFeed isLine.noFeed,
      tokenLines_of_noFeed isOther.noFeed, if_neg nonempty,
      if_neg otherNonempty, sameTokens]
  · rw [tokenLines_append_break isLine.noFeed isBreak,
      tokenLines_append_break isOther.noFeed isBreak, sameTokens]

/-- A source that is laid out anew has the same tokens line by line. -/
theorem Relaid.tokenLines_eq
    {source other : Text}
    (relaid : Relaid source other) :
    tokenLines other = tokenLines source := by
  cases relaid with
  | line isLine respaced =>
      exact
        tokenLines_congr isLine (isLine.respaced respaced) respaced.tokens_eq

/-- A return before a line feed is a gap at the end of a line. -/
theorem Relaid.addReturn (done rest : Text) :
    Relaid (done ++ CodeUnit.lineFeed :: rest)
      (done ++ CodeUnit.carriageReturn :: CodeUnit.lineFeed :: rest) := by
  obtain ⟨before, line, rfl, begins, noFeed⟩ := exists_unended done
  have isLine : IsLineBetween before line (CodeUnit.lineFeed :: rest) :=
    { begins := begins
      noFeed := noFeed
      ends := Or.inr ⟨_, rest, .feed, rfl⟩
      isLine := Or.inr (List.cons_ne_nil _ _) }
  have noGap : IsGap [] := ⟨List.forall_mem_nil _, List.not_mem_nil⟩
  have gap : IsGap [CodeUnit.carriageReturn] := ⟨isBlank_return, by decide⟩
  have relaid := Relaid.line isLine (.atEnds noGap gap)
  simpa only [List.append_assoc, List.nil_append, List.singleton_append]
    using relaid

/-- One line break after the other is written with a return. -/
theorem relaid_returnsAfter (done : Text) (afterReturn : Bool) (text : Text) :
    Relation.ReflTransGen Relaid (done ++ text)
      (done ++ returnsAfter afterReturn text) := by
  induction text generalizing done afterReturn with
  | nil => exact .refl
  | cons unit rest inductionHypothesis =>
      rw [returnsAfter]
      split
      next isFeed =>
        obtain ⟨rfl, _⟩ := isFeed
        have others :=
          inductionHypothesis
            (done ++ [CodeUnit.carriageReturn, CodeUnit.lineFeed]) false
        simp only [List.append_assoc, List.cons_append, List.nil_append]
          at others
        exact .head (.addReturn done rest) others
      next =>
        have others :=
          inductionHypothesis (done ++ [unit])
            (unit == CodeUnit.carriageReturn)
        simpa only [List.append_assoc, List.singleton_append] using others

/-- Returns before line feeds are a matter of layout. -/
theorem relaid_withReturns (text : Text) :
    Relation.ReflTransGen Relaid text text.withReturns :=
  relaid_returnsAfter [] false text

end Spacing

/-- Whether the tokens of a line say something, be it with a defect. -/
def saySomething : List Text → Bool
  | [] => false
  | first :: _ => !Statement.isComment first

/-- An idle line says nothing. -/
theorem saySomething_of_isIdle
    {line : Text}
    (idle : IsIdle line) :
    saySomething line.tokens = false := by
  cases idle with
  | blank areBlank =>
      have none := tokens_append_blanks areBlank []
      rw [List.nil_append] at none
      rw [none]
      rfl
  | comment areBlank words =>
      have notBlank : Statement.commentMark.isBlank = false := rfl
      obtain ⟨token, others, tokens⟩ := tokens_cons notBlank words
      rw [tokens_blanks_append areBlank, tokens]
      rfl

/-- The tokens of the lines that say something. -/
def saidLines (text : Text) : List (List Text) :=
  text.tokenLines.filter saySomething

/-- Nothing is said by a line that says nothing, whether or not it counts as one. -/
theorem saidLines_of_isIdle
    {line : Text}
    (idle : IsIdle line)
    (noFeed : CodeUnit.lineFeed ∉ line) :
    saidLines line = [] := by
  rw [saidLines, tokenLines_of_noFeed noFeed]
  split
  · rfl
  · rw [List.filter_cons_of_neg (by simp [saySomething_of_isIdle idle])]
    rfl

/-- From the start of a line on, what is said is said by itself. -/
theorem saidLines_append
    {before : Text}
    (begins : AtLineStart before)
    (after : Text) :
    saidLines (before ++ after) = saidLines before ++ saidLines after := by
  rw [saidLines, tokenLines_append begins, List.filter_append]
  rfl

/-- A break between a piece and a line adds nothing to what both say. -/
theorem saidLines_append_break
    {piece ending : Text}
    (noFeed : CodeUnit.lineFeed ∉ piece)
    (isBreak : IsBreak ending)
    (after : Text) :
    saidLines (piece ++ (ending ++ after)) = saidLines piece ++ saidLines after := by
  rw [saidLines, saidLines, tokenLines_append_break noFeed isBreak,
    tokenLines_of_noFeed noFeed]
  split
  next empty =>
    subst empty
    rfl
  next => exact List.filter_append [tokens piece] _

/-- A line that says nothing adds nothing to what is said. -/
theorem LineInserted.saidLines_eq
    {source other : Text}
    (inserted : LineInserted source other) :
    saidLines other = saidLines source := by
  cases inserted with
  | atLineStart begins idle noFeed ends =>
      rw [saidLines_append begins, saidLines_append begins]
      rcases ends with isBreak | ⟨rfl, rfl⟩
      · rw [saidLines_append_break noFeed isBreak,
          saidLines_of_isIdle idle noFeed, List.nil_append]
      · rw [List.nil_append, List.append_nil, saidLines_of_isIdle idle noFeed]
        rfl
  | atEnd isBreak idle noFeed =>
      obtain ⟨before, piece, rfl, begins, pieceNoFeed⟩ := exists_unended source
      rw [List.append_assoc, saidLines_append begins, saidLines_append begins,
        saidLines_append_break pieceNoFeed isBreak,
        saidLines_of_isIdle idle noFeed, List.append_nil]

end Text

namespace Statement

/-- A comment may follow what may end a statement. -/
theorem Ended.append_comment
    {tokens : List Text}
    (ended : Ended tokens)
    {comment : Text}
    (begins : isComment comment = true)
    (words : List Text) :
    Ended (tokens ++ comment :: words) := by
  cases tokens with
  | nil => exact begins
  | cons first rest => exact ended

/-- A comment after a string is no part of it. -/
theorem SpellsString.append_comment
    {tokens : List Text}
    {count : Nat}
    {text comment : Text}
    (spelled : SpellsString tokens count text)
    (begins : isComment comment = true)
    (words : List Text) :
    SpellsString (tokens ++ comment :: words) count text := by
  have sameTake {fewer : Nat} (within : fewer ≤ count) :
      (tokens ++ comment :: words).take fewer = tokens.take fewer :=
    List.take_append_of_le_length (Nat.le_trans within spelled.atMostAll)
  have taken := sameTake (Nat.le_refl count)
  exact
    { atLeastOne := spelled.atLeastOne
      atMostAll := by
        rw [List.length_append]
        exact Nat.le_add_right_of_le spelled.atMostAll
      whole := by rw [taken, spelled.whole]
      notSooner := by
        intro fewer atLeastOne isLess
        rw [sameTake (Nat.le_of_lt isLess)]
        exact spelled.notSooner fewer atLeastOne isLess
      opened := by rw [taken, spelled.opened]
      body := by rw [taken, spelled.body]
      ended := by
        rw [List.drop_append_of_le_length spelled.atMostAll]
        exact spelled.ended.append_comment begins words }

/-- What tokens say they still say with a comment after them. -/
theorem Grammar.append_comment
    {tokens : List Text}
    {outcome : Option Statement}
    (derived : Grammar tokens outcome)
    {comment : Text}
    (begins : isComment comment = true)
    (words : List Text) :
    Grammar (tokens ++ comment :: words) outcome := by
  cases derived with
  | blank => exact .comment begins
  | comment isComment => exact .comment isComment
  | label noComment nonempty noLiteral ended =>
      exact .label noComment nonempty noLiteral
        (ended.append_comment begins words)
  | breakpoint ended => exact .breakpoint (ended.append_comment begins words)
  | string spelled => exact .string (spelled.append_comment begins words)
  | operation ended => exact .operation (ended.append_comment begins words)
  | push noComment spelled ended =>
      exact .push noComment spelled (ended.append_comment begins words)

/-- A line that can be read is read as it is with a comment after it. -/
theorem ofLine_append_comment
    {line : Text}
    {outcome : Option Statement}
    (read : ofLine line = .ok outcome)
    (words : Text) :
    ofLine (line ++ CodeUnit.space :: commentMark :: words) = .ok outcome := by
  have notBlank : commentMark.isBlank = false := rfl
  obtain ⟨token, others, tokens⟩ := Text.tokens_cons notBlank words
  refine ofTokens_of_grammar ?_
  rw [Text.tokens_append_blank rfl, tokens]
  exact (grammar_of_ofTokens read).append_comment rfl others

end Statement

namespace Draft

/-- Lines with the same tokens are added alike. -/
theorem addLines_congr
    (file : Text)
    {lines others : List Text}
    (sameTokens : others.map Text.tokens = lines.map Text.tokens)
    (draft : Draft)
    (number : Nat) :
    addLines file draft number others = addLines file draft number lines := by
  induction lines generalizing others draft number with
  | nil => rw [List.map_eq_nil_iff.mp sameTokens]
  | cons line rest inductionHypothesis =>
      obtain ⟨other, otherRest, rfl, sameLine, sameRest⟩ :=
        List.map_eq_cons_iff.mp sameTokens
      have sameAdded : draft.addLine other = draft.addLine line := by
        rw [addLine, addLine, Statement.ofLine, Statement.ofLine, sameLine]
      rw [addLines, addLines, sameAdded]
      cases draft.addLine line with
      | error defect => rfl
      | ok added => exact inductionHypothesis sameRest added (number + 1)

/-- Add the tokens of a line to a draft. -/
def addTokens (draft : Draft) (tokens : List Text) : Except AssemblyDefect Draft :=
  match Statement.ofTokens tokens with
  | .error defect => .error (.statement defect)
  | .ok none => .ok draft
  | .ok (some statement) => draft.add statement

/-- A line that says nothing adds nothing. -/
theorem addTokens_of_idle
    (draft : Draft)
    {tokens : List Text}
    (idle : Text.saySomething tokens = false) :
    draft.addTokens tokens = .ok draft := by
  cases tokens with
  | nil => rfl
  | cons first rest =>
      have isComment : Statement.isComment first = true := by
        simpa [Text.saySomething] using idle
      rw [addTokens, Statement.ofTokens, if_pos isComment]

/--
Lines can be added where those that say something can, with the same result and
whatever their numbers are.
-/
theorem addLines_eq_ok_iff
    (file : Text)
    (lines : List Text)
    (draft reached : Draft)
    (number : Nat) :
    addLines file draft number lines = .ok reached ↔
      ((lines.map Text.tokens).filter Text.saySomething).foldlM addTokens draft =
        .ok reached := by
  induction lines generalizing draft number with
  | nil => simp [addLines, pure, Except.pure]
  | cons line rest inductionHypothesis =>
      have sameAdded : draft.addLine line = draft.addTokens line.tokens := rfl
      rw [addLines, sameAdded, List.map_cons, List.filter_cons]
      cases speaks : Text.saySomething line.tokens with
      | false =>
          rw [addTokens_of_idle draft speaks]
          exact inductionHypothesis draft (number + 1)
      | true =>
          rw [if_pos rfl, List.foldlM_cons]
          cases draft.addTokens line.tokens with
          | error defect =>
              constructor
              · rintro ⟨⟩
              · rintro ⟨⟩
          | ok added => exact inductionHypothesis added (number + 1)

end Draft

namespace Assembly

/-- Sources whose lines have the same tokens have the same outcome. -/
theorem ofSource_congr
    (file : Text)
    {source other : Text}
    (same : other.tokenLines = source.tokenLines) :
    ofSource file other = ofSource file source := by
  have sameCount : other.lines.length = source.lines.length := by
    simpa [Text.tokenLines] using congrArg List.length same
  rw [ofSource, ofSource, ofLines, ofLines, Draft.addLines_congr file same,
    sameCount]

/-- A source is assembled from the lines that say something. -/
theorem ofSource_eq_ok_iff
    (file source : Text)
    (assembly : Assembly) :
    ofSource file source = .ok assembly ↔
      ∃ reached : Draft,
        source.saidLines.foldlM Draft.addTokens {} = .ok reached ∧
          reached.finish = .ok assembly := by
  have added (reached : Draft) :=
    Draft.addLines_eq_ok_iff file source.lines {} reached 1
  rw [ofSource, ofLines]
  simp only [Text.saidLines, Text.tokenLines, ← added]
  cases Draft.addLines file {} 1 source.lines with
  | error error => simp
  | ok reached => cases finished : reached.finish <;> simp [finished]

/--
Layout does not matter.

Neither do returns before line feeds, nor the gaps around lines and within them: the
outcome is the same, whether an assembly or an error and its line. A comment changes
no line that can be read. Lines that say nothing change nothing that assembles.
-/
theorem layout_does_not_matter (file source : Text) :
    ofSource file source.withReturns = ofSource file source ∧
    (∀ other,
      Relation.ReflTransGen Text.Relaid source other →
      ofSource file other = ofSource file source) ∧
    (∀ line words outcome,
      Statement.ofLine line = .ok outcome →
      Statement.ofLine
          (line ++ CodeUnit.space :: Statement.commentMark :: words) =
        .ok outcome) ∧
    ∀ other assembly,
      ofSource file source = .ok assembly →
      Relation.ReflTransGen Text.LineInserted source other →
      ofSource file other = .ok assembly := by
  have relaid {other : Text}
      (edits : Relation.ReflTransGen Text.Relaid source other) :
      ofSource file other = ofSource file source := by
    induction edits with
    | refl => rfl
    | tail _ edit inductionHypothesis =>
        rw [ofSource_congr file edit.tokenLines_eq, inductionHypothesis]
  refine ⟨relaid (Text.relaid_withReturns source), fun _ => relaid, ?_, ?_⟩
  · intro line words outcome read
    exact Statement.ofLine_append_comment read words
  · intro other assembly assembled edits
    induction edits with
    | refl => exact assembled
    | tail _ edit inductionHypothesis =>
        rw [ofSource_eq_ok_iff] at inductionHypothesis ⊢
        rw [edit.saidLines_eq]
        exact inductionHypothesis

/-- A program of two lines that prints a number. -/
def printingOne : Assembly where
  program := #[.push 1, .operate .printNumber]
  annotations := {}
  labels := []

/-- A comment with blanks before it may stand between the lines, with another break. -/
theorem comment_between_lines_is_idle :
    ofSource "one.asm"
        (("PUSH 1\n" : Text) ++
          (("  " : Text) ++ Statement.commentMark :: ("one" : Text) ++
            (("\r\n" : Text) ++ ("PRINTOUT" : Text)))) =
      .ok printingOne := by
  have assembled :
      ofSource "one.asm" (("PUSH 1\n" : Text) ++ ("PRINTOUT" : Text)) =
        .ok printingOne := by
    decide +kernel
  have areBlank : Text.IsBlank ("  " : Text) := by
    have bothBlank : List.all ("  " : Text) CodeUnit.isBlank = true := by decide
    exact List.all_eq_true.mp bothBlank
  have begins : Text.AtLineStart ("PUSH 1\n" : Text) := Or.inr (by decide)
  have idle := Text.IsIdle.comment areBlank ("one" : Text)
  refine
    (layout_does_not_matter "one.asm" _).2.2.2 _ _ assembled
      (.single (.atLineStart begins idle ?_ (Or.inl .returnAndFeed)))
  decide

end Assembly

end StackCode
