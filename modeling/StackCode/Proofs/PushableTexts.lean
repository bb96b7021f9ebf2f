import Mathlib.Data.List.Chain
import StackCode.Proofs.Escapes
import StackCode.Proofs.LineGrammar

namespace StackCode

/-!
# Texts that a line can push

A string literal is put together from tokens, so it has single spaces only, and it ends
at the first quote that a space follows. Its escapes stand for newlines, tabs, NULs and
backslashes. So a text can be pushed by some line exactly where its blanks are spaces,
newlines and tabs, no two of its spaces are adjacent, and no quote in it is followed by
a space; and then the line that writes it with escapes pushes it.
-/

namespace Text

/-- One unit is nowhere directly followed by another. -/
def Apart (first second : CodeUnit) (text : Text) : Prop :=
  text.IsChain fun unit next => ¬(unit = first ∧ next = second)

namespace Apart

variable {first second unit : CodeUnit} {text : Text}

/-- One more unit in front may not make a pair with the first of the others. -/
theorem cons_iff :
    Apart first second (unit :: text) ↔
      ¬(unit = first ∧ text.head? = some second) ∧ Apart first second text := by
  unfold Apart
  rw [List.isChain_cons]
  refine and_congr_left fun _ => ⟨?_, ?_⟩
  · rintro apart ⟨isFirst, isSecond⟩
    exact apart second isSecond ⟨isFirst, rfl⟩
  · rintro apart next isNext ⟨isFirst, rfl⟩
    exact apart ⟨isFirst, isNext⟩

/-- A unit that is not the first of the two may stand before any text. -/
theorem cons_iff_of_ne (differs : unit ≠ first) :
    Apart first second (unit :: text) ↔ Apart first second text := by
  rw [cons_iff]
  exact and_iff_right fun both => differs both.1

/-- Two texts that are put together may not make a pair where they meet. -/
theorem append_iff {other : Text} :
    Apart first second (text ++ other) ↔
      Apart first second text ∧
        Apart first second other ∧
        ¬(text.getLast? = some first ∧ other.head? = some second) := by
  unfold Apart
  rw [List.isChain_append]
  refine and_congr_right fun _ => and_congr_right fun _ => ⟨?_, ?_⟩
  · rintro apart ⟨isFirst, isSecond⟩
    exact apart first isFirst second isSecond ⟨rfl, rfl⟩
  · rintro apart last isLast next isNext ⟨rfl, rfl⟩
    exact apart ⟨isLast, isNext⟩

/-- What does not occur follows nothing. -/
theorem of_not_mem (absent : second ∉ text) : Apart first second text := by
  induction text with
  | nil => exact .nil
  | cons unit rest inductionHypothesis =>
      rw [List.mem_cons, not_or] at absent
      refine cons_iff.mpr ⟨?_, inductionHypothesis absent.2⟩
      rintro ⟨_, begins⟩
      exact absent.2 (List.mem_of_mem_head? begins)

end Apart

end Text

/-- Plain units are next to each other in a text where they are in its body. -/
theorem Escape.StandsFor.apart_iff
    {first second : CodeUnit}
    {body text : Text}
    (stands : StandsFor body text)
    (firstPlain : IsPlain first)
    (secondPlain : IsPlain second) :
    text.Apart first second ↔ body.Apart first second := by
  induction stands with
  | nil => exact Iff.rfl
  | @escape escaped value body text means rest inductionHypothesis =>
      obtain ⟨isPart, isValue⟩ := mem_of_meaning? means
      have valueDiffers : value ≠ first := by
        rintro rfl
        exact firstPlain.notValue isValue
      have backslashDiffers : backslash ≠ first := by
        rintro rfl
        exact firstPlain.notPart List.mem_cons_self
      have escapedDiffers : escaped ≠ first := by
        rintro rfl
        exact firstPlain.notPart isPart
      rw [Text.Apart.cons_iff_of_ne valueDiffers,
        Text.Apart.cons_iff_of_ne backslashDiffers,
        Text.Apart.cons_iff_of_ne escapedDiffers, inductionHypothesis]
  | unit noBackslash rest inductionHypothesis =>
      rw [Text.Apart.cons_iff, Text.Apart.cons_iff,
        rest.head?_iff secondPlain, inductionHypothesis]

namespace Statement

/-- The texts that a line can push. -/
structure IsPushable (text : Text) : Prop where
  blanks :
    ∀ unit ∈ text,
      unit.isBlank = true →
      unit = CodeUnit.space ∨ unit = CodeUnit.lineFeed ∨ unit = 0x09
  singleSpaces : text.Apart CodeUnit.space CodeUnit.space
  noSpaceAfterQuote : text.Apart quote CodeUnit.space

/-- The line that pushes a text, written with escapes. -/
def stringLine (text : Text) : Text :=
  Text.concat ["@PushStr \"", Escape.write text, "\""]

theorem isPlain_space : Escape.IsPlain CodeUnit.space :=
  ⟨by decide, by decide⟩

theorem isPlain_quote : Escape.IsPlain quote :=
  ⟨by decide, by decide⟩

/-- A literal is whole where a quote ends it that is not its first unit. -/
theorem isClosed_iff {literal : Text} :
    isClosed literal = true ↔ (literal.drop 1).getLast? = some quote := by
  rw [isClosed, Bool.and_eq_true, decide_eq_true_iff, Text.endsWith,
    beq_iff_eq, List.getLast?_drop]
  split
  · next short =>
      constructor
      · rintro ⟨long, _⟩
        omega
      · rintro ⟨⟩
  · next long => exact and_iff_right (Nat.lt_of_not_le long)

section Joined

/-- Blanks of joined tokens are the spaces between them. -/
theorem eq_space_of_mem_extended
    {literal : Text}
    {tokens : List Text}
    (isToken : literal.IsToken)
    (areTokens : ∀ token ∈ tokens, token.IsToken)
    {unit : CodeUnit}
    (member : unit ∈ extended literal tokens)
    (isBlank : unit.isBlank = true) :
    unit = CodeUnit.space := by
  rcases List.mem_append.mp member with inLiteral | inOthers
  · exact absurd inLiteral (isToken.not_mem isBlank)
  · obtain ⟨token, isOther, inToken⟩ := List.mem_flatMap.mp inOthers
    rcases List.mem_cons.mp inToken with isSpace | inToken
    · exact isSpace
    · exact absurd inToken ((areTokens token isOther).not_mem isBlank)

/-- A token after a space has no space next to it. -/
theorem apart_space_cons
    {token : Text}
    (isToken : token.IsToken)
    (first : CodeUnit) :
    Text.Apart first CodeUnit.space (CodeUnit.space :: token) := by
  have absent : CodeUnit.space ∉ token := isToken.not_mem rfl
  refine Text.Apart.cons_iff.mpr ⟨?_, .of_not_mem absent⟩
  rintro ⟨_, begins⟩
  exact absent (List.mem_of_mem_head? begins)

/-- Joined tokens have single spaces only. -/
theorem singleSpaces_extended
    {literal : Text}
    {tokens : List Text}
    (apart : literal.Apart CodeUnit.space CodeUnit.space)
    (last : literal.getLast? ≠ some CodeUnit.space)
    (areTokens : ∀ token ∈ tokens, token.IsToken) :
    (extended literal tokens).Apart CodeUnit.space CodeUnit.space := by
  induction tokens generalizing literal with
  | nil => rwa [extended_nil]
  | cons token others inductionHypothesis =>
      have isToken := areTokens token List.mem_cons_self
      rw [extended_cons]
      refine inductionHypothesis ?_ ?_ fun other member =>
        areTokens other (List.mem_cons_of_mem _ member)
      · exact Text.Apart.append_iff.mpr
          ⟨apart, apart_space_cons isToken _, fun both => last both.1⟩
      · rw [← List.singleton_append, ← List.append_assoc]
        exact isToken.getLast?_append_ne rfl _

/-- After its first unit a literal has no quote before a space. -/
theorem noSpaceAfterQuote_extended
    {literal : Text}
    {tokens : List Text}
    {count : Nat}
    (isWhole : WholeAfter literal tokens count)
    (nonempty : literal ≠ [])
    (apart : Text.Apart quote CodeUnit.space (literal.drop 1))
    (areTokens : ∀ token ∈ tokens, token.IsToken) :
    Text.Apart quote CodeUnit.space
      ((extended literal (tokens.take count)).drop 1) := by
  induction tokens generalizing literal count with
  | nil => rwa [List.take_nil, extended_nil]
  | cons token others inductionHypothesis =>
      cases count with
      | zero => rwa [List.take_zero, extended_nil]
      | succ count =>
          obtain ⟨notClosed, wholeLater⟩ := wholeAfter_succ_iff.mp isWhole
          have atLeastOne : 1 ≤ literal.length :=
            List.length_pos_iff.mpr nonempty
          rw [List.take_succ_cons, extended_cons]
          refine inductionHypothesis wholeLater (by simp) ?_ fun other member =>
            areTokens other (List.mem_cons_of_mem _ member)
          rw [List.drop_append_of_le_length atLeastOne]
          refine Text.Apart.append_iff.mpr
            ⟨apart, apart_space_cons (areTokens token List.mem_cons_self) _, ?_⟩
          -- A quote before the space would have closed the literal.
          rintro ⟨isQuote, _⟩
          rw [isClosed_iff.mpr isQuote] at notClosed
          cases notClosed

/-- What tokens spell as a string can be pushed. -/
theorem isPushable_of_spellsString
    {tokens : List Text}
    {count : Nat}
    {text : Text}
    (spelled : SpellsString tokens count text)
    (areTokens : ∀ token ∈ tokens, token.IsToken) :
    IsPushable text := by
  rcases tokens with _ | ⟨token, others⟩
  · exact absurd (Nat.le_trans spelled.atLeastOne spelled.atMostAll)
      (Nat.not_succ_le_zero 0)
  rcases count with _ | count
  · exact absurd spelled.atLeastOne (Nat.not_succ_le_zero 0)
  obtain ⟨isWhole, _, body, _⟩ := spellsString_cons_iff.mp spelled
  have stands := Escape.resolve_eq_ok_iff.mp body
  have isToken := areTokens token List.mem_cons_self
  have othersTokens : ∀ other ∈ others, other.IsToken := fun other member =>
    areTokens other (List.mem_cons_of_mem _ member)
  have takenTokens : ∀ other ∈ others.take count, other.IsToken :=
    fun other member => othersTokens other (List.mem_of_mem_take member)
  have noSpace : CodeUnit.space ∉ token := isToken.not_mem rfl
  refine
    { blanks := ?_
      singleSpaces := ?_
      noSpaceAfterQuote := ?_ }
  · intro unit member isBlank
    rcases stands.mem_or_mem_values member with inBody | isValue
    · have inLiteral := List.mem_of_mem_drop (List.dropLast_subset _ inBody)
      exact Or.inl
        (eq_space_of_mem_extended isToken takenTokens inLiteral isBlank)
    · simp only [Escape.values, List.mem_cons, List.not_mem_nil, or_false]
        at isValue
      rcases isValue with rfl | rfl | rfl | rfl
      · exact Or.inr (Or.inl rfl)
      · exact Or.inr (Or.inr rfl)
      · exact absurd isBlank (by decide)
      · exact absurd isBlank (by decide)
  · rw [stands.apart_iff isPlain_space isPlain_space]
    refine List.IsChain.dropLast (List.IsChain.drop ?_ 1)
    exact singleSpaces_extended (.of_not_mem noSpace)
      (isToken.getLast?_append_ne rfl []) takenTokens
  · rw [stands.apart_iff isPlain_quote isPlain_space]
    refine List.IsChain.dropLast ?_
    refine noSpaceAfterQuote_extended isWhole isToken.nonempty ?_ othersTokens
    exact .of_not_mem fun member => noSpace (List.mem_of_mem_drop member)

end Joined

section Written

/-- Tokens that are joined part by part have a space between the parts. -/
theorem joinedTokens_append
    {first second : List Text}
    (firstNonempty : first ≠ [])
    (secondNonempty : second ≠ []) :
    joinedTokens (first ++ second) =
      joinedTokens first ++ CodeUnit.space :: joinedTokens second := by
  obtain ⟨token, tokens, rfl⟩ := List.exists_cons_of_ne_nil firstNonempty
  obtain ⟨other, others, rfl⟩ := List.exists_cons_of_ne_nil secondNonempty
  rw [List.cons_append, joinedTokens_cons, joinedTokens_cons, joinedTokens_cons]
  simp [extended]

/-- No blanks stand before a text that has spaces for blanks and begins with none. -/
theorem eq_nil_of_isBlank
    {blanks rest : Text}
    (areBlank : blanks.IsBlank)
    (onlySpaces :
      ∀ unit ∈ blanks ++ rest, unit.isBlank = true → unit = CodeUnit.space)
    (first : (blanks ++ rest).head? ≠ some CodeUnit.space) :
    blanks = [] := by
  cases blanks with
  | nil => rfl
  | cons blank others =>
      refine absurd (congrArg some ?_) first
      exact onlySpaces blank List.mem_cons_self
        (areBlank blank List.mem_cons_self)

/-- A text with single spaces for blanks, none at its ends, is its tokens joined. -/
theorem joinedTokens_tokens
    {text : Text}
    (onlySpaces : ∀ unit ∈ text, unit.isBlank = true → unit = CodeUnit.space)
    (singleSpaces : text.Apart CodeUnit.space CodeUnit.space)
    (first : text.head? ≠ some CodeUnit.space)
    (last : text.getLast? ≠ some CodeUnit.space) :
    joinedTokens text.tokens = text := by
  have areRuns : Text.Runs text text.tokens := Text.runs_iff.mpr rfl
  generalize text.tokens = tokens at areRuns
  induction areRuns with
  | @blanks blanks areBlank =>
      rw [← List.append_nil blanks] at onlySpaces first
      rw [eq_nil_of_isBlank areBlank onlySpaces first]
      rfl
  | last areBlank isToken =>
      rw [eq_nil_of_isBlank areBlank onlySpaces first]
      rw [joinedTokens_cons, extended_nil]
      rfl
  | @cons blanks token rest blank tokens areBlank isToken isBlank others
      inductionHypothesis =>
      obtain rfl := eq_nil_of_isBlank areBlank onlySpaces first
      rw [List.nil_append] at onlySpaces singleSpaces first last ⊢
      obtain rfl : blank = CodeUnit.space := onlySpaces blank (by simp) isBlank
      obtain ⟨_, restApart, _⟩ := Text.Apart.append_iff.mp singleSpaces
      obtain ⟨notDoubled, restApart⟩ := Text.Apart.cons_iff.mp restApart
      rw [List.getLast?_append, List.getLast?_cons, Option.some_or] at last
      have restNonempty : rest ≠ [] := by
        rintro rfl
        exact last rfl
      have restJoined : joinedTokens tokens = rest := by
        refine inductionHypothesis ?_ restApart ?_ ?_
        · intro unit member
          exact onlySpaces unit (by simp [member])
        · intro begins
          exact notDoubled ⟨rfl, begins⟩
        · intro ends
          rw [ends] at last
          exact last rfl
      have someTokens : tokens ≠ [] := by
        rintro rfl
        exact restNonempty restJoined.symm
      rw [← List.singleton_append,
        joinedTokens_append (List.cons_ne_nil _ _) someTokens, restJoined,
        joinedTokens_cons, extended_nil]

/-- The literal of a text: what it is written as, between quotes. -/
def literalOf (text : Text) : Text :=
  quote :: (Escape.write text ++ [quote])

theorem stringLine_eq (text : Text) :
    stringLine text =
      ("@PushStr" : Text) ++ CodeUnit.space :: literalOf text := by
  have opening :
      ("@PushStr \"" : Text) = ("@PushStr" : Text) ++ [CodeUnit.space, quote] := by
    decide
  rw [stringLine, Text.concat, opening, literalOf]
  simp
  rfl

namespace IsPushable

variable {text : Text} (pushable : IsPushable text)

include pushable

/-- The literal of a text that can be pushed has no blanks but spaces. -/
theorem onlySpaces_literalOf :
    ∀ unit ∈ literalOf text, unit.isBlank = true → unit = CodeUnit.space := by
  intro unit member isBlank
  have inBody : unit ∈ Escape.write text := by
    rcases List.mem_cons.mp member with rfl | inRest
    · exact absurd isBlank (by decide)
    · rcases List.mem_append.mp inRest with inBody | isLast
      · exact inBody
      · rw [List.mem_singleton.mp isLast] at isBlank
        exact absurd isBlank (by decide)
  rcases Escape.mem_of_mem_write inBody with ⟨inText, noValue⟩ | isPart
  · rcases pushable.blanks unit inText isBlank with isSpace | rfl | rfl
    · exact isSpace
    · exact absurd noValue (by decide)
    · exact absurd noValue (by decide)
  · simp only [Escape.parts, List.map_cons, List.map_nil, List.mem_cons,
      List.not_mem_nil, or_false] at isPart
    rcases isPart with rfl | rfl | rfl | rfl <;> exact absurd isBlank (by decide)

/-- Its spaces stand alone. -/
theorem singleSpaces_literalOf :
    (literalOf text).Apart CodeUnit.space CodeUnit.space := by
  have body :=
    ((Escape.standsFor_write text).apart_iff isPlain_space isPlain_space).mp
      pushable.singleSpaces
  refine (Text.Apart.cons_iff_of_ne (by decide)).mpr
    (Text.Apart.append_iff.mpr ⟨body, .of_not_mem (by decide), ?_⟩)
  rintro ⟨_, ⟨⟩⟩

/-- No quote in it, after the first, is followed by a space. -/
theorem noSpaceAfterQuote_literalOf :
    Text.Apart quote CodeUnit.space ((literalOf text).drop 1) := by
  have body :=
    ((Escape.standsFor_write text).apart_iff isPlain_quote isPlain_space).mp
      pushable.noSpaceAfterQuote
  refine Text.Apart.append_iff.mpr ⟨body, .of_not_mem (by decide), ?_⟩
  rintro ⟨_, ⟨⟩⟩

/-- So it is put together again from its tokens. -/
theorem joinedTokens_literalOf :
    joinedTokens (literalOf text).tokens = literalOf text := by
  refine joinedTokens_tokens pushable.onlySpaces_literalOf
    pushable.singleSpaces_literalOf ?_ ?_
  · rw [literalOf, List.head?_cons]
    decide
  · rw [literalOf, ← List.cons_append, List.getLast?_concat]
    decide

/-- Fewer tokens do not close it: a quote at their end would have a space after it. -/
theorem not_isClosed_of_take
    {fewer : Nat}
    (atLeastOne : 1 ≤ fewer)
    (isLess : fewer < (literalOf text).tokens.length) :
    isClosed (joinedTokens ((literalOf text).tokens.take fewer)) = false := by
  refine Bool.eq_false_iff.mpr fun closed => ?_
  have takenNonempty : (literalOf text).tokens.take fewer ≠ [] := by
    refine List.ne_nil_of_length_pos ?_
    rw [List.length_take]
    omega
  have leftNonempty : (literalOf text).tokens.drop fewer ≠ [] := by
    refine List.ne_nil_of_length_pos ?_
    rw [List.length_drop]
    omega
  have halves := joinedTokens_append takenNonempty leftNonempty
  rw [List.take_append_drop, pushable.joinedTokens_literalOf] at halves
  -- The quote that closes the tokens taken has a space after it.
  have isQuote := isClosed_iff.mp closed
  have atLeastOneUnit :
      1 ≤ (joinedTokens ((literalOf text).tokens.take fewer)).length := by
    refine Nat.one_le_iff_ne_zero.mpr fun none => ?_
    rw [List.length_eq_zero_iff.mp none] at isQuote
    cases isQuote
  have apart := pushable.noSpaceAfterQuote_literalOf
  rw [halves, List.drop_append_of_le_length atLeastOneUnit] at apart
  exact (Text.Apart.append_iff.mp apart).2.2 ⟨isQuote, rfl⟩

/-- All tokens of the literal are needed to close it. -/
theorem spellsString_literalOf :
    SpellsString (literalOf text).tokens (literalOf text).tokens.length text := by
  have joined := pushable.joinedTokens_literalOf
  have whole : joinedTokens ((literalOf text).tokens.take
      (literalOf text).tokens.length) = literalOf text := by
    rw [List.take_length, joined]
  refine
    { atLeastOne := ?_
      atMostAll := Nat.le_refl _
      whole := ?_
      notSooner := ?_
      opened := ?_
      body := ?_
      ended := ?_ }
  · refine List.length_pos_iff.mpr fun none => ?_
    rw [none] at joined
    cases joined
  · rw [whole, isClosed_iff, literalOf, List.drop_one, List.tail_cons,
      List.getLast?_concat]
  · intro fewer atLeastOne isLess
    exact pushable.not_isClosed_of_take atLeastOne isLess
  · rw [whole]
    rfl
  · rw [whole, literalBody, literalOf, List.drop_one, List.tail_cons,
      List.dropLast_concat, Escape.resolve_write]
  · rw [List.drop_length]
    trivial

/-- The line of a text that can be pushed pushes it. -/
theorem ofLine_stringLine :
    ofLine (stringLine text) = .ok (some (.string text)) := by
  have directive : Text.IsToken ("@PushStr" : Text) :=
    { nonempty := by decide
      noBlank := fun unit member => by
        have noneBlank :
            List.all ("@PushStr" : Text) (fun unit => !unit.isBlank) = true := by
          decide
        exact (Bool.not_eq_true' _).mp (List.all_eq_true.mp noneBlank unit member) }
  have tokens :
      (stringLine text).tokens =
        ("@PushStr" : Text) :: (literalOf text).tokens := by
    rw [stringLine_eq, Text.tokens_append_blank rfl, directive.tokens_eq,
      List.singleton_append]
  refine ofTokens_of_grammar ?_
  rw [tokens]
  exact .string pushable.spellsString_literalOf

/-- That line is one line. -/
theorem isLine_stringLine : Text.IsLine (stringLine text) := by
  rw [stringLine_eq]
  refine
    { noFeed := ?_
      noReturn := ?_ }
  · intro member
    rcases List.mem_append.mp member with inDirective | member
    · exact absurd inDirective (by decide)
    · rcases List.mem_cons.mp member with isSpace | inLiteral
      · cases isSpace
      · cases pushable.onlySpaces_literalOf _ inLiteral rfl
  · rw [literalOf, ← List.cons_append, ← List.cons_append, ← List.append_assoc,
      List.getLast?_concat]
    decide

end IsPushable

/-- Any text that a line pushes can be pushed. -/
theorem isPushable_of_ofLine
    {line text : Text}
    (read : ofLine line = .ok (some (.string text))) :
    IsPushable text := by
  have areTokens : ∀ token ∈ line.tokens, token.IsToken := fun token =>
    Text.isToken_of_mem_tokens
  have derived := grammar_of_ofTokens read
  generalize line.tokens = tokens at areTokens derived
  cases derived with
  | string spelled =>
      exact isPushable_of_spellsString spelled fun token member =>
        areTokens token (List.mem_cons_of_mem _ member)

end Written

/--
Which texts a line can push, and a line for each of them.

The blanks of such a text are spaces, newlines and tabs; no two of its spaces are
adjacent, and none follows a quote. If any line pushes a text, the line does that writes
it with escapes between quotes, and that one can stand in a source as it is.
-/
theorem pushed_by_some_line_iff (text : Text) :
    ((∃ line, ofLine line = .ok (some (.string text))) ↔ IsPushable text) ∧
    (IsPushable text ↔ ofLine (stringLine text) = .ok (some (.string text))) ∧
    (IsPushable text → Text.IsLine (stringLine text)) := by
  refine ⟨⟨?_, ?_⟩, ⟨?_, ?_⟩, ?_⟩
  · rintro ⟨line, read⟩
    exact isPushable_of_ofLine read
  · intro pushable
    exact ⟨_, pushable.ofLine_stringLine⟩
  · exact IsPushable.ofLine_stringLine
  · exact isPushable_of_ofLine
  · exact IsPushable.isLine_stringLine

end Statement

end StackCode
