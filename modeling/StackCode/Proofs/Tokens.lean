import StackCode.Text.Line

namespace StackCode

/-!
# Tokens and lines of composed texts

Cutting a text at a separator cuts what stands on either side of it. From this
one equation follow the tokens of words set apart by blanks and the lines of
texts set apart by line feeds; conversely every token is non-empty and free of
blanks, and the tokens of a text are its maximal runs of units that are not blank.
-/

namespace Text

/-- What a token is made of: at least one unit, and none that is blank. -/
structure IsToken (text : Text) : Prop where
  nonempty : text ≠ []
  noBlank : ∀ unit ∈ text, unit.isBlank = false

section Split

variable {separates : CodeUnit → Bool}

/-- A separator cuts a text in two. -/
theorem split_append_separator
    {separator : CodeUnit}
    (isSeparator : separates separator = true)
    (before after : Text) :
    split separates (before ++ separator :: after) =
      split separates before ++ split separates after := by
  induction before with
  | nil =>
      simp only [List.nil_append, split, cut_cons, isSeparator, if_true,
        cut_nil, List.cons_append]
  | cons unit rest inductionHypothesis =>
      unfold split at inductionHypothesis
      simp only [List.cons_append, split, cut_cons]
      by_cases cuts : separates unit = true
      · simp only [cuts, if_true, inductionHypothesis, List.cons_append]
      · simp only [List.cons_append, List.cons.injEq] at inductionHypothesis
        rw [if_neg cuts, if_neg cuts]
        simp only [inductionHypothesis.1, inductionHypothesis.2]

/-- A text without separators is one piece. -/
theorem split_of_none
    {text : Text}
    (none : ∀ unit ∈ text, separates unit = false) :
    split separates text = [text] := by
  induction text with
  | nil => rfl
  | cons unit rest inductionHypothesis =>
      have whole :=
        inductionHypothesis fun other member =>
          none other (List.mem_cons_of_mem _ member)
      unfold split at whole ⊢
      simp only [List.cons.injEq] at whole
      simp [cut_cons, none unit List.mem_cons_self, whole.1, whole.2]

/-- No piece has a separator in it. -/
theorem not_separates_of_mem_split
    {text piece : Text}
    (member : piece ∈ split separates text) :
    ∀ unit ∈ piece, separates unit = false := by
  induction text generalizing piece with
  | nil =>
      rw [List.mem_singleton.mp member]
      exact fun _ absent => absurd absent List.not_mem_nil
  | cons unit rest inductionHypothesis =>
      rw [split, cut_cons] at member
      by_cases cuts : separates unit = true
      · rw [if_pos cuts] at member
        rcases List.mem_cons.mp member with isEmpty | isLater
        · rw [isEmpty]
          exact fun _ absent => absurd absent List.not_mem_nil
        · exact inductionHypothesis isLater
      · rw [if_neg cuts] at member
        rcases List.mem_cons.mp member with isFirst | isLater
        · rw [isFirst]
          intro other inFirst
          rcases List.mem_cons.mp inFirst with isUnit | inRest
          · rw [isUnit]
            exact Bool.not_eq_true _ ▸ cuts
          · exact inductionHypothesis List.mem_cons_self other inRest
        · exact inductionHypothesis (List.mem_cons_of_mem _ isLater)

end Split

/-- A blank sets the tokens before it apart from those after it. -/
theorem tokens_append_blank
    {blank : CodeUnit}
    (isBlank : blank.isBlank = true)
    (before after : Text) :
    tokens (before ++ blank :: after) = tokens before ++ tokens after := by
  simp only [tokens, split_append_separator isBlank, List.filter_append]

/-- What a text is cut into is tokens. -/
theorem isToken_of_mem_tokens
    {text token : Text}
    (member : token ∈ text.tokens) :
    IsToken token := by
  obtain ⟨isPiece, notEmpty⟩ := List.mem_filter.mp member
  exact
    { nonempty := by
        rintro rfl
        cases notEmpty
      noBlank := not_separates_of_mem_split isPiece }

namespace IsToken

variable {text : Text}

/-- What a token is made of is read as one token. -/
theorem tokens_eq (isToken : IsToken text) : tokens text = [text] := by
  have notEmpty : (!text.isEmpty) = true := by
    rw [List.isEmpty_eq_false_iff.mpr isToken.nonempty]
    rfl
  rw [tokens, split_of_none isToken.noBlank, List.filter_cons, if_pos notEmpty,
    List.filter_nil]

/-- There are no blanks in a token. -/
theorem not_mem
    (isToken : IsToken text)
    {blank : CodeUnit}
    (isBlank : blank.isBlank = true) :
    blank ∉ text := by
  intro member
  rw [isToken.noBlank blank member] at isBlank
  cases isBlank

/-- A text that ends with a token does not end with a blank. -/
theorem getLast?_append_ne
    (isToken : IsToken text)
    {blank : CodeUnit}
    (isBlank : blank.isBlank = true)
    (before : Text) :
    (before ++ text).getLast? ≠ some blank := by
  intro isLast
  rw [List.getLast?_append, List.getLast?_eq_some_getLast isToken.nonempty,
    Option.some_or] at isLast
  have member := List.getLast_mem isToken.nonempty
  rw [Option.some.inj isLast] at member
  exact isToken.not_mem isBlank member

/-- Tokens side by side are one token. -/
theorem append
    {other : Text}
    (isToken : IsToken text)
    (otherNoBlank : ∀ unit ∈ other, unit.isBlank = false) :
    IsToken (text ++ other) where
  nonempty := List.append_ne_nil_of_left_ne_nil isToken.nonempty _
  noBlank := by
    intro unit member
    rcases List.mem_append.mp member with inFirst | inOther
    · exact isToken.noBlank unit inFirst
    · exact otherNoBlank unit inOther

end IsToken

/-- A text of blanks only. -/
def IsBlank (text : Text) : Prop :=
  ∀ unit ∈ text, unit.isBlank = true

theorem isBlank_singleton
    {unit : CodeUnit}
    (isBlank : unit.isBlank = true) :
    IsBlank [unit] :=
  List.forall_mem_singleton.mpr isBlank

/--
A text as its maximal runs of units that are not blank: blanks stand before each
run, and a blank stands after each run that is not the end of the text.
-/
inductive Runs : Text → List Text → Prop where
  /-- Blanks alone hold no run. -/
  | blanks
      {blanks : Text}
      (areBlank : IsBlank blanks) :
      Runs blanks []
  /-- A run at the end of the text. -/
  | last
      {blanks token : Text}
      (areBlank : IsBlank blanks)
      (isToken : IsToken token) :
      Runs (blanks ++ token) [token]
  /-- A run that a blank ends, and those after it. -/
  | cons
      {blanks token rest : Text}
      {blank : CodeUnit}
      {tokens : List Text}
      (areBlank : IsBlank blanks)
      (isToken : IsToken token)
      (isBlank : blank.isBlank = true)
      (others : Runs rest tokens) :
      Runs (blanks ++ (token ++ blank :: rest)) (token :: tokens)

/-- Blanks at the front of a text belong to no token. -/
theorem tokens_blanks_append
    {blanks : Text}
    (areBlank : IsBlank blanks)
    (rest : Text) :
    tokens (blanks ++ rest) = tokens rest := by
  induction blanks with
  | nil => rfl
  | cons blank others inductionHypothesis =>
      have isBlank : blank.isBlank = true := areBlank blank List.mem_cons_self
      have othersBlank : IsBlank others := fun unit member =>
        areBlank unit (List.mem_cons_of_mem _ member)
      have apart := tokens_append_blank isBlank [] (others ++ rest)
      rw [List.cons_append, ← inductionHypothesis othersBlank]
      exact apart

/-- Blanks between two texts set the tokens of one apart from those of the other. -/
theorem tokens_append_gap
    {blanks : Text}
    (areBlank : IsBlank blanks)
    (nonempty : blanks ≠ [])
    (before after : Text) :
    tokens (before ++ (blanks ++ after)) = tokens before ++ tokens after := by
  cases blanks with
  | nil => exact absurd rfl nonempty
  | cons blank others =>
      have othersBlank : IsBlank others := fun unit member =>
        areBlank unit (List.mem_cons_of_mem _ member)
      rw [List.cons_append,
        tokens_append_blank (areBlank blank List.mem_cons_self),
        tokens_blanks_append othersBlank]

/-- Blanks at the end of a text belong to no token. -/
theorem tokens_append_blanks
    {blanks : Text}
    (areBlank : IsBlank blanks)
    (before : Text) :
    tokens (before ++ blanks) = tokens before := by
  by_cases none : blanks = []
  · rw [none, List.append_nil]
  · have apart := tokens_append_gap areBlank none before []
    rw [List.append_nil] at apart
    exact apart.trans (List.append_nil _)

/-- A unit that is not blank begins the first token. -/
theorem tokens_cons
    {unit : CodeUnit}
    (notBlank : unit.isBlank = false)
    (rest : Text) :
    ∃ token others, tokens (unit :: rest) = (unit :: token) :: others := by
  refine
    ⟨(rest.cut CodeUnit.isBlank).1,
      (rest.cut CodeUnit.isBlank).2.filter fun piece => !piece.isEmpty, ?_⟩
  rw [tokens, split, cut_cons, notBlank]
  exact List.filter_cons_of_pos rfl

/-- The runs of a text are its tokens. -/
theorem Runs.tokens_eq
    {text : Text}
    {runs : List Text}
    (areRuns : Runs text runs) :
    text.tokens = runs := by
  induction areRuns with
  | @blanks blanks areBlank =>
      rw [← List.append_nil blanks, tokens_blanks_append areBlank]
      rfl
  | last areBlank isToken =>
      rw [tokens_blanks_append areBlank, isToken.tokens_eq]
  | cons areBlank isToken isBlank others inductionHypothesis =>
      rw [tokens_blanks_append areBlank, tokens_append_blank isBlank,
        isToken.tokens_eq, inductionHypothesis, List.singleton_append]

/-- A blank joins the blanks before the first run. -/
theorem Runs.cons_blank
    {unit : CodeUnit}
    {text : Text}
    {runs : List Text}
    (isBlank : unit.isBlank = true)
    (areRuns : Runs text runs) :
    Runs (unit :: text) runs := by
  have longer {blanks : Text} (areBlank : IsBlank blanks) :
      IsBlank (unit :: blanks) := by
    intro other member
    rcases List.mem_cons.mp member with rfl | inBlanks
    · exact isBlank
    · exact areBlank other inBlanks
  cases areRuns with
  | blanks areBlank => exact .blanks (longer areBlank)
  | last areBlank isToken => exact .last (longer areBlank) isToken
  | cons areBlank isToken endsRun others =>
      exact .cons (longer areBlank) isToken endsRun others

/-- A unit that is not blank joins the first run or is a run before it. -/
theorem Runs.exists_cons
    {unit : CodeUnit}
    {text : Text}
    {runs : List Text}
    (notBlank : unit.isBlank = false)
    (areRuns : Runs text runs) :
    ∃ others, Runs (unit :: text) others := by
  have alone : IsToken [unit] :=
    { nonempty := List.cons_ne_nil _ _
      noBlank := by simpa using notBlank }
  have longer {token : Text} (isToken : IsToken token) :
      IsToken (unit :: token) :=
    alone.append isToken.noBlank
  have none : IsBlank [] := fun _ absent => absurd absent List.not_mem_nil
  have rest {blank : CodeUnit} {blanks : Text}
      (areBlank : IsBlank (blank :: blanks)) : IsBlank blanks :=
    fun other member => areBlank other (List.mem_cons_of_mem _ member)
  -- The unit stands alone where a blank comes next.
  cases areRuns with
  | blanks areBlank =>
      cases text with
      | nil => exact ⟨_, .last none alone⟩
      | cons blank blanks =>
          exact ⟨_, .cons none alone (areBlank blank List.mem_cons_self)
            (.blanks (rest areBlank))⟩
  | @last blanks token areBlank isToken =>
      cases blanks with
      | nil => exact ⟨_, .last none (longer isToken)⟩
      | cons blank blanks =>
          exact ⟨_, .cons none alone (areBlank blank List.mem_cons_self)
            (.last (rest areBlank) isToken)⟩
  | @cons blanks token _ _ _ areBlank isToken endsRun others =>
      cases blanks with
      | nil => exact ⟨_, .cons none (longer isToken) endsRun others⟩
      | cons blank blanks =>
          exact ⟨_, .cons none alone (areBlank blank List.mem_cons_self)
            (.cons (rest areBlank) isToken endsRun others)⟩

/-- Every text has its runs, and they are its tokens. -/
theorem runs_iff
    {text : Text}
    {runs : List Text} :
    Runs text runs ↔ text.tokens = runs := by
  constructor
  · exact Runs.tokens_eq
  · rintro rfl
    have hasRuns : ∃ others, Runs text others := by
      induction text with
      | nil => exact ⟨[], .blanks fun _ absent => absurd absent List.not_mem_nil⟩
      | cons unit rest inductionHypothesis =>
          obtain ⟨others, areRuns⟩ := inductionHypothesis
          cases blank : unit.isBlank with
          | true => exact ⟨others, areRuns.cons_blank blank⟩
          | false => exact areRuns.exists_cons blank
    obtain ⟨others, areRuns⟩ := hasRuns
    rw [areRuns.tokens_eq]
    exact areRuns

/--
A text that a line can hold as it is: no line feed, and no return at its end.
-/
structure IsLine (text : Text) : Prop where
  noFeed : CodeUnit.lineFeed ∉ text
  noReturn : text.getLast? ≠ some CodeUnit.carriageReturn

namespace IsLine

/--
A text that ends with a token is a line if what stands before has no line feed.
-/
theorem append_token
    {before token : Text}
    (noFeed : CodeUnit.lineFeed ∉ before)
    (isToken : IsToken token) :
    IsLine (before ++ token) where
  noFeed := by
    intro member
    rcases List.mem_append.mp member with inBefore | inToken
    · exact noFeed inBefore
    · exact isToken.not_mem rfl inToken
  noReturn := isToken.getLast?_append_ne rfl before

end IsLine

/-- A token does not reach beyond its line. -/
theorem IsToken.isLine {token : Text} (isToken : IsToken token) : IsLine token :=
  @IsLine.append_token [] token List.not_mem_nil isToken

/-- A line is one piece between line feeds. -/
theorem split_of_noFeed
    {line : Text}
    (noFeed : CodeUnit.lineFeed ∉ line) :
    line.split (· == CodeUnit.lineFeed) = [line] := by
  refine split_of_none fun unit member => beq_eq_false_iff_ne.mpr ?_
  rintro rfl
  exact noFeed member

/-- A piece that a line feed ends is a line, without the return at its end. -/
theorem lines_piece_append_feed
    {line : Text}
    (noFeed : CodeUnit.lineFeed ∉ line)
    (rest : Text) :
    lines (line ++ CodeUnit.lineFeed :: rest) = line.dropReturn :: lines rest := by
  have pieces :=
    @split_append_separator (· == CodeUnit.lineFeed) _ (beq_self_eq_true _)
      line rest
  rw [split_of_noFeed noFeed, List.singleton_append] at pieces
  simp only [split, List.cons.injEq] at pieces
  simp only [lines, pieces.1, pieces.2, linesOfPieces]

/-- The first line of a text is what stands before its first line feed. -/
theorem lines_append_lineFeed
    {line : Text}
    (isLine : IsLine line)
    (rest : Text) :
    lines (line ++ CodeUnit.lineFeed :: rest) = line :: lines rest := by
  have whole : line.dropReturn = line := by
    rw [dropReturn, endsWith, if_neg]
    simpa using isLine.noReturn
  rw [lines_piece_append_feed isLine.noFeed, whole]

theorem ofLines_cons (line : Text) (rest : List Text) :
    ofLines (line :: rest) = line ++ CodeUnit.lineFeed :: ofLines rest := by
  rw [ofLines, List.flatMap_cons, List.append_assoc, List.singleton_append]
  rfl

/-- Lines that are written are read back. -/
theorem lines_ofLines
    {written : List Text}
    (areLines : ∀ line ∈ written, IsLine line) :
    lines (ofLines written) = written := by
  induction written with
  | nil => rfl
  | cons line rest inductionHypothesis =>
      rw [ofLines_cons, lines_append_lineFeed (areLines line List.mem_cons_self),
        inductionHypothesis fun other member =>
          areLines other (List.mem_cons_of_mem _ member)]

end Text

end StackCode
