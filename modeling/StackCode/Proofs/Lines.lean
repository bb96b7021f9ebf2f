import Mathlib.Data.List.Induction
import StackCode.Proofs.Tokens

namespace StackCode

/-!
# Lines of joined texts

Every text is read from the start of a line on by itself: where a text is empty or
ends with a line feed, its lines and those of what follows it are the lines of both
together. The lemmas below say what stands between two such places.
-/

namespace Text

/-- A line begins after a text that is empty or ends with a line feed. -/
def AtLineStart (before : Text) : Prop :=
  before = [] ∨ before.endsWith CodeUnit.lineFeed = true

/-- Every piece that another one follows is a line. -/
theorem linesOfPieces_append (piece next : Text) (between rest : List Text) :
    linesOfPieces piece (between ++ next :: rest) =
      (piece :: between).map dropReturn ++ linesOfPieces next rest := by
  induction between generalizing piece with
  | nil => rfl
  | cons second others inductionHypothesis =>
      rw [List.cons_append, linesOfPieces, inductionHypothesis]
      rfl

/-- What stands before a line feed is lines, whatever comes after it. -/
theorem lines_append_feed (before after : Text) :
    lines (before ++ CodeUnit.lineFeed :: after) =
      (before.split (· == CodeUnit.lineFeed)).map dropReturn ++ lines after := by
  have pieces :=
    @split_append_separator (· == CodeUnit.lineFeed) _ (beq_self_eq_true _)
      before after
  simp only [split, List.cons_append, List.cons.injEq] at pieces
  simp only [lines, pieces.1, pieces.2]
  exact linesOfPieces_append _ _ _ _

/-- A text that ends with a line feed has a text before it. -/
theorem exists_before_feed
    {text : Text}
    (ends : text.endsWith CodeUnit.lineFeed = true) :
    ∃ before, text = before ++ [CodeUnit.lineFeed] := by
  rw [endsWith, beq_iff_eq] at ends
  exact List.getLast?_eq_some_iff.mp ends

/-- From the start of a line on, a text is read by itself. -/
theorem lines_append
    {before : Text}
    (begins : AtLineStart before)
    (after : Text) :
    lines (before ++ after) = lines before ++ lines after := by
  rcases begins with rfl | ends
  · rfl
  · obtain ⟨earlier, rfl⟩ := exists_before_feed ends
    rw [List.append_assoc, List.singleton_append, lines_append_feed,
      lines_append_feed, lines_nil, List.append_nil]

/-- Every text is whole lines and a piece of one after them. -/
theorem exists_unended (text : Text) :
    ∃ before piece,
      text = before ++ piece ∧
        AtLineStart before ∧ CodeUnit.lineFeed ∉ piece := by
  induction text using List.reverseRecOn with
  | nil => exact ⟨[], [], rfl, Or.inl rfl, List.not_mem_nil⟩
  | append_singleton earlier unit inductionHypothesis =>
      by_cases isFeed : unit = CodeUnit.lineFeed
      · subst isFeed
        refine ⟨_, [], (List.append_nil _).symm, Or.inr ?_, List.not_mem_nil⟩
        rw [endsWith, List.getLast?_concat, beq_self_eq_true]
      · obtain ⟨before, piece, rfl, begins, noFeed⟩ := inductionHypothesis
        refine ⟨before, piece ++ [unit], List.append_assoc _ _ _, begins, ?_⟩
        rw [List.mem_append, List.mem_singleton, not_or]
        exact ⟨noFeed, Ne.symm isFeed⟩

/-- To drop a return adds nothing. -/
theorem dropReturn_subset (text : Text) : text.dropReturn ⊆ text := by
  unfold dropReturn
  split
  next => exact List.dropLast_subset text
  next => exact List.Subset.refl text

/-- A line is a piece between line feeds, or one without its return. -/
theorem exists_piece_of_mem_lines
    {piece line : Text}
    {rest : List Text}
    (member : line ∈ linesOfPieces piece rest) :
    ∃ other ∈ piece :: rest, line ⊆ other := by
  induction rest generalizing piece with
  | nil =>
      unfold linesOfPieces at member
      split at member
      · cases member
      · exact ⟨line, member, List.Subset.refl line⟩
  | cons next others inductionHypothesis =>
      rcases List.mem_cons.mp member with rfl | isLater
      · exact ⟨piece, List.mem_cons_self, dropReturn_subset piece⟩
      · obtain ⟨other, isPiece, within⟩ := inductionHypothesis isLater
        exact ⟨other, List.mem_cons_of_mem _ isPiece, within⟩

/-- No line has a line feed in it. -/
theorem noFeed_of_mem_lines
    {text line : Text}
    (member : line ∈ text.lines) :
    CodeUnit.lineFeed ∉ line := by
  intro inLine
  obtain ⟨piece, isPiece, within⟩ := exists_piece_of_mem_lines member
  have noSeparator := not_separates_of_mem_split isPiece _ (within inLine)
  exact absurd noSeparator (by decide)

/-- What ends a line: a line feed, or a return and a line feed. -/
inductive IsBreak : Text → Prop where
  | feed : IsBreak [CodeUnit.lineFeed]
  | returnAndFeed : IsBreak [CodeUnit.carriageReturn, CodeUnit.lineFeed]

/-- The tokens of each line of a text. -/
def tokenLines (text : Text) : List (List Text) :=
  text.lines.map tokens

/-- At the beginning of a line, a text can be cut without cutting a line. -/
theorem tokenLines_append
    {before : Text}
    (begins : AtLineStart before)
    (after : Text) :
    tokenLines (before ++ after) = tokenLines before ++ tokenLines after := by
  rw [tokenLines, lines_append begins, List.map_append]
  rfl

theorem isBlank_return : IsBlank [CodeUnit.carriageReturn] :=
  isBlank_singleton rfl

/-- A return is blank, so it does not matter whether it belongs to a line. -/
theorem tokens_dropReturn (text : Text) : tokens text.dropReturn = tokens text := by
  unfold dropReturn
  split
  next ends =>
    rw [endsWith, beq_iff_eq] at ends
    obtain ⟨before, rfl⟩ := List.getLast?_eq_some_iff.mp ends
    rw [List.dropLast_concat, tokens_append_blanks isBlank_return]
  next => rfl

section Piece

variable {line : Text} (noFeed : CodeUnit.lineFeed ∉ line)

include noFeed

/-- A piece without a line feed that nothing follows is a line unless it is empty. -/
theorem lines_of_noFeed : lines line = if line = [] then [] else [line] := by
  have pieces := split_of_noFeed noFeed
  simp only [split, List.cons.injEq] at pieces
  simp only [lines, pieces.1, pieces.2, linesOfPieces]
  cases line <;> rfl

/-- A text without a line feed is one line, or none if it is empty. -/
theorem tokenLines_of_noFeed :
    tokenLines line = if line = [] then [] else [tokens line] := by
  rw [tokenLines, lines_of_noFeed noFeed]
  split <;> rfl

/-- A line feed parts a line from those after it. -/
theorem tokenLines_append_feed (after : Text) :
    tokenLines (line ++ CodeUnit.lineFeed :: after) =
      tokens line :: tokenLines after := by
  rw [tokenLines, lines_piece_append_feed noFeed, List.map_cons, tokens_dropReturn]
  rfl

/-- A line and its break are followed by other lines. -/
theorem tokenLines_append_break
    {ending : Text}
    (isBreak : IsBreak ending)
    (after : Text) :
    tokenLines (line ++ (ending ++ after)) = tokens line :: tokenLines after := by
  cases isBreak with
  | feed => exact tokenLines_append_feed noFeed after
  | returnAndFeed =>
      -- The return counts as the last unit of the line, and it is blank.
      have longerNoFeed :
          CodeUnit.lineFeed ∉ line ++ [CodeUnit.carriageReturn] := by
        rw [List.mem_append, List.mem_singleton, not_or]
        exact ⟨noFeed, by decide⟩
      have ended := tokenLines_append_feed longerNoFeed after
      rw [List.append_assoc, tokens_append_blanks isBlank_return] at ended
      exact ended

end Piece

end Text

end StackCode
