import StackCode.Text.Blank

namespace StackCode

/-!
# Lines

A line feed ends a line, and one carriage return directly before it belongs to
the line end. What follows the last line feed is a line as well unless it is
empty; nothing is taken from its end.
-/

namespace Text

/-- A text without one carriage return at its end. -/
def dropReturn (text : Text) : Text :=
  if text.endsWith CodeUnit.carriageReturn then text.dropLast else text

/-- The lines of a sequence of pieces between line feeds. -/
def linesOfPieces : Text → List Text → List Text
  | last, [] => if last.isEmpty then [] else [last]
  | piece, next :: rest => piece.dropReturn :: linesOfPieces next rest

/-- The lines of a text without their ends. -/
def lines (text : Text) : List Text :=
  let pieces := text.cut (· == CodeUnit.lineFeed)
  linesOfPieces pieces.1 pieces.2

/-- Lines with a line feed after each. -/
def ofLines (lines : List Text) : Text :=
  lines.flatMap fun line => line ++ [CodeUnit.lineFeed]

/-- Nothing has no lines. -/
@[simp] theorem lines_nil : lines [] = [] :=
  rfl

end Text

end StackCode
