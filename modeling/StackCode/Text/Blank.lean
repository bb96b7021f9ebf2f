import StackCode.Text.Basic

namespace StackCode

/-!
# Blanks and tokens

Blank units separate the tokens of a line. They are the five controls from
U+0009 to U+000D, the space, the no-break space, the spaces of the Unicode
category `Zs`, the line and paragraph separators and the byte order mark; all of
them lie in the basic plane. `Text.split` cuts a text at chosen units, and
`Text.tokens` keeps the runs between blanks.
-/

namespace CodeUnit

/-- The units that separate tokens. -/
def isBlank (unit : CodeUnit) : Bool :=
  (0x0009 ≤ unit && unit ≤ 0x000D) ||
  unit == 0x0020 ||
  unit == 0x00A0 ||
  unit == 0x1680 ||
  (0x2000 ≤ unit && unit ≤ 0x200A) ||
  unit == 0x2028 ||
  unit == 0x2029 ||
  unit == 0x202F ||
  unit == 0x205F ||
  unit == 0x3000 ||
  unit == 0xFEFF

end CodeUnit

namespace Text

/--
Cut a text at every unit that separates.

The first component is what stands before the first separator, the second holds
the pieces after each separator, so there is one piece more than separators.
-/
def cut
    (separates : CodeUnit → Bool)
    (text : Text) :
    Text × List Text :=
  text.foldr
    (fun unit pieces =>
      if separates unit then
        ([], pieces.1 :: pieces.2)
      else
        (unit :: pieces.1, pieces.2))
    ([], [])

/-- All pieces of a text between separators, empty ones included. -/
def split
    (separates : CodeUnit → Bool)
    (text : Text) :
    List Text :=
  (text.cut separates).1 :: (text.cut separates).2

/-- The maximal runs of units that are not blank. -/
def tokens (text : Text) : List Text :=
  (text.split CodeUnit.isBlank).filter fun piece => !piece.isEmpty

/-- A text without the blanks at either end. -/
def trim (text : Text) : Text :=
  ((text.dropWhile CodeUnit.isBlank).reverse.dropWhile CodeUnit.isBlank).reverse

/-- Nothing is cut out of the empty text. -/
@[simp] theorem cut_nil (separates : CodeUnit → Bool) :
    cut separates [] = ([], []) :=
  rfl

/-- A separator closes an empty piece; any other unit joins the first piece. -/
theorem cut_cons
    (separates : CodeUnit → Bool)
    (unit : CodeUnit)
    (rest : Text) :
    cut separates (unit :: rest) =
      if separates unit then
        ([], rest.split separates)
      else
        (unit :: (rest.cut separates).1, (rest.cut separates).2) :=
  rfl

end Text

end StackCode
