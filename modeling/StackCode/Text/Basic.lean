namespace StackCode

/-!
# Texts

A text is a sequence of 16-bit code units. A character outside the basic plane
takes two units, a high surrogate followed by a low one, and nothing requires a
surrogate to stand in such a pair: every sequence of units is a text. Lengths,
widths and escapes count units; `Text.codePoints` reads pairs together and
`Text.ofCodePoint` writes them apart.
-/

/-- One 16-bit unit of a text. -/
abbrev CodeUnit := UInt16

/-- A sequence of code units, whether or not its surrogates are paired. -/
abbrev Text := List CodeUnit

/-- A sequence of octets, as files and input streams hold them. -/
abbrev Bytes := List UInt8

namespace CodeUnit

/-- The unit of a character of the basic plane. -/
def ofChar (character : Char) : CodeUnit :=
  UInt16.ofNat character.toNat

/-- The line feed U+000A, which ends a line. -/
def lineFeed : CodeUnit := 0x0A

/-- The carriage return U+000D, which may stand before a line feed. -/
def carriageReturn : CodeUnit := 0x0D

/-- The space U+0020. -/
def space : CodeUnit := 0x20

/-- The first half of a surrogate pair. -/
def isHighSurrogate (unit : CodeUnit) : Bool :=
  0xD800 ≤ unit && unit ≤ 0xDBFF

/-- The second half of a surrogate pair. -/
def isLowSurrogate (unit : CodeUnit) : Bool :=
  0xDC00 ≤ unit && unit ≤ 0xDFFF

/-- The small letter of a capital ASCII letter; any other unit as it is. -/
def lowerCase (unit : CodeUnit) : CodeUnit :=
  if 0x41 ≤ unit && unit ≤ 0x5A then unit + 0x20 else unit

end CodeUnit

namespace Text

/-- The units of a code point: one in the basic plane, a surrogate pair above it. -/
def ofCodePoint (point : Nat) : Text :=
  if point < 0x10000 then
    [UInt16.ofNat point]
  else
    [UInt16.ofNat (0xD800 + (point - 0x10000) / 0x400),
      UInt16.ofNat (0xDC00 + (point - 0x10000) % 0x400)]

/-- The text that spells a sequence of code points. -/
def ofCodePoints (points : List Nat) : Text :=
  points.flatMap ofCodePoint

/-- The text of a sequence of characters. -/
def ofString (characters : String) : Text :=
  ofCodePoints (characters.toList.map Char.toNat)

instance : Coe String Text where
  coe := ofString

/--
The code points of a text, in order.

A high surrogate directly followed by a low one is one code point; every other
unit, an unpaired surrogate included, is a code point of its own.
-/
def codePoints : Text → List Nat
  | [] => []
  | [unit] => [unit.toNat]
  | high :: low :: rest =>
      if high.isHighSurrogate && low.isLowSurrogate then
        (0x10000 + (high.toNat - 0xD800) * 0x400 + (low.toNat - 0xDC00)) ::
          codePoints rest
      else
        high.toNat :: codePoints (low :: rest)

/-- Whether every surrogate of a text stands in a pair. -/
def isPaired (text : Text) : Bool :=
  text.codePoints.all fun point => point.isValidChar

/--
The characters of a text as a terminal shows them: an unpaired surrogate becomes
the replacement character U+FFFD.
-/
def toDisplay (text : Text) : String :=
  String.ofList
    (text.codePoints.map fun point =>
      if point.isValidChar then Char.ofNat point else '\uFFFD')

/-- The characters of a text, if all its surrogates are paired. -/
def toString? (text : Text) : Option String :=
  if text.isPaired then some text.toDisplay else none

/-- A text put together from its pieces. -/
def concat (pieces : List Text) : Text :=
  pieces.flatten

/-- Pieces with a separator between each two neighbours. -/
def joined (separator : Text) (pieces : List Text) : Text :=
  separator.intercalate pieces

/-- Whether a text begins with a given unit. -/
def startsWith (text : Text) (unit : CodeUnit) : Bool :=
  text.head? == some unit

/-- Whether a text ends with a given unit. -/
def endsWith (text : Text) (unit : CodeUnit) : Bool :=
  text.getLast? == some unit

/-- The digits of a natural number in a base up to sixteen, lower case. -/
def ofNatInBase (base : Nat) (value : Nat) : Text :=
  (Nat.toDigits base value).map CodeUnit.ofChar

/-- The digits of an integer, after a minus sign when it is negative. -/
def ofIntInBase (base : Nat) (value : Int) : Text :=
  if value < 0 then
    CodeUnit.ofChar '-' :: ofNatInBase base value.natAbs
  else
    ofNatInBase base value.natAbs

/-- The decimal text of a natural number. -/
def ofNat (value : Nat) : Text :=
  ofNatInBase 10 value

/-- The decimal text of an integer. -/
def ofInt (value : Int) : Text :=
  ofIntInBase 10 value

/-- A text filled up with spaces on the right to a given number of units. -/
def padRight (width : Nat) (text : Text) : Text :=
  text.rightpad width CodeUnit.space

end Text

end StackCode
