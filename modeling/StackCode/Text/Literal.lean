import StackCode.Word

namespace StackCode

/-!
# Integer literals

An integer literal is an optional sign and then hexadecimal digits after `0x` or
`0X`, binary digits after `0b` or `0B`, or decimal digits; there is at least one
digit. Its value is exact; `Literal.word?` tells whether it fits into a word.
-/

namespace Literal

/-- The value of a digit of either case in a base up to sixteen. -/
def digit? (base : Nat) (unit : CodeUnit) : Option Nat :=
  let value? :=
    if 0x30 ≤ unit && unit ≤ 0x39 then
      some (unit.toNat - 0x30)
    else if 0x41 ≤ unit && unit ≤ 0x46 then
      some (unit.toNat - 0x41 + 10)
    else if 0x61 ≤ unit && unit ≤ 0x66 then
      some (unit.toNat - 0x61 + 10)
    else
      none
  value?.filter fun value => decide (value < base)

/-- The value of digits that follow digits of a given value. -/
def digitsFrom? (base : Nat) : Nat → Text → Option Nat
  | value, [] => some value
  | value, unit :: rest =>
      match digit? base unit with
      | none => none
      | some digit => digitsFrom? base (value * base + digit) rest

/-- The value of one or more digits. -/
def digits? (base : Nat) (text : Text) : Option Nat :=
  if text.isEmpty then none else digitsFrom? base 0 text

/-- The base that a literal's first units announce, and the digits after them. -/
def announced : Text → Nat × Text
  | zero :: mark :: digits =>
      if zero = CodeUnit.ofChar '0' then
        if mark = CodeUnit.ofChar 'x' ∨ mark = CodeUnit.ofChar 'X' then
          (16, digits)
        else if mark = CodeUnit.ofChar 'b' ∨ mark = CodeUnit.ofChar 'B' then
          (2, digits)
        else
          (10, zero :: mark :: digits)
      else
        (10, zero :: mark :: digits)
  | digits => (10, digits)

/-- The value of a literal without its sign. -/
def magnitude? (text : Text) : Option Nat :=
  digits? (announced text).1 (announced text).2

/-- The value of a text that is an integer literal, of any size. -/
def value? : Text → Option Int
  | [] => none
  | sign :: rest =>
      if sign = CodeUnit.ofChar '-' then
        (magnitude? rest).map fun magnitude => -(magnitude : Int)
      else if sign = CodeUnit.ofChar '+' then
        (magnitude? rest).map Int.ofNat
      else
        (magnitude? (sign :: rest)).map Int.ofNat

/-- A literal whose value is no word. -/
structure OutOfRange where
  literal : Text
  deriving Repr, DecidableEq

/-- The wording of a literal's refusal. -/
def OutOfRange.reason (refusal : OutOfRange) : Text :=
  Text.concat ["integer literal out of range: `", refusal.literal, "`"]

/-- The word of a text that is a literal; `none` where it is not one at all. -/
def word? (text : Text) : Except OutOfRange (Option Word) :=
  match value? text with
  | none => .ok none
  | some value =>
      match Word.ofInt? value with
      | none => .error { literal := text }
      | some word => .ok (some word)

end Literal

end StackCode
