import StackCode.Text.Basic

namespace StackCode

/-!
# Reading UTF-8

Octets are read one at a time. Where the octets so far cannot be the beginning of
a well-formed sequence, those before the offending octet give one replacement
character U+FFFD, and the offending octet is read afresh; an unfinished sequence
at the end gives one as well. A byte order mark is a character like any other.

Well-formed sequences differ from "a lead octet and its tails" in the second octet
only: after E0, ED, F0 and F4 its range is narrower, which leaves out overlong
forms, surrogates and code points above 10FFFF.
-/

namespace Utf8

/-- The code point that stands for octets that cannot be read. -/
def replacement : Nat := 0xFFFD

/-- Where the reader stands between two octets. -/
inductive State where
  /-- Between characters. -/
  | start
  /-- Inside a sequence that has `owed + 1` octets to come, the next of them in a range. -/
  | within (value : Nat) (owed : Nat) (least greatest : UInt8)
  deriving Repr, DecidableEq

/-- Read an octet between characters: the code points it completes and the state after it. -/
def beginAt (byte : UInt8) : List Nat × State :=
  if byte ≤ 0x7F then
    ([byte.toNat], .start)
  else if 0xC2 ≤ byte && byte ≤ 0xDF then
    ([], .within (byte.toNat - 0xC0) 0 0x80 0xBF)
  else if byte == 0xE0 then
    ([], .within 0 1 0xA0 0xBF)
  else if byte == 0xED then
    ([], .within 0xD 1 0x80 0x9F)
  else if 0xE1 ≤ byte && byte ≤ 0xEF then
    ([], .within (byte.toNat - 0xE0) 1 0x80 0xBF)
  else if byte == 0xF0 then
    ([], .within 0 2 0x90 0xBF)
  else if 0xF1 ≤ byte && byte ≤ 0xF3 then
    ([], .within (byte.toNat - 0xF0) 2 0x80 0xBF)
  else if byte == 0xF4 then
    ([], .within 4 2 0x80 0x8F)
  else
    ([replacement], .start)

/-- Read one octet in any state. -/
def State.read (state : State) (byte : UInt8) : List Nat × State :=
  match state with
  | .start => beginAt byte
  | .within value owed least greatest =>
      if least ≤ byte && byte ≤ greatest then
        match owed with
        | 0 => ([value * 0x40 + (byte.toNat - 0x80)], .start)
        | owed + 1 =>
            ([], .within (value * 0x40 + (byte.toNat - 0x80)) owed 0x80 0xBF)
      else
        (replacement :: (beginAt byte).1, (beginAt byte).2)

/-- The code points that the end of input completes. -/
def State.finish : State → List Nat
  | .start => []
  | .within .. => [replacement]

/-- The code points of a sequence of octets that is read from a given state. -/
def codePointsFrom : State → Bytes → List Nat
  | state, [] => state.finish
  | state, byte :: rest =>
      (state.read byte).1 ++ codePointsFrom (state.read byte).2 rest

/-- The text of a sequence of octets. -/
def decode (bytes : Bytes) : Text :=
  Text.ofCodePoints (codePointsFrom .start bytes)

end Utf8

end StackCode
