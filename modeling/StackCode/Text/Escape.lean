import StackCode.Text.Basic

namespace StackCode

/-!
# Escapes in string literals

A backslash and the unit after it stand for one unit: a newline, a tab, a NUL or
the backslash itself. `Escape.resolve` reads a literal's body and stops at the
first backslash that is not part of such a pair; `Escape.write` is its inverse.
-/

/-- Why a body of a string literal cannot be read. -/
inductive Escape.Defect where
  /-- A backslash is the last unit. -/
  | unterminated
  /-- A backslash stands before a unit that it has no meaning with. -/
  | unknown (unit : CodeUnit)
  deriving Repr, DecidableEq

namespace Escape

/-- The backslash, which begins an escape. -/
def backslash : CodeUnit := CodeUnit.ofChar '\\'

/-- What a unit after a backslash stands for. -/
def meaning? (unit : CodeUnit) : Option CodeUnit :=
  if unit = CodeUnit.ofChar 'n' then
    some CodeUnit.lineFeed
  else if unit = CodeUnit.ofChar 't' then
    some 0x09
  else if unit = CodeUnit.ofChar '0' then
    some 0x00
  else if unit = backslash then
    some backslash
  else
    none

/-- The text that a body of a string literal stands for. -/
def resolve : Text → Except Defect Text
  | [] => .ok []
  | unit :: rest =>
      if unit = backslash then
        match rest with
        | [] => .error .unterminated
        | escaped :: rest =>
            match meaning? escaped with
            | none => .error (.unknown escaped)
            | some value => (value :: ·) <$> resolve rest
      else
        (unit :: ·) <$> resolve rest

/-- How one unit is written in the body of a string literal. -/
def writeUnit (unit : CodeUnit) : Text :=
  if unit = backslash then
    [backslash, backslash]
  else if unit = CodeUnit.lineFeed then
    [backslash, CodeUnit.ofChar 'n']
  else if unit = 0x09 then
    [backslash, CodeUnit.ofChar 't']
  else if unit = 0x00 then
    [backslash, CodeUnit.ofChar '0']
  else
    [unit]

/-- A body of a string literal that stands for a given text. -/
def write (text : Text) : Text :=
  text.flatMap writeUnit

/-- The wording of a defect. -/
def Defect.reason : Defect → Text
  | .unterminated => "unterminated escape sequence"
  | .unknown unit => Text.concat ["unknown escape sequence `\\", [unit], "`"]

/-- Reading back one written unit leaves the rest to be read. -/
theorem resolve_writeUnit_append
    (unit : CodeUnit)
    (rest : Text) :
    resolve (writeUnit unit ++ rest) = (unit :: ·) <$> resolve rest := by
  unfold writeUnit
  split
  · next isBackslash =>
      subst isBackslash
      simp [resolve, meaning?, backslash, CodeUnit.ofChar]
  · next notBackslash =>
      split
      · next isLineFeed =>
          subst isLineFeed
          simp [resolve, meaning?, backslash, CodeUnit.ofChar]
      · split
        · next isTab =>
            subst isTab
            simp [resolve, meaning?, backslash, CodeUnit.ofChar]
        · split
          · next isNul =>
              subst isNul
              simp [resolve, meaning?, backslash, CodeUnit.ofChar]
          · rw [List.singleton_append, resolve.eq_def]
            simp [notBackslash]

/-- What is written is read back. -/
theorem resolve_write (text : Text) : resolve (write text) = .ok text := by
  induction text with
  | nil => rfl
  | cons unit rest inductionHypothesis =>
      have written : write (unit :: rest) = writeUnit unit ++ write rest := rfl
      rw [written, resolve_writeUnit_append, inductionHypothesis]
      rfl

end Escape

end StackCode
